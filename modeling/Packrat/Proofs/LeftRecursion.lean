import Mathlib
import Packrat.Proofs.Transparency

/-!
# Left recursion is a loop

A rule whose branches are steps, which start with the rule itself, and then seeds, which do not, is
grown to what it reads as a loop. In the round that enters it the steps fail, since the rule comes
back to itself, and a seed is matched. In every later round the first step that matches goes on
behind what was matched so far; where none does, the seed is matched again, out of the memo, and does
not lead further.
-/

namespace Packrat

open Matcher Course Setting

/-- The body of a rule that is read as a loop, if `ref` leads to that rule. -/
def Loop.body (loop : Loop) (ref : RuleRef) : Atom :=
  .choice (loop.steps.map (fun parts => .sequence (.rule ref :: parts)) ++ loop.seeds)

/-- The memo after the body of a left-recursive rule was matched, with what it came to remembered. -/
def Memo.rememberSeed (memo : Memo) (id rule start : Nat) (seed : Except Cause Tree) (stop : Nat) :
    Memo :=
  (memo.leaveSeeded id rule start seed stop).remember rule start (.done seed) stop

/-- To remember the seed of a rule changes no other answer. -/
theorem Memo.find?_rememberSeed_of_ne {memo : Memo} {id rule start rule' start' : Nat}
    {seed : Except Cause Tree} {stop : Nat} (h : ¬ (rule' = rule ∧ start' = start)) :
    (memo.rememberSeed id rule start seed stop).find? rule' start' = memo.find? rule' start' := by
  rw [rememberSeed, find?_remember_of_ne _ _ _ h, leaveSeeded, find?_remember_of_ne _ _ _ h]
  rfl

section Recurs

/-- The second memo is the first after a rule was entered at an offset and may have come back to
itself there; `found` says that it has. -/
structure Memo.Recurs (memo : Memo) (rule start : Nat) (seed : Except Cause Tree) (found : Bool)
    (memo' : Memo) : Prop where
  entries : ∀ index pos, memo'.find? index pos = (memo.enter rule start seed).find? index pos
  growing : memo'.growing = memo.growing
  top : memo'.top = some memo.applications.size
  applications : memo'.applications = memo.applications.push
    ⟨rule, start, seed, if found then some memo.clusters.size else none, memo.top⟩
  clusters : memo'.clusters = if found then memo.clusters.push { head := rule } else memo.clusters

namespace Memo.Recurs

variable {memo memo' : Memo} {rule start : Nat} {seed : Except Cause Tree} {found : Bool}

/-- A rule that was only just entered has not come back to itself. -/
theorem enter (memo : Memo) (rule start : Nat) (seed : Except Cause Tree) :
    memo.Recurs rule start seed false (memo.enter rule start seed) :=
  ⟨fun _ _ => rfl, rfl, rfl, rfl, rfl⟩

/-- The record of the application that was entered names a cluster once the rule has come back
to itself. -/
theorem application? (h : memo.Recurs rule start seed found memo') :
    memo'.application? memo.applications.size
      = some ⟨rule, start, seed, if found then some memo.clusters.size else none, memo.top⟩ := by
  rw [Memo.application?, h.applications, Array.getElem?_push_size]

/-- The application that was entered is on top of the call path. -/
theorem callPath (h : memo.Recurs rule start seed found memo') :
    ∃ rest, memo'.callPath = memo.applications.size :: rest := by
  have hsize : memo'.applications.size = memo.applications.size + 1 := by
    rw [h.applications, Array.size_push]
  rw [Memo.callPath, hsize, h.top]
  exact ⟨_, rfl⟩

/-- Coming back to the application makes a cluster of it alone, the first time. -/
theorem mark (h : memo.Recurs rule start seed found memo') :
    memo.Recurs rule start seed true (memo'.markLeftRecursion rule memo.applications.size) := by
  obtain ⟨marked, hmarked, hcluster⟩ : ∃ marked, memo.Recurs rule start seed true marked ∧
      memo'.clusterOf rule memo.applications.size = (memo.clusters.size, marked) := by
    cases found with
    | true =>
      refine ⟨memo', h, clusterOf_of_some _ ?_⟩
      rw [h.application?]
      rfl
    | false =>
      have hclusters : memo'.clusters = memo.clusters := h.clusters
      have hnone : (memo'.application? memo.applications.size).bind (·.cluster) = none := by
        rw [h.application?]
        rfl
      rw [clusterOf_of_none _ hnone, hclusters]
      refine ⟨_, ?_, rfl⟩
      refine ⟨h.entries, h.growing, h.top, ?_, rfl⟩
      simp only [Memo.count, Memo.modifyApplication, h.applications]
      exact modify_push ..
  have habove : marked.above memo.clusters.size = [] := by
    obtain ⟨rest, hpath⟩ := hmarked.callPath
    rw [above, hpath, List.takeWhile_cons, hmarked.application?]
    simp
  unfold markLeftRecursion
  rw [hcluster]
  dsimp only
  rw [habove]
  exact hmarked

/-- All that has changed is about the rule that was entered, at its offset. -/
theorem apart {faithful : Nat → Nat → Except Cause Tree → Nat → Prop}
    (h : memo.Recurs rule start seed found memo') :
    ExtendsApart faithful rule start memo memo' := by
  refine (ExtendsApart.refl memo).change (fun index pos hne => ?_) (fun _ _ => by rw [h.growing])
    (fun id hid => ?_) fun id hid => ?_
  · exact (h.entries index pos).trans (find?_remember_of_ne _ _ _ hne)
  · rw [h.applications, Array.getElem?_push, if_neg (Nat.ne_of_lt hid)]
  · rw [h.clusters]
    cases found with
    | true => rw [if_pos rfl, Array.getElem?_push, if_neg (Nat.ne_of_lt hid)]
    | false => rfl

end Memo.Recurs

/-- The second session is the first after a rule was entered and may have come back to itself. -/
structure Session.Recurs (table : RuleTable) (s : Session) (rule : Nat) (seed : Except Cause Tree)
    (found : Bool) (s' : Session) : Prop where
  text : s'.source.text = s.source.text
  pos : s'.source.pos = s.source.pos
  bodies : table.Knows s'.bodies
  labels : s'.labels = s.labels
  memo : s.memo.Recurs rule s.source.pos seed found s'.memo

variable {table : RuleTable} {s s' : Session} {rule : Nat} {cause : Cause} {found : Bool}

/-- A rule that comes back to itself fails with its seed. -/
theorem ensures_memoized_recurs (h : s.Recurs table rule (.error cause) found s')
    (hb : s.source.text.isBoundary s.source.pos = true)
    (hquiet : s.memo.growing[s.source.pos]? = none) {r : RuleBody} (hr : r.rule = rule) :
    Ensures unbroken (memoized r) s' fun result s'' =>
      result = .error cause ∧ s.Recurs table rule (.error cause) true s'' := by
  have hquiet' : s'.memo.growing? _ = none :=
    Memo.growing?_of_none (by rw [h.memo.growing, hquiet])
  have hentry : s'.memo.find? rule s.source.pos
      = some ⟨.inProgress s.memo.applications.size, s.source.pos⟩ :=
    (h.memo.entries _ _).trans (Memo.find?_remember_self ..)
  have hactive : s'.memo.countHit.isActive s.memo.applications.size = true := by
    obtain ⟨rest, hpath⟩ := h.memo.callPath
    have hpath : s'.memo.countHit.callPath = s.memo.applications.size :: rest := hpath
    rw [Memo.isActive, hpath]
    simp
  have hcounted : s.memo.Recurs rule s.source.pos (.error cause) found s'.memo.countHit :=
    ⟨h.memo.entries, h.memo.growing, h.memo.top, h.memo.applications, h.memo.clusters⟩
  have hb' : s'.source.text.isBoundary s.source.pos = true := by rw [h.text, hb]
  simp only [memoized, remembered, ensures_bind, ensures_position, ensures_memo, h.pos, hr, hentry,
    hquiet', Option.isSome_some, if_true, ensures_modifyMemo, ensures_pure, hactive,
    ensures_moveTo (s := { s' with memo := s'.memo.countHit }) hb', markLeftRecursion]
  split <;>
    simp only [ensures_emit, ensures_pure, hcounted.mark.application?, ensures_ofResult] <;>
    exact ⟨trivial, h.text, rfl, h.bodies, h.labels, hcounted.mark⟩

/-- A step of the loop fails in the round that enters the rule. -/
theorem ensures_step_recurs (h : s.Recurs table rule (.error cause) found s')
    (hb : s.source.text.isBoundary s.source.pos = true)
    (hquiet : s.memo.growing[s.source.pos]? = none) {ref : RuleRef}
    (href : table.resolve? ref = some rule) (room : Nat) (parts : List Atom) :
    Ensures unbroken ((Atom.sequence (.rule ref :: parts)).matcher (table.applyRule (room + 1))) s'
      fun result s'' => (∃ cause', result = .error cause') ∧
        s.Recurs table rule (.error cause) true s'' := by
  have hrule : Ensures unbroken (table.applyRule (room + 1) ref) s' fun result s'' =>
      result = .error cause ∧ s.Recurs table rule (.error cause) true s'' := by
    refine ensures_applyRule h.bodies (fun _ _ _ hr => ?_) fun index atom bodies trace hr _ hbodies => ?_
    · rw [href] at hr
      cases hr
    · rw [href] at hr
      cases hr
      have hbuilt : s.Recurs table rule (.error cause) found { s' with bodies, trace } :=
        ⟨h.text, h.pos, hbodies, h.labels, h.memo⟩
      refine (ensures_memoized_recurs hbuilt hb hquiet rfl).mono ?_
      rintro result s'' ⟨rfl, hrec⟩
      exact ⟨rfl, hrec⟩
  have hmove {s'' : Session} (hrec : s.Recurs table rule (.error cause) true s'') :
      s''.source.text.isBoundary s.source.pos = true := by rw [hrec.text, hb]
  simp only [Atom.matcher, Atom.matchers, guarded, inOrder, ensures_bind, ensures_position,
    ensures_attempt]
  refine hrule.mono ?_
  rintro result s'' ⟨rfl, hrec⟩
  simp only [ensures_bind, ensures_position, ensures_refuse, h.pos, ensures_moveTo, hmove hrec,
    ensures_fail]
  exact ⟨⟨_, rfl⟩, hrec.text, rfl, hrec.bodies, hrec.labels, hrec.memo⟩

/-- In the round that enters the rule all steps fail, and the seeds are tried after them. -/
theorem ensures_steps_recurs (whole : Atom) {ref : RuleRef} (href : table.resolve? ref = some rule)
    (hb : s.source.text.isBoundary s.source.pos = true)
    (hquiet : s.memo.growing[s.source.pos]? = none) {room : Nat} (steps : List (List Atom))
    (hsteps : steps = [] → found = true) {seeds : List (Matcher Raw)} (causes : List Cause)
    {post : Except Cause Raw → Session → Prop} (h : s.Recurs table rule (.error cause) found s')
    (hseeds : ∀ causes s'', s.Recurs table rule (.error cause) true s'' →
      Ensures unbroken (firstOf whole s.source.pos seeds causes) s'' post) :
    Ensures unbroken (firstOf whole s.source.pos (steps.map (fun parts =>
      (Atom.sequence (.rule ref :: parts)).matcher (table.applyRule (room + 1))) ++ seeds) causes) s'
        post := by
  induction steps generalizing found causes s' with
  | nil =>
    rw [hsteps rfl] at h
    exact hseeds causes s' h
  | cons parts rest ih =>
    simp only [List.map_cons, List.cons_append, firstOf, ensures_bind, ensures_attempt]
    refine (ensures_step_recurs h hb hquiet href room parts).mono ?_
    rintro result s'' ⟨⟨cause', rfl⟩, hrec⟩
    exact ih (fun _ => rfl) _ hrec

end Recurs

section Replay

variable (table : RuleTable) (text : Text) (loop : Option Loop) (known : Nat → Nat → Prop)

/-- What is known can be recalled from the offset on: it is remembered, and no cluster that is grown
has rules that are to be applied again. -/
structure Recalls (pos : Nat) (memo : Memo) : Prop where
  entries : ∀ index start, pos ≤ start → known index start → ∃ result stop,
    memo.find? index start = some ⟨.done result, stop⟩ ∧
      Faithful table text loop False index start result stop
  settled : ∀ start id cluster, pos ≤ start → memo.growing? start = some (id, cluster) →
    cluster.pending = []

/-- The setting in which expressions are matched once more, out of the memo. -/
def replaySetting : Setting where
  table := table
  text := text
  strict := False
  lenient := unbroken
  slices := False
  Fit := Recalls table text loop known
  Leads memo memo' := ∃ f, memo' = memo.count f
  refl memo := ⟨id, rfl⟩
  trans := by
    rintro first _ _ ⟨f, rfl⟩ ⟨g, rfl⟩
    exact ⟨g ∘ f, rfl⟩
  later h hle :=
    ⟨fun _ _ hp => h.entries _ _ (hle.trans hp), fun _ _ _ hp => h.settled _ _ _ (hle.trans hp)⟩
  kept := by
    rintro pos memo _ h ⟨f, rfl⟩
    exact ⟨h.entries, h.settled⟩
  knows := by
    rintro memo _ index pos ⟨f, rfl⟩ h
    exact h

variable {table text loop known}

/-- A rule that is known is answered out of the memo. -/
theorem ensures_memoized_recalls {s : Session} (hs : (replaySetting table text loop known).Ready s)
    {r : RuleBody} (hr : known r.rule s.source.pos) {depth : Nat} {verdict : Verdict Tree}
    (hv : table.readRule text loop depth r.rule s.source.pos = some verdict) :
    Ensures unbroken (memoized r) s fun result s' =>
      (replaySetting table text loop known).Agrees result s'.source.pos verdict ∧
        (replaySetting table text loop known).Passes s s' := by
  obtain ⟨result, stop, he, hf⟩ := hs.memo.entries _ _ (Nat.le_refl _) hr
  have hremembered : Ensures unbroken (remembered r s.source.pos) s fun entry s' =>
      entry = .ok (some ⟨.done result, stop⟩) ∧ s' = { s with memo := s.memo.countHit } := by
    simp only [remembered, ensures_bind, ensures_memo, he]
    cases hg : s.memo.growing? s.source.pos with
    | none => exact ⟨rfl, rfl⟩
    | some found =>
      have hpending := hs.memo.settled _ _ _ (Nat.le_refl _) hg
      simp only [hpending]
      exact ⟨rfl, rfl⟩
  obtain ⟨hagree, hb⟩ := Faithful.agrees (S := replaySetting table text loop known) id hf
    hs.boundary hv
  simp only [memoized, ensures_bind, ensures_position]
  refine hremembered.mono ?_
  rintro _ s' ⟨rfl, rfl⟩
  have hb' : s.source.text.isBoundary stop = true := hs.text.symm ▸ hb
  simp only [ensures_bind, ensures_moveTo, hb', ensures_ofResult]
  exact ⟨hagree, rfl, id, rfl, fun s => { s with hits := s.hits + 1 }, rfl⟩

/-- References to rules that are known follow their readings. -/
theorem follows_recall (depth room : Nat) (ref : RuleRef) :
    (replaySetting table text loop known).Follows (table.applyRule (room + 1) ref)
      ((table.readRef (Reading.onlyAt known (table.readRule text loop depth)) ref).map .leaf)
      (fun _ =>
        (table.readRef (Reading.onlyAt known (table.readRule text loop depth)) ref).map .leaf) := by
  intro s verdict hs hv
  refine ensures_applyRule hs.bodies (fun undefined trace reporter hr => ?_)
    fun index body bodies trace hr hbody hbodies => ?_
  · have hcover : Covers (fun _ =>
        (table.readRef (Reading.onlyAt known (table.readRule text loop depth)) ref).map .leaf)
        verdict s.source.pos s.memo := fun _ _ => hv
    simp only [RuleTable.readRef, hr] at hv
    cases hv
    exact ⟨agrees_refuse _ _ hs.labels False.elim _, passes_of_eq rfl rfl rfl rfl, hcover⟩
  · have hready : (replaySetting table text loop known).Ready { s with bodies, trace } :=
      ⟨hs.text, hs.boundary, hbodies, hs.labels, hs.memo⟩
    have hbuilt : (replaySetting table text loop known).Passes s { s with bodies, trace } :=
      ⟨rfl, fun _ => hbodies, rfl, Course.refl _ _⟩
    have hread := hv
    simp only [RuleTable.readRef, hr, Reading.map, Reading.andThen, Reading.onlyAt] at hread
    by_cases hk : known index s.source.pos
    · rw [if_pos hk] at hread
      rcases Reading.resume_eq_some.1 hread with ⟨cause, hr, hverdict⟩ | ⟨tree, stop, hr, hverdict⟩
      · refine (ensures_memoized_recalls hready hk hr).mono ?_
        rintro result s' ⟨⟨cause', rfl, -⟩, hpass⟩
        cases hverdict
        exact ⟨⟨cause', rfl, False.elim⟩, hbuilt.trans hpass, fun _ _ => hv⟩
      · refine (ensures_memoized_recalls hready hk hr).mono ?_
        rintro result s' ⟨⟨rfl, rfl⟩, hpass⟩
        cases hverdict
        exact ⟨⟨rfl, rfl⟩, hbuilt.trans hpass, fun _ _ => hv⟩
    · rw [if_neg hk] at hread
      cases hread

end Replay

section Loop

variable {table : RuleTable} {text : Text} {loop : Loop} {ref : RuleRef} {cause : Cause}

/-- How the first seed that matches is read, with rules that are read by `read`. -/
def Loop.seed (loop : Loop) (table : RuleTable) (text : Text) (read : Nat → Reading Tree)
    (bound : Nat) : Reading Tree :=
  ((Atom.choice loop.seeds).reading text (table.readRef read) bound).flat false

/-- A seed that is read is the flat form of a raw value that is read. -/
theorem Loop.exists_raw_of_seed {read : Nat → Reading Tree} {bound start stop : Nat} {tree : Tree}
    (h : loop.seed table text read bound start = some (.matched tree stop)) :
    ∃ raw, (Atom.choice loop.seeds).reading text (table.readRef read) bound start
      = some (.matched raw stop) := by
  rcases Reading.resume_eq_some.1 h with ⟨_, _, h⟩ | ⟨raw, stop', hraw, h⟩
  · cases h
  · cases h
    exact ⟨raw, hraw⟩

/-- A memo stays fit if neither entries nor what is grown are changed. -/
theorem FitToRead.of_eq {strict : Prop} {loop : Option Loop} {depth room pos : Nat}
    {memo memo' : Memo} (h : FitToRead table text loop strict depth room pos memo)
    (hentries : ∀ index start, memo'.find? index start = memo.find? index start)
    (hgrowing : memo'.growing = memo.growing) :
    FitToRead table text loop strict depth room pos memo' where
  right index start result stop hp he := h.right index start result stop hp (hentries _ _ ▸ he)
  waiting index start hp ha := by
    obtain ⟨id, stop, he⟩ := ha
    exact h.waiting index start hp ⟨id, stop, hentries _ _ ▸ he⟩
  quiet start hp := hgrowing ▸ h.quiet start hp
  room := by
    refine (Memo.free_anti _ _ (Nat.le_refl _) fun index start _ ha => ?_).trans_lt h.room
    obtain ⟨id, stop, he⟩ := ha
    exact ⟨id, stop, by rw [hentries, he]⟩

/-- The round that enters the rule comes to its first seed that matches. -/
theorem ensures_firstRound {depth room : Nat} {s : Session}
    (ih : RulesTrack table text (some loop) False (room + 1))
    (hstatic : (loop.body ref).Every (·.isStatic)) (href : table.resolve? ref = some loop.rule)
    (hsteps : loop.steps ≠ []) (hs : (readingSetting table text (some loop) False depth
      (room + 1)).Ready { s with memo := s.memo.enter loop.rule s.source.pos (.error cause) })
    {verdict : Verdict Tree}
    (hv : loop.seed table text (table.readRule text (some loop) depth) depth s.source.pos
      = some verdict) :
    Ensures unbroken (do flatten false (← (loop.body ref).matcher (table.applyRule (room + 1))))
      { s with memo := s.memo.enter loop.rule s.source.pos (.error cause) } fun result s' =>
        ∃ s₁, s.Recurs table loop.rule (.error cause) true s₁ ∧
          (readingSetting table text (some loop) False depth (room + 1)).Meets (fun known =>
            loop.seed table text (Reading.onlyAt known (table.readRule text (some loop) depth)) depth)
              verdict s₁ result s' ∧
            ∀ cause, result = .error cause → s'.source.pos = s.source.pos := by
  have htext : s.source.text = text := hs.text
  have hb : s.source.text.isBoundary s.source.pos = true := by
    rw [htext]
    exact hs.boundary
  have hquiet : s.memo.growing[s.source.pos]? = none := hs.memo.quiet _ (Nat.le_refl _)
  have htrack (a : Atom) (ha : a ∈ loop.seeds) :=
    tracks_atom (fun ref => (ih depth ref).follows)
      (table.forward_readRef (table.forward_readRule depth)) depth a
      (hstatic.of_part (.choice (List.mem_append_right _ ha))) False.elim
  have hrec : s.Recurs table loop.rule (.error cause) false
      { s with memo := s.memo.enter loop.rule s.source.pos (.error cause)
               reporter := s.reporter.observe .choiceStarted } :=
    ⟨rfl, rfl, hs.bodies, rfl, .enter ..⟩
  simp only [Loop.body, Atom.matcher, Atom.matchers_eq_map, List.map_append, List.map_map, guarded,
    choice, ensures_bind, ensures_position, ensures_attempt, ensures_tell]
  refine ensures_steps_recurs _ href hb hquiet loop.steps (fun h => absurd h hsteps) [] hrec
    fun causes s₁ hrec => ?_
  have hready : (readingSetting table text (some loop) False depth (room + 1)).Ready s₁ := by
    refine ⟨hrec.text.trans htext, ?_, hrec.bodies, False.elim, ?_⟩
    · rw [hrec.pos]
      exact hs.boundary
    · rw [hrec.pos]
      exact hs.memo.of_eq hrec.memo.entries hrec.memo.growing
  have hmove {s₂ : Session} (hpass : (readingSetting table text (some loop) False depth
      (room + 1)).Passes s₁ s₂) : s₂.source.text.isBoundary s.source.pos = true := by
    rw [hpass.text, hrec.text, hb]
  rw [← hrec.pos] at hv ⊢
  have hseeds {v : Verdict Raw} (hv : (Atom.choice loop.seeds).reading text
      (table.readRef (table.readRule text (some loop) depth)) depth s₁.source.pos = some v) :
      Ensures unbroken (firstOf (loop.body ref) s₁.source.pos
        (loop.seeds.map (·.matcher (table.applyRule (room + 1)))) causes) s₁
          ((readingSetting table text (some loop) False depth (room + 1)).Meets (fun known =>
            (Atom.choice loop.seeds).reading text (table.readRef (Reading.onlyAt known
              (table.readRule text (some loop) depth))) depth) v s₁) := by
    simp only [Atom.reading, Atom.readings_eq_map] at hv ⊢
    exact ensures_firstOf (.choice loop.seeds) (loop.body ref) htrack False.elim False.elim hready hv
  rcases Reading.resume_eq_some.1 hv with ⟨cause', hraw, hv⟩ | ⟨raw, stop, hraw, hv⟩
  · refine (hseeds hraw).mono ?_
    rintro result s₂ ⟨⟨cause'', rfl, -⟩, hpass, hcover⟩
    cases hv
    simp only [ensures_bind, ensures_moveTo, hmove hpass, hrec.pos, ensures_fail]
    refine ⟨s₁, hrec, ⟨⟨cause'', rfl, False.elim⟩, hpass.trans (passes_of_eq rfl rfl rfl rfl),
      fun known hk => ?_⟩, fun _ _ => trivial⟩
    simp only [Loop.seed, Reading.flat, Reading.map, Reading.andThen, hcover known hk,
      Reading.resume_failed]
  · refine (hseeds hraw).mono ?_
    rintro result s₂ ⟨⟨rfl, rfl⟩, hpass, hcover⟩
    cases hv
    simp only [ensures_bind, ensures_position, ensures_tell, ensures_pure]
    refine ensures_flatten _ _ _ fun overwritten trace => ⟨s₁, hrec, ⟨⟨rfl, rfl⟩,
      hpass.trans (passes_of_eq rfl rfl rfl rfl), fun known hk => ?_⟩, by simp⟩
    simp only [Loop.seed, Reading.flat, Reading.map, Reading.andThen, hcover known hk,
      Reading.resume_matched]

end Loop

section Rounds

variable {table : RuleTable} {text : Text} {loop : Loop} {ref : RuleRef} {base s s' : Session}
  {cluster stop : Nat} {known : Nat → Nat → Prop} {best : Tree}

variable (table text loop base cluster known) in
/-- The rule, which was entered in the session `base`, is being grown: `best`, which ends at `stop`, is
its entry, and what was known when the seed was found is known still. -/
structure Grows (best : Tree) (stop : Nat) (s : Session) : Prop where
  source : s.source.text = text
  bodies : table.Knows s.bodies
  labels : s.labels = base.labels
  apart : Memo.ExtendsApart (Faithful table text (some loop) False) loop.rule base.source.pos
    base.memo s.memo
  top : s.memo.top = base.memo.top
  seed : s.memo.find? loop.rule base.source.pos = some ⟨.done (.ok best), stop⟩
  growing : s.memo.growing[base.source.pos]? = some cluster
  registered : s.memo.clusters[cluster]? = some { head := loop.rule }
  knows : ∀ index start, known index start → s.memo.Knows index start
  after : base.source.pos < stop
  boundary : text.isBoundary stop = true

namespace Grows

/-- The cluster of the rule is the one that is growing at its offset. -/
theorem growing? (h : Grows table text loop base cluster known best stop s) :
    s.memo.growing? base.source.pos = some (cluster, { head := loop.rule }) := by
  rw [Memo.growing?, h.growing, Option.bind_some, h.registered, Option.map_some]

/-- A step that changes nothing but counts in the memo. -/
theorem of_count (h : Grows table text loop base cluster known best stop s)
    (ht : s'.source.text = s.source.text) (hb : table.Knows s'.bodies) (hl : s'.labels = s.labels)
    (hm : ∃ f, s'.memo = s.memo.count f) :
    Grows table text loop base cluster known best stop s' := by
  obtain ⟨f, hm⟩ := hm
  refine ⟨ht.trans h.source, hb, hl.trans h.labels, ?_, ?_, ?_, ?_, ?_, ?_, h.after, h.boundary⟩
  all_goals rw [hm]
  · exact h.apart.change (fun _ _ _ => rfl) (fun _ _ => rfl) (fun _ _ => rfl) fun _ _ => rfl
  · exact h.top
  · exact h.seed
  · exact h.growing
  · exact h.registered
  · exact h.knows

/-- Matching behind what was matched so far. -/
theorem pass {depth room : Nat} (h : Grows table text loop base cluster known best stop s)
    (hp : (readingSetting table text (some loop) False depth room).Passes s s') :
    Grows table text loop base cluster known best stop s' where
  source := hp.text.trans h.source
  bodies := hp.bodies h.bodies
  labels := hp.labels.trans h.labels
  apart := h.apart.extend hp.memo
  top := hp.memo.top.trans h.top
  seed := hp.memo.kept _ _ _ _ h.seed
  growing := (hp.memo.growing _).trans h.growing
  registered := hp.memo.clusters _ _ h.registered
  knows index start hk := hp.memo.knows (h.knows index start hk)
  after := h.after
  boundary := h.boundary

/-- Behind what was matched so far, matching follows plain reading. -/
theorem ready {depth depth' room : Nat}
    (h : Grows table text loop base cluster known best stop s)
    (hbase : (readingSetting table text (some loop) False depth (room + 1)).Ready base)
    (hle : depth' ≤ depth) (hnone : base.memo.find? loop.rule base.source.pos = none)
    (hrule : loop.rule < table.definitions.length) (hpos : s.source.pos = stop) :
    (readingSetting table text (some loop) False depth' room).Ready s := by
  have hapart {index start : Nat} (hp : stop ≤ start) :
      ¬ (index = loop.rule ∧ start = base.source.pos) := fun heq => by
    have := h.after
    omega
  have hwaiting {index start : Nat} (hp : stop ≤ start) :
      s.memo.Awaits index start ↔ base.memo.Awaits index start := by
    exact exists_congr fun id => exists_congr fun stop' => h.apart.waiting _ _ _ _ (hapart hp)
  have hlate {start : Nat} (hp : stop ≤ start) : base.source.pos ≤ start :=
    (Nat.le_of_lt h.after).trans hp
  refine ⟨h.source, hpos ▸ h.boundary, h.bodies, False.elim, ?_⟩
  rw [hpos]
  refine ⟨fun index start result stop' hp he => ?_, fun index start hp ha => ?_, fun start hp => ?_, ?_⟩
  · rcases h.apart.new _ _ _ _ (hapart hp) he with he | hf
    · exact hbase.memo.right _ _ _ _ (hlate hp) he
    · exact hf
  · have hd := hbase.memo.waiting _ _ (hlate hp) ((hwaiting hp).1 ha)
    cases hd' : table.readRule text (some loop) depth' index start with
    | none => rfl
    | some verdict =>
      rw [table.readRule_mono hle index start verdict hd'] at hd
      cases hd
  · rw [h.apart.growing start fun heq => hapart hp ⟨rfl, heq⟩]
    exact hbase.memo.quiet start (hlate hp)
  · have hfree : ¬ base.memo.Awaits loop.rule base.source.pos := by
      rintro ⟨id, stop, he⟩
      rw [hnone] at he
      cases he
    have hlt := Memo.free_lt hrule (Text.le_size_of_isBoundary hbase.boundary) hfree
      (Nat.le_of_lt h.after) (.inr h.after) fun _ _ hp ha => (hwaiting hp).2 ha
    exact hlt.trans_le (Nat.le_of_lt_succ hbase.memo.room)

/-- At the offset of the rule, what was known when the seed was found can be recalled. -/
theorem recalls {depth room : Nat} (h : Grows table text loop base cluster known best stop s)
    (hbase : (readingSetting table text (some loop) False depth room).Ready base)
    (hknown : ¬ known loop.rule base.source.pos) (hpos : s.source.pos = base.source.pos) :
    (replaySetting table text (some loop) known).Ready s := by
  refine ⟨h.source, hpos ▸ hbase.boundary, h.bodies, False.elim, ?_⟩
  rw [hpos]
  refine ⟨fun index start hp hk => ?_, fun start id found hp hg => ?_⟩
  · have hne : ¬ (index = loop.rule ∧ start = base.source.pos) := by
      rintro ⟨rfl, rfl⟩
      exact hknown hk
    obtain ⟨result, stop, he⟩ := h.knows index start hk
    refine ⟨result, stop, he, ?_⟩
    rcases h.apart.new _ _ _ _ hne he with he | hf
    · exact hbase.memo.right _ _ _ _ hp he
    · exact hf
  · by_cases hs : start = base.source.pos
    · rw [hs, h.growing?] at hg
      cases hg
      rfl
    · have hnone : s.memo.growing[start]? = none := by
        rw [h.apart.growing start hs]
        exact hbase.memo.quiet start hp
      rw [Memo.growing?_of_none hnone] at hg
      cases hg

/-- Starting a round changes nothing, since no other rule belongs to the cluster. -/
theorem modifyCluster (h : Grows table text loop base cluster known best stop s)
    (hnew : base.memo.clusters.size ≤ cluster) {f : Cluster → Cluster}
    (hf : f { head := loop.rule } = { head := loop.rule }) :
    Grows table text loop base cluster known best stop
      { s with memo := s.memo.modifyCluster cluster f } where
  source := h.source
  bodies := h.bodies
  labels := h.labels
  apart := by
    refine h.apart.change (fun _ _ _ => rfl) (fun _ _ => rfl) (fun _ _ => rfl) fun id hid => ?_
    rw [Memo.modifyCluster, Array.getElem?_modify, if_neg (by omega)]
  top := h.top
  seed := h.seed
  growing := h.growing
  registered := by
    rw [Memo.modifyCluster, Array.getElem?_modify, if_pos rfl, h.registered, Option.map_some, hf]
  knows := h.knows
  after := h.after
  boundary := h.boundary

/-- What a round came to, if it is longer, becomes what was matched so far. -/
theorem remember (h : Grows table text loop base cluster known best stop s) {tree : Tree}
    {reached : Nat} (hlt : stop < reached) (hb : text.isBoundary reached = true) :
    Grows table text loop base cluster known tree reached
      { s with memo := s.memo.remember loop.rule base.source.pos (.done (.ok tree)) reached } where
  source := h.source
  bodies := h.bodies
  labels := h.labels
  apart := h.apart.change (fun _ _ hne => Memo.find?_remember_of_ne _ _ _ hne) (fun _ _ => rfl)
    (fun _ _ => rfl) fun _ _ => rfl
  top := h.top
  seed := Memo.find?_remember_self ..
  growing := h.growing
  registered := h.registered
  knows index start hk := by
    obtain ⟨result, stop', he⟩ := h.knows index start hk
    by_cases hspot : index = loop.rule ∧ start = base.source.pos
    · rw [hspot.1, hspot.2]
      exact ⟨_, _, Memo.find?_remember_self ..⟩
    · exact ⟨result, stop', (Memo.find?_remember_of_ne _ _ _ hspot).trans he⟩
  after := h.after.trans hlt
  boundary := hb

end Grows

/-- At its own offset, the rule that is grown is answered with what was matched so far. -/
theorem ensures_applyRule_grows (h : Grows table text loop base cluster known best stop s)
    (hpos : s.source.pos = base.source.pos) (href : table.resolve? ref = some loop.rule)
    (room : Nat) :
    Ensures unbroken (table.applyRule (room + 1) ref) s fun result s' =>
      result = .ok (.leaf best) ∧ s'.source.pos = stop ∧
        Grows table text loop base cluster known best stop s' := by
  refine ensures_applyRule h.bodies (fun _ _ _ hr => ?_) fun index body bodies trace hr _ hbodies => ?_
  · rw [href] at hr
    cases hr
  · rw [href] at hr
    cases hr
    have hb : s.source.text.isBoundary stop = true := by
      rw [h.source]
      exact h.boundary
    simp only [memoized, remembered, ensures_bind, ensures_position, ensures_memo, hpos, h.seed,
      h.growing?, Option.isNone_some, Bool.false_and, Bool.false_eq_true, if_false,
      List.contains_nil, Option.isSome_some, if_true, ensures_modifyMemo, ensures_pure,
      ensures_moveTo, hb, ensures_ofResult]
    exact ⟨rfl, trivial, h.of_count rfl hbodies rfl ⟨fun s => { s with hits := s.hits + 1 }, rfl⟩⟩

/-- The rule was entered in the session `base`, from which it is read at `depth`, and its body is read
at `depth'`. -/
structure Loop.Entered (loop : Loop) (table : RuleTable) (text : Text) (ref : RuleRef)
    (depth depth' room : Nat) (base : Session) : Prop where
  tracks : RulesTrack table text (some loop) False (room + 1)
  ready : (readingSetting table text (some loop) False depth (room + 2)).Ready base
  below : depth' ≤ depth
  fresh : base.memo.find? loop.rule base.source.pos = none
  leads : table.resolve? ref = some loop.rule
  static : (loop.body ref).Every (·.isStatic)

/-- The rule that was entered is one of the table. -/
theorem Loop.Entered.rule_lt {depth depth' room : Nat}
    (he : loop.Entered table text ref depth depth' room base) :
    loop.rule < table.definitions.length := by
  obtain ⟨body, hbody⟩ := RuleTable.bodyAt?_isSome he.leads
  exact RuleTable.index_lt_of_bodyAt? hbody

/-- No seed chooses at match time. -/
theorem Loop.Entered.static_seed {depth depth' room : Nat}
    (he : loop.Entered table text ref depth depth' room base) (a : Atom) (ha : a ∈ loop.seeds) :
    a.Every (·.isStatic) := he.static.of_part (.choice (List.mem_append_right _ ha))

/-- No part of a step chooses at match time. -/
theorem Loop.Entered.static_step {depth depth' room : Nat}
    (he : loop.Entered table text ref depth depth' room base) (parts : List Atom)
    (hp : parts ∈ loop.steps) (a : Atom) (ha : a ∈ parts) : a.Every (·.isStatic) :=
  (he.static.of_part (.choice (List.mem_append_left _ (List.mem_map_of_mem hp)))).of_part
    (.sequence (List.mem_cons_of_mem _ ha))

/-- What a step of the loop comes to while the rule is grown, if its parts read `verdict` behind what
was matched so far. -/
def StepGrows (best : Tree) (start : Nat) :
    Verdict (List Raw) → Except Cause Raw → Session → Prop
  | .matched values stop, result, s =>
    result = .ok (.sequence (.leaf best :: values)) ∧ s.source.pos = stop
  | .failed _, result, s => (∃ cause, result = .error cause) ∧ s.source.pos = start

/-- While the rule is grown, a step of the loop is the rule's last match and what its parts read
behind that. -/
theorem ensures_step_grows {depth depth' room : Nat}
    (he : loop.Entered table text ref depth depth' room base)
    (h : Grows table text loop base cluster known best stop s)
    (hpos : s.source.pos = base.source.pos) {parts : List Atom}
    (hstatic : ∀ a ∈ parts, a.Every (·.isStatic)) {verdict : Verdict (List Raw)}
    (hv : Reading.inOrder (.sequence parts) (Atom.readings text
      (table.readRef (table.readRule text (some loop) depth')) depth' parts) stop = some verdict) :
    Ensures unbroken ((Atom.sequence (.rule ref :: parts)).matcher (table.applyRule (room + 1))) s
      fun result s' => Grows table text loop base cluster known best stop s' ∧
        StepGrows best base.source.pos verdict result s' := by
  have htrack (a : Atom) (ha : a ∈ parts) :=
    tracks_atom (fun ref => (he.tracks depth' ref).follows)
      (table.forward_readRef (table.forward_readRule depth')) depth' a (hstatic a ha) False.elim
  have hforward (a : Atom) (_ : a ∈ parts) : (a.reading text
      (table.readRef (table.readRule text (some loop) depth')) depth').Forward text :=
    Atom.forward_reading (table.forward_readRef (table.forward_readRule depth')) depth' a
  rw [Atom.readings_eq_map] at hv
  simp only [Atom.matcher, Atom.matchers, Atom.matchers_eq_map, guarded, inOrder, ensures_bind,
    ensures_position, ensures_attempt]
  refine (ensures_applyRule_grows h hpos he.leads room).mono ?_
  rintro _ s₁ ⟨rfl, hpos₁, h₁⟩
  simp only [ensures_bind, ensures_position, ensures_tell, ensures_pure]
  let s₂ : Session := { s₁ with reporter := s₁.reporter.observe (.succeeded s₁.source.pos) }
  have h₂ : Grows table text loop base cluster known best stop s₂ :=
    h₁.of_count rfl h₁.bodies rfl ⟨id, rfl⟩
  have hready := h₂.ready he.ready he.below he.fresh he.rule_lt hpos₁
  rw [← hpos₁] at hv
  have hinOrder := follows_inOrder _ (.sequence (.rule ref :: parts)) htrack hforward False.elim s₂ verdict
    hready hv
  refine hinOrder.mono ?_
  rintro result s₃ ⟨hagree, hpass, -⟩
  have h₃ := h₂.pass hpass
  cases verdict with
  | matched values stop' =>
    obtain ⟨rfl, hstop⟩ := hagree
    exact ⟨h₃.of_count rfl h₃.bodies rfl ⟨id, rfl⟩, rfl, hstop⟩
  | failed cause =>
    obtain ⟨cause', rfl, -⟩ := hagree
    have hb : s₃.source.text.isBoundary base.source.pos = true := by
      rw [h₃.source]
      exact he.ready.boundary
    simp only [hpos, ensures_moveTo, hb, ensures_fail]
    exact ⟨h₃.of_count rfl h₃.bodies rfl ⟨id, rfl⟩, ⟨_, rfl⟩, rfl⟩

/-- While the rule is grown, the first step that matches is taken; where none does, the seeds are tried
after them. -/
theorem ensures_steps_grows {depth depth' room : Nat}
    (he : loop.Entered table text ref depth depth' room base)
    (whole whole' : Atom) {steps : List (List Atom)}
    (hstatic : ∀ parts ∈ steps, ∀ a ∈ parts, a.Every (·.isStatic)) {seeds : List (Matcher Raw)}
    {causes causes' : List Cause} {verdict : Verdict (List Raw)}
    {post : Except Cause Raw → Session → Prop}
    (h : Grows table text loop base cluster known best stop s)
    (hpos : s.source.pos = base.source.pos)
    (hv : Reading.firstOf whole (steps.map fun parts => Reading.inOrder (.sequence parts)
      (Atom.readings text (table.readRef (table.readRule text (some loop) depth')) depth' parts))
        causes stop = some verdict)
    (hmatched : ∀ values stop' s', verdict = .matched values stop' → s'.source.pos = stop' →
      Grows table text loop base cluster known best stop s' →
        post (.ok (.sequence (.leaf best :: values))) s')
    (hseeds : ∀ cause causes s', verdict = .failed cause → s'.source.pos = base.source.pos →
      Grows table text loop base cluster known best stop s' →
        Ensures unbroken (firstOf whole' base.source.pos seeds causes) s' post) :
    Ensures unbroken (firstOf whole' base.source.pos (steps.map (fun parts =>
      (Atom.sequence (.rule ref :: parts)).matcher (table.applyRule (room + 1))) ++ seeds) causes') s
        post := by
  induction steps generalizing causes causes' s with
  | nil =>
    cases hv
    exact hseeds _ _ s rfl hpos h
  | cons parts rest ihrest =>
    have hparts := hstatic parts (by simp)
    have hrest (parts' : List Atom) (hp : parts' ∈ rest) := hstatic parts' (List.mem_cons_of_mem _ hp)
    simp only [List.map_cons, List.cons_append, firstOf, ensures_bind, ensures_attempt]
    rcases Reading.resume_eq_some.1 hv with ⟨cause, hstep, hv⟩ | ⟨values, stop', hstep, hv⟩
    · refine (ensures_step_grows he h hpos hparts hstep).mono ?_
      rintro result s' ⟨h', ⟨cause', rfl⟩, hpos'⟩
      exact ihrest hrest h' hpos' hv
    · refine (ensures_step_grows he h hpos hparts hstep).mono ?_
      rintro result s' ⟨h', rfl, hpos'⟩
      cases hv
      simp only [ensures_bind, ensures_tell, ensures_pure]
      exact hmatched values stop' _ rfl hpos' (h'.of_count rfl h'.bodies rfl ⟨id, rfl⟩)

/-- Where no step matches, the seed is matched again and leads no further. -/
theorem ensures_seeds_grows {depth depth' room : Nat}
    (he : loop.Entered table text ref depth depth' room base)
    (hknown : ¬ known loop.rule base.source.pos) {raw : Raw} {seedStop : Nat}
    (hv : (Atom.choice loop.seeds).reading text (table.readRef (Reading.onlyAt known
      (table.readRule text (some loop) depth'))) depth' base.source.pos
        = some (.matched raw seedStop))
    (whole : Atom) (causes : List Cause)
    (h : Grows table text loop base cluster known best stop s)
    (hpos : s.source.pos = base.source.pos) :
    Ensures unbroken (firstOf whole base.source.pos
      (loop.seeds.map (·.matcher (table.applyRule (room + 1)))) causes) s fun result s' =>
        result = .ok raw ∧ s'.source.pos = seedStop ∧
          Grows table text loop base cluster known best stop s' := by
  have hforward (ref : RuleRef) : (table.readRef (Reading.onlyAt known
      (table.readRule text (some loop) depth')) ref).Forward text := by
    refine table.forward_readRef (fun index start value stop hb hr => ?_) ref
    simp only [Reading.onlyAt] at hr
    split at hr
    · exact table.forward_readRule depth' index start value stop hb hr
    · cases hr
  have htrack (a : Atom) (ha : a ∈ loop.seeds) :=
    tracks_atom (S := replaySetting table text (some loop) known)
      (follows_recall depth' room) hforward depth' a (he.static_seed a ha) False.elim
  rw [Atom.reading, Atom.readings_eq_map] at hv
  rw [← hpos] at hv ⊢
  refine (ensures_firstOf (.choice loop.seeds) whole htrack False.elim False.elim
    (h.recalls he.ready hknown hpos) hv).mono ?_
  rintro result s' ⟨⟨rfl, hstop⟩, hpass, -⟩
  exact ⟨rfl, hstop, h.of_count hpass.text (hpass.bodies h.bodies) hpass.labels hpass.memo⟩

/-- What a round of growing comes to, if the steps of the loop read `verdict` behind what was matched
so far. -/
def RoundGrows (best : Tree) (stop : Nat) :
    Verdict (List Raw) → Except Cause Tree → Session → Prop
  | .matched values stop', result, s =>
    result = .ok (Raw.flatten false (.sequence (.leaf best :: values))).tree ∧ s.source.pos = stop'
  | .failed _, result, s => (∃ tree, result = .ok tree) ∧ s.source.pos ≤ stop

/-- A round of growing takes one step of the loop, or comes no further where no step can be
read. -/
theorem ensures_round {depth depth' room : Nat}
    (he : loop.Entered table text ref depth depth' room base)
    (hknown : ¬ known loop.rule base.source.pos) {raw : Raw} {seedStop : Nat} (hseed : (Atom.choice loop.seeds).reading text
      (table.readRef (Reading.onlyAt known (table.readRule text (some loop) depth'))) depth'
        base.source.pos = some (.matched raw seedStop)) (hseedStop : seedStop ≤ stop)
    {verdict : Verdict (List Raw)} (hv : loop.step text
      (table.readRef (table.readRule text (some loop) depth')) depth' stop = some verdict)
    (h : Grows table text loop base cluster known best stop s)
    (hpos : s.source.pos = base.source.pos) :
    Ensures unbroken (do flatten false (← (loop.body ref).matcher (table.applyRule (room + 1)))) s
      fun result s' => Grows table text loop base cluster known best stop s' ∧
        RoundGrows best stop verdict result s' := by
  let s₁ : Session := { s with reporter := s.reporter.observe .choiceStarted }
  have h₁ : Grows table text loop base cluster known best stop s₁ :=
    h.of_count rfl h.bodies rfl ⟨id, rfl⟩
  simp only [Loop.body, Atom.matcher, Atom.matchers_eq_map, List.map_append, List.map_map, guarded,
    choice, ensures_bind, ensures_position, ensures_attempt, ensures_tell, hpos]
  refine ensures_steps_grows he _ (loop.body ref) he.static_step h₁ hpos hv
    (fun values stop' s' hv hpos' h' => ?_) (fun cause causes s' hv hpos' h' => ?_)
  · subst hv
    simp only [ensures_bind, ensures_position, ensures_tell, ensures_pure]
    exact ensures_flatten _ _ _ fun overwritten trace =>
      ⟨h'.of_count rfl h'.bodies rfl ⟨id, rfl⟩, rfl, hpos'⟩
  · subst hv
    refine (ensures_seeds_grows he hknown hseed _ causes h' hpos').mono ?_
    rintro result s₂ ⟨rfl, hstop, h₂⟩
    simp only [ensures_bind, ensures_position, ensures_tell, ensures_pure]
    exact ensures_flatten _ _ _ fun overwritten trace =>
      ⟨h₂.of_count rfl h₂.bodies rfl ⟨id, rfl⟩, ⟨_, rfl⟩, hstop.trans_le hseedStop⟩

/-- Rounds of growing take steps for as long as the loop does. -/
theorem ensures_growFrom {depth depth' room : Nat}
    (he : loop.Entered table text ref depth depth' room base) {r : RuleBody}
    (hr : r.rule = loop.rule)
    (hbody : r.body = do flatten false (← (loop.body ref).matcher (table.applyRule (room + 1))))
    (hnew : base.memo.clusters.size ≤ cluster) (hknown : ¬ known loop.rule base.source.pos)
    {raw : Raw} {seedStop : Nat} (hseed : (Atom.choice loop.seeds).reading text
      (table.readRef (Reading.onlyAt known (table.readRule text (some loop) depth'))) depth'
        base.source.pos = some (.matched raw seedStop)) (hseedStop : seedStop ≤ stop)
    (bound fuel : Nat) (hfuel : text.size < stop + fuel) {verdict : Verdict Tree}
    (hv : Reading.iterate (loop.step text (table.readRef (table.readRule text (some loop) depth'))
      depth') bound best stop = some verdict)
    (h : Grows table text loop base cluster known best stop s) :
    Ensures unbroken (growFrom r base.source.pos cluster fuel best stop) s fun result s' =>
      ∃ best' stop', result = .ok (best', stop') ∧ verdict = .matched best' stop' ∧
        Grows table text loop base cluster known best' stop' s' := by
  induction bound generalizing fuel best stop s with
  | zero => cases hv
  | succ bound ih =>
    have hsize := Text.le_size_of_isBoundary h.boundary
    obtain ⟨fuel, rfl⟩ : ∃ f, fuel = f + 1 := ⟨fuel - 1, by omega⟩
    have hb : s.source.text.isBoundary base.source.pos = true := by
      rw [h.source]
      exact he.ready.boundary
    let s₁ : Session := { s with source.pos := base.source.pos }
    have h₁ : Grows table text loop base cluster known best stop s₁ :=
      h.of_count rfl h.bodies rfl ⟨id, rfl⟩
    have hround {v : Verdict (List Raw)} (hv : loop.step text
        (table.readRef (table.readRule text (some loop) depth')) depth' stop = some v) :=
      ensures_round he hknown hseed hseedStop hv
        (h₁.modifyCluster hnew (f := fun c => { c with pending := c.involved }) rfl) rfl
    simp only [← hbody] at hround
    simp only [growFrom, ensures_bind, ensures_moveTo, hb, ensures_modifyMemo, ensures_attempt,
      ensures_position]
    rcases Reading.resume_eq_some.1 hv with ⟨cause, hstep, hv⟩ | ⟨values, stop', hstep, hv⟩
    · refine (hround hstep).mono ?_
      rintro result s₂ ⟨h₂, ⟨tree, rfl⟩, hpos₂⟩
      cases hv
      simp only [if_neg (Nat.not_lt_of_le hpos₂), ensures_pure]
      exact ⟨best, stop, rfl, rfl, h₂⟩
    · refine (hround hstep).mono ?_
      rintro result s₂ ⟨h₂, rfl, rfl⟩
      split at hv
      · rename_i hlt
        have hforward : (loop.step text (table.readRef (table.readRule text (some loop) depth'))
            depth').Forward text :=
          loop.forward_step (table.forward_readRef (table.forward_readRule depth')) depth'
        let s₃ : Session := { s₂ with
          memo := s₂.memo.countGrowth
          trace := .seedGrew r.name base.source.pos s₂.source.pos :: s₂.trace }
        have h₃ : Grows table text loop base cluster known best stop s₃ :=
          h₂.of_count rfl h₂.bodies rfl ⟨fun s => { s with growthRounds := s.growthRounds + 1 }, rfl⟩
        simp only [if_pos hlt, ensures_bind, ensures_modifyMemo, ensures_emit, Matcher.remember, hr]
        exact ih (by omega) fuel (by omega) hv
          (h₃.remember hlt (hforward _ _ _ h.boundary hstep).2)
      · rename_i hlt
        cases hv
        simp only [if_neg hlt, ensures_pure]
        exact ⟨best, stop, rfl, rfl, h₂⟩

variable (table text loop base) in
/-- The rule, which was entered in the session `base`, has been left again and came to the result. -/
structure Loop.Left (result : Except Cause Tree) (s : Session) : Prop where
  source : s.source.text = text
  bodies : table.Knows s.bodies
  labels : s.labels = base.labels
  apart : Memo.ExtendsApart (Faithful table text (some loop) False) loop.rule base.source.pos
    base.memo s.memo
  top : s.memo.top = base.memo.top
  quiet : s.memo.growing[base.source.pos]? = none
  entry : s.memo.find? loop.rule base.source.pos = some ⟨.done result, s.source.pos⟩

/-- If that agrees with what the rule reads, the rule was applied as it is read. -/
theorem Loop.Left.applies {depth depth' room : Nat} {result : Except Cause Tree}
    {verdict : Verdict Tree} (he : loop.Entered table text ref depth depth' room base)
    (hv : table.readRule text (some loop) depth loop.rule base.source.pos = some verdict)
    (hagree : (readingSetting table text (some loop) False depth (room + 2)).Agrees result
      s.source.pos verdict)
    (hback : ∀ cause, result = .error cause → s.source.pos = base.source.pos)
    (h : loop.Left table text base result s) :
    Applies table text (some loop) False depth (room + 2) loop.rule verdict base result s where
  agrees := hagree
  passes := by
    refine ⟨h.source.trans he.ready.text.symm, fun _ => h.bodies, h.labels, ?_⟩
    refine h.apart.close h.top ?_ he.fresh h.entry (Faithful.of_agrees id hv hagree hback)
    rw [h.quiet]
    exact (he.ready.memo.quiet _ (Nat.le_refl _)).symm
  knows := ⟨result, _, h.entry⟩
  back := hback

/-- A cluster that is newer than the memo before the application may be changed once the rule is
left. -/
theorem Loop.Left.modifyCluster {result : Except Cause Tree}
    (h : loop.Left table text base result s) (hnew : base.memo.clusters.size ≤ cluster)
    (f : Cluster → Cluster) :
    loop.Left table text base result { s with memo := s.memo.modifyCluster cluster f } where
  source := h.source
  bodies := h.bodies
  labels := h.labels
  apart := by
    refine h.apart.change (fun _ _ _ => rfl) (fun _ _ => rfl) (fun _ _ => rfl) fun id hid => ?_
    rw [Memo.modifyCluster, Array.getElem?_modify, if_neg (by omega)]
  top := h.top
  quiet := h.quiet
  entry := h.entry

/-- The seed is grown to what the loop reads. -/
theorem ensures_grow {depth depth' room : Nat}
    (he : loop.Entered table text ref depth depth' room base) {r : RuleBody}
    (hr : r.rule = loop.rule)
    (hbody : r.body = do flatten false (← (loop.body ref).matcher (table.applyRule (room + 1))))
    (hnew : base.memo.clusters.size ≤ cluster) (hknown : ¬ known loop.rule base.source.pos)
    {raw : Raw} (hseed : (Atom.choice loop.seeds).reading text
      (table.readRef (Reading.onlyAt known (table.readRule text (some loop) depth'))) depth'
        base.source.pos = some (.matched raw stop)) (bound : Nat) {verdict : Verdict Tree}
    (hv : Reading.iterate (loop.step text (table.readRef (table.readRule text (some loop) depth'))
      depth') bound best stop = some verdict)
    (hquiet : s.memo.growing[base.source.pos]? = none)
    (h : Grows table text loop base cluster known best stop
      { s with memo.growing := s.memo.growing.insert base.source.pos cluster }) :
    Ensures unbroken (grow r base.source.pos cluster best stop) s fun result s' =>
      ∃ tree, result = .ok tree ∧ verdict = .matched tree s'.source.pos ∧
        loop.Left table text base result s' := by
  have htext : s.source.text = text := h.source
  have hfuel : text.size < stop + (text.size + 1) := by omega
  simp only [grow, ensures_bind, ensures_memo, ensures_modifyMemo, ensures_source, hquiet, htext]
  refine (ensures_growFrom he hr hbody hnew hknown hseed (Nat.le_refl _) bound _ hfuel hv h).mono ?_
  rintro _ s' ⟨best', stop', rfl, rfl, h'⟩
  have hb : s'.source.text.isBoundary stop' = true := by
    rw [h'.source]
    exact h'.boundary
  simp only [h'.registered, Option.map_some, Option.getD_some, ensures_bind, ensures_memo,
    ensures_modifyMemo, forget, Memo.known, List.filter_nil, Memo.forget, List.foldl_nil,
    ensures_modify, ensures_moveTo, hb, ensures_pure]
  refine ⟨best', rfl, rfl, h'.source, h'.bodies, h'.labels, ?_, h'.top, ?_, h'.seed⟩
  · refine h'.apart.change (fun _ _ _ => rfl) (fun start hne => ?_) (fun _ _ => rfl) fun id hid => ?_
    · exact (Memo.growing_erase _ _ _).trans (if_neg hne)
    · simp only [Memo.modifyCluster, Array.getElem?_modify]
      rw [if_neg (by omega)]
  · exact (Memo.growing_erase _ _ _).trans (if_pos rfl)

end Rounds

section Fresh

variable {table : RuleTable} {text : Text} {loop : Loop} {ref : RuleRef}

/-- Every match of a seed consumes input, wherever the seed is read. -/
def Loop.SeedsConsume (loop : Loop) (table : RuleTable) (text : Text) : Prop :=
  ∀ depth seed start value stop, seed ∈ loop.seeds → text.isBoundary start = true →
    seed.reading text (table.readRef (table.readRule text (some loop) depth)) depth start
      = some (.matched value stop) → start < stop

/-- The first seed that matches is one of the seeds, so it consumes input. -/
theorem Loop.SeedsConsume.lt (h : loop.SeedsConsume table text) {depth start : Nat} {raw : Raw}
    {stop : Nat} (hb : text.isBoundary start = true) (hv : (Atom.choice loop.seeds).reading text
      (table.readRef (table.readRule text (some loop) depth)) depth start
        = some (.matched raw stop)) : start < stop := by
  have hfirst (whole : Atom) (seeds : List Atom) (hsub : ∀ a ∈ seeds, a ∈ loop.seeds)
      (causes : List Cause) (hv : Reading.firstOf whole (seeds.map (·.reading text
        (table.readRef (table.readRule text (some loop) depth)) depth)) causes start
          = some (.matched raw stop)) : start < stop := by
    induction seeds generalizing causes with
    | nil => cases hv
    | cons seed rest ih =>
      rcases Reading.resume_eq_some.1 hv with ⟨cause, _, hv⟩ | ⟨raw', stop', hseed, hv⟩
      · exact ih (fun a ha => hsub a (List.mem_cons_of_mem _ ha)) _ hv
      · cases hv
        exact h depth seed start raw stop (hsub seed (by simp)) hb hseed
  rw [Atom.reading, Atom.readings_eq_map] at hv
  exact hfirst _ _ (fun _ ha => ha) _ hv

variable {base s₁ s : Session} {cause : Cause} {depth room : Nat}

/-- The session right after the rule was left: what its body came to is remembered, and the rule
stands alone in a cluster. -/
theorem Loop.left_of_recurs (hrec : base.Recurs table loop.rule (.error cause) true s₁)
    (hpass : (readingSetting table text (some loop) False depth room).Passes s₁ s)
    (htext : base.source.text = text) (hquiet : base.memo.growing[base.source.pos]? = none)
    (result : Except Cause Tree) :
    loop.Left table text base result { s with
      memo := s.memo.rememberSeed base.memo.applications.size loop.rule base.source.pos result
        s.source.pos } where
  source := hpass.text.trans (hrec.text.trans htext)
  bodies := hpass.bodies hrec.bodies
  labels := hpass.labels.trans hrec.labels
  apart := by
    refine (hrec.memo.apart.extend hpass.memo).change
      (fun _ _ hne => Memo.find?_rememberSeed_of_ne hne) (fun _ _ => rfl) (fun id hid => ?_)
      fun _ _ => rfl
    change (s.memo.applications.modify _ _)[id]? = _
    rw [Array.getElem?_modify, if_neg (by omega)]
  top := by
    have hrecord := hpass.memo.applications _ _ hrec.memo.application?
    change (s.memo.application? _).bind Application.below = _
    rw [Memo.application?, hrecord]
    rfl
  quiet := by
    refine (hpass.memo.growing _).trans ?_
    rw [hrec.memo.growing, hquiet]
  entry := Memo.find?_remember_self ..

/-- Growing can start once the seed is remembered. -/
theorem Loop.Left.grows {tree : Tree} (hrec : base.Recurs table loop.rule (.error cause) true s₁)
    (hpass : (readingSetting table text (some loop) False depth room).Passes s₁ s)
    (hlt : base.source.pos < s.source.pos) (hb : text.isBoundary s.source.pos = true)
    {memo : Memo} (hmemo : memo = s.memo.rememberSeed base.memo.applications.size loop.rule
      base.source.pos (.ok tree) s.source.pos)
    (h : loop.Left table text base (.ok tree) { s with memo }) :
    Grows table text loop base base.memo.clusters.size s.memo.Knows tree s.source.pos { s with
      memo := { memo with growing := memo.growing.insert base.source.pos base.memo.clusters.size } }
        where
  source := h.source
  bodies := h.bodies
  labels := h.labels
  apart := by
    refine h.apart.change (fun _ _ _ => rfl) (fun start hne => ?_) (fun _ _ => rfl) fun _ _ => rfl
    exact (Memo.growing_insert _ _ _ _).trans (if_neg hne)
  top := h.top
  seed := h.entry
  growing := (Memo.growing_insert _ _ _ _).trans (if_pos rfl)
  registered := by
    change memo.clusters[_]? = _
    rw [hmemo]
    refine hpass.memo.clusters _ _ ?_
    rw [hrec.memo.clusters]
    exact Array.getElem?_push_size
  knows index start hk := by
    by_cases hspot : index = loop.rule ∧ start = base.source.pos
    · rw [hspot.1, hspot.2]
      exact ⟨_, _, h.entry⟩
    · obtain ⟨result, stop, he⟩ := hk
      exact ⟨result, stop, by rw [hmemo]; exact (Memo.find?_rememberSeed_of_ne hspot).trans he⟩
  after := hlt
  boundary := hb

/-- A rule that is read as a loop is applied as it is read. -/
theorem appliesAfresh_loop (hstatic : (loop.body ref).Every (·.isStatic))
    (href : table.resolve? ref = some loop.rule) (hsteps : loop.steps ≠ [])
    (hconsume : loop.SeedsConsume table text) {room : Nat}
    (ih : RulesTrack table text (some loop) False room) {r : RuleBody} (hr : loop.rule = r.rule)
    (hbody : r.body = do flatten false (← (loop.body ref).matcher (table.applyRule room))) :
    AppliesAfresh table text (some loop) False r (room + 1) := by
  intro depth base verdict hbase hfresh hv
  rw [← hr] at hfresh hv ⊢
  obtain ⟨depth', hlt, hleast, hv'⟩ := table.exists_least_depth hv
  obtain ⟨_, hdefined⟩ := RuleTable.bodyAt?_isSome href
  have hfit := hbase.memo.enter (Nat.le_of_lt hlt) hfresh (RuleTable.index_lt_of_bodyAt? hdefined)
    (Text.le_size_of_isBoundary hbase.boundary) hleast (.error (r.failed base.source.pos))
  obtain ⟨room, rfl⟩ : ∃ n, room = n + 1 := ⟨room - 1, by have := hfit.room; omega⟩
  have he : loop.Entered table text ref depth depth' room base :=
    ⟨ih, hbase, Nat.le_of_lt hlt, hfresh, href, hstatic⟩
  have hread : table.readRule text (some loop) (depth' + 1) loop.rule
      = loop.reading text (table.readRef (table.readRule text (some loop) depth')) depth' := by
    simp only [RuleTable.readRule, Option.filter, decide_true, if_true]
  have hentered : (readingSetting table text (some loop) False depth' (room + 1)).Ready { base with
      memo := base.memo.enter loop.rule base.source.pos (.error (r.failed base.source.pos)) } :=
    ⟨hbase.text, hbase.boundary, hbase.bodies, hbase.labels, hfit⟩
  have hround {v : Verdict Tree} (hv : loop.seed table text (table.readRule text (some loop) depth')
      depth' base.source.pos = some v) :=
    ensures_firstRound ih hstatic href hsteps hentered hv
  simp only [← hbody] at hround
  have hquiet := hbase.memo.quiet _ (Nat.le_refl _)
  rw [ensures_applyFresh, ← hr]
  rw [hread] at hv'
  rcases Reading.resume_eq_some.1 hv' with ⟨cause, hseed, hstop⟩ | ⟨tree, stop, hseed, hiterate⟩
  · refine (hround hseed).mono ?_
    rintro result s ⟨s₁, hrec, ⟨⟨cause', rfl, -⟩, hpass, -⟩, hback⟩
    have hrecord := hpass.memo.applications _ _ hrec.memo.application?
    have hcluster := hpass.memo.clusters base.memo.clusters.size { head := loop.rule }
      (by rw [hrec.memo.clusters]; exact Array.getElem?_push_size)
    have hleft := loop.left_of_recurs hrec hpass hbase.text hquiet (.error cause')
    cases hstop
    simp only [Memo.application?, hrecord, Option.bind_some, if_true]
    have hleft := hleft.modifyCluster (Nat.le_refl _) fun c => { c with involved := [] }
    refine (ensures_answerCluster_error (by exact hcluster) hr _).2 ?_
    rw [← hr]
    split
    · exact hleft.applies he hv ⟨cause', rfl, False.elim⟩ hback
    · exact hleft.applies he hv ⟨cause', rfl, False.elim⟩ hback
  · refine (hround hseed).mono ?_
    rintro result s ⟨s₁, hrec, ⟨⟨rfl, rfl⟩, hpass, hcover⟩, -⟩
    have hrecord := hpass.memo.applications _ _ hrec.memo.application?
    have hcluster := hpass.memo.clusters base.memo.clusters.size { head := loop.rule }
      (by rw [hrec.memo.clusters]; exact Array.getElem?_push_size)
    have hleft := loop.left_of_recurs hrec hpass hbase.text hquiet (.ok tree)
    have hknown : ¬ s.memo.Knows loop.rule base.source.pos := by
      have hwaits := (hpass.memo.waiting loop.rule base.source.pos _ _).2
        ((hrec.memo.entries _ _).trans (Memo.find?_remember_self ..))
      rintro ⟨result, stop, hdone⟩
      rw [hwaits] at hdone
      cases hdone
    have hlimited := hcover s.memo.Knows fun _ _ h => h
    rw [hrec.pos] at hlimited
    obtain ⟨raw, hlimited⟩ := loop.exists_raw_of_seed hlimited
    obtain ⟨raw', hseed⟩ := loop.exists_raw_of_seed hseed
    have hforward := Atom.forward_reading (table.forward_readRef (table.forward_readRule depth'))
      depth' (.choice loop.seeds) _ _ _ hbase.boundary hseed
    have hgrows := hleft.grows hrec hpass (hconsume.lt hbase.boundary hseed) hforward.2 rfl
    simp only [Memo.application?, hrecord, Option.bind_some, if_true]
    refine (ensures_answerCluster_ok (by exact hcluster) hr _).2 ?_
    rw [← hr]
    refine (ensures_grow he hr.symm hbody (Nat.le_refl _) hknown hlimited depth' hiterate hleft.quiet
      hgrows).mono ?_
    rintro result s' ⟨tree', rfl, rfl, hleft'⟩
    exact hleft'.applies he hv ⟨rfl, rfl⟩ (by simp)

end Fresh

/-- Direct left recursion is greedy iteration: a rule that is a choice of steps, each starting with
the rule itself, and of seeds that consume input comes to what it reads as a loop, from every offset
of every text. -/
theorem applyRule_confirms_loop (table : RuleTable) (hstatic : table.Every (·.isStatic))
    (loop : Loop) (ref : RuleRef) (href : table.resolve? ref = some loop.rule)
    (hbody : table.bodyAt? loop.rule = some (loop.body ref)) (hsteps : loop.steps ≠ [])
    (bodies : List (Nat × Atom)) (hbodies : table.Knows bodies) (text : String)
    (hconsume : loop.SeedsConsume table (Text.ofString text)) (options : Options) (pos : Nat)
    (hpos : (Text.ofString text).isBoundary pos = true) (verdict : Verdict Tree)
    (hv : table.ReadsLooping (Text.ofString text) loop ref pos verdict) :
    (table.applyRule (table.depthBound text.utf8ByteSize) ref
      (Session.startAt text options bodies pos)).Confirms False pos verdict := by
  obtain ⟨depth, hv⟩ := hv
  have htrack : RulesTrack table (Text.ofString text) (some loop) False
      (table.depthBound text.utf8ByteSize) := by
    refine rulesTrack hstatic False.elim (fun l body r room hl hrule hbody' hr ih => ?_) _
    cases hl
    rw [← hrule, hbody] at hbody'
    cases hbody'
    exact appliesAfresh_loop (hstatic _ _ hbody) href hsteps hconsume ih hrule hr
  exact confirms_of_rulesTrack htrack hbodies options hpos hv

/-- The sum as a loop. -/
def sumLoop : Loop := ⟨0, [[.literal "+", .literal "n"]], [.literal "n"]⟩

/-- The grammar of sums chooses nothing at match time. -/
theorem sumTable_isStatic : sumTable.Every (·.isStatic) := by
  intro index body h
  match index with
  | 0 =>
    cases h
    simp [Rules.rule, Atom.isStatic]
  | index + 1 => cases h

/-- The seed of the sum takes a byte. -/
theorem sumLoop_seedsConsume (text : Text) : sumLoop.SeedsConsume sumTable text := by
  intro depth seed start value stop hseed _ hr
  rw [List.mem_singleton.1 hseed, Atom.reading, Reading.literal] at hr
  have hsize : "n".utf8ByteSize = 1 := by decide
  split at hr
  · cases hr
  · split at hr
    · cases hr
      omega
    · cases hr

/-- The sum is matched up to the end of the text, from the left. -/
theorem sum_confirms_loop :
    (sumTable.applyRule (sumTable.depthBound "n+n+n".utf8ByteSize) (sumTable.rules.ref "sum")
      (Session.startAt "n+n+n" {} [] 0)).Confirms False 0
        (.matched (.str ⟨Text.ofString "n+n+n", 0, 5, 0⟩) 5) :=
  applyRule_confirms_loop sumTable sumTable_isStatic sumLoop (sumTable.rules.ref "sum") rfl rfl
    (by decide) [] sumTable.knows_nil "n+n+n" (sumLoop_seedsConsume _) {} 0 (Text.isBoundary_zero _) _
    ⟨5, by cbv⟩

end Packrat
