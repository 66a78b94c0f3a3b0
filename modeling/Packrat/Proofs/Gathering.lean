import Packrat.Proofs.Places
import Packrat.Proofs.Records

/-!
# Clusters gather in one place

The offsets at which the applications on the call path were made never decrease from the bottom to the top. So
when a rule comes back to itself, what joins its cluster is what was applied where it was, and the members that
growing applies again and forgets are none but rules that were applied at that offset.

This is looked into wherever it matters: right before an application is marked, before a member is applied again
and before members are forgotten, the match is broken off unless everything is in its place, and the call path is
held against the calls wherever an expression is about to be applied or has come to something. None of this ever
changes anything about a match.
-/

namespace Packrat

open Matcher Course

namespace Memo

/-- The call path is that of the calls, and these were made at offsets that never decrease from the bottom to the
top. -/
structure Rises (calls : Calls) (memo : Memo) : Prop where
  /-- The records that are met on the way down from the top are those of the applications on the call path. -/
  walk : memo.callPath = calls.path.map (·.id)
  /-- Their records say which rules were applied, and where. -/
  shows : ∀ w ∈ calls.path, memo.Shows w
  /-- No application starts before the one below it. -/
  starts : calls.path.Pairwise fun w below => below.start ≤ w.start

/-- The application that the rule has come back to was made at the offset, and so was every application whose
record marking it changes, or whose rule it adds to a cluster. -/
structure MarksAt (calls : Calls) (rule id start : Nat) (memo : Memo) : Prop where
  head : ⟨id, rule, start⟩ ∈ calls.path ∧ memo.Shows ⟨id, rule, start⟩
  /-- Whoever comes to belong to another cluster was applied at the offset. -/
  records : ∀ member, (memo.markLeftRecursion rule id).clusterAt? member ≠ memo.clusterAt? member →
    ∃ joined, ⟨member, joined, start⟩ ∈ calls.path ∧ memo.Shows ⟨member, joined, start⟩
  /-- Whatever rule comes to be a member was applied at the offset. -/
  involved : ∀ (c : Nat) (cluster : Cluster), (memo.markLeftRecursion rule id).clusters[c]? = some cluster →
    ∀ joined ∈ cluster.involved,
      (∃ before, memo.clusters[c]? = some before ∧ joined ∈ before.involved) ∨
        ∃ member, ⟨member, joined, start⟩ ∈ calls.path ∧ memo.Shows ⟨member, joined, start⟩

end Memo

/-- The steps on the side that break a match off unless everything is in its place: a member that is applied again,
and rules whose entries are dropped, have been applied at the offset, and what joins the cluster of an application
that its rule has come back to was applied at the cursor, as that application was. -/
noncomputable def Matcher.Asides.inPlace (calls : Calls) : Asides where
  redo rule start := insist (·.HasApplied rule start)
  drop rules start := insist (Memo.HaveApplied rules start)
  mark rule id start := insist (Memo.MarksAt calls rule id start)

/-- The watch that breaks a match off as soon as the call path does not rise, where an expression is about to be
applied or where it has come to something. -/
noncomputable def risingWatch (calls : Calls) : Watch := insistingWatch (Memo.Rises calls)

/-- The match that a parse is made of, with everything in its place. -/
noncomputable def matchInPlace : (table : RuleTable) → (bodies : List (Nat × Atom)) → (entry : Atom) →
    (text : String) → (options : Options) → Reply Raw := matchAttended risingWatch Asides.inPlace

namespace Matcher

section Passing

variable {α β : Type} {lenient : Stop → Prop} {s : Session} {r : RuleBody} {start c : Nat} {calls : Calls}

/-- What follows a step matters only where the step can lead. -/
theorem bind_eq_of_ensures {step : Matcher α} {next next' : α → Matcher β}
    (h : Ensures lenient step s fun result s' => ∀ value, result = .ok value → next value s' = next' value s') :
    (step >>= next) s = (step >>= next') s := by
  change Matcher.bind step next s = Matcher.bind step next' s
  unfold Matcher.bind
  cases hreply : step s with
  | stopped reason => rfl
  | failed cause s' => rfl
  | matched value s' => exact h.of_matched hreply value rfl

/-- What follows an attempt matters only where the attempt can lead. -/
theorem attempt_bind_eq {step : Matcher α} {next next' : Except Cause α → Matcher β}
    (h : Ensures lenient step s fun result s' => next result s' = next' result s') :
    (attempt step >>= next) s = (attempt step >>= next') s := by
  refine bind_eq_of_ensures ((ensures_attempt step _).2 (h.mono fun result s' heq => ?_))
  rintro _ ⟨⟩
  exact heq

/-- What is insisted on and is so changes nothing. -/
theorem insist_bind {condition : Memo → Prop} (h : condition s.memo) (next : Unit → Matcher α) :
    (insist condition >>= next) s = next () s := by
  refine bind_of_matched ?_
  rw [insist, memo_bind, if_pos h]
  rfl

/-- The entries of rules may be dropped where the rules have been applied. -/
theorem forgetInPlace_eq {rules : List Nat} (h : Memo.HaveApplied rules start s.memo) :
    forgetWith (.inPlace calls) rules start s = forget rules start s := insist_bind h _

/-- A member may be applied again where it has been applied. -/
theorem rememberedInPlace_eq (h : ∀ c cluster, s.memo.growing? start = some (c, cluster) →
      r.rule ∈ cluster.pending → s.memo.HasApplied r.rule start) :
    rememberedWith (.inPlace calls) r start s = remembered r start s := by
  rw [rememberedWith, remembered, memo_bind, memo_bind]
  cases hgrowing : s.memo.growing? start with
  | none => rfl
  | some found =>
    obtain ⟨c, cluster⟩ := found
    dsimp only
    split
    · rfl
    · split
      · rename_i hdue
        exact insist_bind (h c cluster hgrowing (by simpa using hdue)) _
      · rfl

/-- A match may be grown if the members that the last round has not reached have been applied there. -/
theorem growInPlace_eq {seed : Tree} {stop : Nat}
    (h : Ensures lenient (growFrom r start c (s.source.text.size + 1) seed stop)
      { s with memo := { s.memo with growing := s.memo.growing.insert start c } }
      fun _ s' => Memo.HaveApplied (s'.memo.stale c) start s'.memo) :
    growWith (.inPlace calls) r start c seed stop s = grow r start c seed stop s := by
  rw [growWith, grow, memo_bind, memo_bind, modifyMemo_bind, modifyMemo_bind]
  change (growFrom r start c (s.source.text.size + 1) seed stop >>= _) _
    = (growFrom r start c (s.source.text.size + 1) seed stop >>= _) _
  refine bind_eq_of_ensures (h.mono fun result s' happlied => ?_)
  rintro ⟨best, stop⟩ -
  simp only [memo_bind, modifyMemo_bind]
  cases s.memo.growing[start]? with
  | some id => rfl
  | none =>
    simp only [modifyMemo_bind]
    exact bind_congr (forgetInPlace_eq happlied)

/-- An application that belongs to a cluster may answer if the members have been applied there. -/
theorem answerInPlace_eq {found : Cluster} {result : Except Cause Tree}
    (hfound : s.memo.clusters[c]? = some found)
    (hfailed : Memo.HaveApplied found.involved start s.memo)
    (hgrown : ∀ tree, result = .ok tree → found.head = r.rule →
      growWith (.inPlace calls) r start c tree s.source.pos
          { s with memo := s.memo.remember r.rule start (.done (.ok tree)) s.source.pos }
        = grow r start c tree s.source.pos
          { s with memo := s.memo.remember r.rule start (.done (.ok tree)) s.source.pos }) :
    answerWith (.inPlace calls) r start c result s = answerCluster r start c result s := by
  rw [answerWith, answerCluster, memo_bind, memo_bind, hfound]
  dsimp only
  split
  · rfl
  · rename_i hhead
    have hhead : found.head = r.rule := by simpa using hhead
    cases result with
    | ok tree => exact hgrown tree rfl hhead
    | error cause =>
      simp only [position_bind, remember, modifyMemo_bind, memo_bind]
      split
      · exact bind_congr (forgetInPlace_eq hfailed)
      · rfl

/-- A rule may be applied afresh if its application may answer for the cluster that it has come to belong to. -/
theorem applyFreshInPlace_eq_of_answers {first round : Nat → Matcher Tree}
    (h : Ensures lenient (first s.memo.applications.size)
      { s with memo := s.memo.enter r.rule start (.error (r.failed start)) } fun result s' =>
        let left : Session :=
          { s' with memo := s'.memo.leaveSeeded s.memo.applications.size r.rule start result s'.source.pos }
        ∀ c, s'.memo.clusterAt? s.memo.applications.size = some c →
          answerWith (.inPlace calls) { r with body := round s.memo.applications.size } start c result left
            = answerCluster { r with body := round s.memo.applications.size } start c result left) :
    applyFreshWith (.inPlace calls) r first round start s = applyFreshWith .none r first round start s := by
  change (attempt (first s.memo.applications.size) >>= _) _ = (attempt (first s.memo.applications.size) >>= _) _
  refine attempt_bind_eq (h.mono fun result s' hanswers => ?_)
  have hid : s.memo.countMiss.applications.size = s.memo.applications.size := rfl
  have hcluster : ((s'.memo.pop s.memo.applications.size).application? s.memo.applications.size).bind (·.cluster)
      = s'.memo.clusterAt? s.memo.applications.size := rfl
  simp only [modifyMemo_bind, position_bind, memo_bind, hid, hcluster]
  cases hc : s'.memo.clusterAt? s.memo.applications.size with
  | some c => exact hanswers c hc
  | none => rfl

end Passing

end Matcher

section Placing

variable {table : RuleTable} {text : Text} {u : Underway} {depth : Nat} {s : Session} {r : RuleBody}
  {calls : Calls}

/-- The members that the last round has not reached have been applied where their cluster is grown. -/
theorem Regime.Matched.haveApplied_stale {cause : Cause} {tree : Tree} {s₁ : Session} {c : Nat} {found : Cluster}
    (hs : ((Regime.placing table text).course u (depth + 1)).Start s)
    (hbody : (Regime.placing table text).Body (u.grow c r.rule s.source.pos) depth r.rule s.source.pos r.body)
    (h : (Regime.placing table text).Matched u depth r.rule cause s (.ok tree) s₁)
    (hc : s₁.memo.clusterAt? s.memo.applications.size = some c)
    (hfound : s₁.memo.clusters[c]? = some found) (hhead : found.head = r.rule) :
    Ensures (· = .spent) (growFrom r s.source.pos c (s₁.source.text.size + 1) tree s₁.source.pos)
      { s₁ with
        memo :=
          { s₁.memo.leaveHead s.memo.applications.size r.rule s.source.pos tree s₁.source.pos with
            growing := s₁.memo.growing.insert s.source.pos c } }
      fun _ s₂ => Memo.HaveApplied (s₂.memo.stale c) s.source.pos s₂.memo := by
  have hK := Regime.lawful_placing table text
  have hstart := h.start_grow hK hs hc hfound hhead
  obtain ⟨hentered, he⟩ := h
  obtain ⟨hfresh, -⟩ := hentered.apart hc hfound
  have htext : s₁.source.text = text := he.passes.text.trans hs.text
  have hbound : text.size < s₁.source.pos + (s₁.source.text.size + 1) := by
    rw [htext]
    omega
  refine (Regime.ensures_growFrom hK hbody hentered.entering.toApplying hfresh he.forward he.boundary he.intact
    hbound trivial hstart).mono ?_
  rintro _ s₂ ⟨best, stop, before, last, -, -, -, hround, -⟩
  obtain ⟨place, hplaced⟩ := hround.goes.fits.holds
  exact hplaced.haveApplied_stale List.mem_cons_self

/-- A rule may be entered in its place. -/
theorem applyFreshInPlace_eq {first round : Nat → Matcher Tree}
    (hs : ((Regime.placing table text).course u (depth + 1)).Start s)
    (h : (Regime.placing table text).Entering u r.rule s.source.pos s.memo)
    (hbody : (Regime.placing table text).Bodied u depth s.source.pos r first round) :
    applyFreshWith (.inPlace calls) r first round s.source.pos s
      = applyFreshWith .none r first round s.source.pos s := by
  have hstart := Regime.start_enter (Regime.lawful_placing table text) r hs h
  refine applyFreshInPlace_eq_of_answers ((hbody.entered _ _ hstart rfl).mono ?_)
  rintro result s₁ ⟨he, hmatches⟩ left c hc
  have hgoes := he.passes.memo hstart.memo.fits
  have hmatched : (Regime.placing table text).Matched u depth r.rule (r.failed s.source.pos) s result s₁ :=
    ⟨⟨h, he.forward, he.boundary, hgoes, hmatches⟩, he⟩
  obtain ⟨place, hplaced⟩ := hgoes.fits.holds
  obtain ⟨-, found, hfound, -⟩ := hgoes.fits.accounts.clustered _ List.mem_cons_self c hc
  let entered : Waiting := ⟨s.memo.applications.size, r.rule, s.source.pos⟩
  have hjoined : left.memo.HasJoined entered c :=
    (Memo.hasJoined_leaveSeeded s₁.memo entered.id r.rule s.source.pos result s₁.source.pos entered c).2
      ⟨hgoes.fits.accounts.shows List.mem_cons_self, hc⟩
  have hleft : left.memo.Placed u.grown place := hplaced.leaveSeeded ..
  refine answerInPlace_eq hfound (hleft.haveApplied_involved hjoined hfound) ?_
  rintro tree rfl hhead
  have hstale := hmatched.haveApplied_stale (r := { r with body := round entered.id }) hs
    (hbody.grown entered.id c) hc hfound hhead
  exact growInPlace_eq (s := { s₁ with
    memo := s₁.memo.leaveHead entered.id r.rule s.source.pos tree s₁.source.pos }) hstale

/-- What joins the cluster of an application at the cursor was applied at the cursor. -/
theorem Accounts.exists_joining {rules pos : Nat} {memo : Memo} (h : Accounts rules text u memo)
    (ho : u.Orderly rules pos) {rule id member : Nat} (hw : ⟨id, rule, pos⟩ ∈ u.path)
    (hmember : member ∈ memo.joining rule id) : ∃ joined, ⟨member, joined, pos⟩ ∈ u.path := by
  obtain ⟨c, hof, hc, hfit⟩ := h.clusterOf hw
  obtain ⟨front, f, rest, hpath, habove, hfc, hfront⟩ := hfit.exists_above ho hw rfl hc
  rw [Memo.joining, hof, habove] at hmember
  obtain ⟨w, hwfront, rfl⟩ := List.mem_map.1 hmember
  have hf : f ∈ u.path := by simp [hpath]
  have hwpos : w.start = pos := (hfront w hwfront).2.trans (hfit.start_eq_of_cluster hf hw hfc hc)
  subst hwpos
  exact ⟨w.rule, by simp [hpath, hwfront]⟩

/-- Marking an application at the cursor keeps to the cursor. -/
theorem Accounts.marksAt {rules pos : Nat} {memo : Memo} {calls : Calls} (h : Accounts rules text u memo)
    (ho : u.Orderly rules pos) (ht : u.Tells calls) {rule id : Nat} (hw : ⟨id, rule, pos⟩ ∈ u.path) :
    memo.MarksAt calls rule id pos where
  head := ⟨ht.path ▸ hw, h.shows hw⟩
  records member hne := by
    rcases Memo.mem_joining_of_clusterAt?_ne hne with rfl | hmember
    · exact ⟨rule, ht.path ▸ hw, h.shows hw⟩
    · obtain ⟨joined, hjoined⟩ := h.exists_joining ho hw hmember
      exact ⟨joined, ht.path ▸ hjoined, h.shows hjoined⟩
  involved c cluster hcluster joined hinvolved := by
    rcases Memo.involved_markLeftRecursion hcluster hinvolved with hbefore | ⟨member, hmember, start, hshows⟩
    · exact .inl hbefore
    · obtain ⟨rule', hjoined⟩ := h.exists_joining ho hw hmember
      have hrule : joined = rule' := (hshows.spot_eq (h.shows hjoined) rfl).1
      subst hrule
      exact .inr ⟨member, ht.path ▸ hjoined, h.shows hjoined⟩

/-- Marking an application takes no record away. -/
theorem ensures_markLeftRecursion_record {rule id : Nat} {a : Application} (ha : s.memo.application? id = some a) :
    Ensures anyhow (Matcher.markLeftRecursion rule id) s fun _ s' =>
      ∃ a', s'.memo.application? id = some a' := by
  obtain ⟨cluster, hafter⟩ := (Memo.Frame.markLeftRecursion s.memo rule id).records id a ha
  simp only [Matcher.markLeftRecursion, ensures_bind, ensures_memo, ensures_modifyMemo]
  split
  · exact ⟨_, hafter⟩
  · exact ⟨_, hafter⟩

/-- A rule that comes back to itself in its place answers as ever. -/
theorem recursInPlace_eq {rule id start stop : Nat} {fresh fresh' : Matcher Tree}
    (hmarks : s.memo.MarksAt calls rule id start) :
    (do
      moveTo stop
      insist (Memo.MarksAt calls rule id start)
      markLeftRecursion rule id
      match (← Matcher.memo).application? id with
      | some application => ofResult application.seed
      | none => fresh) s
      = (do
        moveTo stop
        markLeftRecursion rule id
        match (← Matcher.memo).application? id with
        | some application => ofResult application.seed
        | none => fresh') s := by
  refine bind_eq_of_ensures (ensures_moveTo_anyhow ?_)
  rintro _ -
  refine (insist_bind (s := { s with source.pos := stop }) hmarks _).trans ?_
  obtain ⟨a, ha, -⟩ := hmarks.head.2
  refine bind_eq_of_ensures ((ensures_markLeftRecursion_record (s := { s with source.pos := stop }) ha).mono ?_)
  rintro _ s' ⟨a', ha'⟩ _ -
  rw [memo_bind, memo_bind, ha']

/-- Every rule is applied in its place. -/
theorem Regime.idles_inPlace : (Regime.placing table text).Idles Asides.inPlace := by
  intro u depth calls s r first round ht hbody hrule hs
  have hK := Regime.lawful_placing table text
  have happlying : (Regime.placing table text).Applying u r.rule s.source.pos s.memo :=
    ⟨hs.memo.fits, hs.memo.orderly, hs.boundary, hrule, trivial⟩
  have hremembered : rememberedWith (.inPlace calls) r s.source.pos s = remembered r s.source.pos s := by
    refine rememberedInPlace_eq fun c cluster hgrowing hdue => ?_
    obtain ⟨hg, hcluster⟩ := growing?_eq_some.1 hgrowing
    obtain ⟨g, hmem, hstart, rfl⟩ := hs.memo.fits.accounts.exists_growth hg
    obtain ⟨place, hplaced⟩ := hs.memo.fits.holds
    exact hstart ▸ hplaced.haveApplied_pending hmem hcluster r.rule hdue
  have hcounted (n : Nat) : ((Regime.placing table text).course u (depth + 1)).Start
      { s with memo := s.memo.hitAgain n } := (Regime.ended_count hK hs n).start hs
  have hfresh (n : Nat) (hdue : s.memo.NotDue r.rule s.source.pos)
      (hallowed : ¬ s.memo.Refuses r.rule s.source.pos) (hopen : s.memo.Open r.rule s.source.pos) :
      applyFreshWith (.inPlace calls) r (first · s.source.pos) (round · s.source.pos) s.source.pos
          { s with memo := s.memo.hitAgain n }
        = applyFreshWith .none r (first · s.source.pos) (round · s.source.pos) s.source.pos
          { s with memo := s.memo.hitAgain n } :=
    applyFreshInPlace_eq (hcounted n)
      ⟨happlying.count hK n, (hcounted n).memo.fits.accounts.not_busy hopen, hdue, hallowed, hopen⟩ hbody
  rw [memoizedWith, memoizedWith, rememberedWith_none, position_bind, position_bind]
  refine (bind_congr hremembered).trans (bind_eq_of_ensures
    ((Regime.ensures_remembered hK hbody.again hs happlying).mono ?_))
  rintro _ s₁ ⟨entry, rfl, hlooked⟩ _ ⟨⟩
  rcases entry with _ | ⟨result | id, stop⟩
  · obtain ⟨n, rfl, hnone, hdue, hallowed⟩ := hlooked
    refine hfresh n hdue hallowed fun entry he => ?_
    rw [hnone] at he
    cases he
  · rfl
  · obtain ⟨n, rfl, hentry, hdue, hallowed⟩ := hlooked
    simp only [memo_bind]
    split
    · rename_i hactive
      have haccounts := (hcounted n).memo.fits.accounts
      have hwaits := (haccounts.isActive_iff_mem hentry).1 hactive
      exact recursInPlace_eq (haccounts.marksAt hs.memo.orderly ht hwaits)
    · rename_i hstale
      refine hfresh n hdue hallowed fun entry he => ?_
      rw [hentry] at he
      cases he
      exact ⟨id, stop, rfl, Bool.eq_false_iff.2 hstale⟩

end Placing

/-- While just this is under way, the call path is that of the calls, and it rises. -/
theorem Accounts.rises {rules pos : Nat} {text : Text} {u : Underway} {memo : Memo} {calls : Calls}
    (h : Accounts rules text u memo) (ho : u.Orderly rules pos) (ht : u.Tells calls) : memo.Rises calls where
  walk := by rw [Memo.callPath_eq h.linked, ht.path]
  shows _ hw := h.shows (ht.path ▸ hw)
  starts := ht.path ▸ ho.later.imp fun hlater => hlater.2

section Watched

variable {table : RuleTable} {text : Text} {u : Underway} {depth : Nat} {calls : Calls}

/-- Wherever an expression is applied, the call path rises. -/
theorem Regime.takes_risingWatch (ht : u.Tells calls) (atom : Atom) {least : Nat} {step : Matcher Raw}
    (h : ((Regime.placing table text).course u depth).Takes least step) :
    ((Regime.placing table text).course u depth).Takes least (risingWatch calls atom step) :=
  h.insisting (fun hs => hs.memo.fits.accounts.rises hs.memo.orderly ht) atom

end Watched

/-- A left-recursive cluster lives at one offset. For every table of rules, every expression, every text and all
options, the match that a parse is made of is the one that is broken off unless everything is in its place: wherever
an expression is about to be applied or has come to something, the offsets of the applications on the call path do
not decrease from the bottom to the top; whenever an application is marked that its rule has come back to, all that
join its cluster were applied at its offset; and whatever growing applies again or forgets at an offset, or a head
that has matched nothing forgets there, has been applied at that offset. -/
theorem matchEntry_gathers_in_place (table : RuleTable) (bodies : List (Nat × Atom)) (hbodies : table.Knows bodies)
    (entry : Atom) (text : String) (options : Options) :
    matchInPlace table bodies entry text options = matchEntry table bodies entry text options ∧
      matchEntry table bodies entry text options ≠ .stopped .misplaced := by
  exact (Regime.lawful_placing table (Text.ofString text)).matchAttended_eq (fun _ _ => ⟨id, rfl, id⟩)
    (fun _ _ _ _ => trivial) (fun _ _ _ _ _ _ _ => trivial) Regime.idles_inPlace
    (fun _ _ _ ht atom _ _ h => Regime.takes_risingWatch ht atom h) (by rintro ⟨⟩)
    (fun calls atom _ _ => cuts_insistingWatch (Memo.Rises calls) atom)
    (fun _ => ⟨fun _ _ => cuts_insist _, fun _ _ => cuts_insist _, fun _ _ _ => cuts_insist _⟩) hbodies
    ⟨_, Memo.Placed.nil⟩ entry options

/-- Clusters that are found inside each other stay in their places. -/
theorem tangle_gathers_in_place :
    tangleTable.Knows [] ∧
      matchInPlace tangleTable [] (tangleTable.rules.rule "outer") "yxzxx" {}
          = matchEntry tangleTable [] (tangleTable.rules.rule "outer") "yxzxx" {} ∧
        matchEntry tangleTable [] (tangleTable.rules.rule "outer") "yxzxx" {} ≠ .stopped .misplaced :=
  ⟨tangleTable.knows_nil, matchEntry_gathers_in_place tangleTable [] tangleTable.knows_nil
    (tangleTable.rules.rule "outer") "yxzxx" {}⟩

end Packrat
