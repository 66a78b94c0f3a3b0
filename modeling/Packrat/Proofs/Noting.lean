import Packrat.Proofs.Indifference
import Packrat.Proofs.Lockstep
import Packrat.Proofs.Lookup
import Packrat.Proofs.Watching

/-!
# Notes of what is matched

A match can be told to leave a note in its trace whenever the body of a rule starts to be matched, and where.
Nothing in a match reads the trace, so the match comes to the same, and its trace is the one without notes and
the notes besides. As long as no rule has come back to itself, there are as many notes as misses, and every
rule that is known at an offset has been noted there.

The two matches are compared by a bond that looks away from the notes. Bodies start to be matched in three
places, and in two of them a rule has come back to itself, so that nothing is said about the number of notes.
-/

namespace Packrat

open Matcher

/-- Applies the rule that a reference leads to, with a note in the trace whenever the body of a rule starts to
be matched. -/
def RuleTable.applyNoting (table : RuleTable) (note : Spot → Event) :
    (depth : Nat) → RuleRef → Matcher Raw
  | 0, _ => stop .spent
  | depth + 1, ref => table.applyWith (fun index atom => do
      emit (note ⟨← position, index⟩)
      atom.matcher (table.applyNoting note depth)) ref

/-- The match that a parse is made of, with notes. -/
def matchNoting (note : Spot → Event) (table : RuleTable) (bodies : List (Nat × Atom)) (entry : Atom)
    (text : String) (options : Options) : Reply Raw :=
  entry.matcher (table.applyNoting note (table.depthBound text.utf8ByteSize))
    (Session.start text options bodies)

/-- No rule has come back to itself so far. -/
def Memo.Straight (memo : Memo) : Prop := memo.statistics.leftRecursions = 0

/-- As long as no rule has come back to itself, there is no cluster, everything that is known has been logged,
and the log has one line for every miss. -/
structure Memo.Logged (log : List Spot) (memo : Memo) : Prop where
  clusters : memo.clusters = #[]
  members : ∀ id, memo.clusterAt? id = none
  known : ∀ rule start, memo.find? rule start ≠ none → ⟨start, rule⟩ ∈ log
  misses : log.length = memo.statistics.misses

namespace Memo

/-- Leaving a rule is not counted. -/
theorem statistics_leave (memo : Memo) (id rule start : Nat) (result : Except Cause Tree) (stop : Nat) :
    (memo.leave id rule start result stop).statistics = memo.statistics :=
  statistics_release (memo.pop id) id

variable {log : List Spot} {memo : Memo}

namespace Logged

/-- Before anything was matched, the log is empty. -/
theorem nil : ({} : Memo).Logged [] where
  clusters := rfl
  members := by simp [clusterAt?, application?]
  known := by simp [find?]
  misses := rfl

/-- A step that leaves all but the hits alone. -/
theorem countHit (h : memo.Logged log) : memo.countHit.Logged log :=
  ⟨h.clusters, h.members, h.known, h.misses⟩

/-- A rule that is entered has missed, and is to be logged. -/
theorem enter (h : memo.Logged log) (rule start : Nat) (seed : Except Cause Tree) :
    (memo.enter rule start seed).Logged (⟨start, rule⟩ :: log) where
  clusters := h.clusters
  members id := (clusterAt?_enter memo rule start seed id).trans (h.members id)
  known rule' start' hf := by
    rw [Memo.enter, find?_remember] at hf
    split at hf
    · rename_i hspot
      rw [hspot.1, hspot.2]
      exact List.mem_cons_self
    · exact List.mem_cons_of_mem _ (h.known rule' start' hf)
  misses := congrArg (· + 1) h.misses

/-- A rule that has been logged may be left. -/
theorem leave (h : memo.Logged log) {rule start : Nat} (hlogged : ⟨start, rule⟩ ∈ log) (id : Nat)
    (result : Except Cause Tree) (stop : Nat) : (memo.leave id rule start result stop).Logged log where
  clusters := (clusters_release _ id).trans h.clusters
  members id' := by
    change (((memo.pop id).release id).application? id').bind (·.cluster) = none
    unfold release
    split
    · rw [application?, Array.getElem?_pop]
      split
      · exact h.members id'
      · rfl
    · exact h.members id'
  known rule' start' hf := by
    rw [Memo.leave, find?_remember] at hf
    split at hf
    · rename_i hspot
      rw [hspot.1, hspot.2]
      exact hlogged
    · rw [find?_release, find?_pop] at hf
      exact h.known rule' start' hf
  misses := by
    rw [statistics_leave]
    exact h.misses

end Logged

/-- A rule that comes back to itself leads off the straight course. -/
theorem not_straight_markLeftRecursion {id : Nat} (h : memo.Straight → memo.clusterAt? id = none) (rule : Nat) :
    ¬ (memo.markLeftRecursion rule id).Straight := by
  intro hstraight
  have hfound : (memo.clusterOf rule id).2.Straight := by
    have hjoin (memo : Memo) (c id : Nat) : (memo.join c id).statistics = memo.statistics := by
      unfold join
      split <;> rfl
    rwa [Straight, memo.markLeftRecursion_eq (·.statistics) hjoin] at hstraight
  cases hc : memo.clusterAt? id with
  | some cluster =>
    rw [clusterOf_of_some _ hc] at hfound
    rw [h hfound] at hc
    cases hc
  | none =>
    rw [clusterOf_of_none _ hc] at hfound
    exact Nat.succ_ne_zero _ hfound

end Memo

variable {note : Spot → Event} {log spots : List Spot} {found : Prop} {s t : Session}

/-- The second session differs from the first in nothing but the notes in its trace, which are those of the
log. -/
structure Session.Noted (note : Spot → Event) (log : List Spot) (s t : Session) : Prop where
  same : t = { s with trace := t.trace }
  trace : t.trace.Perm (log.map note ++ s.trace)

/-- The second session differs from the first in its notes only. Among them are the spots given, and a rule
has come back to itself if it is known to. -/
structure Session.Noting (note : Spot → Event) (spots : List Spot) (found : Prop) (s t : Session) :
    Prop where
  exists_log : ∃ log, spots ⊆ log ∧ Noted note log s t ∧ (s.memo.Straight → s.memo.Logged log)
  found : found → ¬ s.memo.Straight

namespace Session

/-- Both sessions may go through the same change if it concerns neither the memo nor what is in the trace. -/
theorem Noted.change (h : Noted note log s t) {s' t' : Session} (events : List Event)
    (hs : s'.trace = events ++ s.trace) (ht : t'.trace = events ++ t.trace)
    (hsame : t' = { s' with trace := t'.trace }) : Noted note log s' t' := by
  refine ⟨hsame, ?_⟩
  rw [hs, ht]
  exact (h.trace.append_left events).trans (List.perm_append_comm_assoc ..)

namespace Noting

/-- Notes apart, both sessions are the same. -/
theorem same (h : Noting note spots found s t) : t = { s with trace := t.trace } := by
  obtain ⟨log, -, hnoted, -⟩ := h.exists_log
  exact hnoted.same

/-- Notes do not enter the memo. -/
theorem memo_eq (h : Noting note spots found s t) : t.memo = s.memo := by rw [h.same]

/-- Before anything was noted, a session is noted by itself. -/
theorem refl (note : Spot → Event) (h : s.memo.Straight → s.memo.Logged []) : Noting note [] False s s :=
  ⟨⟨[], List.nil_subset _, ⟨rfl, .refl _⟩, h⟩, False.elim⟩

/-- Both sessions may change in the same way and tell the same, as long as the memo stays. -/
theorem change (h : Noting note spots found s t) {s' t' : Session} (events : List Event)
    (hs : s'.trace = events ++ s.trace) (ht : t'.trace = events ++ t.trace)
    (hsame : t' = { s' with trace := t'.trace }) (hmemo : s'.memo = s.memo) :
    Noting note spots found s' t' := by
  obtain ⟨log, hspots, hnoted, hlogged⟩ := h.exists_log
  refine ⟨⟨log, hspots, hnoted.change events hs ht hsame, ?_⟩, ?_⟩
  · rwa [hmemo]
  · rw [hmemo]
    exact h.found

/-- Both memos may change in the same way. -/
theorem modifyMemo (h : Noting note spots found s t) (f : Memo → Memo)
    (hlogged : ∀ log, spots ⊆ log → (s.memo.Straight → s.memo.Logged log) →
      (f s.memo).Straight → (f s.memo).Logged log)
    (hfound : found → ¬ (f s.memo).Straight) :
    Noting note spots found { s with memo := f s.memo } { t with memo := f t.memo } := by
  obtain ⟨log, hspots, hnoted, hlog⟩ := h.exists_log
  refine ⟨⟨log, hspots, ⟨?_, hnoted.trace⟩, hlogged log hspots hlog⟩, hfound⟩
  rw [h.same]

/-- Notes do not move the cursor. -/
theorem pos_eq (h : Noting note spots found s t) : t.source.pos = s.source.pos := by rw [h.same]

/-- A rule may be left where it has been noted, which matters as long as no rule has come back to itself. -/
theorem leave (h : Noting note spots found s t) {rule start : Nat}
    (hspot : s.memo.Straight → ⟨start, rule⟩ ∈ spots) (id : Nat) (result : Except Cause Tree) :
    Noting note spots found (s.leave id rule start result) (t.leave id rule start result) := by
  have hstraight : (s.memo.leave id rule start result s.source.pos).Straight ↔ s.memo.Straight := by
    rw [Memo.Straight, Memo.Straight, Memo.statistics_leave]
  have hleft := h.modifyMemo (·.leave id rule start result s.source.pos)
    (fun log hspots hlog hs => (hlog (hstraight.1 hs)).leave (hspots (hspot (hstraight.1 hs))) _ _ _)
    fun hfound hs => h.found hfound (hstraight.1 hs)
  unfold Session.leave
  rwa [h.pos_eq]

/-- A rule that belongs to a cluster may be left in whatever way. -/
theorem leaveSeeded (h : Noting note spots True s t) (id rule start : Nat) (result : Except Cause Tree) :
    Noting note spots True (s.leaveSeeded id rule start result) (t.leaveSeeded id rule start result) := by
  have hleft := h.modifyMemo (·.leaveSeeded id rule start result s.source.pos)
    (fun _ _ _ hs => absurd hs (h.found trivial)) fun _ => h.found trivial
  unfold Session.leaveSeeded
  rwa [h.pos_eq]

/-- That more is known to be noted need not be said. -/
theorem weaken {spot : Spot} (h : Noting note (spot :: spots) found s t) : Noting note spots found s t := by
  obtain ⟨log, hspots, hnoted, hlog⟩ := h.exists_log
  exact ⟨⟨log, (List.cons_subset.1 hspots).2, hnoted, hlog⟩, h.found⟩

/-- It may turn out that a rule has come back to itself. -/
theorem astray (h : Noting note spots found s t) (hfound : ¬ s.memo.Straight) : Noting note spots True s t :=
  ⟨h.exists_log, fun _ => hfound⟩

/-- That a rule has come back to itself may be said of fewer cases. -/
theorem imp {found' : Prop} (h : Noting note spots found s t) (hfound : found' → found) :
    Noting note spots found' s t := ⟨h.exists_log, fun hf => h.found (hfound hf)⟩

/-- That a rule has come back to itself need not be said. -/
theorem of_astray (h : Noting note spots True s t) : Noting note spots found s t := h.imp fun _ => trivial

end Noting

end Session

namespace Matcher

variable {α β : Type}

/-- Whatever is in the trace, the step comes to the same, adds the same to the trace and leaves the memo
alone. -/
def Unaware (step : Matcher α) : Prop :=
  ∀ (s : Session) trace, Abreast step step s { s with trace } fun r s' r' t' => r' = r ∧
    s'.memo = s.memo ∧ t' = { s' with trace := t'.trace } ∧
      ∃ events, s'.trace = events ++ s.trace ∧ t'.trace = events ++ trace

/-- A change of the session that looks away from the trace and leaves the memo alone is unaware
of notes. -/
theorem unaware_modify {f : Session → Session} (hmemo : ∀ s, (f s).memo = s.memo)
    (htrace : ∀ s trace, (f { s with trace }) = { f s with trace } ∧ (f s).trace = s.trace) :
    Unaware (modify f) := by
  refine fun s trace => ⟨rfl, hmemo s, ?_, [], (htrace s s.trace).2, ?_⟩
  · rw [(htrace s trace).1]
  · rw [(htrace s trace).1]
    rfl

/-- Flattening is unaware of notes: it only adds warnings. -/
theorem unaware_flatten (named : Bool) (raw : Raw) : Unaware (flatten named raw) := by
  have hkeys (keys : List String) : Unaware (noteAllOverwritten keys) := by
    induction keys with
    | nil => exact fun s trace => ⟨rfl, rfl, rfl, [], rfl, rfl⟩
    | cons key rest ih =>
      intro s trace
      have hnote : ∃ events, (s.note key).memo = s.memo ∧ (s.note key).trace = events ++ s.trace ∧
          ({ s with trace } : Session).note key = { s.note key with trace := events ++ trace } := by
        unfold Session.note
        by_cases hw : s.warn = true
        · simp only [if_pos hw]
          exact ⟨[_], trivial, rfl, rfl⟩
        · simp only [if_neg hw]
          exact ⟨[], trivial, rfl, rfl⟩
      obtain ⟨events, hmemo, hs, ht⟩ := hnote
      refine ((ih (s.note key) (events ++ trace)).mono ?_).congr (noteAllOverwritten_cons key rest s) ?_
      · rintro r s' r' t' ⟨hr, hmemo', hsame, more, hs', ht'⟩
        refine ⟨hr, hmemo'.trans hmemo, hsame, more ++ events, ?_, ?_⟩
        · rw [hs', hs, List.append_assoc]
        · rw [ht', List.append_assoc]
      · rw [noteAllOverwritten_cons, ht]
  intro s trace
  refine (hkeys _ s trace).bind fun r s' r' t' hends => ?_
  obtain ⟨rfl, hends⟩ := hends
  cases r' with
  | error cause => exact ⟨rfl, hends⟩
  | ok value => exact ⟨rfl, hends⟩

/-- Moving the cursor is unaware of notes. -/
theorem unaware_moveTo (pos : Nat) : Unaware (moveTo pos) := by
  intro s trace
  unfold moveTo Abreast Ensures
  dsimp only
  cases s.source.setPos? pos with
  | none => rfl
  | some source => exact ⟨rfl, rfl, rfl, [], rfl, rfl⟩

/-- Consuming is unaware of notes. -/
theorem unaware_consume (n : Nat) : Unaware (consume n) := by
  intro s trace
  unfold consume Abreast Ensures
  dsimp only
  cases s.source.consume? n with
  | none => rfl
  | some found => exact ⟨rfl, rfl, rfl, [], rfl, rfl⟩

/-- Resolving a reference is unaware of notes, be the body known or built now. -/
theorem unaware_resolve (table : RuleTable) (ref : RuleRef) : Unaware (table.resolve ref) := by
  intro s trace
  unfold RuleTable.resolve Abreast Ensures
  dsimp only
  cases (table.resolve? ref).bind fun index => (table.body? index s.bodies).map (index, ·) with
  | none => exact ⟨rfl, rfl, rfl, [], rfl, rfl⟩
  | some found => exact ⟨rfl, rfl, rfl, found.2.2.2.toList, rfl, rfl⟩

/-- To refuse a name that leads nowhere is unaware of notes. -/
theorem unaware_refuseUndefined (name : String) : Unaware (RuleTable.refuseUndefined name) := by
  intro s trace
  unfold RuleTable.refuseUndefined Abreast
  simp only [ensures_bind, ensures_session]
  split
  · exact ⟨rfl, rfl, rfl, [.aborted name], rfl, rfl⟩
  · exact ⟨rfl, rfl, rfl, [], rfl, rfl⟩

variable (note spots found) in
/-- Both steps come to the same, and the sessions still differ in nothing but the notes. -/
def NotingAlike (step step' : Matcher α) : Prop :=
  ∀ s t, s.Noting note spots found t → Abreast step step' s t fun r s' r' t' =>
    r' = r ∧ s'.Noting note spots found t'

namespace NotingAlike

/-- A step that is unaware of the trace comes to the same. -/
theorem of_unaware {step : Matcher α} (h : Unaware step) : NotingAlike note spots found step step := by
  intro s t hst
  rw [hst.same]
  refine (h s t.trace).mono ?_
  rintro r s' r' t' ⟨hr, hmemo, hsame', events, hs', ht'⟩
  exact ⟨hr, hst.change events hs' ht' hsame' hmemo⟩

/-- Two steps in a row note alike if both do. -/
theorem bind {step step' : Matcher α} {next next' : α → Matcher β}
    (h : NotingAlike note spots found step step')
    (hnext : ∀ value, NotingAlike note spots found (next value) (next' value)) :
    NotingAlike note spots found (step >>= next) (step' >>= next') := by
  intro s t hst
  refine (h s t hst).bind fun r s' r' t' hends => ?_
  obtain ⟨rfl, hst'⟩ := hends
  cases r' with
  | error cause => exact ⟨rfl, hst'⟩
  | ok value => exact hnext value s' t' hst'

/-- A step whose failure is handed on as a value notes alike if the step does. -/
theorem attempt {step step' : Matcher α} (h : NotingAlike note spots found step step') :
    NotingAlike note spots found (attempt step) (Matcher.attempt step') := by
  intro s t hst
  refine (h s t hst).attempt.mono fun r s' r' t' hends => ?_
  obtain ⟨r₁, r₂, rfl, rfl, rfl, hst'⟩ := hends
  exact ⟨rfl, hst'⟩

/-- What is chosen at match time notes alike if all that may be chosen does, as text and
captures are the same. -/
theorem dynamic {chosen chosen' : Source → Captures → Matcher Raw}
    (h : ∀ source captures, NotingAlike note spots found (chosen source captures) (chosen' source captures)) :
    NotingAlike note spots found (fun s => chosen s.source s.captures s)
      fun s => chosen' s.source s.captures s := by
  intro s t hst
  refine (h s.source s.captures s t hst).congr rfl ?_
  rw [hst.same]

end NotingAlike

variable (note spots found) in
/-- To come to the same but for the notes is a bond. -/
def notingBond : Bond where
  Has := NotingAlike note spots found
  pure _ := .of_unaware fun _ _ => ⟨rfl, rfl, rfl, [], rfl, rfl⟩
  fail _ := .of_unaware fun _ _ => ⟨rfl, rfl, rfl, [], rfl, rfl⟩
  stop _ := .of_unaware fun _ _ => rfl
  bind := .bind
  attempt := .attempt
  position := .of_unaware fun _ _ => ⟨rfl, rfl, rfl, [], rfl, rfl⟩
  source := .of_unaware fun _ _ => ⟨rfl, rfl, rfl, [], rfl, rfl⟩
  moveTo pos := .of_unaware (unaware_moveTo pos)
  consume n := .of_unaware (unaware_consume n)
  emit event := .of_unaware fun _ _ => ⟨rfl, rfl, rfl, [event], rfl, rfl⟩
  tell _ := .of_unaware fun _ _ => ⟨rfl, rfl, rfl, [], rfl, rfl⟩
  refuse _ _ _ := .of_unaware fun _ _ => ⟨rfl, rfl, rfl, [], rfl, rfl⟩
  flatten named raw := .of_unaware (unaware_flatten named raw)
  modify _ _ := .of_unaware (unaware_modify (fun _ => rfl) fun _ _ => ⟨rfl, rfl⟩)
  dynamic := .dynamic

section Rules

variable {rule : Nat} {name : String} {body body' : Matcher Tree}

/-- Once a rule has come back to itself, the memo may change in any way that counts no left recursion. -/
theorem alike_modifyMemo (f : Memo → Memo)
    (hf : ∀ memo, (f memo).statistics.leftRecursions = memo.statistics.leftRecursions) :
    NotingAlike note spots True (modifyMemo f) (modifyMemo f) := by
  intro s t hst
  have hfound : ¬ (f s.memo).Straight := fun h => hst.found trivial ((hf s.memo).symm.trans h)
  exact ⟨rfl, hst.modifyMemo f (fun _ _ _ h => absurd h hfound) fun _ => hfound⟩

/-- Where a rule has come back to itself, what applications do to the memo notes alike. -/
theorem notingBond_recalls : (notingBond note spots True).Recalls where
  memo := .of_unaware fun _ _ => ⟨rfl, rfl, rfl, [], rfl, rfl⟩
  modifyMemo := alike_modifyMemo
  forget rules start := by
    refine (notingBond note spots True).bind (.of_unaware fun _ _ => ⟨rfl, rfl, rfl, [], rfl, rfl⟩) fun memo =>
      (notingBond note spots True).bind (alike_modifyMemo _ fun memo => ?_) fun _ => .of_unaware fun s trace => ?_
    · rw [Memo.statistics_forget]
    · simp only [List.foldl_flip_cons_eq_append]
      exact ⟨rfl, rfl, rfl, _, rfl, rfl⟩

/-- The two bodies come to the same, and at the start of the second one a note is left. -/
def Notes (note : Spot → Event) (rule : Nat) (body body' : Matcher Tree) : Prop :=
  ∀ spots found log s t, spots ⊆ log → s.Noted note log t →
    (s.memo.Straight → s.memo.Logged (⟨s.source.pos, rule⟩ :: log)) → (found → ¬ s.memo.Straight) →
      Abreast body body' s t fun r s' r' t' =>
        r' = r ∧ s'.Noting note (⟨s.source.pos, rule⟩ :: spots) found t'

/-- A body that starts with its note leaves it where it started. -/
theorem notes_emit (h : ∀ spots found, NotingAlike note spots found body body') :
    Notes note rule body (do emit (note ⟨← position, rule⟩); body') := by
  intro spots found log s t hspots hnoted hlog hfound
  refine (h (⟨s.source.pos, rule⟩ :: spots) found s
    { t with trace := note ⟨s.source.pos, rule⟩ :: t.trace } ?_).congr rfl ?_
  · refine ⟨⟨⟨s.source.pos, rule⟩ :: log, List.cons_subset_cons _ hspots, ⟨?_, ?_⟩, hlog⟩, hfound⟩
    · rw [hnoted.same]
    · exact hnoted.trace.cons _
  · have hpos : t.source.pos = s.source.pos := by rw [hnoted.same]
    rw [← hpos]
    rfl

/-- Where a rule has come back to itself, notes are taken without counting them. -/
theorem Notes.alike (h : Notes note rule body body') : NotingAlike note spots True body body' := by
  intro s t hst
  obtain ⟨log, hspots, hnoted, -⟩ := hst.exists_log
  refine (h spots True log s t hspots hnoted (fun hs => absurd hs (hst.found trivial)) hst.found).mono ?_
  rintro r s' r' t' ⟨hr, hst'⟩
  exact ⟨hr, hst'.weaken⟩

/-- A rule is entered, its body noted and matched, and left again. That the note is of the offset at which the
rule was entered matters only as long as no rule has come back to itself. -/
theorem alike_applyFresh (h : Notes note rule body body') {start : Nat}
    (hst : s.Noting note spots found t) (hpos : s.memo.Straight → s.source.pos = start) :
    Abreast (applyFresh ⟨rule, name, body⟩ start) (applyFresh ⟨rule, name, body'⟩ start) s t
      fun r s' r' t' => r' = r ∧ s'.Noting note spots found t' := by
  let r : RuleBody := ⟨rule, name, body⟩
  let id := s.memo.applications.size
  obtain ⟨log, hspots, hnoted, hlog⟩ := hst.exists_log
  have hsize : t.memo.applications.size = id := by rw [hst.memo_eq]
  have hseed : (RuleBody.failed ⟨rule, name, body'⟩ start) = r.failed start := rfl
  -- what is found in the meantime is all that counts if something was found before
  let found' := found ∨ ¬ s.memo.Straight
  have hentered : (s.enter r start).Noted note log (t.enter ⟨rule, name, body'⟩ start) := by
    refine ⟨?_, hnoted.trace⟩
    rw [hnoted.same]
    rfl
  have hbody := h spots found' log (s.enter r start) (t.enter ⟨rule, name, body'⟩ start) hspots hentered
    (fun hs => by
      rw [show (s.enter r start).source.pos = start from hpos hs]
      exact (hlog hs).enter rule start _)
    (fun hfound hs => hfound.elim (fun hfound => hst.found hfound hs) fun hnot => hnot hs)
  refine abreast_applyFresh (hbody.mono ?_)
  rintro result s' result' t' ⟨rfl, hst'⟩
  unfold LeftAbreast
  rw [hsize, hst'.memo_eq]
  cases hc : s'.memo.clusterAt? id with
  | some c =>
    have hastray : ¬ s'.memo.Straight := fun hs => by
      obtain ⟨log', -, -, hlog'⟩ := hst'.exists_log
      rw [(hlog' hs).members id] at hc
      cases hc
    have hleft := (hst'.weaken.astray hastray).leaveSeeded id rule start result'
    refine (notingBond_recalls.answerCluster h.alike result' _ _ hleft).mono ?_
    rintro r₁ s₁ r₂ t₁ ⟨hr, hst₁⟩
    exact ⟨hr, hst₁.of_astray⟩
  | none =>
    refine ⟨rfl, (hst'.leave (fun hs => ?_) id result').weaken.imp .inl⟩
    have hpos' : (s.enter r start).source.pos = start :=
      hpos (by_contra fun hnot => hst'.found (.inr hnot) hs)
    rw [hpos']
    exact List.mem_cons_self

/-- From here on a rule has come back to itself. -/
theorem alike_markLeftRecursion (hst : s.Noting note spots found t) (id : Nat) :
    Abreast (markLeftRecursion rule id) (markLeftRecursion rule id) s t
      fun r s' r' t' => r' = r ∧ s'.Noting note spots True t' := by
  obtain ⟨log, hspots, hnoted, hlog⟩ := hst.exists_log
  have hfound : ¬ (s.memo.markLeftRecursion rule id).Straight :=
    Memo.not_straight_markLeftRecursion (fun hs => (hlog hs).members id) rule
  have hmarked : Session.Noting note spots True
      { s with memo := s.memo.markLeftRecursion rule id }
      { t with memo := t.memo.markLeftRecursion rule id } :=
    (hst.modifyMemo (·.markLeftRecursion rule id) (fun _ _ _ h => absurd h hfound) fun _ => hfound).astray hfound
  simp only [markLeftRecursion, abreast_memo, abreast_modifyMemo, hst.memo_eq] at hmarked ⊢
  split
  · exact (notingBond note spots True).emit _ _ _ hmarked
  · exact ⟨rfl, hmarked⟩

/-- What is known of a rule is the same, and as long as no rule has come back to itself, to look it up does
not move the cursor. -/
theorem alike_remembered (h : Notes note rule body body') (start : Nat) (hst : s.Noting note spots found t) :
    Abreast (remembered ⟨rule, name, body⟩ start) (remembered ⟨rule, name, body'⟩ start) s t
      fun r s' r' t' => r' = r ∧ s'.Noting note spots found t' ∧
        (s'.memo.Straight → s'.source.pos = s.source.pos) := by
  cases hgrowing : s.memo.growing? start with
  | none =>
    have hcounted : Session.Noting note spots found { s with memo := s.memo.countHit }
        { t with memo := t.memo.countHit } :=
      hst.modifyMemo Memo.countHit (fun _ _ hlog hs => (hlog hs).countHit) hst.found
    simp only [remembered, abreast_memo, hst.memo_eq, hgrowing]
    split
    · exact ⟨rfl, hcounted, fun _ => rfl⟩
    · exact ⟨rfl, hst, fun _ => rfl⟩
  | some growth =>
    have hfound : ¬ s.memo.Straight := by
      intro hs
      obtain ⟨log, -, -, hlog⟩ := hst.exists_log
      have hcluster := (growing?_eq_some.1 hgrowing).2
      rw [(hlog hs).clusters] at hcluster
      simp at hcluster
    refine (notingBond_recalls.remembered h.alike s t (hst.astray hfound)).mono ?_
    rintro r s' r' t' ⟨hr, hst'⟩
    exact ⟨hr, hst'.of_astray, fun hs => absurd hs (hst'.found trivial)⟩

/-- A rule that is applied through the memo comes to the same with notes. -/
theorem alike_memoized (h : Notes note rule body body') :
    NotingAlike note spots found (memoized ⟨rule, name, body⟩) (memoized ⟨rule, name, body'⟩) := by
  intro s t hst
  simp only [memoized, abreast_position, hst.pos_eq]
  refine (alike_remembered h s.source.pos hst).bind fun r s' r' t' hends => ?_
  obtain ⟨rfl, hst', hstays⟩ := hends
  rcases r' with cause | _ | ⟨result | id, stop⟩
  · exact ⟨rfl, hst'⟩
  · exact alike_applyFresh h hst' hstays
  · exact (notingBond note spots found).bind ((notingBond note spots found).moveTo stop)
      (fun _ => (notingBond note spots found).ofResult result) s' t' hst'
  · simp only [abreast_memo, hst'.memo_eq]
    split
    · refine ((notingBond note spots found).moveTo stop s' t' hst').bind fun r s₁ r' t₁ hends => ?_
      obtain ⟨rfl, hst₁⟩ := hends
      cases r' with
      | error cause => exact ⟨rfl, hst₁⟩
      | ok _ =>
        refine (alike_markLeftRecursion hst₁ id).bind fun r s₂ r' t₂ hends => ?_
        obtain ⟨rfl, hst₂⟩ := hends
        cases r' with
        | error cause => exact ⟨rfl, hst₂.of_astray⟩
        | ok _ =>
          simp only [abreast_memo, hst₂.memo_eq]
          split
          · exact (notingBond note spots found).ofResult _ s₂ t₂ hst₂.of_astray
          · exact alike_applyFresh h hst₂.of_astray fun hs => absurd hs (hst₂.found trivial)
    · exact alike_applyFresh h hst' hstays

/-- References come to the same with notes. -/
theorem alike_applyNoting (table : RuleTable) (depth : Nat) (ref : RuleRef) (spots : List Spot) (found : Prop) :
    NotingAlike note spots found (table.applyRule depth ref) (table.applyNoting note depth ref) := by
  induction depth generalizing ref spots found with
  | zero => exact (notingBond note spots found).stop _
  | succ depth ih =>
    refine .bind (.of_unaware (unaware_resolve table ref)) fun resolved => ?_
    rcases resolved with _ | ⟨index, atom⟩
    · exact .of_unaware (unaware_refuseUndefined ref.name)
    · have hbody (spots : List Spot) (found : Prop) : NotingAlike note spots found
          (do flatten false (← atom.matcher (table.applyRule depth)))
          (do flatten false (← atom.matcher (table.applyNoting note depth))) :=
        .bind ((notingBond note spots found).matcher (fun ref => ih ref spots found) atom) fun raw =>
          (notingBond note spots found).flatten false raw
      exact (notingBond note spots found).map (alike_memoized (notes_emit hbody)) Raw.leaf

end Rules

end Matcher

/-- With notes, a match comes to the same, in a session that differs in nothing but its trace: that is the one
without notes, with the notes of a log besides. As long as no rule has come back to itself, the log has one
line for every miss, and everything that is known has been logged. -/
theorem matchNoting_of_ends (note : Spot → Event) {table : RuleTable} {bodies : List (Nat × Atom)}
    {entry : Atom} {text : String} {options : Options} {result : Except Cause Raw} {s : Session}
    (hends : matchEntry table bodies entry text options = ofResult result s) :
    ∃ trace log, matchNoting note table bodies entry text options = ofResult result { s with trace } ∧
      trace.Perm (log.map note ++ s.trace) ∧ (s.memo.Straight → s.memo.Logged log) := by
  have hstart : (Session.start text options bodies).Noting note [] False (Session.start text options bodies) :=
    .refl note fun _ => .nil
  have halike := (notingBond note [] False).matcher
    (fun ref => alike_applyNoting table (table.depthBound text.utf8ByteSize) ref [] False) entry _ _ hstart
  obtain ⟨result', t, hnoting, rfl, hst⟩ := halike.of_ends hends
  obtain ⟨log, -, hnoted, hlog⟩ := hst.exists_log
  refine ⟨t.trace, log, ?_, hnoted.trace, hlog⟩
  rw [← hst.same]
  exact hnoting

end Packrat
