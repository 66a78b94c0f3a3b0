import Packrat.Proofs.Course
import Packrat.Proofs.MemoLaws
import Packrat.Proofs.ReadingLaws

/-!
# Matchers that follow readings

A matcher follows a reading if, from every fit session, it matches where the reading matches, with
the same value and up to the same offset, and fails where the reading fails. Which sessions are fit,
and what a step may change in the memo, is up to a setting; the combinators do not touch the memo, so
they follow in every setting if their parts do.

A matcher that follows a reading consults rules at offsets, and may have to show for it that each of
them is remembered afterwards. This is expressed by a second reading, which can use a rule at an
offset only if that is known: it has to come to the same as the first.
-/

namespace Packrat

/-- What matchers follow readings in: a course on which what is remembered stays so. -/
structure Setting extends Course where
  knows : ∀ {memo memo' index pos}, Leads memo memo' → memo.Knows index pos → memo'.Knows index pos

namespace Setting

open Matcher Course

variable (S : Setting) {α β ι : Type}

/-- The result of a matcher, which left the cursor at `stop`, is what the reading says. -/
def Agrees (result : Except Cause α) (stop : Nat) : Verdict α → Prop
  | .matched value stop' => result = .ok value ∧ stop = stop'
  | .failed cause => ∃ cause', result = .error cause' ∧ (S.strict → cause' = cause)

/-- What was read from the offset can be read again, using only rules that are known now. -/
def Covers (limited : (Nat → Nat → Prop) → Reading α) (verdict : Verdict α) (start : Nat)
    (memo : Memo) : Prop :=
  ∀ known : Nat → Nat → Prop, (∀ index pos, memo.Knows index pos → known index pos) →
    limited known start = some verdict

/-- What is to hold after a step from `s`, for which the reading says `verdict`. -/
structure Meets (limited : (Nat → Nat → Prop) → Reading α) (verdict : Verdict α) (s : Session)
    (result : Except Cause α) (s' : Session) : Prop where
  agrees : S.Agrees result s'.source.pos verdict
  passes : S.Passes s s'
  covers : Covers limited verdict s.source.pos s'.memo

/-- From every fit session the step comes to what the reading says. -/
def Follows (step : Matcher α) (reading : Reading α) (limited : (Nat → Nat → Prop) → Reading α) :
    Prop :=
  ∀ s verdict, S.Ready s → reading s.source.pos = some verdict →
    Ensures unbroken step s (S.Meets limited verdict s)

/-- The step follows the reading, and puts the cursor back after a failure. -/
def Tracks (step : Matcher α) (reading : Reading α) (limited : (Nat → Nat → Prop) → Reading α) :
    Prop :=
  ∀ s verdict, S.Ready s → reading s.source.pos = some verdict →
    Ensures unbroken step s fun result s' => S.Meets limited verdict s result s' ∧
      ∀ cause, result = .error cause → s'.source.pos = s.source.pos

variable {S}

/-- What can be read again stays so as the match goes on. -/
theorem Covers.passes {limited : (Nat → Nat → Prop) → Reading α} {verdict : Verdict α} {start : Nat}
    {s s' : Session} (h : Covers limited verdict start s.memo) (hp : S.Passes s s') :
    Covers limited verdict start s'.memo :=
  fun known hk => h known fun index pos hi => hk index pos (S.knows hp.memo hi)

/-- A step that tracks a reading follows it. -/
theorem Tracks.follows {step : Matcher α} {reading : Reading α}
    {limited : (Nat → Nat → Prop) → Reading α} (h : S.Tracks step reading limited) :
    S.Follows step reading limited :=
  fun s verdict hs hv => (h s verdict hs hv).mono fun _ _ hm => hm.1

/-- The guard turns a step that follows into one that tracks. -/
theorem Follows.guarded {step : Matcher Raw} {reading : Reading Raw}
    {limited : (Nat → Nat → Prop) → Reading Raw} (h : S.Follows step reading limited) :
    S.Tracks (guarded step) reading limited := by
  intro s verdict hs hv
  simp only [Matcher.guarded, ensures_bind, ensures_position, ensures_attempt]
  refine (h s verdict hs hv).mono ?_
  rintro result s' ⟨hagree, hpass, hcover⟩
  cases result with
  | ok raw =>
    simp only [ensures_bind, ensures_position, ensures_tell, ensures_pure]
    exact ⟨⟨hagree, hpass.trans (passes_of_eq rfl rfl rfl rfl), hcover⟩, by simp⟩
  | error cause =>
    simp only [ensures_bind, ensures_moveTo (hs.boundary_after hpass), ensures_fail]
    refine ⟨⟨?_, hpass.trans (passes_of_eq rfl rfl rfl rfl), hcover⟩, fun _ _ => trivial⟩
    cases verdict with
    | matched value stop => cases hagree.1
    | failed cause' => exact hagree

/-- One step follows the other, behind its match. -/
theorem ensures_andThen {first : Matcher α} {next : α → Matcher β} {reading : Reading α}
    {reading' : α → Reading β} {limited : (Nat → Nat → Prop) → Reading α} {s : Session}
    {verdict : Verdict β} (limited' : α → (Nat → Nat → Prop) → Reading β)
    (hfirst : ∀ v, reading s.source.pos = some v → Ensures unbroken first s (S.Meets limited v s))
    (hnext : ∀ value s₁, S.Passes s s₁ →
      reading s.source.pos = some (.matched value s₁.source.pos) → ∀ v,
        reading' value s₁.source.pos = some v →
          Ensures unbroken (next value) s₁ (S.Meets (limited' value) v s₁))
    (hv : reading.andThen reading' s.source.pos = some verdict) :
    Ensures unbroken (first >>= next) s
      (S.Meets (fun known => (limited known).andThen fun value => limited' value known) verdict
        s) := by
  rw [ensures_bind]
  rcases Reading.resume_eq_some.1 hv with ⟨cause, hr, hv⟩ | ⟨value, stop, hr, hv⟩
  · refine (hfirst _ hr).mono ?_
    rintro result s₁ ⟨⟨cause', rfl, hcause⟩, hpass, hcover⟩
    cases hv
    refine ⟨⟨cause', rfl, hcause⟩, hpass, fun known hk => ?_⟩
    simp only [Reading.andThen, hcover known hk, Reading.resume_failed]
  · refine (hfirst _ hr).mono ?_
    rintro result s₁ ⟨⟨rfl, rfl⟩, hpass, hcover⟩
    refine (hnext value s₁ hpass hr verdict hv).mono ?_
    rintro result s₂ ⟨hagree, hpass', hcover'⟩
    refine ⟨hagree, hpass.trans hpass', fun known hk => ?_⟩
    simp only [Reading.andThen, hcover.passes hpass' known hk, Reading.resume_matched]
    exact hcover' known hk

/-- A new cause agrees with that of a reading if what led to it does. -/
theorem agrees_refuse {s : Session} (message : Message) (offset : Nat)
    {children children' : List Cause} (hl : S.strict → s.labels = [])
    (hc : S.strict → children' = children) (stop : Nat) :
    S.Agrees (α := α) (.error ⟨message, offset, none, s.labels.head?, children'⟩) stop
      (.failed { message, offset, children }) := by
  refine ⟨_, rfl, fun hs => ?_⟩
  rw [hl hs, hc hs]
  rfl

/-- A literal follows the reading of it. -/
theorem follows_literal (word : String) :
    S.Follows (Matcher.literal word) (Reading.literal S.text word)
      (fun _ => Reading.literal S.text word) := by
  intro s verdict hs hv
  have hcover : Covers (fun _ => Reading.literal S.text word) verdict s.source.pos s.memo :=
    fun _ _ => hv
  simp only [Reading.literal, ← hs.text] at hv
  simp only [Matcher.literal, ensures_bind, ensures_source]
  change (if s.source.remaining < word.utf8ByteSize then _ else _) = _ at hv
  split at hv
  · rw [if_pos ‹_›]
    cases hv
    exact ⟨agrees_refuse _ _ hs.labels (fun _ => rfl) _, passes_of_eq rfl rfl rfl rfl, hcover⟩
  · rw [if_neg ‹_›]
    change (if s.source.startsWith word then _ else _) = _ at hv
    split at hv
    · rename_i hw
      have hfit := (Source.isBoundary_of_startsWith (hs.text ▸ hs.boundary) hw).1
      rw [if_pos hw]
      cases hv
      simp only [ensures_bind, ensures_consume hfit, ensures_pure]
      exact ⟨⟨rfl, rfl⟩, passes_of_eq rfl rfl rfl rfl, hcover⟩
    · rw [if_neg ‹_›]
      cases hv
      exact ⟨agrees_refuse _ _ hs.labels (fun _ => rfl) _, passes_of_eq rfl rfl rfl rfl, hcover⟩

/-- A class of characters follows the reading of it. -/
theorem follows_character (test : CharClass) :
    S.Follows (character (.char test) test.accepts) (Reading.character S.text test)
      (fun _ => Reading.character S.text test) := by
  intro s verdict hs hv
  have hcover : Covers (fun _ => Reading.character S.text test) verdict s.source.pos s.memo :=
    fun _ _ => hv
  have hsource : ({ text := s.source.text, pos := s.source.pos } : Source).nextChar?
      = s.source.nextChar? := rfl
  simp only [Reading.character, ← hs.text, hsource] at hv
  simp only [character, ensures_bind, ensures_source]
  cases hc : s.source.nextChar? with
  | none =>
    rw [hc] at hv
    cases hv
    exact ⟨agrees_refuse _ _ hs.labels (fun _ => rfl) _, passes_of_eq rfl rfl rfl rfl, hcover⟩
  | some c =>
    have hfit := (Source.isBoundary_of_nextChar? (hs.text ▸ hs.boundary) hc).1
    rw [hc] at hv
    dsimp only at hv ⊢
    split at hv
    · rw [if_pos ‹_›]
      cases hv
      simp only [ensures_bind, ensures_consume hfit, ensures_pure]
      exact ⟨⟨rfl, rfl⟩, passes_of_eq rfl rfl rfl rfl, hcover⟩
    · rw [if_neg ‹_›]
      cases hv
      exact ⟨agrees_refuse _ _ hs.labels (fun _ => rfl) _, passes_of_eq rfl rfl rfl rfl, hcover⟩

/-- The sequence that a cause names may be another one if causes need not be the same. -/
theorem follows_inOrder (whole whole' : Atom) {items : List ι} {step : ι → Matcher Raw}
    {reading : ι → Reading Raw} {limited : ι → (Nat → Nat → Prop) → Reading Raw}
    (h : ∀ i ∈ items, S.Tracks (step i) (reading i) (limited i))
    (hf : ∀ i ∈ items, (reading i).Forward S.text) (hw : S.strict → whole' = whole) :
    S.Follows (inOrder whole' (items.map step)) (Reading.inOrder whole (items.map reading))
      (fun known => Reading.inOrder whole (items.map (limited · known))) := by
  induction items with
  | nil =>
    intro s verdict hs hv
    cases hv
    simp only [List.map_nil, inOrder, ensures_pure]
    exact ⟨⟨rfl, rfl⟩, Passes.refl s, fun _ _ => rfl⟩
  | cons i rest ih =>
    have hrest := ih (fun j hj => h j (List.mem_cons_of_mem _ hj))
      (fun j hj => hf j (List.mem_cons_of_mem _ hj))
    intro s verdict hs hv
    simp only [List.map_cons, inOrder]
    rw [ensures_bind, ensures_attempt]
    rcases Reading.resume_eq_some.1 hv with ⟨cause, hi, hv⟩ | ⟨value, stop, hi, hv⟩
    · refine (h i (by simp) s _ hs hi).mono ?_
      rintro result s₁ ⟨⟨⟨cause', rfl, hcause⟩, hpass, hcover⟩, hback⟩
      cases hv
      simp only [ensures_bind, ensures_position, ensures_refuse, hback cause' rfl]
      refine ⟨?_, hpass.trans (passes_of_eq rfl rfl rfl rfl), fun known hk => ?_⟩
      · by_cases hst : S.strict
        · rw [hw hst]
          refine agrees_refuse _ _ (fun hst => hpass.labels.trans (hs.labels hst)) (fun hst => ?_) _
          rw [hcause hst]
        · exact ⟨_, rfl, fun h => absurd h hst⟩
      · simp only [Reading.inOrder, hcover known hk, Reading.resume_failed]
        rfl
    · refine (h i (by simp) s _ hs hi).mono ?_
      rintro result s₁ ⟨⟨⟨rfl, rfl⟩, hpass, hcover⟩, -⟩
      obtain ⟨hle, hb⟩ := hf i (by simp) s.source.pos value s₁.source.pos hs.boundary hi
      have hs₁ := hs.pass hpass hle hb
      refine Ensures.mono (ensures_andThen
        (fun values _ stop => some (.matched (value :: values) stop)) (fun v => hrest s₁ v hs₁) ?_
        hv) ?_
      · intro values s₂ _ _ v hv
        cases hv
        exact ⟨⟨rfl, rfl⟩, Passes.refl s₂, fun _ _ => rfl⟩
      · rintro result s₂ ⟨hagree, hpass', hcover'⟩
        refine ⟨hagree, hpass.trans hpass', fun known hk => ?_⟩
        simp only [Reading.inOrder, hcover.passes hpass' known hk, Reading.resume_matched]
        exact hcover' known hk

/-- The causes of branches that failed before may differ if causes need not be the same. -/
theorem ensures_firstOf (whole whole' : Atom) {items : List ι} {step : ι → Matcher Raw}
    {reading : ι → Reading Raw} {limited : ι → (Nat → Nat → Prop) → Reading Raw}
    (h : ∀ i ∈ items, S.Tracks (step i) (reading i) (limited i)) (hw : S.strict → whole' = whole)
    {causes causes' : List Cause} (hc : S.strict → causes' = causes) {s : Session}
    {verdict : Verdict Raw} (hs : S.Ready s)
    (hv : Reading.firstOf whole (items.map reading) causes s.source.pos = some verdict) :
    Ensures unbroken (firstOf whole' s.source.pos (items.map step) causes') s
      (S.Meets (fun known => Reading.firstOf whole (items.map (limited · known)) causes) verdict
        s) := by
  induction items generalizing causes causes' s with
  | nil =>
    cases hv
    simp only [List.map_nil, firstOf, ensures_bind, ensures_tell, ensures_refuse]
    refine ⟨?_, passes_of_eq rfl rfl rfl rfl, fun _ _ => rfl⟩
    by_cases hst : S.strict
    · rw [hw hst, hc hst]
      exact agrees_refuse _ _ hs.labels (fun _ => rfl) _
    · exact ⟨_, rfl, fun h => absurd h hst⟩
  | cons i rest ih =>
    simp only [List.map_cons, firstOf, ensures_bind, ensures_attempt]
    rcases Reading.resume_eq_some.1 hv with ⟨cause, hi, hv⟩ | ⟨value, stop, hi, hv⟩
    · refine (h i (by simp) s _ hs hi).mono ?_
      rintro result s₁ ⟨⟨⟨cause', rfl, hcause⟩, hpass, hcover⟩, hback⟩
      have hpos := hback cause' rfl
      have hs₁ := hs.pass hpass (Nat.le_of_eq hpos.symm) (hpos ▸ hs.boundary)
      have hcauses : S.strict → cause' :: causes' = cause :: causes := fun hst => by
        rw [hcause hst, hc hst]
      rw [← hpos] at hv ⊢
      refine (ih (fun j hj => h j (List.mem_cons_of_mem _ hj)) hcauses hs₁ hv).mono ?_
      rintro result s₂ ⟨hagree, hpass', hcover'⟩
      refine ⟨hagree, hpass.trans hpass', fun known hk => ?_⟩
      simp only [Reading.firstOf, hcover.passes hpass' known hk, Reading.resume_failed]
      rw [← hpos]
      exact hcover' known hk
    · refine (h i (by simp) s _ hs hi).mono ?_
      rintro result s₁ ⟨⟨⟨rfl, rfl⟩, hpass, hcover⟩, -⟩
      cases hv
      simp only [ensures_bind, ensures_tell, ensures_pure]
      refine ⟨⟨rfl, rfl⟩, hpass.trans (passes_of_eq rfl rfl rfl rfl), fun known hk => ?_⟩
      simp only [Reading.firstOf, hcover known hk, Reading.resume_matched]

/-- A choice follows the reading that takes its branches in order, if each branch tracks its own
reading. -/
theorem follows_choice (whole : Atom) {items : List ι} {step : ι → Matcher Raw}
    {reading : ι → Reading Raw} {limited : ι → (Nat → Nat → Prop) → Reading Raw}
    (h : ∀ i ∈ items, S.Tracks (step i) (reading i) (limited i)) :
    S.Follows (choice whole (items.map step)) (Reading.firstOf whole (items.map reading) [])
      (fun known => Reading.firstOf whole (items.map (limited · known)) []) := by
  intro s verdict hs hv
  simp only [choice, ensures_bind, ensures_position, ensures_tell]
  let s₁ : Session := { s with reporter := s.reporter.observe .choiceStarted }
  have hpass : S.Passes s s₁ := passes_of_eq rfl rfl rfl rfl
  have hs₁ : S.Ready s₁ := hs.pass hpass (Nat.le_refl _) hs.boundary
  refine (ensures_firstOf whole whole h (fun _ => rfl) (fun _ => rfl) hs₁ hv).mono ?_
  rintro result s₂ ⟨hagree, hpass', hcover⟩
  exact ⟨hagree, hpass.trans hpass', hcover⟩

/-- Rounds of a matcher follow those of a reading, if at least as many of them may be tried as there
are bytes left. -/
theorem ensures_rounds {body : Matcher Raw} {reading : Reading Raw}
    {limited : (Nat → Nat → Prop) → Reading Raw} (h : S.Tracks body reading limited)
    (hf : reading.Forward S.text) (max : Option Nat) (bound room count : Nat) {s : Session}
    {verdict : Verdict (List Raw × Option Cause)} (hs : S.Ready s)
    (hroom : S.text.size < s.source.pos + room)
    (hv : Reading.rounds reading max bound count s.source.pos = some verdict) :
    Ensures unbroken (roundsFrom body max room count) s fun result s' =>
      ∃ values ended ended', verdict = .matched (values, ended) s'.source.pos ∧
        result = .ok (values, ended') ∧ (S.strict → ended' = ended) ∧ S.Passes s s' ∧
          Covers (fun known => Reading.rounds (limited known) max bound count) verdict s.source.pos
            s'.memo := by
  induction bound generalizing room count s verdict with
  | zero => cases hv
  | succ bound ih =>
    have hsize := Text.le_size_of_isBoundary hs.boundary
    obtain ⟨room, rfl⟩ : ∃ r, room = r + 1 := ⟨room - 1, by omega⟩
    rw [Reading.rounds] at hv
    rw [roundsFrom]
    split at hv
    · rename_i hmax
      rw [if_pos hmax]
      cases hv
      refine ⟨[], none, none, rfl, rfl, fun _ => rfl, Passes.refl s, fun _ _ => ?_⟩
      simp only [Reading.rounds, if_pos hmax]
    · rename_i hmax
      rw [if_neg hmax]
      simp only [ensures_bind, ensures_position, ensures_attempt]
      rcases Reading.resume_eq_some.1 hv with ⟨cause, hbody, hv⟩ | ⟨value, stop, hbody, hv⟩
      · refine (h s _ hs hbody).mono ?_
        rintro result s₁ ⟨⟨⟨cause', rfl, hcause⟩, hpass, hcover⟩, hback⟩
        cases hv
        simp only [ensures_pure]
        refine ⟨[], some cause, some cause', by rw [hback cause' rfl], rfl,
          fun hst => by rw [hcause hst], hpass, fun known hk => ?_⟩
        simp only [Reading.rounds, if_neg hmax, hcover known hk, Reading.resume_failed]
      · refine (h s _ hs hbody).mono ?_
        rintro result s₁ ⟨⟨⟨rfl, rfl⟩, hpass, hcover⟩, -⟩
        obtain ⟨hle, hb⟩ := hf s.source.pos value s₁.source.pos hs.boundary hbody
        simp only [ensures_bind, ensures_position]
        split at hv
        · rename_i hsame
          rw [if_pos hsame]
          cases hv
          refine ⟨[value], none, none, rfl, rfl, fun _ => rfl, hpass, fun known hk => ?_⟩
          simp only [Reading.rounds, if_neg hmax, hcover known hk, Reading.resume_matched,
            if_pos hsame]
        · rename_i hmoved
          rw [if_neg hmoved]
          have hs₁ := hs.pass hpass hle hb
          have hrest {v} := @ih room (count + 1) s₁ v hs₁ (by omega)
          simp only [ensures_bind]
          rcases Reading.resume_eq_some.1 hv with ⟨cause, hr, hv⟩ | ⟨rounds, stop, hr, hv⟩
          · refine (hrest hr).mono ?_
            rintro result s₂ ⟨values, ended, ended', hcase, -⟩
            cases hcase
          · refine (hrest hr).mono ?_
            rintro result s₂ ⟨values, ended, ended', hcase, rfl, hended, hpass', hcover'⟩
            cases hcase
            cases hv
            refine ⟨value :: values, ended, ended', rfl, rfl, hended, hpass.trans hpass',
              fun known hk => ?_⟩
            simp only [Reading.rounds, if_neg hmax, hcover.passes hpass' known hk,
              Reading.resume_matched, if_neg hmoved, Reading.map, Reading.andThen, hcover' known hk]

/-- A repetition follows the reading that repeats what its body tracks, given a body that never
goes back. -/
theorem follows_repetition (part : Atom) {body : Matcher Raw} {reading : Reading Raw}
    {limited : (Nat → Nat → Prop) → Reading Raw} (h : S.Tracks body reading limited)
    (hf : reading.Forward S.text) (min : Nat) (max : Option Nat) (optional : Bool) (bound : Nat) :
    S.Follows (repetition part body min max optional)
      (Reading.repetition part reading min max optional bound)
      (fun known => Reading.repetition part (limited known) min max optional bound) := by
  intro s verdict hs hv
  have hsize := Text.le_size_of_isBoundary hs.boundary
  have hroom : S.text.size < s.source.pos + (s.source.remaining + 1) := by
    rw [Source.remaining, hs.text]
    omega
  have hrounds {v} := @ensures_rounds S body reading limited h hf max bound _ 0 s v hs hroom
  simp only [repetition, ensures_bind, ensures_position, ensures_source]
  rcases Reading.resume_eq_some.1 hv with ⟨cause, hr, hv⟩ | ⟨rounds, stop, hr, hv⟩
  · refine (hrounds hr).mono ?_
    rintro result s₁ ⟨values, ended, ended', hcase, -⟩
    cases hcase
  · refine (hrounds hr).mono ?_
    rintro result s₁ ⟨values, ended, ended', hcase, rfl, hended, hpass, hcover⟩
    cases hcase
    have hlabels (hst : S.strict) := hpass.labels.trans (hs.labels hst)
    dsimp only at hv ⊢
    split at hv
    · rename_i hfew
      rw [if_pos hfew]
      cases hv
      simp only [ensures_refuse]
      refine ⟨agrees_refuse _ _ hlabels (fun hst => by rw [hended hst]) _,
        hpass.trans (passes_of_eq rfl rfl rfl rfl), fun known hk => ?_⟩
      simp only [Reading.repetition, Reading.andThen, hcover known hk, Reading.resume_matched,
        if_pos hfew]
      rfl
    · rename_i hfew
      rw [if_neg hfew]
      cases hv
      simp only [ensures_bind, ensures_position, ensures_emit, ensures_pure]
      refine ⟨⟨rfl, rfl⟩, hpass.trans (passes_of_eq rfl rfl rfl rfl), fun known hk => ?_⟩
      simp only [Reading.repetition, Reading.andThen, hcover known hk, Reading.resume_matched,
        if_neg hfew]

/-- A lookahead follows the reading that looks ahead at what its part tracks. -/
theorem follows_lookahead (part : Atom) {body : Matcher Raw} {reading : Reading Raw}
    {limited : (Nat → Nat → Prop) → Reading Raw} (h : S.Tracks body reading limited)
    (positive : Bool) :
    S.Follows (lookahead part body positive) (Reading.lookahead part reading positive)
      (fun known => Reading.lookahead part (limited known) positive) := by
  intro s verdict hs hv
  simp only [lookahead, ensures_bind, ensures_position, ensures_attempt]
  rcases Reading.resume_eq_some.1 hv with ⟨cause, hbody, hv⟩ | ⟨value, stop, hbody, hv⟩
  · refine (h s _ hs hbody).mono ?_
    rintro result s₁ ⟨⟨⟨cause', rfl, hcause⟩, hpass, hcover⟩, -⟩
    have hlabels (hst : S.strict) := hpass.labels.trans (hs.labels hst)
    have hpass' : S.Passes s { s₁ with source.pos := s.source.pos } :=
      hpass.trans (passes_of_eq rfl rfl rfl rfl)
    have hlimited : Covers (fun known => Reading.lookahead part (limited known) positive) verdict
        s.source.pos s₁.memo := fun known hk => by
      simpa only [Reading.lookahead, hcover known hk, Reading.resume_failed] using hv
    simp only [ensures_moveTo (hs.boundary_after hpass)]
    cases positive <;> cases hv
    · simp only [ensures_pure]
      exact ⟨⟨rfl, rfl⟩, hpass', hlimited⟩
    · simp only [ensures_refuse]
      exact ⟨agrees_refuse _ _ hlabels (fun hst => by rw [hcause hst]) _,
        hpass'.trans (passes_of_eq rfl rfl rfl rfl), hlimited⟩
  · refine (h s _ hs hbody).mono ?_
    rintro result s₁ ⟨⟨⟨rfl, rfl⟩, hpass, hcover⟩, -⟩
    have hlabels (hst : S.strict) := hpass.labels.trans (hs.labels hst)
    have hpass' : S.Passes s { s₁ with source.pos := s.source.pos } :=
      hpass.trans (passes_of_eq rfl rfl rfl rfl)
    have hlimited : Covers (fun known => Reading.lookahead part (limited known) positive) verdict
        s.source.pos s₁.memo := fun known hk => by
      simpa only [Reading.lookahead, hcover known hk, Reading.resume_matched] using hv
    simp only [ensures_moveTo (hs.boundary_after hpass)]
    cases positive <;> cases hv
    · simp only [ensures_refuse]
      exact ⟨agrees_refuse _ _ hlabels (fun _ => rfl) _,
        hpass'.trans (passes_of_eq rfl rfl rfl rfl), hlimited⟩
    · simp only [ensures_pure]
      exact ⟨⟨rfl, rfl⟩, hpass', hlimited⟩

/-- Changing the value of a match changes nothing else. -/
theorem Follows.map {body : Matcher α} {reading : Reading α}
    {limited : (Nat → Nat → Prop) → Reading α} (h : S.Follows body reading limited) (f : α → β) :
    S.Follows (do return f (← body)) (reading.map f) (fun known => (limited known).map f) := by
  intro s verdict hs hv
  refine ensures_andThen (fun value _ stop => some (.matched (f value) stop)) (fun v => h s v hs)
    (fun value s₁ _ _ v hv => ?_) hv
  cases hv
  exact ⟨⟨rfl, rfl⟩, Passes.refl s₁, fun _ _ => rfl⟩

/-- Flattening never fails, so the cursor is still put back after a failure. -/
theorem Tracks.flat {body : Matcher Raw} {reading : Reading Raw}
    {limited : (Nat → Nat → Prop) → Reading Raw} (h : S.Tracks body reading limited)
    (named : Bool) :
    S.Tracks (do flatten named (← body)) (reading.flat named)
      (fun known => (limited known).flat named) := by
  intro s verdict hs hv
  rw [ensures_bind]
  rcases Reading.resume_eq_some.1 hv with ⟨cause, hr, hv⟩ | ⟨raw, stop, hr, hv⟩
  · refine (h s _ hs hr).mono ?_
    rintro result s₁ ⟨⟨⟨cause', rfl, hcause⟩, hpass, hcover⟩, hback⟩
    cases hv
    refine ⟨⟨⟨cause', rfl, hcause⟩, hpass, fun known hk => ?_⟩, fun _ _ => hback cause' rfl⟩
    simp only [Reading.flat, Reading.map, Reading.andThen, hcover known hk, Reading.resume_failed]
  · refine (h s _ hs hr).mono ?_
    rintro result s₁ ⟨⟨⟨rfl, rfl⟩, hpass, hcover⟩, -⟩
    cases hv
    refine ensures_flatten _ _ _ fun overwritten trace => ⟨⟨⟨rfl, rfl⟩,
      hpass.trans (passes_of_eq rfl rfl rfl rfl), fun known hk => ?_⟩, by simp⟩
    simp only [Reading.flat, Reading.map, Reading.andThen, hcover known hk, Reading.resume_matched]

/-- A marked part follows the reading that marks what the part tracks. -/
theorem follows_marked {body : Matcher Raw} {reading : Reading Raw}
    {limited : (Nat → Nat → Prop) → Reading Raw} (h : S.Tracks body reading limited) :
    S.Follows (marked body) (Reading.marked reading)
      (fun known => Reading.marked (limited known)) := by
  intro s verdict hs hv
  simp only [marked]
  rw [ensures_bind, ensures_position]
  refine Ensures.mono (ensures_andThen (fun raw _ _ => some (.matched raw s.source.pos))
    (fun v => h.follows s v hs) (fun raw s₁ hpass _ v hv => ?_) hv)
    fun _ _ hm => ⟨hm.agrees, hm.passes, hm.covers⟩
  cases hv
  simp only [ensures_bind, ensures_moveTo (hs.boundary_after hpass), ensures_pure]
  exact ⟨⟨rfl, rfl⟩, passes_of_eq rfl rfl rfl rfl, fun _ _ => rfl⟩

/-- Captures play no part in what follows a reading. -/
theorem follows_captured {body : Matcher Raw} {reading : Reading Raw}
    {limited : (Nat → Nat → Prop) → Reading Raw} (h : S.Tracks body reading limited)
    (name : String) :
    S.Follows (captured body name) ((reading.flat false).map .leaf)
      (fun known => ((limited known).flat false).map .leaf) := by
  intro s verdict hs hv
  have hbody : captured body name = (do flatten false (← body)) >>= fun value => do
      modify fun s => { s with captures := s.captures.insert name value }
      return .leaf value := by
    simp only [captured, bind_assoc]
  rw [hbody]
  refine ensures_andThen (fun value _ stop => some (.matched (.leaf value) stop))
    (fun v => h.flat false |>.follows s v hs) (fun value s₁ _ _ v hv => ?_) hv
  cases hv
  exact ⟨⟨rfl, rfl⟩, passes_of_eq rfl rfl rfl rfl, fun _ _ => rfl⟩

/-- A scope follows the reading of its body: readings capture nothing. -/
theorem follows_inScope {body : Matcher Raw} {reading : Reading Raw}
    {limited : (Nat → Nat → Prop) → Reading Raw} (h : S.Tracks body reading limited) :
    S.Follows (inScope body) reading limited := by
  intro s verdict hs hv
  simp only [inScope, ensures_bind, ensures_modify, ensures_attempt, ensures_ofResult]
  let s₁ : Session := { s with captures := s.captures.openScope }
  have hpass : S.Passes s s₁ := passes_of_eq rfl rfl rfl rfl
  refine (h s₁ verdict (hs.pass hpass (Nat.le_refl _) hs.boundary) hv).mono ?_
  rintro result s₂ ⟨⟨hagree, hpass', hcover⟩, -⟩
  exact ⟨hagree, (hpass.trans hpass').trans (passes_of_eq rfl rfl rfl rfl), hcover⟩

/-- Labels matter only for causes. -/
theorem follows_labelled {body : Matcher Raw} {reading : Reading Raw}
    {limited : (Nat → Nat → Prop) → Reading Raw} (h : S.Tracks body reading limited)
    (hst : ¬ S.strict) (label : String) : S.Follows (labelled body label) reading limited := by
  intro s verdict hs hv
  simp only [labelled, ensures_bind, ensures_modify, ensures_attempt, ensures_ofResult]
  have hs₁ : S.Ready { s with labels := label :: s.labels } :=
    ⟨hs.text, hs.boundary, hs.bodies, fun hst' => absurd hst' hst, hs.memo⟩
  refine (h _ verdict hs₁ hv).mono ?_
  rintro result s₂ ⟨⟨hagree, hpass, hcover⟩, -⟩
  refine ⟨hagree, ⟨hpass.text, hpass.bodies, ?_, hpass.memo⟩, hcover⟩
  rw [hpass.labels]
  rfl

/-- Taking in the rest follows the reading of it. -/
theorem follows_halt :
    S.Follows Matcher.halt (Reading.halt S.text) (fun _ => Reading.halt S.text) := by
  intro s verdict hs hv
  cases hv
  simp only [Matcher.halt, ensures_bind, ensures_source, ensures_consume (Nat.le_refl _),
    ensures_pure]
  refine ⟨⟨rfl, ?_⟩, passes_of_eq rfl rfl rfl rfl, fun _ _ => rfl⟩
  rw [Source.remaining, hs.text]

/-- An operand follows the reading of it. -/
theorem follows_operand (part : Atom) {body : Matcher Raw} {reading : Reading Raw}
    {limited : (Nat → Nat → Prop) → Reading Raw} (h : S.Tracks body reading limited) :
    S.Follows (operand part body) (Reading.operand part reading)
      (fun known => Reading.operand part (limited known)) := by
  intro s verdict hs hv
  simp only [operand, ensures_bind, ensures_attempt]
  rcases Reading.resume_eq_some.1 hv with ⟨cause, hbody, hv⟩ | ⟨raw, stop, hbody, hv⟩
  · refine (h s _ hs hbody).mono ?_
    rintro result s₁ ⟨⟨⟨cause', rfl, hcause⟩, hpass, hcover⟩, hback⟩
    have hlabels (hst : S.strict) := hpass.labels.trans (hs.labels hst)
    cases hv
    simp only [ensures_bind, ensures_position, ensures_refuse, hback cause' rfl]
    refine ⟨agrees_refuse _ _ hlabels (fun hst => by rw [hcause hst]) _,
      hpass.trans (passes_of_eq rfl rfl rfl rfl), fun known hk => ?_⟩
    simp only [Reading.operand, hcover known hk, Reading.resume_failed]
    rfl
  · refine (h s _ hs hbody).mono ?_
    rintro result s₁ ⟨⟨⟨rfl, rfl⟩, hpass, hcover⟩, -⟩
    cases hv
    refine ensures_flatten _ _ _ fun overwritten trace => ?_
    refine ⟨⟨rfl, rfl⟩, hpass.trans (passes_of_eq rfl rfl rfl rfl), fun known hk => ?_⟩
    simp only [Reading.operand, hcover known hk, Reading.resume_matched]

/-- The scan for an operator follows the reading that tries the operators in order. -/
theorem follows_operator (fixity : ι → Fixity) {items : List ι} {step : ι → Matcher Raw}
    {reading : ι → Reading Raw} {limited : ι → (Nat → Nat → Prop) → Reading Raw}
    (h : ∀ i ∈ items, S.Tracks (step i) (reading i) (limited i)) :
    S.Follows (operator (items.map fun i => (fixity i, step i)))
      (Reading.operator (items.map fun i => (fixity i, reading i)))
      (fun known => Reading.operator (items.map fun i => (fixity i, limited i known))) := by
  induction items with
  | nil =>
    intro s verdict hs hv
    cases hv
    simp only [List.map_nil, operator, ensures_pure]
    exact ⟨⟨rfl, rfl⟩, Passes.refl s, fun _ _ => rfl⟩
  | cons i rest ih =>
    intro s verdict hs hv
    simp only [List.map_cons, operator, ensures_bind, ensures_attempt]
    rcases Reading.resume_eq_some.1 hv with ⟨cause, hi, hv⟩ | ⟨raw, stop, hi, hv⟩
    · refine (h i (by simp) s _ hs hi).mono ?_
      rintro result s₁ ⟨⟨⟨cause', rfl, hcause⟩, hpass, hcover⟩, hback⟩
      have hpos := hback cause' rfl
      have hs₁ := hs.pass hpass (Nat.le_of_eq hpos.symm) (hpos ▸ hs.boundary)
      rw [← hpos] at hv
      refine (ih (fun j hj => h j (List.mem_cons_of_mem _ hj)) s₁ verdict hs₁ hv).mono ?_
      rintro result s₂ ⟨hagree, hpass', hcover'⟩
      refine ⟨hagree, hpass.trans hpass', fun known hk => ?_⟩
      simp only [Reading.operator, hcover.passes hpass' known hk, Reading.resume_failed]
      rw [← hpos]
      exact hcover' known hk
    · refine (h i (by simp) s _ hs hi).mono ?_
      rintro result s₁ ⟨⟨⟨rfl, rfl⟩, hpass, hcover⟩, -⟩
      cases hv
      simp only [ensures_bind]
      refine ensures_flatten _ _ _ fun overwritten trace => ?_
      refine ⟨⟨rfl, rfl⟩, hpass.trans (passes_of_eq rfl rfl rfl rfl), fun known hk => ?_⟩
      simp only [Reading.operator, hcover known hk, Reading.resume_matched]

/-- What is read once an operator was looked for from an offset. -/
def climbRest (element : Reading Tree) (next : Reading (Option (Tree × Fixity)))
    (combine : Tree → Tree → Tree → Tree) (bound : Nat) (floor : UInt32) (left : Tree) (start : Nat) :
    Option (Tree × Fixity) → Reading Tree
  | none => fun stop => some (.matched left stop)
  | some (symbol, fixity) =>
    if fixity.precedence < floor then fun _ => some (.matched left start)
    else element.andThen fun first =>
      (Reading.climbFrom element next combine bound fixity.rightFloor first).andThen fun right =>
        Reading.climbFrom element next combine bound floor (combine left symbol right)

/-- Climbing follows the reading if at least as many operators may be read as there are bytes left:
an operator and its operand that consume nothing together have no reading. -/
theorem ensures_climbFrom {element : Matcher Tree} {next : Matcher (Option (Tree × Fixity))}
    {readElement : Reading Tree} {readNext : Reading (Option (Tree × Fixity))}
    {limElement : (Nat → Nat → Prop) → Reading Tree}
    {limNext : (Nat → Nat → Prop) → Reading (Option (Tree × Fixity))}
    (he : S.Follows element readElement limElement) (hn : S.Follows next readNext limNext)
    (hef : readElement.Forward S.text) (hnf : readNext.Forward S.text)
    (combine : Tree → Tree → Tree → Tree) (bound room : Nat) (floor : UInt32) (left : Tree) {s : Session}
    {verdict : Verdict Tree} (hs : S.Ready s) (hroom : S.text.size < s.source.pos + room)
    (hv : Reading.climbFrom readElement readNext combine bound floor left s.source.pos
      = some verdict) :
    Ensures unbroken (climbFrom element next combine room floor left) s
      (S.Meets (fun known =>
        Reading.climbFrom (limElement known) (limNext known) combine bound floor left) verdict s) := by
  induction bound generalizing room floor left s verdict with
  | zero => cases hv
  | succ bound ih =>
    have hsize := Text.le_size_of_isBoundary hs.boundary
    obtain ⟨room, rfl⟩ : ∃ r, room = r + 1 := ⟨room - 1, by omega⟩
    simp only [climbFrom]
    rw [ensures_bind, ensures_position]
    refine Ensures.mono (ensures_andThen (fun found known =>
      climbRest (limElement known) (limNext known) combine bound floor left s.source.pos found)
      (fun v => hn s v hs) ?_ hv)
      fun _ _ hm => ⟨hm.agrees, hm.passes, hm.covers⟩
    intro found s₁ hpass hfound v hv'
    obtain ⟨hle₁, hb₁⟩ := hnf _ _ _ hs.boundary hfound
    cases found with
    | none =>
      cases hv'
      exact ⟨⟨rfl, rfl⟩, Passes.refl s₁, fun _ _ => rfl⟩
    | some found =>
      obtain ⟨symbol, fixity⟩ := found
      dsimp only [climbRest] at hv' ⊢
      split at hv'
      · rename_i hlow
        cases hv'
        simp only [if_pos hlow, ensures_bind, ensures_moveTo (hs.boundary_after hpass), ensures_pure]
        exact ⟨⟨rfl, rfl⟩, passes_of_eq rfl rfl rfl rfl, fun _ _ => rfl⟩
      · rename_i hhigh
        have hs₁ := hs.pass hpass hle₁ hb₁
        simp only [if_neg hhigh]
        refine ensures_andThen _ (fun v => he s₁ v hs₁) ?_ hv'
        intro first s₂ hpass₂ hfirst v hv₂
        obtain ⟨hle₂, hb₂⟩ := hef _ _ _ hs₁.boundary hfirst
        have hs₂ := hs₁.pass hpass₂ hle₂ hb₂
        have hmoved : s₂.source.pos ≠ s.source.pos := by
          intro heq
          rw [heq] at hfirst
          rw [Reading.climbFrom_eq_none hfound hfirst combine _ _ (Nat.le_of_not_lt hhigh)] at hv
          cases hv
        refine ensures_andThen _ (fun v => ih room _ first hs₂ (by omega)) ?_ hv₂
        intro right s₃ hpass₃ hright v hv₃
        obtain ⟨hle₃, hb₃⟩ :=
          Reading.forward_climbFrom hef hnf combine _ _ _ _ _ _ hs₂.boundary hright
        exact ih room floor _ (hs₂.pass hpass₃ hle₃ hb₃) (by omega) hv₃

/-- An operator expression follows the reading that climbs by what its operand and its operators
track. -/
theorem follows_operators (part : Atom) {body : Matcher Raw} {reading : Reading Raw}
    {limited : (Nat → Nat → Prop) → Reading Raw} {table : List (Fixity × Matcher Raw)}
    {readNext : Reading (Option (Tree × Fixity))}
    {limNext : (Nat → Nat → Prop) → Reading (Option (Tree × Fixity))}
    (h : S.Tracks body reading limited) (hf : reading.Forward S.text)
    (hn : S.Follows (operator table) readNext limNext) (hnf : readNext.Forward S.text)
    (combine : Option (Tree → Tree → Tree → Tree)) (bound : Nat) :
    S.Follows (operators part body table combine)
      (Reading.operators (Reading.operand part reading) readNext (combine.getD Tree.operation) bound)
      (fun known => Reading.operators (Reading.operand part (limited known)) (limNext known)
        (combine.getD Tree.operation) bound) := by
  intro s verdict hs hv
  have he := follows_operand part h
  have hef := Reading.forward_operand part hf
  have hsize := Text.le_size_of_isBoundary hs.boundary
  have hroom : s.source.remaining < operatorBound s.source.remaining := by
    rw [operatorBound]
    have : 0 < UInt32.size := by decide
    exact Nat.lt_of_lt_of_le (Nat.lt_succ_self _) (Nat.le_mul_of_pos_right _ this)
  rw [Source.remaining, hs.text] at hroom
  simp only [operators]
  rw [ensures_bind, ensures_source]
  refine ensures_andThen (fun tree _ stop => some (.matched (.leaf tree) stop)) (fun v hv => ?_)
    (fun tree s₁ _ _ v hv => ?_) hv
  · refine ensures_andThen
      (fun first known => Reading.climbFrom (Reading.operand part (limited known)) (limNext known)
        (combine.getD Tree.operation) bound 0 first)
      (fun v => he s v hs) (fun first s₁ hpass hfirst v hv => ?_) hv
    obtain ⟨hle, hb⟩ := hef _ _ _ hs.boundary hfirst
    refine ensures_climbFrom he hn hef hnf _ bound _ 0 first (hs.pass hpass hle hb) ?_ hv
    rw [Source.remaining, hs.text]
    omega
  · cases hv
    exact ⟨⟨rfl, rfl⟩, Passes.refl s₁, fun _ _ => rfl⟩

/-- An expression follows its reading if references follow theirs. -/
theorem tracks_atom {apply : RuleRef → Matcher Raw} {rule : RuleRef → Reading Tree}
    {limited : (Nat → Nat → Prop) → RuleRef → Reading Tree}
    (hrule : ∀ ref, S.Follows (apply ref) ((rule ref).map .leaf)
      (fun known => (limited known ref).map .leaf))
    (hf : ∀ ref, (rule ref).Forward S.text) (bound : Nat) (atom : Atom)
    (hstatic : atom.Every (·.isStatic)) (hlabel : S.strict → atom.Every (·.isUnlabelled)) :
    S.Tracks (atom.matcher apply) (atom.reading S.text rule bound)
      (fun known => atom.reading S.text (limited known) bound) := by
  have hforward := Atom.forward_reading hf bound
  induction atom using Atom.parts_induction with
  | step atom ih =>
  have hpart (part : Atom) (hp : part.IsPart atom) := ih part hp (hstatic.of_part hp)
    fun hst => (hlabel hst).of_part hp
  cases atom with
  | literal word => exact (follows_literal word).guarded
  | char test => exact (follows_character test).guarded
  | sequence parts =>
    simp only [Atom.matcher, Atom.reading, Atom.matchers_eq_map, Atom.readings_eq_map]
    exact ((follows_inOrder _ _ (fun a ha => hpart a (.sequence ha)) (fun a _ => hforward a)
      fun _ => rfl).map Raw.sequence).guarded
  | choice branches =>
    simp only [Atom.matcher, Atom.reading, Atom.matchers_eq_map, Atom.readings_eq_map]
    exact (follows_choice _ fun a ha => hpart a (.choice ha)).guarded
  | repetition body min max optional =>
    exact (follows_repetition body (hpart body (.repetition ..)) (hforward body) min max optional
      bound).guarded
  | lookahead body positive =>
    exact (follows_lookahead body (hpart body (.lookahead ..)) positive).guarded
  | named body name =>
    have h := ((hpart body (.named ..)).flat true).follows.map fun value => Raw.leaf (.map [(name, value)])
    simp only [bind_assoc] at h
    exact h.guarded
  | rule ref => exact (hrule ref).guarded
  | ignore body => exact ((hpart body (.ignore _)).follows.map fun _ => Raw.unit).guarded
  | map body transform =>
    have h := ((hpart body (.map ..)).flat false).follows.map fun value => Raw.leaf (transform value)
    simp only [bind_assoc] at h
    exact h.guarded
  | mark body => exact (follows_marked (hpart body (.mark _))).guarded
  | capture body name => exact (follows_captured (hpart body (.capture ..)) name).guarded
  | scope body => exact (follows_inScope (hpart body (.scope _))).guarded
  | dynamic pick => cases hstatic.here
  | operators operand table combine =>
    simp only [Atom.matcher, Atom.reading, Atom.operatorMatchers_eq_map,
      Atom.operatorReadings_eq_map]
    exact (follows_operators operand (hpart operand (.operand ..)) (hforward operand)
      (follows_operator _ fun op h => hpart op.2 (.operator _ _ h))
      (Reading.forward_operator _ fun op _ => hforward op.2) combine bound).guarded
  | label body label =>
    have hst : ¬ S.strict := fun hst => by simpa [Atom.isUnlabelled] using (hlabel hst).here
    exact (follows_labelled (hpart body (.label ..)) hst label).guarded
  | halt => exact follows_halt.guarded

end Setting

end Packrat
