import Mathlib
import Packrat.Proofs.Climbing
import Packrat.Proofs.Termination

/-!
# Operator expressions that do not come to an end

A row of operators and operands grows only if the operator that is read next and the operand behind it
consume something together. Where both match and the cursor has not moved, both match again, and nothing
ever changes: a left associative operator is read in a row without end and a right associative one inside
itself without end. An operator expression comes to an end if, and only if, its row leads to no such place,
and whether it does is decided before more operators were read than there are bytes left.
-/

namespace Packrat

/-- A detached expression that is no operator expression itself. -/
def Atom.isElementary : Atom → Bool
  | .operators _ _ _ => false
  | atom => atom.isDetached

/-- Elementary expressions are detached. -/
theorem Atom.isDetached_of_isElementary {atom : Atom} (h : atom.isElementary = true) :
    atom.isDetached = true := by
  cases atom <;> first | rfl | exact h

/-- Elementary expressions are tame: they are no operator expressions. -/
theorem Atom.isTame_of_isElementary {atom : Atom} (h : atom.isElementary = true) : atom.isTame = true := by
  cases atom <;> first | rfl | cases h

namespace Matcher

variable {element : Matcher Tree} {next : Matcher (Option (Tree × Fixity))} {origin s t : Session}
  {combine : Tree → Tree → Tree → Tree}

variable (element next) in
/-- An operator and the operand behind it lead from the first session to the second. -/
def Link (s t : Session) : Prop :=
  ∃ symbol fixity s₁ value, next s = .matched (some (symbol, fixity)) s₁ ∧
    element s₁ = .matched value t

variable (element next) in
/-- An operator and the operand behind it match and consume nothing. -/
def Idles (s : Session) : Prop := ∃ t, Link element next s t ∧ t.source.pos = s.source.pos

variable (element next) in
/-- Going on with operators and operands, a place is reached where they consume nothing. -/
def Stalls (s : Session) : Prop :=
  ∃ t, Relation.ReflTransGen (Link element next) s t ∧ Idles element next t

variable (element next) in
/-- Whatever the bound on the operators in a row, it is spent. -/
def Endless (s : Session) : Prop := ∀ bound, scanFrom element next bound s = .stopped .spent

/-- An operator and its operand lead on within the match, and never back. -/
theorem Link.reached (he : Steady origin element) (hn : Steady origin next) (hs : Reached origin s)
    (h : Link element next s t) : Reached origin t ∧ s.source.pos ≤ t.source.pos := by
  obtain ⟨symbol, fixity, s₁, value, hr, hr₁⟩ := h
  have hs₁ := (hn.forward s hs).of_matched hr
  have ht := (he.forward s₁ hs₁.1).of_matched hr₁
  exact ⟨ht.1, Nat.le_trans hs₁.2 ht.2⟩

/-- A row leads on within the match. -/
theorem reached_of_row (he : Steady origin element) (hn : Steady origin next) (hs : Reached origin s)
    (h : Relation.ReflTransGen (Link element next) s t) : Reached origin t := by
  induction h with
  | refl => exact hs
  | tail _ hlink ih => exact (hlink.reached he hn ih).1

/-- Behind an operator and an operand, the rest of the row decides whether the bound is spent. -/
theorem Link.scanFrom_spent_iff (h : Link element next s t) (bound : Nat) :
    scanFrom element next (bound + 1) s = .stopped .spent ↔
      scanFrom element next bound t = .stopped .spent := by
  obtain ⟨symbol, fixity, s₁, value, hr, hr₁⟩ := h
  have hstep : scanFrom element next (bound + 1) s =
      Matcher.bind (scanFrom element next bound)
        (fun rest => pure (.operator symbol fixity :: .operand value :: rest)) t := by
    rw [scanFrom, bind_of_matched hr]
    exact bind_of_matched hr₁
  rw [hstep, Matcher.bind]
  cases scanFrom element next bound t <;> simp [pure, Matcher.pure]

variable (element next) in
/-- Neither operands nor operators are ever broken off. -/
structure Unbroken (origin : Session) : Prop where
  operand : ∀ s reason, Reached origin s → element s ≠ .stopped reason
  operator : ∀ s reason, Reached origin s → next s ≠ .stopped reason

/-- A bound is spent only on operators and operands. -/
theorem Unbroken.exists_link (hu : Unbroken element next origin) (hn : Steady origin next)
    (hs : Reached origin s) {bound : Nat} (h : scanFrom element next (bound + 1) s = .stopped .spent) :
    ∃ t, Link element next s t := by
  have hgist : (scanFrom element next (bound + 1) s).gist = .error .spent := congrArg Reply.gist h
  rw [gist_scanFrom] at hgist
  cases hr : next s with
  | stopped reason => exact absurd hr (hu.operator s reason hs)
  | failed cause s₁ => simp [hr] at hgist
  | matched found s₁ =>
    rcases found with _ | ⟨symbol, fixity⟩
    · simp [hr] at hgist
    · cases hr₁ : element s₁ with
      | stopped reason =>
        exact absurd hr₁ (hu.operand s₁ reason ((hn.forward s hs).of_matched hr).1)
      | failed cause s₂ => simp [hr, hr₁] at hgist
      | matched value s₂ => exact ⟨s₂, symbol, fixity, s₁, value, hr, hr₁⟩

/-- A smaller bound is spent where a larger one is. -/
theorem Unbroken.scanFrom_spent_anti (hu : Unbroken element next origin) (he : Steady origin element)
    (hn : Steady origin next) (hs : Reached origin s) {bound bound' : Nat} (hle : bound ≤ bound')
    (h : scanFrom element next bound' s = .stopped .spent) :
    scanFrom element next bound s = .stopped .spent := by
  induction bound generalizing bound' s with
  | zero => rfl
  | succ bound ih =>
    obtain ⟨bound', rfl⟩ := Nat.exists_eq_add_of_le' (Nat.le_trans (Nat.le_add_left 1 bound) hle)
    obtain ⟨t, ht⟩ := hu.exists_link hn hs h
    rw [ht.scanFrom_spent_iff]
    exact ih (ht.reached he hn hs).1 (Nat.le_of_succ_le_succ hle) ((ht.scanFrom_spent_iff bound').1 h)

/-- From the same offset, the same bounds are spent. -/
theorem scanFrom_spent_congr (he : Steady origin element) (hn : Steady origin next) {s' : Session}
    (hs : Reached origin s) (hs' : Reached origin s') (hpos : s.source.pos = s'.source.pos) {bound : Nat}
    (h : scanFrom element next bound s = .stopped .spent) :
    scanFrom element next bound s' = .stopped .spent := by
  have hsame := (steady_scanFrom he hn bound).same s s' hs hs' hpos
  rw [h] at hsame
  exact eq_stopped_of_gist hsame.symm

/-- Where nothing is consumed, the same operator and the same operand match again and again. -/
theorem Idles.endless (he : Steady origin element) (hn : Steady origin next) (hs : Reached origin s)
    (h : Idles element next s) : Endless element next s := by
  obtain ⟨t, hlink, hpos⟩ := h
  intro bound
  induction bound with
  | zero => rfl
  | succ bound ih =>
    rw [hlink.scanFrom_spent_iff]
    exact scanFrom_spent_congr he hn hs (hlink.reached he hn hs).1 hpos.symm ih

/-- A row that leads to such a place is endless. -/
theorem Stalls.endless (he : Steady origin element) (hn : Steady origin next) (hs : Reached origin s)
    (h : Stalls element next s) : Endless element next s := by
  obtain ⟨t, hrow, hidle⟩ := h
  induction hrow using Relation.ReflTransGen.head_induction_on with
  | refl => exact hidle.endless he hn hs
  | head hlink _ ih =>
    intro bound
    cases bound with
    | zero => rfl
    | succ bound => exact (hlink.scanFrom_spent_iff bound).2 (ih (hlink.reached he hn hs).1 bound)

/-- More operators than there are bytes left are read only in a row that leads to such a place. -/
theorem Unbroken.stalls (hu : Unbroken element next origin) (he : Steady origin element)
    (hn : Steady origin next) (hs : Reached origin s)
    (h : scanFrom element next (s.source.remaining + 1) s = .stopped .spent) :
    Stalls element next s := by
  generalize hbytes : s.source.remaining = bytes at h
  induction bytes using Nat.strong_induction_on generalizing s with
  | h bytes ih =>
    obtain ⟨t, hlink⟩ := hu.exists_link hn hs h
    obtain ⟨ht, hforward⟩ := hlink.reached he hn hs
    rw [hlink.scanFrom_spent_iff] at h
    rcases Nat.eq_or_lt_of_le hforward with hpos | hlt
    · exact ⟨s, .refl, t, hlink, hpos.symm⟩
    · have hless := hs.remaining_lt ht hlt
      rw [hbytes] at hless
      obtain ⟨u, hrow, hidle⟩ := ih _ hless ht rfl (hu.scanFrom_spent_anti he hn ht hless h)
      exact ⟨u, .head hlink hrow, hidle⟩

section Climbing

variable {symbol left first : Tree} {fixity : Fixity} {s₁ s₂ : Session} (bound : Nat) {floor : UInt32}

/-- Climbing is over where no operator is next. -/
theorem climbFrom_none (hr : next s = .matched none s₁) :
    climbFrom element next combine (bound + 1) floor left s = .matched left s₁ := by
  change Matcher.bind next _ s = _
  rw [Matcher.bind, hr]
  rfl

/-- An operator that binds too loosely is put back. -/
theorem climbFrom_loose (hn : Steady origin next) (hs : Reached origin s)
    (hr : next s = .matched (some (symbol, fixity)) s₁) (hlow : fixity.precedence < floor) :
    ∃ s', climbFrom element next combine (bound + 1) floor left s = .matched left s' ∧
      Reached origin s' ∧ s'.source.pos = s.source.pos := by
  obtain ⟨hs₁, -⟩ := (hn.forward s hs).of_matched hr
  have hback : s₁.source.text.isBoundary s.source.pos = true := by
    rw [hs₁.text, ← hs.text]
    exact hs.boundary
  refine ⟨{ s₁ with source.pos := s.source.pos }, ?_,
    ⟨⟨hs₁.text, hs₁.lines, hs₁.bodies, hs₁.memo, hs₁.captures, hs₁.labels⟩, hback⟩, rfl⟩
  change Matcher.bind next _ s = _
  simp only [Matcher.bind, hr, hlow, if_true]
  change Matcher.bind (moveTo s.source.pos) _ s₁ = _
  simp [Matcher.bind, moveTo, Source.setPos?, hback, pure, Matcher.pure]

/-- Behind an operator that binds tightly enough and an operand, the operand's level comes first. -/
theorem climbFrom_tight (hr : next s = .matched (some (symbol, fixity)) s₁)
    (hr₁ : element s₁ = .matched first s₂) (hfloor : floor ≤ fixity.precedence) :
    climbFrom element next combine (bound + 1) floor left s =
      (do
        let right ← climbFrom element next combine bound fixity.rightFloor first
        climbFrom element next combine bound floor (combine left symbol right)) s₂ := by
  change Matcher.bind next _ s = _
  simp only [Matcher.bind, hr, UInt32.not_lt.2 hfloor, if_false]
  exact bind_of_matched hr₁

end Climbing

variable (combine) in
/-- In an endless row, climbing is broken off, or it stops at an operator that binds too loosely, with an
endless row ahead. -/
theorem Endless.ensures_climbFrom (hu : Unbroken element next origin) (he : Steady origin element)
    (hn : Steady origin next) (h : Endless element next s) (bound : Nat) (floor : UInt32) (left : Tree)
    (hs : Reached origin s) :
    Ensures (· = .spent) (climbFrom element next combine bound floor left) s fun result s' =>
      (∃ value, result = .ok value) ∧ Reached origin s' ∧ Endless element next s' ∧ 0 < floor := by
  induction bound generalizing floor left s with
  | zero => exact rfl
  | succ bound ih =>
    obtain ⟨t, hlink⟩ := hu.exists_link hn hs (h 1)
    obtain ⟨ht, -⟩ := hlink.reached he hn hs
    have hahead : Endless element next t := fun bound => (hlink.scanFrom_spent_iff bound).1 (h _)
    obtain ⟨symbol, fixity, s₁, first, hr, hr₁⟩ := hlink
    by_cases hlow : fixity.precedence < floor
    · obtain ⟨s', hreply, hs', hpos⟩ := climbFrom_loose bound hn hs hr hlow
      rw [Ensures, hreply]
      exact ⟨⟨left, rfl⟩, hs', fun bound => scanFrom_spent_congr he hn hs hs' hpos.symm (h bound),
        UInt32.lt_of_le_of_lt UInt32.zero_le hlow⟩
    · have htight := UInt32.not_lt.1 hlow
      rw [ensures_congr (climbFrom_tight bound hr hr₁ htight), ensures_bind]
      refine (ih hahead fixity.rightFloor first ht).mono ?_
      rintro result s₃ ⟨⟨right, rfl⟩, hs₃, hrest, -⟩
      exact ih hrest floor _ hs₃

variable (combine) in
/-- In a row that ends, climbing ends if the bound allows for its length, and what is ahead of it then
ends no later. -/
theorem Unbroken.ensures_climbFrom (hu : Unbroken element next origin) (he : Steady origin element)
    (hn : Steady origin next) (hstays : ∀ s s', Reached origin s → next s = .matched none s' →
      s'.source.pos = s.source.pos)
    {bound length : Nat} (floor : UInt32) (left : Tree) (hs : Reached origin s) (hle : length ≤ bound)
    (h : scanFrom element next length s ≠ .stopped .spent) :
    Ensures unbroken (climbFrom element next combine bound floor left) s fun result s' =>
      ∀ value, result = .ok value →
        Reached origin s' ∧ scanFrom element next length s' ≠ .stopped .spent := by
  induction bound generalizing length floor left s with
  | zero =>
    rw [Nat.le_zero.1 hle] at h
    exact absurd rfl h
  | succ bound ih =>
    rcases length with _ | length
    · exact absurd rfl h
    rw [Nat.succ_le_succ_iff] at hle
    cases hr : next s with
    | stopped reason => exact absurd hr (hu.operator s reason hs)
    | failed cause s₁ =>
      rw [climbFrom, ensures_bind, ensures_position]
      exact (ensures_bind_failed hr).2 (by simp)
    | matched found s₁ =>
      obtain ⟨hs₁, -⟩ := (hn.forward s hs).of_matched hr
      rcases found with _ | ⟨symbol, fixity⟩
      · rw [Ensures, climbFrom_none bound hr]
        exact fun _ _ => ⟨hs₁, mt (scanFrom_spent_congr he hn hs₁ hs (hstays s s₁ hs hr)) h⟩
      by_cases hlow : fixity.precedence < floor
      · obtain ⟨s', hreply, hs', hpos⟩ := climbFrom_loose bound hn hs hr hlow
        rw [Ensures, hreply]
        exact fun _ _ => ⟨hs', mt (scanFrom_spent_congr he hn hs' hs hpos) h⟩
      have htight := UInt32.not_lt.1 hlow
      cases hr₁ : element s₁ with
      | stopped reason => exact absurd hr₁ (hu.operand s₁ reason hs₁)
      | failed cause s₂ =>
        rw [climbFrom, ensures_bind, ensures_position]
        refine (ensures_bind_matched hr).2 ?_
        simp only [hlow, if_false]
        exact (ensures_bind_failed hr₁).2 (by simp)
      | matched first s₂ =>
        have hlink : Link element next s s₂ := ⟨symbol, fixity, s₁, first, hr, hr₁⟩
        obtain ⟨hs₂, -⟩ := hlink.reached he hn hs
        rw [ensures_congr (climbFrom_tight bound hr hr₁ htight), ensures_bind]
        refine (ih fixity.rightFloor first hs₂ hle (mt (hlink.scanFrom_spent_iff length).2 h)).mono ?_
        intro result s₃ hafter
        cases result with
        | error cause => simp
        | ok right =>
          obtain ⟨hs₃, hrest⟩ := hafter right rfl
          refine (ih floor (combine left symbol right) hs₃ hle hrest).mono ?_
          intro result s₄ hafter' value hv
          obtain ⟨hs₄, hrest'⟩ := hafter' value hv
          exact ⟨hs₄, mt (hu.scanFrom_spent_anti he hn hs₄ (Nat.le_succ length)) hrest'⟩

variable (combine) in
/-- Climbing from the start is broken off only if the row leads to a place where nothing is consumed, and
then whatever the bound. As many operators as there are bytes, and one more, are enough to tell. -/
theorem Unbroken.climb_stopped_iff (hu : Unbroken element next origin) (he : Steady origin element)
    (hn : Steady origin next) (hstays : ∀ s s', Reached origin s → next s = .matched none s' →
      s'.source.pos = s.source.pos)
    (hs : Reached origin s) {bound : Nat} (hbound : s.source.remaining < bound) (reason : Stop) :
    climb element next combine bound 0 s = .stopped reason ↔
      reason = .spent ∧ ∃ first s₁, element s = .matched first s₁ ∧ Stalls element next s₁ := by
  cases hr : element s with
  | stopped reason' => exact absurd hr (hu.operand s reason' hs)
  | failed cause s₁ =>
    have hclimb : climb element next combine bound 0 s = .failed cause s₁ := by
      change Matcher.bind element _ s = _
      rw [Matcher.bind, hr]
    simp [hclimb]
  | matched first s₁ =>
    obtain ⟨hs₁, hforward⟩ := (he.forward s hs).of_matched hr
    rw [climb, bind_of_matched hr]
    by_cases hstalls : Stalls element next s₁
    · have hclimb := (hstalls.endless he hn hs₁).ensures_climbFrom combine hu he hn bound 0 first hs₁
      obtain ⟨reason', rfl, hspent⟩ :=
        (hclimb.mono fun _ _ hafter => Nat.lt_irrefl 0 hafter.2.2.2).exists_stop
      simp [hspent, hstalls, eq_comm]
    · have hends : scanFrom element next (s₁.source.remaining + 1) s₁ ≠ .stopped .spent :=
        mt (hu.stalls he hn hs₁) hstalls
      have hfewer := hs.remaining_le hs₁ hforward
      have hclimb := hu.ensures_climbFrom combine he hn hstays 0 first hs₁
        (by omega : s₁.source.remaining + 1 ≤ bound) hends
      refine ⟨fun hstop => (hclimb.of_stopped hstop).elim, ?_⟩
      rintro ⟨-, first', s₂, heq, hstalls'⟩
      cases heq
      exact absurd hstalls' hstalls

/-- A guarded step is broken off only if the step is. -/
theorem guarded_stopped_iff {step : Matcher Raw} (h : Calm step)
    (hs : s.source.text.isBoundary s.source.pos = true) (reason : Stop) :
    guarded step s = .stopped reason ↔ step s = .stopped reason := by
  refine ⟨fun hstop => ?_, guarded_stopped⟩
  cases hr : step s with
  | stopped reason' =>
    rw [guarded_stopped hr] at hstop
    exact hstop
  | failed cause s' =>
    rw [guarded_failed hr (((h s).of_failed hr).text ▸ hs)] at hstop
    cases hstop
  | matched raw s' =>
    rw [guarded_matched hr] at hstop
    cases hstop

end Matcher

/-- The course of a match that may not be broken off, about which nothing is known but its text. -/
def Course.sound (table : RuleTable) (text : Text) : Course :=
  { Course.free table text with lenient := Matcher.unbroken }

namespace Matcher

variable {apply : RuleRef → Matcher Raw} {operand : Atom} {table : List (Fixity × Atom)}
  {origin s : Session}

/-- From every session that was reached in a match, matching can start on the sound course. -/
theorem Reached.start_sound {rules : RuleTable} (h : Reached origin s) (hb : rules.Knows origin.bodies) :
    (Course.sound rules origin.source.text).Start s where
  text := h.text
  boundary := h.text ▸ h.boundary
  bodies := h.bodies.symm ▸ hb
  labels hst := hst.elim
  memo := trivial
  captures hst := hst.elim

/-- An elementary expression is never broken off. -/
theorem ends_elementary (rules : RuleTable) (text : Text) {atom : Atom}
    (h : atom.Every (·.isElementary)) : (Course.sound rules text).Ends (atom.matcher apply) := by
  rw [← Atom.watched_guarded]
  refine Course.ends_watched (fun _ _ _ h => h.guarded) id ((h.everyFor _).mono (fun _ h => h) ?_)
  intro atom helementary
  refine ⟨fun ref heq => ?_, .inr (Atom.isTame_of_isElementary helementary), False.elim⟩
  rw [heq] at helementary
  cases helementary

/-- Operands and operators that are elementary are never broken off. -/
theorem unbroken_elementary (hoperand : operand.Every (·.isElementary))
    (htable : ∀ op ∈ table, op.2.Every (·.isElementary)) :
    Unbroken (Matcher.operand operand (operand.matcher apply))
      (operator (Atom.operatorMatchers apply table)) origin := by
  obtain ⟨rules, hb⟩ := RuleTable.exists_knows origin.bodies
  refine ⟨fun s reason hs hstop => ?_, fun s reason hs hstop => ?_⟩
  · exact (Course.ends_operand operand (ends_elementary rules _ hoperand) s
      (hs.start_sound hb)).of_stopped hstop
  · rw [Atom.operatorMatchers_eq_map] at hstop
    refine (Course.ends_operator (fun op hop => ?_) s (hs.start_sound hb)).of_stopped hstop
    obtain ⟨op, hmem, rfl⟩ := List.mem_map.1 hop
    exact ends_elementary rules _ (htable op hmem)

end Matcher

section Expression

open Matcher

variable (apply : RuleRef → Matcher Raw) {operand : Atom} {table : List (Fixity × Atom)} {s : Session}

/-- Behind the first operand, the row of operators and operands leads to a place where an operator and
the operand behind it match and consume nothing. -/
def Atom.RowStalls (operand : Atom) (table : List (Fixity × Atom)) (s : Session) : Prop :=
  ∃ first s₁, Matcher.operand operand (operand.matcher apply) s = .matched first s₁ ∧
    Stalls (Matcher.operand operand (operand.matcher apply))
      (operator (Atom.operatorMatchers apply table)) s₁

section Elementary

variable (hoperand : operand.Every (·.isElementary))
  (htable : ∀ op ∈ table, op.2.Every (·.isElementary))

include hoperand htable

/-- Climbing comes to an end unless the row leads to a place where nothing is consumed. There no bound is
enough, and everywhere else it is enough that more operators are allowed than there are bytes left: with
elementary operands and operators, climbing is broken off for no other reason. -/
theorem climb_endless_iff (combine : Tree → Tree → Tree → Tree)
    (hs : s.source.text.isBoundary s.source.pos = true) {bound : Nat} (hbound : s.source.remaining < bound)
    (reason : Stop) :
    climb (Matcher.operand operand (operand.matcher apply)) (operator (Atom.operatorMatchers apply table))
        combine bound 0 s = .stopped reason ↔
      reason = .spent ∧ Atom.RowStalls apply operand table s := by
  have hdetached {atom : Atom} (h : atom.Every (·.isElementary)) : atom.Every (·.isDetached) :=
    h.mono fun _ => Atom.isDetached_of_isElementary
  have htable' : ∀ op ∈ table, op.2.Every (·.isDetached) := fun op hop => hdetached (htable op hop)
  exact (unbroken_elementary hoperand htable).climb_stopped_iff combine
    (steady_operand (hdetached hoperand)) (steady_operator htable')
    (fun s s' hs hr => (operator_stays htable' hs).of_matched hr rfl) ⟨.refl s, hs⟩ hbound reason

/-- An operator expression with elementary operands and operators is matched to an end unless its row
leads to a place where nothing is consumed. -/
theorem operators_endless_iff (combine : Option (Tree → Tree → Tree → Tree))
    (hs : s.source.text.isBoundary s.source.pos = true) (reason : Stop) :
    (Atom.operators operand table combine).matcher apply s = .stopped reason ↔
      reason = .spent ∧ Atom.RowStalls apply operand table s := by
  have hdetached {atom : Atom} (h : atom.Every (·.isElementary)) : atom.Every (·.isDetached) :=
    h.mono fun _ => Atom.isDetached_of_isElementary
  have hcalm : Calm (operators operand (operand.matcher apply) (Atom.operatorMatchers apply table)
      combine) := calm_operators (hdetached hoperand) (fun op hop => hdetached (htable op hop)) combine
  rw [← climb_endless_iff apply hoperand htable (combine.getD Tree.operation) hs
    (Course.lt_operatorBound s.source.remaining)]
  refine (guarded_stopped_iff hcalm hs reason).trans ?_
  change Matcher.bind (climb _ _ _ _ 0) _ s = _ ↔ _
  rw [Matcher.bind]
  cases climb _ _ _ _ 0 s <;> simp [pure, Matcher.pure]

omit hoperand htable in
/-- An operand consumes what its expression does. -/
theorem operand_consumes {apply : RuleRef → Matcher Raw} (h : operand.Consumes apply) {value : Tree}
    {s' : Session} (hs : s.source.text.isBoundary s.source.pos = true)
    (hr : Matcher.operand operand (operand.matcher apply) s = .matched value s') :
    s.source.pos < s'.source.pos := by
  have hends : Ensures anyhow (Matcher.operand operand (operand.matcher apply)) s fun result s' =>
      ∀ value, result = .ok value → s.source.pos < s'.source.pos := by
    rw [Matcher.operand, ensures_bind, ensures_attempt, Ensures]
    cases hr : operand.matcher apply s with
    | stopped reason => trivial
    | failed cause s₁ => simp
    | matched raw s₁ => exact ensures_flatten _ _ _ fun _ _ _ _ => h s raw s₁ hs hr
  exact hends.of_matched hr value rfl

/-- If operands consume input, or if operators do, an operator expression is matched to an end. -/
theorem operators_end (combine : Option (Tree → Tree → Tree → Tree))
    (hconsumes : operand.Consumes apply ∨ ∀ op ∈ table, op.2.Consumes apply)
    (hs : s.source.text.isBoundary s.source.pos = true) (reason : Stop) :
    (Atom.operators operand table combine).matcher apply s ≠ .stopped reason := by
  intro hstop
  obtain ⟨-, first, s₁, hr, t, hrow, u, hlink, hpos⟩ :=
    (operators_endless_iff apply hoperand htable combine hs reason).1 hstop
  have hdetached {atom : Atom} (h : atom.Every (·.isElementary)) : atom.Every (·.isDetached) :=
    h.mono fun _ => Atom.isDetached_of_isElementary
  have htable' : ∀ op ∈ table, op.2.Every (·.isDetached) := fun op hop => hdetached (htable op hop)
  have he : Steady s (Matcher.operand operand (operand.matcher apply)) :=
    steady_operand (hdetached hoperand)
  have hn : Steady s (operator (Atom.operatorMatchers apply table)) := steady_operator htable'
  have ht : Reached s t := reached_of_row he hn ((he.forward s ⟨.refl s, hs⟩).of_matched hr).1 hrow
  obtain ⟨symbol, fixity, t₁, value, hr₁, hr₂⟩ := hlink
  obtain ⟨ht₁, hle⟩ := (hn.forward t ht).of_matched hr₁
  have hle' := ((he.forward t₁ ht₁).of_matched hr₂).2
  rcases hconsumes with hconsumes | hconsumes
  · have hlt := operand_consumes hconsumes ht₁.boundary hr₂
    omega
  · have hlt := (progresses_operator htable' hconsumes).consumes t _ t₁ ht hr₁
    omega

end Elementary

/-- An operand and an operator that match nothing are read again and again, whether in a row or inside each
other, and whatever the bound. -/
theorem blank_operators_endless (fixity : Fixity) (combine : Tree → Tree → Tree → Tree) {bound : Nat}
    (hbound : 0 < bound) :
    climb (Matcher.operand (.literal "") ((Atom.literal "").matcher apply))
      (operator (Atom.operatorMatchers apply [(fixity, .literal "")])) combine bound 0
      (Session.start "" {} []) = .stopped .spent := by
  refine (climb_endless_iff apply (by simp [Atom.isElementary, Atom.isDetached])
    (by simp [Atom.isElementary, Atom.isDetached]) combine (Text.isBoundary_zero _) hbound .spent).2 ?_
  exact ⟨rfl, _, _, rfl, _, .refl, _, ⟨_, _, _, _, rfl, rfl⟩, rfl⟩

end Expression

end Packrat
