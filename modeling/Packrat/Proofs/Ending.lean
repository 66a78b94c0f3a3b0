import Packrat.Proofs.Course
import Packrat.Proofs.Slices
import Packrat.Proofs.Watching

/-!
# How matchers end

On a course, a matcher ends if from every fit session it matches or fails, unless it is broken off for
a reason that the course allows, and leaves the cursor at a boundary that is not before the one it
started from. If the course asks for it, what it comes to is intact: the slices in its value, in the
cause of its failure and in what was captured are cut out at boundaries. All combinators end if their
parts do: a repetition goes on only as long as its rounds consume input, and so does an operator
expression, if its operators consume some.
-/

namespace Packrat

namespace Atom

/-- An expression that consumes input whenever it matches: a literal other than the empty one, or a
character of a class. -/
def isSymbol : Atom → Bool
  | .literal text => text != ""
  | .char _ => true
  | _ => false

/-- An expression that, if it is an operator expression, has only symbols for operators. -/
def isTame : Atom → Bool
  | .operators _ table _ => table.all fun op => op.2.isSymbol
  | _ => true

/-- If the expression transforms or combines values, it makes intact ones of intact ones. -/
def TransformsIntact : Atom → Prop
  | .map _ transform => ∀ tree, Intact tree → Intact (transform tree)
  | .operators _ _ (some combine) => ∀ left operator right, Intact left → Intact operator →
    Intact right → Intact (combine left operator right)
  | _ => True

end Atom

namespace Course

open Matcher

variable {C : Course} {α β ι : Type} [Sliced α] [Sliced β] {s s' s'' : Session}

variable (C) in
/-- A step can start from the session. -/
structure Start (s : Session) : Prop extends C.Ready s where
  captures : C.slices → Intact s.captures

variable (C) in
/-- Matching can lead from the first session to the second, which is not before it. -/
structure Moves (s s' : Session) : Prop where
  passes : C.Passes s s'
  forward : s.source.pos ≤ s'.source.pos
  boundary : C.text.isBoundary s'.source.pos = true

variable (C) in
/-- A step that started from the first session has come to the result and left the second session. -/
structure Ended (s : Session) (result : Except Cause α) (s' : Session) : Prop extends C.Moves s s' where
  captures : C.slices → Intact s'.captures
  intact : C.slices → Intact result

variable (C) in
/-- From the session the step matches or fails. -/
def EndsAt (step : Matcher α) (s : Session) : Prop := Ensures C.lenient step s (C.Ended s)

variable (C) in
/-- From every fit session the step matches or fails. -/
def Ends (step : Matcher α) : Prop := ∀ s, C.Start s → C.EndsAt step s

variable (C) in
/-- From every fit session the step matches or fails, and a match takes at least so many bytes. -/
def Takes (least : Nat) (step : Matcher α) : Prop :=
  ∀ s, C.Start s → Ensures C.lenient step s fun result s' =>
    C.Ended s result s' ∧ ∀ value, result = .ok value → s.source.pos + least ≤ s'.source.pos

/-- Where matching could go on, it can go on after moving. -/
theorem Ready.moves (h : C.Ready s) (hm : C.Moves s s') : C.Ready s' :=
  h.pass hm.passes hm.forward hm.boundary

namespace Moves

/-- Staying where matching can go on is a move. -/
theorem refl (h : C.Ready s) : C.Moves s s := ⟨.refl s, Nat.le_refl _, h.boundary⟩

/-- Moves may follow each other. -/
theorem trans (h : C.Moves s s') (h' : C.Moves s' s'') : C.Moves s s'' :=
  ⟨h.passes.trans h'.passes, Nat.le_trans h.forward h'.forward, h'.boundary⟩

/-- The memo of the second session may be another one that the first can be led to. -/
theorem withMemo (h : C.Moves s s') (hs : s''.source = s'.source) (hb : s''.bodies = s'.bodies)
    (hl : s''.labels = s'.labels) (hm : C.Leads s.memo s''.memo) : C.Moves s s'' where
  passes := ⟨hs ▸ h.passes.text, hb ▸ h.passes.bodies, hl.trans h.passes.labels, hm⟩
  forward := hs ▸ h.forward
  boundary := hs ▸ h.boundary

/-- A step that leaves alone all that the course looks at. -/
theorem of_eq (h : C.Moves s s') (hs : s''.source = s'.source) (hb : s''.bodies = s'.bodies)
    (hl : s''.labels = s'.labels) (hm : s''.memo = s'.memo) : C.Moves s s'' :=
  h.withMemo hs hb hl (hm ▸ h.passes.memo)

/-- The cursor may be moved to a boundary that is not before the start. -/
theorem moveTo (h : C.Moves s s') {pos : Nat} (hle : s.source.pos ≤ pos)
    (hb : C.text.isBoundary pos = true) : C.Moves s { s' with source.pos := pos } :=
  ⟨h.passes.trans (passes_of_eq rfl rfl rfl rfl), hle, hb⟩

end Moves

namespace Start

/-- At a boundary of the text. -/
theorem at_boundary (hs : C.Start s) : s.source.text.isBoundary s.source.pos = true :=
  hs.text ▸ hs.boundary

/-- The cursor can be put back to where it was. -/
theorem boundary_after (hs : C.Start s) (hm : C.Moves s s') :
    s'.source.text.isBoundary s.source.pos = true := hs.toReady.boundary_after hm.passes

/-- A scope may be opened. -/
theorem openScope (hs : C.Start s) : C.Start { s with captures := s.captures.openScope } :=
  ⟨⟨hs.text, hs.boundary, hs.bodies, hs.labels, hs.memo⟩,
    fun hst => Captures.intact_openScope (hs.captures hst)⟩

/-- Labels matter only for causes. -/
theorem withLabels (hs : C.Start s) (hst : ¬ C.strict) (labels : List String) :
    C.Start { s with labels } :=
  ⟨⟨hs.text, hs.boundary, hs.bodies, fun hst' => absurd hst' hst, hs.memo⟩, hs.captures⟩

/-- Bodies of the table may be built. -/
theorem moves_built (hs : C.Start s) {bodies : List (Nat × Atom)} (hb : C.table.Knows bodies)
    (trace : List Event) : C.Moves s { s with bodies, trace } :=
  ⟨⟨rfl, fun _ => hb, rfl, C.refl _⟩, Nat.le_refl _, hs.boundary⟩

/-- Matching can start with more bodies of the table built. -/
theorem built (hs : C.Start s) {bodies : List (Nat × Atom)} (hb : C.table.Knows bodies)
    (trace : List Event) : C.Start { s with bodies, trace } :=
  ⟨hs.toReady.moves (hs.moves_built hb trace), hs.captures⟩

/-- A step that leaves alone all that the course looks at ends with an intact result. -/
theorem ended (hs : C.Start s) {result : Except Cause α} (hr : C.slices → Intact result) :
    C.Ended s result s := ⟨.refl hs.toReady, hs.captures, hr⟩

end Start

namespace Ended

variable {result : Except Cause α} {other : Except Cause β}

/-- The next step can start where one has ended. -/
theorem start (h : C.Ended s result s') (hs : C.Start s) : C.Start s' :=
  ⟨hs.toReady.moves h.toMoves, h.captures⟩

/-- What came before may be taken in. -/
theorem after (h : C.Ended s' result s'') (hm : C.Moves s s') : C.Ended s result s'' :=
  ⟨hm.trans h.toMoves, h.captures, h.intact⟩

/-- Another intact result may take the place of the first. -/
theorem withResult (h : C.Ended s result s') (hr : C.slices → Intact other) : C.Ended s other s' :=
  ⟨h.toMoves, h.captures, hr⟩

/-- A step that leaves alone all that the course looks at. -/
theorem of_eq (h : C.Ended s result s') (hs : s''.source = s'.source) (hb : s''.bodies = s'.bodies)
    (hl : s''.labels = s'.labels) (hm : s''.memo = s'.memo) (hc : s''.captures = s'.captures) :
    C.Ended s result s'' :=
  ⟨h.toMoves.of_eq hs hb hl hm, fun hst => hc ▸ h.captures hst, h.intact⟩

/-- The cursor may be moved to a boundary that is not before the start. -/
theorem moveTo (h : C.Ended s result s') {pos : Nat} (hle : s.source.pos ≤ pos)
    (hb : C.text.isBoundary pos = true) : C.Ended s result { s' with source.pos := pos } :=
  ⟨h.toMoves.moveTo hle hb, h.captures, h.intact⟩

/-- The cursor may be put back to the start. -/
theorem back (h : C.Ended s result s') (hs : C.Start s) :
    C.Ended s result { s' with source.pos := s.source.pos } :=
  h.moveTo (Nat.le_refl _) hs.boundary

/-- A refusal has no slices but those of its message and of the causes that led to it. -/
theorem refuse (h : C.Ended s result s') {message : Message}
    (hm : C.slices → ∀ slice ∈ message.slices, slice.isIntact = true) {children : List Cause}
    (hc : C.slices → Intact children) {offset : Nat} {label : Option String} {reporter : Reporter} :
    C.Ended (α := β) s (.error ⟨message, offset, none, label, children⟩) { s' with reporter } :=
  (h.withResult fun hst => Cause.intact_iff.2 ⟨hm hst, hc hst⟩).of_eq rfl rfl rfl rfl rfl

end Ended

/-- To take no bytes at least is to end. -/
theorem takes_zero_iff {step : Matcher α} : C.Takes 0 step ↔ C.Ends step := by
  refine ⟨fun h s hs => (h s hs).mono fun _ _ he => he.1, fun h s hs => (h s hs).mono ?_⟩
  exact fun _ _ he => ⟨he, fun _ _ => he.forward⟩

/-- What takes so many bytes takes fewer. -/
theorem Takes.mono {step : Matcher α} {least least' : Nat} (h : C.Takes least step)
    (hle : least' ≤ least) : C.Takes least' step :=
  fun s hs => (h s hs).mono fun _ _ he =>
    ⟨he.1, fun value hv => Nat.le_trans (Nat.add_le_add_left hle _) (he.2 value hv)⟩

/-- What takes some bytes ends. -/
theorem Takes.ends {step : Matcher α} {least : Nat} (h : C.Takes least step) : C.Ends step :=
  takes_zero_iff.1 (h.mono (Nat.zero_le _))

/-- A guarded step puts the cursor back after a failure. -/
theorem Takes.ensures_guarded {step : Matcher Raw} {least : Nat} (h : C.Takes least step)
    (hs : C.Start s) :
    Ensures C.lenient (guarded step) s fun result s' =>
      (C.Ended s result s' ∧ ∀ value, result = .ok value → s.source.pos + least ≤ s'.source.pos) ∧
        ∀ cause, result = .error cause → s'.source.pos = s.source.pos := by
  simp only [Matcher.guarded, ensures_bind, ensures_position, ensures_attempt]
  refine (h s hs).mono ?_
  rintro result s' ⟨he, htakes⟩
  cases result with
  | ok raw =>
    simp only [ensures_bind, ensures_position, ensures_tell, ensures_pure]
    exact ⟨⟨he.of_eq rfl rfl rfl rfl rfl, fun _ _ => htakes raw rfl⟩, by simp⟩
  | error cause =>
    simp only [ensures_bind, ensures_moveTo (hs.boundary_after he.toMoves), ensures_fail]
    exact ⟨⟨he.back hs, by simp⟩, fun _ _ => trivial⟩

/-- A guarded step takes what the step takes, as only failures are put back. -/
theorem Takes.guarded {step : Matcher Raw} {least : Nat} (h : C.Takes least step) :
    C.Takes least (guarded step) :=
  fun _ hs => (h.ensures_guarded hs).mono fun _ _ hg => hg.1

/-- A guarded step ends if the step does. -/
theorem Ends.guarded {step : Matcher Raw} (h : C.Ends step) : C.Ends (guarded step) :=
  takes_zero_iff.1 (takes_zero_iff.2 h).guarded

/-- One step follows the other. -/
theorem Ends.andThen {first : Matcher α} {next : α → Matcher β} (h : C.Ends first)
    (hnext : ∀ value, (C.slices → Intact value) → C.Ends (next value)) : C.Ends (first >>= next) := by
  intro s hs
  rw [EndsAt, ensures_bind]
  refine (h s hs).mono fun result s₁ he => ?_
  cases result with
  | error cause => exact he.withResult he.intact
  | ok value =>
    exact (hnext value he.intact s₁ (he.start hs)).mono fun _ _ he' => he'.after he.toMoves

/-- An intact value at hand has ended. -/
theorem ends_pure {value : α} (h : C.slices → Intact value) : C.Ends (pure value : Matcher α) :=
  fun _ hs => hs.ended h

/-- Flattening ends with an intact tree. -/
theorem ends_flatten (named : Bool) {raw : Raw} (h : C.slices → Intact raw) :
    C.Ends (flatten named raw) := by
  intro s hs
  refine ensures_flatten _ _ _ fun _ _ => ?_
  have hflat (hst : C.slices) := raw.intact_flatten named (h hst)
  exact (hs.ended hflat).of_eq rfl rfl rfl rfl rfl

section Combinators

/-- A literal takes its own bytes. -/
theorem takes_literal (word : String) : C.Takes word.utf8ByteSize (Matcher.literal word) := by
  intro s hs
  have hstart : C.Ended (α := Raw) s (.ok .unit) s := hs.ended fun _ => Raw.intact_unit
  simp only [Matcher.literal, ensures_bind, ensures_source]
  split
  · exact ⟨hstart.refuse (by simp [Message.slices]) (by simp), by simp⟩
  · split
    · rename_i hw
      obtain ⟨hfit, hb⟩ := Source.isBoundary_of_startsWith hs.at_boundary hw
      simp only [ensures_bind, ensures_consume hfit, ensures_pure]
      refine ⟨(hstart.withResult fun _ => ?_).moveTo (Nat.le_add_right _ _) (hs.text ▸ hb),
        fun _ _ => Nat.le_refl _⟩
      rw [intact_ok, Raw.intact_leaf, Tree.intact_str]
      exact Source.isIntact_slice hs.at_boundary hb
    · have hpeek := Source.isIntact_peekChars hs.at_boundary word.length
      exact ⟨hstart.refuse (fun _ => by simpa [Message.slices] using hpeek) (by simp), by simp⟩

/-- A class of characters takes at least one byte. -/
theorem takes_character (whole : Atom) (test : Char → Bool) : C.Takes 1 (character whole test) := by
  intro s hs
  have hstart : C.Ended (α := Raw) s (.ok .unit) s := hs.ended fun _ => Raw.intact_unit
  simp only [character, ensures_bind, ensures_source]
  split
  · exact ⟨hstart.refuse (by simp [Message.slices]) (by simp), by simp⟩
  · rename_i c hc
    split
    · obtain ⟨hfit, hb⟩ := Source.isBoundary_of_nextChar? hs.at_boundary hc
      have hwidth := c.utf8Size_pos
      simp only [ensures_bind, ensures_consume hfit, ensures_pure]
      refine ⟨(hstart.withResult fun _ => ?_).moveTo (Nat.le_add_right _ _) (hs.text ▸ hb),
        fun _ _ => Nat.add_le_add_left hwidth _⟩
      rw [intact_ok, Raw.intact_leaf, Tree.intact_str]
      exact Source.isIntact_slice hs.at_boundary hb
    · exact ⟨hstart.refuse (by simp [Message.slices]) (by simp), by simp⟩

/-- A sequence ends if its parts do. -/
theorem ends_inOrder (whole : Atom) {parts : List (Matcher Raw)} (h : ∀ part ∈ parts, C.Ends part) :
    C.Ends (inOrder whole parts) := by
  induction parts with
  | nil => exact ends_pure fun _ => intact_nil
  | cons part rest ih =>
    intro s hs
    simp only [EndsAt, inOrder, ensures_bind, ensures_attempt]
    refine (h part (by simp) s hs).mono fun result s₁ he => ?_
    cases result with
    | error cause =>
      simp only [ensures_bind, ensures_position]
      exact he.refuse (by simp [Message.slices]) fun hst => by simpa using he.intact hst
    | ok value =>
      have hrest : C.Ends (do return value :: (← inOrder whole rest)) :=
        (ih fun part hp => h part (List.mem_cons_of_mem _ hp)).andThen fun values hv =>
          ends_pure fun hst => (intact_cons _ _).2 ⟨he.intact hst, hv hst⟩
      exact (hrest s₁ (he.start hs)).mono fun _ _ he' => he'.after he.toMoves

/-- Ordered branches end if each of them does, whatever intact causes there are from before. -/
theorem ends_firstOf (whole : Atom) (start : Nat) {branches : List (Matcher Raw)}
    (h : ∀ branch ∈ branches, C.Ends branch) {causes : List Cause} (hc : C.slices → Intact causes) :
    C.Ends (firstOf whole start branches causes) := by
  induction branches generalizing causes with
  | nil =>
    intro s hs
    have hstart : C.Ended (α := Raw) s (.ok .unit) s := hs.ended fun _ => Raw.intact_unit
    refine (hstart.of_eq rfl rfl rfl rfl rfl).refuse (by simp [Message.slices]) fun hst => ?_
    rw [intact_list]
    intro cause hcause
    exact intact_list.1 (hc hst) cause (List.mem_reverse.1 hcause)
  | cons branch rest ih =>
    intro s hs
    simp only [EndsAt, firstOf, ensures_bind, ensures_attempt]
    refine (h branch (by simp) s hs).mono fun result s₁ he => ?_
    cases result with
    | ok value => exact he.of_eq rfl rfl rfl rfl rfl
    | error cause =>
      have hcauses (hst : C.slices) : Intact (cause :: causes) :=
        (intact_cons _ _).2 ⟨he.intact hst, hc hst⟩
      have hrest := ih (fun branch hb => h branch (List.mem_cons_of_mem _ hb)) hcauses
      exact (hrest s₁ (he.start hs)).mono fun _ _ he' => he'.after he.toMoves

/-- A choice ends if its branches do. -/
theorem ends_choice (whole : Atom) {branches : List (Matcher Raw)}
    (h : ∀ branch ∈ branches, C.Ends branch) : C.Ends (choice whole branches) := by
  intro s hs
  have hstart : C.Ended (α := Raw) s (.ok .unit) { s with
      reporter := s.reporter.observe .choiceStarted } :=
    (hs.ended fun _ => Raw.intact_unit).of_eq rfl rfl rfl rfl rfl
  simp only [EndsAt, choice, ensures_bind, ensures_position, ensures_tell]
  refine (ends_firstOf whole _ h (fun _ => intact_nil) _ (hstart.start hs)).mono ?_
  exact fun _ _ he => he.after hstart.toMoves

/-- There are no more rounds than bytes left, but for one: the last may consume nothing. -/
theorem ensures_roundsFrom {body : Matcher Raw} (h : C.Ends body) (max : Option Nat)
    (bound count : Nat) (hs : C.Start s)
    (hbound : C.lenient .spent ∨ C.text.size < s.source.pos + bound) :
    C.EndsAt (roundsFrom body max bound count) s := by
  induction bound generalizing count s with
  | zero =>
    rcases hbound with hlenient | hbound
    · exact hlenient
    · have := Text.le_size_of_isBoundary hs.boundary
      omega
  | succ bound ih =>
    rw [roundsFrom]
    split
    · exact hs.ended (by simp)
    · simp only [EndsAt, ensures_bind, ensures_position, ensures_attempt]
      refine (h s hs).mono fun result s₁ he => ?_
      cases result with
      | error cause => exact he.withResult fun hst => by simpa using he.intact hst
      | ok value =>
        have hforward := he.forward
        simp only [ensures_bind, ensures_position]
        split
        · exact he.withResult fun hst => by simpa using he.intact hst
        · simp only [ensures_bind]
          refine (ih (count + 1) (he.start hs) (hbound.imp_right fun hbound => by omega)).mono ?_
          intro result s₂ he'
          cases result with
          | error cause => exact he'.after he.toMoves
          | ok rounds =>
            refine (he'.withResult fun hst => ?_).after he.toMoves
            have hvalue := he.intact hst
            have hrounds := he'.intact hst
            simp only [intact_ok, intact_pair, intact_cons] at hvalue hrounds ⊢
            exact ⟨⟨hvalue, hrounds.1⟩, hrounds.2⟩

/-- A repetition ends if its body does: a round that does not move is the last one. -/
theorem ends_repetition (part : Atom) {body : Matcher Raw} (h : C.Ends body) (min : Nat)
    (max : Option Nat) (optional : Bool) : C.Ends (repetition part body min max optional) := by
  intro s hs
  have hsize := Source.pos_add_remaining hs.at_boundary
  rw [hs.text] at hsize
  simp only [EndsAt, repetition, ensures_bind, ensures_position, ensures_source]
  refine (ensures_roundsFrom h max _ 0 hs (.inr (by omega))).mono fun result s₁ he => ?_
  cases result with
  | error cause => exact he.withResult he.intact
  | ok rounds =>
    dsimp only
    have hrounds (hst : C.slices) : Intact rounds.1 ∧ Intact rounds.2 :=
      (intact_pair rounds).1 (he.intact hst)
    split
    · refine he.refuse (by simp [Message.slices]) fun hst => ?_
      have hended := (hrounds hst).2
      cases hcause : rounds.2 with
      | none => simp
      | some cause =>
        rw [hcause, intact_some] at hended
        simpa using hended
    · refine (he.withResult fun hst => ?_).of_eq rfl rfl rfl rfl rfl
      rw [intact_ok]
      split
      · rw [Raw.intact_optional]
        cases hlast : rounds.1.getLast? with
        | none => exact intact_none
        | some value =>
          exact (intact_some value).2
            (intact_list.1 (hrounds hst).1 value (List.mem_of_getLast? hlast))
      · exact (Raw.intact_repetition _).2 (hrounds hst).1

/-- A lookahead ends if its part does. -/
theorem ends_lookahead (part : Atom) {body : Matcher Raw} (h : C.Ends body) (positive : Bool) :
    C.Ends (lookahead part body positive) := by
  intro s hs
  simp only [EndsAt, lookahead, ensures_bind, ensures_position, ensures_attempt]
  refine (h s hs).mono fun result s₁ he => ?_
  simp only [ensures_moveTo (hs.boundary_after he.toMoves)]
  have hback := he.back hs
  cases result with
  | ok raw =>
    cases positive
    · exact hback.refuse (by simp [Message.slices]) (by simp)
    · exact hback.withResult fun _ => Raw.intact_unit
  | error cause =>
    cases positive
    · exact hback.withResult fun _ => Raw.intact_unit
    · exact hback.refuse (by simp [Message.slices]) fun hst => by simpa using he.intact hst

/-- A named part ends if the part does. -/
theorem ends_named {body : Matcher Raw} (h : C.Ends body) (name : String) :
    C.Ends (named body name) := by
  refine h.andThen fun raw hr => (ends_flatten true hr).andThen fun value hv => ?_
  exact ends_pure fun hst => by simpa using hv hst

/-- A transformed part ends if the part does and the transformation makes intact trees of intact
ones. -/
theorem ends_mapped {body : Matcher Raw} (h : C.Ends body) {transform : Tree → Tree}
    (ht : C.slices → ∀ tree, Intact tree → Intact (transform tree)) :
    C.Ends (mapped body transform) := by
  refine h.andThen fun raw hr => (ends_flatten false hr).andThen fun value hv => ?_
  exact ends_pure fun hst => (Raw.intact_leaf _).2 (ht hst value (hv hst))

/-- A marked part ends if the part does. -/
theorem ends_marked {body : Matcher Raw} (h : C.Ends body) : C.Ends (marked body) := by
  intro s hs
  simp only [EndsAt, marked, ensures_bind, ensures_position]
  refine (h s hs).mono fun result s₁ he => ?_
  cases result with
  | error cause => exact he
  | ok raw =>
    simp only [ensures_moveTo (hs.boundary_after he.toMoves), ensures_pure]
    exact he.back hs

/-- A captured part ends if the part does, and what it captures is intact. -/
theorem ends_captured {body : Matcher Raw} (h : C.Ends body) (name : String) :
    C.Ends (captured body name) := by
  refine h.andThen fun raw hr => (ends_flatten false hr).andThen fun value hv => fun s hs => ?_
  refine ⟨(Moves.refl hs.toReady).of_eq rfl rfl rfl rfl, fun hst => ?_, fun hst => ?_⟩
  · exact Captures.intact_insert (hs.captures hst) (hv hst)
  · exact (Raw.intact_leaf _).2 (hv hst)

/-- A scope ends if its body does, with the captures from before it. -/
theorem ends_inScope {body : Matcher Raw} (h : C.Ends body) : C.Ends (inScope body) := by
  intro s hs
  have hm : C.Moves s { s with captures := s.captures.openScope } :=
    (Moves.refl hs.toReady).of_eq rfl rfl rfl rfl
  simp only [EndsAt, inScope, ensures_bind, ensures_modify, ensures_attempt, ensures_ofResult]
  refine (h _ hs.openScope).mono fun result s₁ he => ?_
  exact ⟨(hm.trans he.toMoves).of_eq rfl rfl rfl rfl,
    fun hst => Captures.intact_closeScope (he.captures hst), he.intact⟩

/-- Labels are put back to what they were. -/
theorem ends_labelled {body : Matcher Raw} (h : C.Ends body) (hst : ¬ C.strict) (label : String) :
    C.Ends (labelled body label) := by
  intro s hs
  simp only [EndsAt, labelled, ensures_bind, ensures_modify, ensures_attempt, ensures_ofResult]
  refine (h _ (hs.withLabels hst _)).mono fun result s₂ he => ?_
  refine ⟨⟨⟨he.passes.text, he.passes.bodies, ?_, he.passes.memo⟩, he.forward, he.boundary⟩,
    he.captures, he.intact⟩
  rw [he.passes.labels]
  rfl

/-- Taking in the rest ends. -/
theorem ends_halt : C.Ends Matcher.halt := by
  intro s hs
  have hsize := Source.pos_add_remaining hs.at_boundary
  have hstart : C.Ended (α := Raw) s (.ok .unit) s := hs.ended fun _ => Raw.intact_unit
  simp only [EndsAt, Matcher.halt, ensures_bind, ensures_source, ensures_consume (Nat.le_refl _),
    ensures_pure]
  refine hstart.moveTo (Nat.le_add_right _ _) ?_
  rw [hsize, hs.text]
  exact Text.isBoundary_size _

end Combinators

section Operators

/-- An operand ends if the expression for it does. -/
theorem ends_operand (part : Atom) {body : Matcher Raw} (h : C.Ends body) :
    C.Ends (operand part body) := by
  intro s hs
  simp only [EndsAt, operand, ensures_bind, ensures_attempt]
  refine (h s hs).mono fun result s₁ he => ?_
  cases result with
  | ok raw =>
    refine (ends_flatten true he.intact s₁ (he.start hs)).mono ?_
    exact fun _ _ he' => he'.after he.toMoves
  | error cause =>
    exact he.refuse (by simp [Message.slices]) fun hst => by simpa using he.intact hst

/-- An operator that is found has consumed as much input as every one in the table does. -/
theorem ensures_operator {table : List (Fixity × Matcher Raw)} {least : Nat}
    (h : ∀ op ∈ table, C.Takes least op.2) (hs : C.Start s) :
    Ensures C.lenient (operator table) s fun result s' =>
      C.Ended s result s' ∧ ∀ found, result = .ok (some found) →
        s.source.pos + least ≤ s'.source.pos := by
  induction table generalizing s with
  | nil => exact ⟨hs.ended (by simp), by simp⟩
  | cons op rest ih =>
    simp only [operator, ensures_bind, ensures_attempt]
    refine (h op (by simp) s hs).mono ?_
    rintro result s₁ ⟨he, htakes⟩
    cases result with
    | ok raw =>
      simp only [ensures_bind]
      refine ensures_flatten _ _ _ fun _ _ => ⟨?_, fun _ _ => htakes raw rfl⟩
      refine (he.withResult fun hst => ?_).of_eq rfl rfl rfl rfl rfl
      simpa using raw.intact_flatten true (he.intact hst)
    | error cause =>
      refine (ih (fun op hop => h op (List.mem_cons_of_mem _ hop)) (he.start hs)).mono ?_
      rintro result s₂ ⟨he', hfound⟩
      have hforward := he.forward
      refine ⟨he'.after he.toMoves, fun found hr => ?_⟩
      have := hfound found hr
      omega

/-- Climbing goes on only behind an operator, so no longer than there are bytes left if operators
consume some. -/
theorem ensures_climbFrom {element : Matcher Tree} {next : Matcher (Option (Tree × Fixity))}
    {least : Nat} (he : C.Ends element)
    (hn : ∀ s, C.Start s → Ensures C.lenient next s fun result s' =>
      C.Ended s result s' ∧ ∀ found, result = .ok (some found) → s.source.pos + least ≤ s'.source.pos)
    {combine : Tree → Tree → Tree → Tree}
    (hcombine : C.slices → ∀ left operator right, Intact left → Intact operator → Intact right →
      Intact (combine left operator right))
    (bound : Nat) (floor : UInt32) {left : Tree} (hleft : C.slices → Intact left) (hs : C.Start s)
    (hbound : C.lenient .spent ∨ 1 ≤ least ∧ C.text.size < s.source.pos + bound) :
    C.EndsAt (climbFrom element next combine bound floor left) s := by
  induction bound generalizing floor left s with
  | zero =>
    rcases hbound with hlenient | ⟨-, hbound⟩
    · exact hlenient
    · have := Text.le_size_of_isBoundary hs.boundary
      omega
  | succ bound ih =>
    simp only [EndsAt, climbFrom, ensures_bind, ensures_position]
    refine (hn s hs).mono ?_
    rintro result s₁ ⟨he₁, hfound⟩
    rcases result with cause | _ | ⟨symbol, fixity⟩
    · exact he₁.withResult he₁.intact
    · exact he₁.withResult hleft
    · have hpast := hfound _ rfl
      have hsymbol (hst : C.slices) : Intact symbol := by
        have hpair := he₁.intact hst
        simp only [intact_ok, intact_some, intact_pair] at hpair
        exact hpair.1
      dsimp only
      split
      · simp only [ensures_bind, ensures_moveTo (hs.boundary_after he₁.toMoves), ensures_pure]
        exact (he₁.back hs).withResult hleft
      · have hs₁ := he₁.start hs
        simp only [ensures_bind]
        refine (he s₁ hs₁).mono fun result s₂ he₂ => ?_
        cases result with
        | error cause => exact he₂.after he₁.toMoves
        | ok first =>
          have hs₂ := he₂.start hs₁
          have hforward₂ := he₂.forward
          have hroom {pos : Nat} (hle : s₂.source.pos ≤ pos) :
              C.lenient .spent ∨ 1 ≤ least ∧ C.text.size < pos + bound := by
            rcases hbound with hlenient | ⟨hleast, hbound⟩
            · exact .inl hlenient
            · exact .inr ⟨hleast, by omega⟩
          refine (ih fixity.rightFloor he₂.intact hs₂ (hroom (Nat.le_refl _))).mono ?_
          intro result s₃ he₃
          have hm := (he₁.toMoves.trans he₂.toMoves).trans he₃.toMoves
          cases result with
          | error cause => exact he₃.after (he₁.toMoves.trans he₂.toMoves)
          | ok right =>
            have hcombined (hst : C.slices) : Intact (combine left symbol right) :=
              hcombine hst _ _ _ (hleft hst) (hsymbol hst) (he₃.intact hst)
            refine (ih floor hcombined (he₃.start hs₂) (hroom he₃.forward)).mono ?_
            exact fun _ _ he' => he'.after hm

variable (C) in
/-- The course puts up with a bound that is spent and asks nothing of slices and labels. -/
structure Lax : Prop where
  strict : ¬ C.strict
  spent : C.lenient .spent
  slices : ¬ C.slices

/-- An operator ends if those in the table do. -/
theorem ends_operator {table : List (Fixity × Matcher Raw)} (h : ∀ op ∈ table, C.Ends op.2) :
    C.Ends (operator table) :=
  fun _ hs => (ensures_operator (fun op hop => takes_zero_iff.2 (h op hop)) hs).mono fun _ _ he => he.1

/-- On a lax course climbing ends if operand and scan do. -/
theorem ends_climbFrom (hlax : C.Lax) {element : Matcher Tree} {next : Matcher (Option (Tree × Fixity))}
    (he : C.Ends element) (hn : C.Ends next) (combine : Tree → Tree → Tree → Tree)
    (bound : Nat) (floor : UInt32) (left : Tree) : C.Ends (climbFrom element next combine bound floor left) := by
  intro s hs
  have hnext (s : Session) (hs : C.Start s) : Ensures C.lenient next s fun result s' =>
      C.Ended s result s' ∧ ∀ found, result = .ok (some found) → s.source.pos + 0 ≤ s'.source.pos :=
    (hn s hs).mono fun _ _ he => ⟨he, fun _ _ => he.forward⟩
  exact ensures_climbFrom he hnext (fun hst => absurd hst hlax.slices) bound floor
    (fun hst => absurd hst hlax.slices) hs (.inl hlax.spent)

/-- The bound on operators leaves room for one behind each byte that is left. -/
theorem lt_operatorBound (bytes : Nat) : bytes < operatorBound bytes := by
  have hpos : 0 < UInt32.size := by decide
  exact Nat.lt_of_lt_of_le (Nat.lt_succ_self _) (Nat.le_mul_of_pos_right _ hpos)

/-- An operator expression ends if operand and operators do; unless the course puts up with a
spent bound, every operator has to take a byte. -/
theorem ends_operators (part : Atom) {body : Matcher Raw} (h : C.Ends body)
    {table : List (Fixity × Matcher Raw)} (least : Nat) (ht : ∀ op ∈ table, C.Takes least op.2)
    (hleast : C.lenient .spent ∨ 1 ≤ least) {combine : Option (Tree → Tree → Tree → Tree)}
    (hcombine : C.slices → ∀ left operator right, Intact left → Intact operator → Intact right →
      Intact (combine.getD Tree.operation left operator right)) :
    C.Ends (operators part body table combine) := by
  intro s hs
  have hroom := lt_operatorBound s.source.remaining
  have hsize := Source.pos_add_remaining hs.at_boundary
  rw [hs.text] at hsize
  simp only [EndsAt, operators, climb, ensures_bind, ensures_source]
  refine (ends_operand part h s hs).mono fun result s₁ he => ?_
  cases result with
  | error cause => exact he.withResult he.intact
  | ok first =>
    have hforward := he.forward
    have hbound : C.lenient .spent ∨
        1 ≤ least ∧ C.text.size < s₁.source.pos + operatorBound s.source.remaining := by
      rcases hleast with hlenient | hleast
      · exact .inl hlenient
      · exact .inr ⟨hleast, by omega⟩
    refine (ensures_climbFrom (ends_operand part h) (fun s hs => ensures_operator ht hs) hcombine _ 0
      he.intact (he.start hs) hbound).mono fun result s₂ he' => ?_
    cases result with
    | error cause =>
      have hfailed : C.Ended (α := Raw) s₁ (.error cause) s₂ := he'.withResult he'.intact
      exact hfailed.after he.toMoves
    | ok tree =>
      have hleaf (hst : C.slices) : Intact (Raw.leaf tree) := (Raw.intact_leaf _).2 (he'.intact hst)
      exact (he'.withResult hleaf).after he.toMoves

end Operators

variable (C) in
/-- What is asked of an expression for it to end, given that its parts do: references have to, operators
have to consume input unless that plays no part, and values have to be kept intact if that is asked. -/
def Admits (apply : RuleRef → Matcher Raw) (atom : Atom) : Prop :=
  (∀ ref, atom = .rule ref → C.Ends (apply ref)) ∧ (C.lenient .spent ∨ atom.isTame = true) ∧
    (C.slices → atom.TransformsIntact)

/-- Applying a reference ends if applying the rule that it leads to does, and what the rule comes to is what the
reference comes to. A reference that leads nowhere is refused. -/
theorem ensures_applyRefBy {ref : RuleRef} {step : Nat → Atom → Matcher Tree} (hs : C.Start s)
    (post : Nat → Except Cause Tree → Session → Prop)
    (happly : ∀ index atom bodies trace, C.table.bodyAt? index = some atom →
      C.Start { s with bodies, trace } →
        Ensures C.lenient (step index atom) { s with bodies, trace } fun result s' =>
          C.Ended { s with bodies, trace } result s' ∧ post index result s') :
    Ensures C.lenient (C.table.applyBy step ref) s fun result s' => C.Ended s result s' ∧
      ((∃ label, result = .error ⟨.undefinedRule ref.name, s.source.pos, none, label, []⟩) ∨
        ∃ index answer, result = answer.map .leaf ∧ post index answer s') := by
  refine ensures_applyBy hs.bodies (fun undefined trace reporter hr => ?_)
    fun index atom bodies trace hr hatom hbodies => ?_
  · have hfailed : Intact (⟨.undefinedRule ref.name, s.source.pos, none, s.labels.head?, []⟩ : Cause) :=
      Cause.intact_iff.2 ⟨by simp [Message.slices], intact_nil⟩
    exact ⟨(hs.ended fun _ => (intact_error _).2 hfailed).of_eq rfl rfl rfl rfl rfl, .inl ⟨_, rfl⟩⟩
  · have hpasses := hs.moves_built hbodies trace
    refine (happly index atom bodies trace hatom (hs.built hbodies trace)).mono ?_
    rintro result s' ⟨he, hpost⟩
    refine ⟨(he.after hpasses).withResult fun hst => ?_, .inr ⟨index, result, rfl, hpost⟩⟩
    cases result with
    | error cause => exact he.intact hst
    | ok tree => exact (Raw.intact_leaf _).2 (he.intact hst)

/-- The same of rules that are applied through the memo. -/
theorem ensures_applyRef {ref : RuleRef} {body : Nat → Atom → Matcher Raw} (hs : C.Start s)
    (post : Nat → Except Cause Tree → Session → Prop)
    (happly : ∀ index atom bodies trace, C.table.bodyAt? index = some atom →
      C.Start { s with bodies, trace } →
        Ensures C.lenient (memoized ⟨index, ref.name, do flatten false (← body index atom)⟩)
          { s with bodies, trace } fun result s' => C.Ended { s with bodies, trace } result s' ∧
            post index result s') :
    Ensures C.lenient (C.table.applyWith body ref) s fun result s' => C.Ended s result s' ∧
      ((∃ label, result = .error ⟨.undefinedRule ref.name, s.source.pos, none, label, []⟩) ∨
        ∃ index answer, result = answer.map .leaf ∧ post index answer s') :=
  ensures_applyRefBy hs post happly

section Watched

variable {watch : Watch} {apply : RuleRef → Matcher Raw}
  (hwatch : ∀ atom least step, C.Takes least step → C.Takes least (watch atom step))

include hwatch

/-- A symbol takes at least one byte. -/
theorem takes_symbol {atom : Atom} (h : atom.isSymbol = true) :
    C.Takes 1 (atom.watched watch apply) := by
  cases atom with
  | literal word =>
    have hne : word ≠ "" := by simpa [Atom.isSymbol] using h
    have hwidth : 1 ≤ word.utf8ByteSize := by
      rw [Nat.one_le_iff_ne_zero]
      exact fun hzero => hne (String.utf8ByteSize_eq_zero_iff.1 hzero)
    exact (hwatch _ _ _ (takes_literal word)).mono hwidth
  | char test => exact hwatch _ _ _ (takes_character _ test.accepts)
  | _ => cases h

/-- An expression ends if references do and operators are symbols, however it is watched. -/
theorem ends_watched (hst : ¬ C.strict) {atom : Atom}
    (h : atom.EveryFor (fun captures => C.slices → Intact captures) (C.Admits apply)) :
    C.Ends (atom.watched watch apply) := by
  have hends {atom : Atom} {step : Matcher Raw} (he : C.Ends step) : C.Ends (watch atom step) :=
    (hwatch _ _ _ (takes_zero_iff.2 he)).ends
  induction h with
  | @intro atom here _ _ ihparts ihpicks =>
  obtain ⟨hrule, htame, hintact⟩ := here
  cases atom with
  | literal word => exact hends (takes_literal word).ends
  | char test => exact hends (takes_character _ test.accepts).ends
  | sequence parts =>
    simp only [Atom.watched, Atom.watchedAll_eq_map]
    refine hends (Ends.andThen (ends_inOrder _ fun part hp => ?_) fun _ hv =>
      ends_pure fun hst => (Raw.intact_sequence _).2 (hv hst))
    obtain ⟨a, ha, rfl⟩ := List.mem_map.1 hp
    exact ihparts a (.sequence ha) (by simp)
  | choice branches =>
    simp only [Atom.watched, Atom.watchedAll_eq_map]
    refine hends (ends_choice _ fun branch hb => ?_)
    obtain ⟨a, ha, rfl⟩ := List.mem_map.1 hb
    exact ihparts a (.choice ha) (by simp)
  | repetition body min max optional =>
    exact hends (ends_repetition body (ihparts body (.repetition ..) (by simp)) min max optional)
  | lookahead body positive =>
    exact hends (ends_lookahead body (ihparts body (.lookahead ..) (by simp)) positive)
  | named body name => exact hends (ends_named (ihparts body (.named ..) (by simp)) name)
  | rule ref => exact hends (hrule ref rfl)
  | ignore body =>
    exact hends ((ihparts body (.ignore _) (by simp)).andThen fun _ _ =>
      ends_pure fun _ => Raw.intact_unit)
  | map body transform => exact hends (ends_mapped (ihparts body (.map ..) (by simp)) hintact)
  | mark body => exact hends (ends_marked (ihparts body (.mark _) (by simp)))
  | capture body name => exact hends (ends_captured (ihparts body (.capture ..) (by simp)) name)
  | scope body => exact hends (ends_inScope (ihparts body (.scope _) (by simp)))
  | dynamic pick =>
    exact hends fun s hs => ihpicks pick s.source s.captures rfl hs.captures s hs
  | operators operand table combine =>
    simp only [Atom.watched, Atom.watchedOperators_eq_map]
    have hoperand := ihparts operand (.operand ..) (by simp)
    have hcombine (hst : C.slices) (left operator right : Tree) (hl : Intact left)
        (ho : Intact operator) (hr : Intact right) :
        Intact (combine.getD Tree.operation left operator right) := by
      cases combine with
      | none => exact Tree.intact_operation hl ho hr
      | some combine => exact hintact hst left operator right hl ho hr
    rcases htame with hlenient | htame
    · refine hends (ends_operators operand hoperand 0 (fun op hop => ?_) (.inl hlenient)
        hcombine)
      obtain ⟨op, hmem, rfl⟩ := List.mem_map.1 hop
      exact takes_zero_iff.2 (ihparts op.2 (.operator _ _ hmem) (by simp))
    · refine hends (ends_operators operand hoperand 1 (fun op hop => ?_)
        (.inr (Nat.le_refl 1)) hcombine)
      obtain ⟨op, hmem, rfl⟩ := List.mem_map.1 hop
      exact takes_symbol hwatch (List.all_eq_true.1 htame op hmem)
  | label body label => exact hends (ends_labelled (ihparts body (.label ..) (by simp)) hst label)
  | halt => exact hends ends_halt

end Watched

/-- An expression ends if references do, however it is watched, where slices and operators play no part. -/
theorem ends_watched_of_lax (hlax : C.Lax) {watch : Watch} {apply : RuleRef → Matcher Raw}
    (hwatch : ∀ atom least step, C.Takes least step → C.Takes least (watch atom step))
    (hrules : ∀ ref, C.Ends (apply ref)) (atom : Atom) : C.Ends (atom.watched watch apply) := by
  have hadmits : atom.Every (C.Admits apply) := .of_forall
    (fun _ => ⟨fun ref _ => hrules ref, .inl hlax.spent, fun hst => absurd hst hlax.slices⟩) atom
  exact ends_watched hwatch hlax.strict (hadmits.everyFor _)

/-- An expression ends if references do. -/
theorem ends_matcher (hlax : C.Lax) {apply : RuleRef → Matcher Raw}
    (hrules : ∀ ref, C.Ends (apply ref)) (atom : Atom) :
    C.Ends (atom.matcher apply) := by
  rw [← Atom.watched_guarded]
  exact ends_watched_of_lax hlax (fun _ _ _ h => h.guarded) hrules atom

end Course

end Packrat
