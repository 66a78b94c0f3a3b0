import Mathlib
import Packrat.Proofs.Steady
import Packrat.Proofs.Termination
import Packrat.Proofs.Verbatim
import Packrat.Proofs.Yielding

/-!
# Values are what the text says

Expressions that keep all that they match, in place and as it is, match with values that quote the text:
unit only where nothing was matched, a string only if it is all the text that was matched, and no other
strings inside than such as stand in the text where they were found. Left out are expressions that drop
or transform a value, that read ahead of where they stop, and operators that combine values in a way of
their own. The statement holds for every application of every expression in a match, in whatever state
the memo is. It is made by a watch that breaks a match off at a value that does not quote the text.
-/

namespace Packrat

open Matcher Course

/-- An expression that keeps what it matches, in place and as it is. An optional part stands for at most
one round, as with `Atom.maybe`. -/
def Atom.isVerbatim : Atom → Bool
  | .ignore _ => false
  | .map _ _ => false
  | .mark _ => false
  | .halt => false
  | .operators _ _ combine => combine.isNone
  | .repetition _ _ max optional => !optional || max == some 1
  | _ => true

namespace Course

variable {C : Course} {α β : Type} [Sliced α] [Sliced β] {s : Session}
  {spans spans' : Nat → Nat → α → Prop}

variable (C) in
/-- From every fit session the step matches or fails, and the value of a match is as it should be for what
was matched. -/
def Gives (spans : Nat → Nat → α → Prop) (step : Matcher α) : Prop :=
  ∀ s, C.Start s → Ensures C.lenient step s fun result s' =>
    C.Ended s result s' ∧ ∀ value, result = .ok value → spans s.source.pos s'.source.pos value

variable (C) in
/-- The raw value quotes what was matched. -/
abbrev RawSpans (start stop : Nat) (raw : Raw) : Prop := raw.spans C.text start stop = true

variable (C) in
/-- The tree quotes what was matched. -/
abbrev TreeSpans (start stop : Nat) (tree : Tree) : Prop := tree.spans C.text start stop = true

variable (C) in
/-- From every fit session the step gives a value that quotes what was matched, or else leaves the cursor
where it was. -/
def Quoting (step : Matcher Raw) : Prop :=
  ∀ s, C.Start s → Ensures C.lenient step s fun result s' => C.Ended s result s' ∧
    (∀ raw, result = .ok raw → C.RawSpans s.source.pos s'.source.pos raw) ∧
      ∀ cause, result = .error cause → s'.source.pos = s.source.pos

/-- A step that gives such values ends. -/
theorem Gives.ends {step : Matcher α} (h : C.Gives spans step) : C.Ends step :=
  fun s hs => (h s hs).mono fun _ _ he => he.1

/-- A step that quotes what it matches gives such values, whether or not it goes back after a
failure. -/
theorem Quoting.gives {step : Matcher Raw} (h : C.Quoting step) : C.Gives C.RawSpans step :=
  fun s hs => (h s hs).mono fun _ _ he => ⟨he.1, he.2.1⟩

/-- A step that is known to end gives what else it ensures. -/
theorem Ends.gives {step : Matcher α} (h : C.Ends step)
    (hvalue : ∀ s, C.Start s → Ensures C.lenient step s fun result s' =>
      ∀ value, result = .ok value → spans s.source.pos s'.source.pos value) : C.Gives spans step :=
  fun s hs => Ensures.and (h s hs) (hvalue s hs)

/-- A value may be changed where the step has ended. -/
theorem Gives.map {step : Matcher α} {f : α → β} {spans' : Nat → Nat → β → Prop}
    (h : C.Gives spans step) (hf : ∀ value, (C.slices → Intact value) → C.slices → Intact (f value))
    (hspans : ∀ start stop value, spans start stop value → spans' start stop (f value)) :
    C.Gives spans' (do return f (← step)) := by
  intro s hs
  simp only [ensures_bind, ensures_pure]
  refine (h s hs).mono fun result s' he => ?_
  cases result with
  | error cause => exact ⟨he.1.withResult he.1.intact, by simp⟩
  | ok value =>
    refine ⟨he.1.withResult (hf value he.1.intact), fun value' heq => ?_⟩
    cases heq
    exact hspans _ _ _ (he.2 value rfl)

/-- A flat value quotes what the raw one does. -/
theorem Gives.flat {step : Matcher Raw} (h : C.Gives C.RawSpans step) (named : Bool) :
    C.Gives C.TreeSpans (do flatten named (← step)) := by
  refine (h.ends.andThen fun raw hr => ends_flatten named hr).gives fun s hs => ?_
  rw [ensures_bind]
  refine (h s hs).mono fun result s' he => ?_
  cases result with
  | error cause => simp
  | ok raw =>
    refine ensures_flatten _ _ _ fun _ _ tree heq => ?_
    cases heq
    exact Raw.spans_iff.1 (he.2 raw rfl) named

/-- A value may be made flat and passed on. -/
theorem Gives.flattened {step : Matcher Raw} {next : Tree → Matcher β}
    {spans' : Nat → Nat → β → Prop} (h : C.Gives C.RawSpans step) (named : Bool)
    (hends : C.Ends (do next (← flatten named (← step))))
    (hnext : ∀ start s value, C.TreeSpans start s.source.pos value →
      Ensures C.lenient (next value) s fun result s' =>
        ∀ value', result = .ok value' → spans' start s'.source.pos value') :
    C.Gives spans' (do next (← flatten named (← step))) := by
  refine hends.gives fun s hs => ?_
  rw [ensures_bind]
  refine (h s hs).mono fun result s' he => ?_
  cases result with
  | error cause => simp
  | ok raw =>
    simp only [ensures_bind]
    refine ensures_flatten _ _ _ fun _ _ => hnext _ _ _ ?_
    exact Raw.spans_iff.1 (he.2 raw rfl) named

/-- A guarded step quotes what it matches if the step does. -/
theorem Gives.guarded {step : Matcher Raw} (h : C.Gives C.RawSpans step) : C.Quoting (guarded step) := by
  intro s hs
  simp only [Matcher.guarded, ensures_bind, ensures_position, ensures_attempt]
  refine (h s hs).mono ?_
  rintro result s' ⟨he, hspans⟩
  cases result with
  | ok raw =>
    simp only [ensures_bind, ensures_position, ensures_tell, ensures_pure]
    exact ⟨he.of_eq rfl rfl rfl rfl rfl, hspans, by simp⟩
  | error cause =>
    simp only [ensures_bind, ensures_moveTo (hs.boundary_after he.toMoves), ensures_fail]
    exact ⟨he.back hs, by simp, fun _ _ => trivial⟩

section Combinators

/-- What is consumed is a view of the text. -/
theorem rawSpans_consumed (hs : C.Start s) {n : Nat} (hb : C.text.isBoundary (s.source.pos + n) = true) :
    C.RawSpans s.source.pos (s.source.pos + n) (.leaf (.str (s.source.slice s.source.pos n))) := by
  rw [RawSpans, Raw.spans_leaf, Tree.spans_str, Slice.isView_iff]
  refine ⟨by rw [← hs.text]; rfl, Source.isIntact_slice hs.at_boundary ?_⟩
  rw [hs.text]
  exact hb

/-- A literal gives the text it has consumed. -/
theorem gives_literal (word : String) : C.Gives C.RawSpans (Matcher.literal word) := by
  refine (takes_literal word).ends.gives fun s hs => ?_
  simp only [Matcher.literal, ensures_bind, ensures_source]
  split
  · simp
  · split
    · rename_i hw
      obtain ⟨hfit, hb⟩ := Source.isBoundary_of_startsWith hs.at_boundary hw
      simp only [ensures_bind, ensures_consume hfit, ensures_pure]
      intro raw heq
      cases heq
      exact rawSpans_consumed hs (hs.text ▸ hb)
    · simp

/-- A class of characters gives the character it has consumed. -/
theorem gives_character (whole : Atom) (test : Char → Bool) :
    C.Gives C.RawSpans (character whole test) := by
  refine (takes_character whole test).ends.gives fun s hs => ?_
  simp only [character, ensures_bind, ensures_source]
  split
  · simp
  · rename_i c hc
    split
    · obtain ⟨hfit, hb⟩ := Source.isBoundary_of_nextChar? hs.at_boundary hc
      simp only [ensures_bind, ensures_consume hfit, ensures_pure]
      intro raw heq
      cases heq
      exact rawSpans_consumed hs (hs.text ▸ hb)
    · simp

variable {body : Matcher Raw}

/-- A sequence gives values that follow one another, as its parts do. -/
theorem gives_inOrder (whole : Atom) {parts : List (Matcher Raw)} (h : ∀ part ∈ parts, C.Quoting part) :
    C.Gives (Raw.Follow C.text) (inOrder whole parts) := by
  refine (ends_inOrder whole fun part hp => (h part hp).gives.ends).gives fun s hs => ?_
  induction parts generalizing s with
  | nil =>
    intro values heq
    cases heq
    rfl
  | cons part rest ih =>
    simp only [inOrder, ensures_bind, ensures_attempt]
    refine (h part (by simp) s hs).mono ?_
    rintro result s₁ ⟨he, hspans, -⟩
    cases result with
    | error cause => simp
    | ok value =>
      simp only [ensures_bind, ensures_pure]
      refine (ih (fun part hp => h part (List.mem_cons_of_mem _ hp)) s₁ (he.start hs)).mono ?_
      intro result s₂ hrest
      cases result with
      | error cause => simp
      | ok values =>
        intro values' heq
        cases heq
        exact ⟨s₁.source.pos, hspans value rfl, hrest values rfl⟩

/-- A sequence quotes what its parts have matched between them. -/
theorem gives_sequence (whole : Atom) {parts : List (Matcher Raw)}
    (h : ∀ part ∈ parts, C.Quoting part) :
    C.Gives C.RawSpans (do return .sequence (← inOrder whole parts)) :=
  (gives_inOrder whole h).map (fun _ hv hst => (Raw.intact_sequence _).2 (hv hst))
    fun _ _ _ => Raw.Follow.spans_sequence

/-- A branch that fails leaves the cursor for the next one where it was. -/
theorem gives_firstOf (whole : Atom) (start : Nat) {branches : List (Matcher Raw)}
    (h : ∀ branch ∈ branches, C.Quoting branch) {causes : List Cause}
    (hc : C.slices → Intact causes) : C.Gives C.RawSpans (firstOf whole start branches causes) := by
  refine (ends_firstOf whole start (fun branch hb => (h branch hb).gives.ends) hc).gives fun s hs => ?_
  induction branches generalizing s causes with
  | nil => simp [firstOf]
  | cons branch rest ih =>
    simp only [firstOf, ensures_bind, ensures_attempt]
    refine (h branch (by simp) s hs).mono ?_
    rintro result s₁ ⟨he, hspans, hback⟩
    cases result with
    | ok value =>
      simp only [ensures_bind, ensures_tell, ensures_pure]
      intro raw heq
      cases heq
      exact hspans value rfl
    | error cause =>
      have hcauses (hst : C.slices) : Intact (cause :: causes) :=
        (intact_cons _ _).2 ⟨he.intact hst, hc hst⟩
      have hrest := ih (fun branch hb => h branch (List.mem_cons_of_mem _ hb)) hcauses s₁ (he.start hs)
      rwa [hback cause rfl] at hrest

/-- A choice quotes what the branch that was taken has matched. -/
theorem gives_choice (whole : Atom) {branches : List (Matcher Raw)}
    (h : ∀ branch ∈ branches, C.Quoting branch) : C.Gives C.RawSpans (choice whole branches) := by
  refine (ends_choice whole fun branch hb => (h branch hb).gives.ends).gives fun s hs => ?_
  simp only [choice, ensures_bind, ensures_position, ensures_tell]
  have hstart : C.Start { s with reporter := s.reporter.observe .choiceStarted } :=
    ⟨⟨hs.text, hs.boundary, hs.bodies, hs.labels, hs.memo⟩, hs.captures⟩
  exact (gives_firstOf whole _ h (fun _ => intact_nil) _ hstart).mono fun _ _ he => he.2

/-- Rounds follow each other, and there are no more than asked for. The last may have failed, which leaves
the cursor where the round before it ended. -/
theorem ensures_roundsFrom_follow (h : C.Quoting body) (max : Option Nat) (bound count : Nat)
    (hs : C.Start s) (hbound : C.text.size < s.source.pos + bound) :
    Ensures C.lenient (roundsFrom body max bound count) s fun result s' => ∀ rounds, result = .ok rounds →
      Raw.Follow C.text s.source.pos s'.source.pos rounds.1 ∧
        ∀ most, max = some most → rounds.1.length ≤ most - count := by
  induction bound generalizing count s with
  | zero =>
    have := Text.le_size_of_isBoundary hs.boundary
    omega
  | succ bound ih =>
    rw [roundsFrom]
    split
    · intro rounds heq
      cases heq
      exact ⟨rfl, fun _ _ => Nat.zero_le _⟩
    · rename_i hmore
      have hroom (most : Nat) (heq : max = some most) : count < most := by
        subst heq
        simpa using hmore
      simp only [ensures_bind, ensures_position, ensures_attempt]
      refine (h s hs).mono ?_
      rintro result s₁ ⟨he, hspans, hback⟩
      cases result with
      | error cause =>
        intro rounds heq
        cases heq
        exact ⟨(hback cause rfl).symm, fun _ _ => Nat.zero_le _⟩
      | ok value =>
        have hforward := he.forward
        simp only [ensures_bind, ensures_position]
        split
        · intro rounds heq
          cases heq
          refine ⟨⟨s₁.source.pos, hspans value rfl, rfl⟩, fun most hmost => ?_⟩
          have := hroom most hmost
          simp only [List.length_singleton]
          omega
        · simp only [ensures_bind]
          refine (ih (count + 1) (he.start hs) (by omega)).mono fun result s₂ hrest => ?_
          cases result with
          | error cause => exact fun rounds heq => by cases heq
          | ok rest =>
            obtain ⟨hfollow, hfew⟩ := hrest rest rfl
            intro rounds heq
            cases heq
            refine ⟨⟨s₁.source.pos, hspans value rfl, hfollow⟩, fun most hmost => ?_⟩
            have := hroom most hmost
            have := hfew most hmost
            simp only [List.length_cons]
            omega

/-- An optional part has to stand for at most one round: the rounds before the last are dropped. -/
theorem gives_repetition (part : Atom) (h : C.Quoting body) (min : Nat) (max : Option Nat)
    (optional : Bool) (hmax : optional = true → max = some 1) :
    C.Gives C.RawSpans (repetition part body min max optional) := by
  refine (ends_repetition part h.gives.ends min max optional).gives fun s hs => ?_
  have hsize := Source.pos_add_remaining hs.at_boundary
  rw [hs.text] at hsize
  simp only [repetition, ensures_bind, ensures_position, ensures_source]
  refine (ensures_roundsFrom_follow h max _ 0 hs (by omega)).mono fun result s₁ hrounds => ?_
  cases result with
  | error cause => exact fun raw heq => by cases heq
  | ok rounds =>
    obtain ⟨hfollow, hfew⟩ := hrounds rounds rfl
    dsimp only
    split
    · exact fun raw heq => by cases heq
    · simp only [ensures_bind, ensures_emit, ensures_pure]
      intro raw heq
      cases heq
      split
      · rename_i hoptional
        exact hfollow.spans_optional (by simpa using hfew 1 (hmax hoptional))
      · exact hfollow.spans_repetition

/-- Nothing is quoted where nothing is consumed. -/
theorem rawSpans_unit {pos : Nat} : C.RawSpans pos pos .unit := by
  simp [RawSpans, Raw.unit]

/-- A lookahead gives no value and goes back to where it started. -/
theorem gives_lookahead (part : Atom) (h : C.Ends body) (positive : Bool) :
    C.Gives C.RawSpans (lookahead part body positive) := by
  refine (ends_lookahead part h positive).gives fun s hs => ?_
  simp only [lookahead, ensures_bind, ensures_position, ensures_attempt]
  refine (h s hs).mono fun result s₁ he => ?_
  simp only [ensures_moveTo (hs.boundary_after he.toMoves)]
  cases result <;> cases positive <;> intro raw heq <;> cases heq
  · exact rawSpans_unit
  · exact rawSpans_unit

/-- A named part gives a map, in which the value of the part stands. -/
theorem gives_named (h : C.Gives C.RawSpans body) (name : String) :
    C.Gives C.RawSpans (named body name) := by
  refine h.flattened true (ends_named h.ends name) fun start s value hvalue => ?_
  rw [ensures_pure]
  intro raw heq
  cases heq
  rw [RawSpans, Raw.spans_leaf, Tree.spans_map]
  simpa using Tree.quotes_of_spans hvalue

/-- A captured part quotes what the part does. -/
theorem gives_captured (h : C.Gives C.RawSpans body) (name : String) :
    C.Gives C.RawSpans (captured body name) := by
  refine h.flattened false (ends_captured h.ends name) fun start s value hvalue => ?_
  simp only [ensures_bind, ensures_modify, ensures_pure]
  intro raw heq
  cases heq
  exact Raw.spans_leaf.2 hvalue

/-- A scope quotes what its body does. -/
theorem gives_inScope (h : C.Gives C.RawSpans body) : C.Gives C.RawSpans (inScope body) := by
  refine (ends_inScope h.ends).gives fun s hs => ?_
  simp only [inScope, ensures_bind, ensures_modify, ensures_attempt, ensures_ofResult]
  exact (h _ hs.openScope).mono fun _ _ he => he.2

/-- A labelled part quotes what the part does. -/
theorem gives_labelled (h : C.Gives C.RawSpans body) (hst : ¬ C.strict) (label : String) :
    C.Gives C.RawSpans (labelled body label) := by
  refine (ends_labelled h.ends hst label).gives fun s hs => ?_
  simp only [labelled, ensures_bind, ensures_modify, ensures_attempt, ensures_ofResult]
  exact (h _ (hs.withLabels hst _)).mono fun _ _ he => he.2

end Combinators

section Operators

variable {body : Matcher Raw}

/-- An operand gives the tree of what was matched for it. -/
theorem gives_operand (part : Atom) (h : C.Gives C.RawSpans body) :
    C.Gives C.TreeSpans (operand part body) := by
  refine (ends_operand part h.ends).gives fun s hs => ?_
  simp only [operand, ensures_bind, ensures_attempt]
  refine (h s hs).mono fun result s₁ he => ?_
  cases result with
  | error cause => simp
  | ok raw =>
    refine ensures_flatten _ _ _ fun _ _ tree heq => ?_
    cases heq
    exact Raw.spans_iff.1 (he.2 raw rfl) true

variable (C) in
/-- An operator that is found quotes what was matched; without one the cursor stays. -/
def SymbolSpans (start stop : Nat) : Option (Tree × Fixity) → Prop
  | none => stop = start
  | some found => C.TreeSpans start stop found.1

/-- The scan for an operator gives its tree, or nothing and goes back. -/
theorem gives_operator {table : List (Fixity × Matcher Raw)} (h : ∀ op ∈ table, C.Quoting op.2) :
    C.Gives C.SymbolSpans (operator table) := by
  refine (ends_operator fun op hop => (h op hop).gives.ends).gives fun s hs => ?_
  induction table generalizing s with
  | nil =>
    intro found heq
    cases heq
    rfl
  | cons op rest ih =>
    simp only [operator, ensures_bind, ensures_attempt]
    refine (h op (by simp) s hs).mono ?_
    rintro result s₁ ⟨he, hspans, hback⟩
    cases result with
    | ok raw =>
      simp only [ensures_bind, ensures_pure]
      refine ensures_flatten _ _ _ fun _ _ found heq => ?_
      cases heq
      exact Raw.spans_iff.1 (hspans raw rfl) true
    | error cause =>
      have hrest := ih (fun op hop => h op (List.mem_cons_of_mem _ hop)) s₁ (he.start hs)
      rwa [hback cause rfl] at hrest

/-- An operation quotes all the text that its operands and its operator do: it is neither unit nor a
string. -/
theorem treeSpans_operation {start stop : Nat} {left symbol right : Tree} (hl : Quotes C.text left)
    (ho : Quotes C.text symbol) (hr : Quotes C.text right) :
    C.TreeSpans start stop (Tree.operation left symbol right) := by
  have hquotes := Tree.quotes_operation hl ho hr
  rw [Tree.operation, Tree.ofEntries, Tree.quotes_map] at hquotes
  rw [TreeSpans, Tree.operation, Tree.ofEntries, Tree.spans_map]
  exact hquotes

/-- What climbing comes to quotes the text from where the operand on the left starts. -/
theorem ensures_climbFrom_spans (hlax : C.Lax) {element : Matcher Tree}
    {next : Matcher (Option (Tree × Fixity))} (he : C.Gives C.TreeSpans element)
    (hn : C.Gives C.SymbolSpans next) (bound : Nat) (floor : UInt32) (start : Nat) {left : Tree} (hs : C.Start s)
    (hleft : C.TreeSpans start s.source.pos left) :
    Ensures C.lenient (climbFrom element next Tree.operation bound floor left) s fun result s' =>
      ∀ tree, result = .ok tree → C.TreeSpans start s'.source.pos tree := by
  induction bound generalizing floor start left s with
  | zero => exact hlax.spent
  | succ bound ih =>
    simp only [climbFrom, ensures_bind, ensures_position]
    refine (hn s hs).mono ?_
    rintro result s₁ ⟨he₁, hsymbol⟩
    rcases result with cause | _ | ⟨symbol, fixity⟩
    · simp
    · have hback : s₁.source.pos = s.source.pos := hsymbol none rfl
      intro tree heq
      cases heq
      rwa [hback]
    · have hsymbol : C.TreeSpans s.source.pos s₁.source.pos symbol := hsymbol _ rfl
      have hs₁ := he₁.start hs
      dsimp only
      split
      · simp only [ensures_bind, ensures_moveTo (hs.boundary_after he₁.toMoves), ensures_pure]
        intro tree heq
        cases heq
        exact hleft
      · simp only [ensures_bind]
        refine (he s₁ hs₁).mono ?_
        rintro result s₂ ⟨he₂, hfirst⟩
        cases result with
        | error cause => simp
        | ok first =>
          have hs₂ := he₂.start hs₁
          have hright := Ensures.and
            (ends_climbFrom hlax he.ends hn.ends Tree.operation bound fixity.rightFloor first s₂ hs₂)
            (ih fixity.rightFloor _ hs₂ (hfirst first rfl))
          refine hright.mono ?_
          rintro result s₃ ⟨he₃, hspans⟩
          cases result with
          | error cause => simp
          | ok right =>
            refine ih floor start (he₃.start hs₂) (treeSpans_operation ?_ ?_ ?_)
            · exact Tree.quotes_of_spans hleft
            · exact Tree.quotes_of_spans hsymbol
            · exact Tree.quotes_of_spans (hspans right rfl)

/-- An operator expression gives the tree its operands and operators are put into, in their
order. -/
theorem gives_operators (hlax : C.Lax) (part : Atom) (h : C.Gives C.RawSpans body)
    {table : List (Fixity × Matcher Raw)} (ht : ∀ op ∈ table, C.Quoting op.2) :
    C.Gives C.RawSpans (operators part body table none) := by
  have hends : C.Ends (operators part body table none) :=
    ends_operators part h.ends 0 (fun op hop => takes_zero_iff.2 (ht op hop).gives.ends)
      (.inl hlax.spent) fun hst => absurd hst hlax.slices
  refine hends.gives fun s hs => ?_
  simp only [operators, climb, ensures_bind, ensures_source, ensures_pure]
  refine (gives_operand part h s hs).mono ?_
  rintro result s₁ ⟨he, hfirst⟩
  cases result with
  | error cause => simp
  | ok first =>
    refine (ensures_climbFrom_spans hlax (gives_operand part h) (gives_operator ht) _ 0 _ (he.start hs)
      (hfirst first rfl)).mono fun result s₂ hspans => ?_
    cases result with
    | error cause => simp
    | ok tree =>
      intro raw heq
      cases heq
      exact Raw.spans_leaf.2 (hspans tree rfl)

end Operators

section Watched

variable {watch : Watch} {apply : RuleRef → Matcher Raw}
  (hwatch : ∀ atom step, C.Gives C.RawSpans step → C.Quoting (watch atom step))

include hwatch

/-- An expression that keeps what it matches quotes it, however it is watched, if references do. -/
theorem quoting_watched (hlax : C.Lax) (hrule : ∀ ref, C.Gives C.RawSpans (apply ref)) {atom : Atom}
    (h : atom.Every (·.isVerbatim)) : C.Quoting (atom.watched watch apply) := by
  induction h with
  | @intro atom here _ ih =>
  cases atom with
  | literal word => exact hwatch _ _ (gives_literal word)
  | char test => exact hwatch _ _ (gives_character _ test.accepts)
  | sequence parts =>
    simp only [Atom.watched, Atom.watchedAll_eq_map]
    refine hwatch _ _ (gives_sequence _ fun part hp => ?_)
    obtain ⟨a, ha, rfl⟩ := List.mem_map.1 hp
    exact ih a (.sequence ha)
  | choice branches =>
    simp only [Atom.watched, Atom.watchedAll_eq_map]
    refine hwatch _ _ (gives_choice _ fun branch hb => ?_)
    obtain ⟨a, ha, rfl⟩ := List.mem_map.1 hb
    exact ih a (.choice ha)
  | repetition body min max optional =>
    refine hwatch _ _ (gives_repetition body (ih body (.repetition ..)) min max optional fun ho => ?_)
    subst ho
    simpa [Atom.isVerbatim] using here
  | lookahead body positive =>
    exact hwatch _ _ (gives_lookahead body (ih body (.lookahead ..)).gives.ends positive)
  | named body name => exact hwatch _ _ (gives_named (ih body (.named ..)).gives name)
  | rule ref => exact hwatch _ _ (hrule ref)
  | ignore body => simp [Atom.isVerbatim] at here
  | map body transform => simp [Atom.isVerbatim] at here
  | mark body => simp [Atom.isVerbatim] at here
  | capture body name => exact hwatch _ _ (gives_captured (ih body (.capture ..)).gives name)
  | scope body => exact hwatch _ _ (gives_inScope (ih body (.scope _)).gives)
  | dynamic pick =>
    exact hwatch _ _ fun s hs => (ih _ (.dynamic pick s.source s.captures)).gives s hs
  | operators operand table combine =>
    have hnone : combine = none := by simpa [Atom.isVerbatim] using here
    subst hnone
    simp only [Atom.watched, Atom.watchedOperators_eq_map]
    refine hwatch _ _ (gives_operators hlax operand (ih operand (.operand ..)).gives fun op hop => ?_)
    obtain ⟨op, hmem, rfl⟩ := List.mem_map.1 hop
    exact ih op.2 (.operator _ _ hmem)
  | label body label => exact hwatch _ _ (gives_labelled (ih body (.label ..)).gives hlax.strict label)
  | halt => simp [Atom.isVerbatim] at here

end Watched

end Course

/-- The condition that a rule matches, if it does, with a value that quotes what was matched. -/
abbrev Text.Quoted (text : Text) (_rule start : Nat) (result : Except Cause Tree) (stop : Nat) : Prop :=
  ∀ tree, result = .ok tree → tree.spans text start stop = true

/-- The regime under which values quote the text. -/
abbrev Regime.quoting (table : RuleTable) (text : Text) : Regime table text :=
  Regime.yielding table text (· = .spent) text.Quoted

section Rules

variable {table : RuleTable} {text : Text} {watch : Watch}
  (hwatch : ∀ u depth atom step,
    let C := (Regime.quoting table text).course u depth
    C.Gives C.RawSpans step → C.Quoting (watch atom step))

include hwatch

/-- Rules match with values that quote the text, in whatever state the memo is. -/
theorem gives_applyWatched (htable : table.Every (·.isVerbatim)) (u : Underway) (depth : Nat)
    (ref : RuleRef) :
    let C := (Regime.quoting table text).course u depth
    C.Gives C.RawSpans (table.applyWatched watch depth ref) := by
  induction depth generalizing u ref with
  | zero => exact fun s hs => absurd hs.memo.room (Nat.not_lt_zero _)
  | succ depth ih =>
    intro C s hs
    have hbody (index : Nat) (atom : Atom) (hatom : table.bodyAt? index = some atom) :
        (Regime.quoting table text).Bodies u depth ⟨index, ref.name, do
          flatten false (← atom.watched watch (table.applyWatched watch depth))⟩ := by
      intro u' s' _ hs'
      have hquoting := quoting_watched (hwatch u' depth) ⟨id, rfl, id⟩ (ih u') (htable index atom hatom)
      exact hquoting.gives.flat false s' hs'
    have happlied := ensures_applyRef hs
      (fun _ answer s' => ∀ tree, answer = .ok tree → tree.spans text s.source.pos s'.source.pos = true)
      fun index atom bodies trace hatom hstart => Regime.answers_memoized
        (Regime.lawful_yielding _ _ _ fun _ _ _ _ heq => by cases heq) (hbody index atom hatom)
          (RuleTable.index_lt_of_bodyAt? hatom) hstart trivial
    rw [RuleTable.applyWatched]
    refine happlied.mono ?_
    rintro result s' ⟨he, ⟨label, rfl⟩ | ⟨index, answer, rfl, hspans⟩⟩
    · exact ⟨he, by simp⟩
    · refine ⟨he, fun raw heq => ?_⟩
      cases answer with
      | error cause => cases heq
      | ok tree =>
        cases heq
        exact Raw.spans_leaf.2 (hspans tree rfl)

/-- An expression that keeps what it matches quotes it. -/
theorem quoting_match (htable : table.Every (·.isVerbatim)) {entry : Atom}
    (hentry : entry.Every (·.isVerbatim)) (u : Underway) (depth : Nat) :
    ((Regime.quoting table text).course u depth).Quoting
      (entry.watched watch (table.applyWatched watch depth)) :=
  quoting_watched (hwatch u depth) ⟨id, rfl, id⟩ (gives_applyWatched hwatch htable u depth) hentry

end Rules

/-- Whether what an expression that was applied at an offset has matched quotes the text from there to the
cursor. -/
def Source.quotes (source : Source) (start : Nat) : Except Cause Raw → Bool
  | .error _ => true
  | .ok raw => raw.spans source.text start source.pos

/-- The watch that breaks a match off as soon as an expression matches with a value that does not quote what
was matched. -/
def quotingWatch : Watch := checkingWatch Source.quotes

/-- A step with a value that quotes what was matched is not broken off. -/
theorem quoting_quotingWatch {C : Course} (atom : Atom) {step : Matcher Raw}
    (h : C.Gives C.RawSpans step) : C.Quoting (quotingWatch atom step) := by
  intro s hs
  simp only [quotingWatch, checkingWatch, ensures_bind, ensures_position, ensures_attempt, ensures_source]
  refine (h.guarded s hs).mono ?_
  rintro result s' hquoting
  have hquotes : s'.source.quotes s.source.pos result = true := by
    cases result with
    | error cause => rfl
    | ok raw =>
      have htext : s'.source.text = C.text := hquoting.1.passes.text.trans hs.text
      rw [Source.quotes, htext]
      exact hquoting.2.1 raw rfl
  rw [if_pos hquotes, ensures_ofResult]
  exact hquoting

/-- Values are what the text says. With rules made of expressions that keep what they match, in place and as
it is, whatever way the rules refer to each other, in a match of such an expression from any offset, every
application of every expression that matches comes to a value that quotes what it has matched: watching for
that changes nothing about the match. In particular, if the match gets from the offset to another, the flat
value is unit only if the two are the same; if it is a string, it is the text between the two and found at
the first; and every string in it is the text at the offset where it was found. -/
theorem match_quotes_text (table : RuleTable) (htable : table.Every (·.isVerbatim))
    (bodies : List (Nat × Atom)) (hbodies : table.Knows bodies) (entry : Atom)
    (hentry : entry.Every (·.isVerbatim)) (text : String) (options : Options) (pos : Nat)
    (hpos : (Text.ofString text).isBoundary pos = true) :
    entry.watched quotingWatch (table.applyWatched quotingWatch (table.depthBound text.utf8ByteSize))
        (Session.startAt text options bodies pos)
      = table.matcher text.utf8ByteSize entry (Session.startAt text options bodies pos) ∧
    ∀ raw s named, table.matcher text.utf8ByteSize entry (Session.startAt text options bodies pos)
        = .matched raw s →
      ((raw.flatten named).tree = .unit → s.source.pos = pos) ∧
      (∀ slice, (raw.flatten named).tree = .str slice →
        slice.Shows (Text.ofString text) pos s.source.pos) ∧
      ∀ slice ∈ (raw.flatten named).tree.slices,
        slice.Shows (Text.ofString text) slice.offset (slice.offset + slice.length) := by
  let C := (Regime.quoting table (Text.ofString text)).course {} (table.depthBound text.utf8ByteSize)
  have hquoting : C.Quoting (entry.watched quotingWatch
      (table.applyWatched quotingWatch (table.depthBound text.utf8ByteSize))) :=
    quoting_match (fun _ _ => quoting_quotingWatch) htable hentry {} _
  have hstart := (Regime.quoting table (Text.ofString text)).startAt_of_knows hbodies options hpos
    ⟨⟨by simp [Memo.find?]⟩, ⟨by simp⟩⟩
  have hgiven := hquoting.gives _ hstart
  have hsound : entry.watched quotingWatch (table.applyWatched quotingWatch
      (table.depthBound text.utf8ByteSize)) (Session.startAt text options bodies pos)
        ≠ .stopped .misplaced := fun hstopped => by cases hgiven.of_stopped hstopped
  have heq := entry.watched_eq (cuts_checkingWatch _) table _ hsound
  refine ⟨heq, fun raw s named hmatched => ?_⟩
  rw [RuleTable.matcher, ← heq] at hmatched
  obtain ⟨hunit, hstring, hquotes⟩ :=
    Tree.spans_iff.1 (Raw.spans_iff.1 ((hgiven.of_matched hmatched).2 raw rfl) named)
  refine ⟨fun h => (hunit h).symm, fun slice h => Slice.shows_of_isView (hstring slice h), ?_⟩
  exact fun slice h => Slice.shows_of_isView (hquotes slice h)

/-- A rule that grows by what a dynamic expression picks, and by an optional part with a name. -/
def chainTable : RuleTable :=
  ⟨1, [⟨"chain", fun rules => .choice
    [.sequence [rules.rule "chain", .capture (.literal "é") "link",
      .dynamic fun _ captures => .literal ((captures.get? "link").elim ";" fun _ => "ß"),
      (Atom.named (.literal "!") "mark").maybe], .literal "é"]⟩]⟩

/-- The grammar of chains is one whose values quote the text. -/
theorem chainTable_isVerbatim : chainTable.Every (·.isVerbatim) := by
  intro index body h
  have hcapture : (Atom.capture (.literal "é") "link").Every (·.isVerbatim) := by
    refine .intro rfl fun _ hp => ?_
    cases hp
    exact (Atom.Every.literal_iff _ _).2 rfl
  have hnamed : (Atom.named (.literal "!") "mark").Every (·.isVerbatim) := by
    refine .intro rfl fun _ hp => ?_
    cases hp
    exact (Atom.Every.literal_iff _ _).2 rfl
  have hdynamic : (Atom.dynamic fun _ captures =>
      .literal ((captures.get? "link").elim ";" fun _ => "ß")).Every (·.isVerbatim) := by
    refine .intro rfl fun _ hp => ?_
    cases hp
    exact (Atom.Every.literal_iff _ _).2 rfl
  match index with
  | 0 =>
    cases h
    have hmaybe : (Atom.named (.literal "!") "mark").maybe.Every (·.isVerbatim) :=
      (Atom.Every.repetition_iff ..).2 ⟨rfl, hnamed⟩
    simp [Rules.rule, hcapture, hdynamic, hmaybe]
    decide
  | index + 1 => cases h

/-- Behind a first character, a chain that has grown is the text of its links, found where it starts. -/
theorem chain_quotes_text : ∃ raw s slice,
    chainTable.matcher "aééß".utf8ByteSize (chainTable.rules.rule "chain")
        (Session.startAt "aééß" {} [] 1) = .matched raw s ∧ (raw.flatten false).tree = .str slice ∧
      slice.Shows (Text.ofString "aééß") 1 s.source.pos ∧ s.source.pos = 7 := by
  have hquotes := match_quotes_text chainTable chainTable_isVerbatim [] chainTable.knows_nil
    (chainTable.rules.rule "chain") ((Atom.Every.rule_iff _ _).2 rfl) "aééß" {} 1 (by decide)
  have hmatched : ((chainTable.matcher "aééß".utf8ByteSize (chainTable.rules.rule "chain")
      (Session.startAt "aééß" {} [] 1)).gist.map
        (Option.map fun m => ((m.1.flatten false).tree.slice?.isSome, m.2))) = .ok (some (true, 7)) := by
    cbv
  generalize chainTable.matcher _ _ _ = reply at hquotes hmatched ⊢
  cases reply with
  | stopped reason => cases hmatched
  | failed cause s => cases hmatched
  | matched raw s =>
    obtain ⟨hstring, hpos⟩ := Prod.mk.inj (Option.some.inj (Except.ok.inj hmatched))
    cases htree : (raw.flatten false).tree with
    | str slice =>
      exact ⟨raw, s, slice, rfl, htree, (hquotes.2 raw s false rfl).2.1 slice htree, hpos⟩
    | unit | list items | map entries =>
      rw [htree] at hstring
      cases hstring

end Packrat
