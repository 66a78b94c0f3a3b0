import Mathlib
import Packrat.Proofs.Termination
import Packrat.Proofs.Yielding

/-!
# Where failures lie

The cause of a failure lies where the expression was applied that failed, or behind it, and the causes that
led to it lie no earlier than it does itself. A sequence is anchored where its failing part started, a choice
and a repetition where they started themselves, and the causes of parts are found from there on. This goes
for causes that come out of the memo as well: they were found by an application at the same offset.

The statement holds for every application of every expression that fails in a match, in whatever state the
memo is. It is made by a watch that breaks a match off at a failure that is out of order.
-/

namespace Packrat

open Matcher Course

namespace Cause

mutual

/-- How deep a tree is said to hang does not change its causes. -/
theorem map_snd_preorder (depth depth' : Nat) (cause : Cause) :
    (cause.preorder depth).map (·.2) = (cause.preorder depth').map (·.2) := by
  obtain ⟨message, offset, position, label, children⟩ := cause
  rw [preorder, preorder, List.map_cons, List.map_cons, map_snd_preorderAll (depth + 1) (depth' + 1)]

/-- How deep several trees are said to hang does not change their causes. -/
theorem map_snd_preorderAll (depth depth' : Nat) (causes : List Cause) :
    (preorderAll depth causes).map (·.2) = (preorderAll depth' causes).map (·.2) := by
  match causes with
  | [] => rfl
  | child :: rest =>
    rw [preorderAll, preorderAll, List.map_append, List.map_append, map_snd_preorder depth depth',
      map_snd_preorderAll depth depth']

end

/-- The cause and all the causes that led to it. -/
def nodes (cause : Cause) : List Cause := (cause.preorder 0).map (·.2)

/-- Trees side by side have the causes of each of them, one tree after the other. -/
theorem map_snd_preorderAll_eq (depth : Nat) (causes : List Cause) :
    (preorderAll depth causes).map (·.2) = causes.flatMap nodes := by
  induction causes with
  | nil => rfl
  | cons child rest ih =>
    rw [preorderAll, List.map_append, ih, map_snd_preorder depth 0]
    rfl

/-- Every cause of the tree lies at a boundary of the text, and those that led to it directly lie no earlier
than it does. -/
def isOrdered (text : Text) (cause : Cause) : Bool :=
  cause.nodes.all fun node => text.isBoundary node.offset && node.children.all (node.offset ≤ ·.offset)

/-- A tree is ordered if each of its causes lies at a boundary and no later than those right
below it. -/
theorem isOrdered_iff {text : Text} {cause : Cause} : cause.isOrdered text = true ↔
    ∀ node ∈ cause.nodes, text.isBoundary node.offset = true ∧
      ∀ child ∈ node.children, node.offset ≤ child.offset := by
  simp [isOrdered]

/-- The tree of a cause is ordered, and the cause itself lies no earlier than the offset. -/
structure Anchored (text : Text) (start : Nat) (cause : Cause) : Prop where
  behind : start ≤ cause.offset
  ordered : cause.isOrdered text = true

namespace Anchored

variable {text : Text} {start start' : Nat} {cause : Cause}

/-- A cause that is anchored at an offset is anchored at any earlier one. -/
theorem mono (h : cause.Anchored text start) (hle : start' ≤ start) : cause.Anchored text start' :=
  ⟨Nat.le_trans hle h.behind, h.ordered⟩

/-- A cause may be attached to one that lies no later. -/
theorem intro (message : Message) (label : Option String) {children : List Cause}
    (hb : text.isBoundary start = true) (hchildren : ∀ child ∈ children, child.Anchored text start) :
    (⟨message, start, none, label, children⟩ : Cause).Anchored text start := by
  refine ⟨Nat.le_refl _, isOrdered_iff.2 fun node hnode => ?_⟩
  rw [nodes, preorder, List.map_cons, List.mem_cons, map_snd_preorderAll_eq, List.mem_flatMap] at hnode
  rcases hnode with rfl | ⟨child, hchild, hnode⟩
  · exact ⟨hb, fun child hchild => (hchildren child hchild).behind⟩
  · exact isOrdered_iff.1 (hchildren child hchild).ordered node hnode

/-- A cause that no other led to is anchored where it lies. -/
theorem leaf (message : Message) (label : Option String) (hb : text.isBoundary start = true) :
    (⟨message, start, none, label, []⟩ : Cause).Anchored text start := intro message label hb (by simp)

end Anchored

end Cause

open Cause (Anchored)

namespace Course

variable {C : Course} {s s' : Session}

section Sound

variable {α : Type}

variable (C) in
/-- The result is no failure but one that is anchored where the session stands. -/
abbrev Sound (s : Session) (result : Except Cause α) : Prop :=
  ∀ cause, result = .error cause → cause.Anchored C.text s.source.pos

/-- A match has no cause that would have to be anchored. -/
theorem sound_ok {value : α} : C.Sound s (.ok value) := fun _ heq => by cases heq

/-- A failure is sound if its cause is anchored. -/
theorem sound_error {cause : Cause} (h : cause.Anchored C.text s.source.pos) :
    C.Sound (α := α) s (.error cause) := fun _ heq => by cases heq; exact h

/-- What fails behind the start of a step is anchored there, too. -/
theorem Sound.after {result : Except Cause α} (h : C.Sound s' result) (hm : C.Moves s s') :
    C.Sound s result := fun cause heq => (h cause heq).mono hm.forward

end Sound

variable {α β : Type} [Sliced α] [Sliced β]

variable (C) in
/-- From every fit session the step matches or fails, and a failure is anchored where it started. -/
def Anchors (step : Matcher α) : Prop :=
  ∀ s, C.Start s → Ensures C.lenient step s fun result s' => C.Ended s result s' ∧ C.Sound s result

variable (C) in
/-- The same, and the step puts the cursor back after a failure. -/
def Anchoring (step : Matcher Raw) : Prop :=
  ∀ s, C.Start s → Ensures C.lenient step s fun result s' => C.Ended s result s' ∧ C.Sound s result ∧
    ∀ cause, result = .error cause → s'.source.pos = s.source.pos

/-- A step that anchors its failures ends. -/
theorem Anchors.ends {step : Matcher α} (h : C.Anchors step) : C.Ends step :=
  fun s hs => (h s hs).mono fun _ _ he => he.1

/-- A step that anchors its failures does so whether or not it puts the cursor back. -/
theorem Anchoring.anchors {step : Matcher Raw} (h : C.Anchoring step) : C.Anchors step :=
  fun s hs => (h s hs).mono fun _ _ he => ⟨he.1, he.2.1⟩

/-- A step that is known to end anchors its failures if it ensures as much. -/
theorem Ends.anchors {step : Matcher α} (h : C.Ends step)
    (hfails : ∀ s, C.Start s → Ensures C.lenient step s fun result _ => C.Sound s result) :
    C.Anchors step := fun s hs => Ensures.and (h s hs) (hfails s hs)

/-- One step follows the other. -/
theorem Anchors.andThen {first : Matcher α} {next : α → Matcher β} (h : C.Anchors first)
    (hnext : ∀ value, (C.slices → Intact value) → C.Anchors (next value)) : C.Anchors (first >>= next) := by
  intro s hs
  rw [ensures_bind]
  refine (h s hs).mono ?_
  rintro result s₁ ⟨he, hsound⟩
  cases result with
  | error cause => exact ⟨he.withResult he.intact, sound_error (hsound cause rfl)⟩
  | ok value =>
    exact (hnext value he.intact s₁ (he.start hs)).mono fun _ _ he' =>
      ⟨he'.1.after he.toMoves, he'.2.after he.toMoves⟩

/-- A value at hand is no failure. -/
theorem anchors_pure {value : α} (h : C.slices → Intact value) : C.Anchors (pure value : Matcher α) :=
  (ends_pure h).anchors fun _ _ => sound_ok

/-- Flattening does not fail. -/
theorem anchors_flatten (named : Bool) {raw : Raw} (h : C.slices → Intact raw) :
    C.Anchors (flatten named raw) :=
  (ends_flatten named h).anchors fun _ _ => ensures_flatten _ _ _ fun _ _ => sound_ok

/-- A guarded step anchors its failures if the step does. -/
theorem Anchors.guarded {step : Matcher Raw} (h : C.Anchors step) : C.Anchoring (guarded step) := by
  intro s hs
  simp only [Matcher.guarded, ensures_bind, ensures_position, ensures_attempt]
  refine (h s hs).mono ?_
  rintro result s' ⟨he, hsound⟩
  cases result with
  | ok raw =>
    simp only [ensures_bind, ensures_position, ensures_tell, ensures_pure]
    exact ⟨he.of_eq rfl rfl rfl rfl rfl, sound_ok, by simp⟩
  | error cause =>
    simp only [ensures_bind, ensures_moveTo (hs.boundary_after he.toMoves), ensures_fail]
    exact ⟨he.back hs, hsound, fun _ _ => trivial⟩

section Combinators

variable {body : Matcher Raw}

/-- A literal fails where it started. -/
theorem anchors_literal (word : String) : C.Anchors (Matcher.literal word) := by
  refine (takes_literal word).ends.anchors fun s hs => ?_
  have hfailed (message : Message) := sound_error (α := Raw) (s := s)
    (Anchored.leaf message s.labels.head? hs.boundary)
  simp only [Matcher.literal, ensures_bind, ensures_source]
  split
  · exact hfailed _
  · split
    · rename_i hw
      obtain ⟨hfit, -⟩ := Source.isBoundary_of_startsWith hs.at_boundary hw
      simp only [ensures_bind, ensures_consume hfit, ensures_pure]
      exact sound_ok
    · exact hfailed _

/-- A class of characters fails where it started. -/
theorem anchors_character (whole : Atom) (test : Char → Bool) : C.Anchors (character whole test) := by
  refine (takes_character whole test).ends.anchors fun s hs => ?_
  have hfailed (message : Message) := sound_error (α := Raw) (s := s)
    (Anchored.leaf message s.labels.head? hs.boundary)
  simp only [character, ensures_bind, ensures_source]
  split
  · exact hfailed _
  · rename_i c hc
    split
    · obtain ⟨hfit, -⟩ := Source.isBoundary_of_nextChar? hs.at_boundary hc
      simp only [ensures_bind, ensures_consume hfit, ensures_pure]
      exact sound_ok
    · exact hfailed _

/-- A sequence is anchored where its failing part started. -/
theorem anchors_inOrder (whole : Atom) {parts : List (Matcher Raw)}
    (h : ∀ part ∈ parts, C.Anchoring part) : C.Anchors (inOrder whole parts) := by
  refine (ends_inOrder whole fun part hp => (h part hp).anchors.ends).anchors fun s hs => ?_
  induction parts generalizing s with
  | nil => exact sound_ok
  | cons part rest ih =>
    simp only [inOrder, ensures_bind, ensures_attempt]
    refine (h part (by simp) s hs).mono ?_
    rintro result s₁ ⟨he, hsound, hback⟩
    cases result with
    | error cause =>
      simp only [ensures_bind, ensures_position, ensures_refuse, hback cause rfl]
      exact sound_error (.intro _ _ hs.boundary (by simpa using hsound cause rfl))
    | ok value =>
      simp only [ensures_bind]
      refine (ih (fun part hp => h part (List.mem_cons_of_mem _ hp)) s₁ (he.start hs)).mono ?_
      intro result s₂ hrest
      cases result with
      | error cause => exact sound_error ((hrest.after he.toMoves) cause rfl)
      | ok values => exact sound_ok

/-- A choice is anchored where it started, which is where all of its branches did. -/
theorem anchors_firstOf (whole : Atom) {branches : List (Matcher Raw)}
    (h : ∀ branch ∈ branches, C.Anchoring branch) {causes : List Cause} {start : Nat} (hs : C.Start s)
    (hstart : s.source.pos = start) (hcauses : ∀ cause ∈ causes, cause.Anchored C.text start) :
    Ensures C.lenient (firstOf whole start branches causes) s fun result _ => C.Sound s result := by
  induction branches generalizing s causes with
  | nil =>
    subst hstart
    simp only [firstOf, ensures_bind, ensures_tell, ensures_refuse]
    exact sound_error (.intro _ _ hs.boundary fun cause hc => hcauses cause (List.mem_reverse.1 hc))
  | cons branch rest ih =>
    simp only [firstOf, ensures_bind, ensures_attempt]
    refine (h branch (by simp) s hs).mono ?_
    rintro result s₁ ⟨he, hsound, hback⟩
    cases result with
    | ok value => exact sound_ok
    | error cause =>
      have hmore : ∀ c ∈ cause :: causes, c.Anchored C.text start := by
        intro c hc
        rcases List.mem_cons.1 hc with rfl | hc
        · exact hstart ▸ hsound c rfl
        · exact hcauses c hc
      refine (ih (fun branch hb => h branch (List.mem_cons_of_mem _ hb)) (he.start hs)
        ((hback cause rfl).trans hstart) hmore).mono ?_
      exact fun _ _ hrest => hrest.after he.toMoves

/-- A choice fails where it started, with the causes of its branches, which all started there.
-/
theorem anchors_choice (whole : Atom) {branches : List (Matcher Raw)}
    (h : ∀ branch ∈ branches, C.Anchoring branch) : C.Anchors (choice whole branches) := by
  refine (ends_choice whole fun branch hb => (h branch hb).anchors.ends).anchors fun s hs => ?_
  simp only [choice, ensures_bind, ensures_position, ensures_tell]
  have hstart : C.Start { s with reporter := s.reporter.observe .choiceStarted } :=
    ⟨⟨hs.text, hs.boundary, hs.bodies, hs.labels, hs.memo⟩, hs.captures⟩
  exact anchors_firstOf whole h hstart rfl (by simp)

/-- Rounds come to an end with the cause of a round that is anchored where the rounds started. -/
theorem ensures_roundsFrom_anchored (h : C.Anchors body) (hlax : C.Lax) (max : Option Nat)
    (bound count : Nat) (hs : C.Start s) :
    Ensures C.lenient (roundsFrom body max bound count) s fun result _ => ∃ rounds, result = .ok rounds ∧
      ∀ cause, rounds.2 = some cause → cause.Anchored C.text s.source.pos := by
  induction bound generalizing count s with
  | zero => exact hlax.spent
  | succ bound ih =>
    rw [roundsFrom]
    split
    · exact ⟨_, rfl, by simp⟩
    · simp only [ensures_bind, ensures_position, ensures_attempt]
      refine (h s hs).mono ?_
      rintro result s₁ ⟨he, hsound⟩
      cases result with
      | error cause => exact ⟨_, rfl, fun c hc => hsound c (congrArg _ (Option.some.inj hc))⟩
      | ok value =>
        simp only [ensures_bind, ensures_position]
        split
        · exact ⟨_, rfl, by simp⟩
        · simp only [ensures_bind]
          refine (ih (count + 1) (he.start hs)).mono ?_
          rintro _ s₂ ⟨rounds, rfl, hended⟩
          exact ⟨_, rfl, fun cause hc => (hended cause hc).mono he.forward⟩

/-- A repetition that is short of rounds fails where it started, with the cause of the round
that failed behind that. -/
theorem anchors_repetition (part : Atom) (h : C.Anchors body) (hlax : C.Lax) (min : Nat)
    (max : Option Nat) (optional : Bool) : C.Anchors (repetition part body min max optional) := by
  refine (ends_repetition part h.ends min max optional).anchors fun s hs => ?_
  simp only [repetition, ensures_bind, ensures_position, ensures_source]
  refine (ensures_roundsFrom_anchored h hlax max _ 0 hs).mono ?_
  rintro _ s₁ ⟨rounds, rfl, hended⟩
  dsimp only
  split
  · refine sound_error (.intro _ _ hs.boundary fun cause hc => hended cause ?_)
    simpa using hc
  · exact sound_ok

/-- A lookahead fails where it started. -/
theorem anchors_lookahead (part : Atom) (h : C.Anchors body) (positive : Bool) :
    C.Anchors (lookahead part body positive) := by
  refine (ends_lookahead part h.ends positive).anchors fun s hs => ?_
  simp only [lookahead, ensures_bind, ensures_position, ensures_attempt]
  refine (h s hs).mono ?_
  rintro result s₁ ⟨he, hsound⟩
  simp only [ensures_moveTo (hs.boundary_after he.toMoves)]
  cases result with
  | ok raw =>
    cases positive
    · exact sound_error (.leaf _ _ hs.boundary)
    · exact sound_ok
  | error cause =>
    cases positive
    · exact sound_ok
    · exact sound_error (.intro _ _ hs.boundary (by simpa using hsound cause rfl))

/-- A named part fails as the part does. -/
theorem anchors_named (h : C.Anchors body) (name : String) : C.Anchors (named body name) :=
  h.andThen fun _ hr => (anchors_flatten true hr).andThen fun _ hv =>
    anchors_pure fun hst => by simpa using hv hst

/-- A transformed part fails as the part does. -/
theorem anchors_mapped (h : C.Anchors body) (hlax : C.Lax) (transform : Tree → Tree) :
    C.Anchors (mapped body transform) :=
  h.andThen fun _ hr => (anchors_flatten false hr).andThen fun _ _ =>
    anchors_pure fun hst => absurd hst hlax.slices

/-- A marked part fails as the part does. -/
theorem anchors_marked (h : C.Anchors body) : C.Anchors (marked body) := by
  refine (ends_marked h.ends).anchors fun s hs => ?_
  simp only [marked, ensures_bind, ensures_position]
  refine (h s hs).mono ?_
  rintro result s₁ ⟨he, hsound⟩
  cases result with
  | error cause => exact hsound
  | ok raw =>
    simp only [ensures_moveTo (hs.boundary_after he.toMoves), ensures_pure]
    exact sound_ok

/-- A captured part fails as the part does. -/
theorem anchors_captured (h : C.Anchors body) (name : String) : C.Anchors (captured body name) := by
  refine (ends_captured h.ends name).anchors fun s hs => ?_
  simp only [captured, ensures_bind]
  refine (h s hs).mono ?_
  rintro result s₁ ⟨-, hsound⟩
  cases result with
  | error cause => exact hsound
  | ok raw => exact ensures_flatten _ _ _ fun _ _ => sound_ok

/-- A scope fails as its body does. -/
theorem anchors_inScope (h : C.Anchors body) : C.Anchors (inScope body) := by
  refine (ends_inScope h.ends).anchors fun s hs => ?_
  simp only [inScope, ensures_bind, ensures_modify, ensures_attempt, ensures_ofResult]
  exact (h _ hs.openScope).mono fun _ _ he => he.2

/-- A labelled part fails as the part does: labels have no place in the order. -/
theorem anchors_labelled (h : C.Anchors body) (hlax : C.Lax) (label : String) :
    C.Anchors (labelled body label) := by
  refine (ends_labelled h.ends hlax.strict label).anchors fun s hs => ?_
  simp only [labelled, ensures_bind, ensures_modify, ensures_attempt, ensures_ofResult]
  exact (h _ (hs.withLabels hlax.strict _)).mono fun _ _ he => he.2

/-- Taking in the rest does not fail. -/
theorem anchors_halt : C.Anchors Matcher.halt := by
  refine ends_halt.anchors fun s hs => ?_
  simp only [Matcher.halt, ensures_bind, ensures_source, ensures_consume (Nat.le_refl _), ensures_pure]
  exact sound_ok

end Combinators

section Operators

variable {body : Matcher Raw}

/-- A missing operand is anchored where it was to start. -/
theorem anchors_operand (part : Atom) (h : C.Anchoring body) : C.Anchors (operand part body) := by
  refine (ends_operand part h.anchors.ends).anchors fun s hs => ?_
  simp only [operand, ensures_bind, ensures_attempt]
  refine (h s hs).mono ?_
  rintro result s₁ ⟨-, hsound, hback⟩
  cases result with
  | ok raw => exact ensures_flatten _ _ _ fun _ _ => sound_ok
  | error cause =>
    simp only [ensures_bind, ensures_position, ensures_refuse, hback cause rfl]
    exact sound_error (.intro _ _ hs.boundary (by simpa using hsound cause rfl))

/-- That no operator matches is no failure. -/
theorem anchors_operator {table : List (Fixity × Matcher Raw)} (h : ∀ op ∈ table, C.Ends op.2) :
    C.Anchors (operator table) := by
  refine (ends_operator h).anchors fun s hs => ?_
  induction table generalizing s with
  | nil => exact sound_ok
  | cons op rest ih =>
    simp only [operator, ensures_bind, ensures_attempt]
    refine (h op (by simp) s hs).mono fun result s₁ he => ?_
    cases result with
    | ok raw =>
      simp only [ensures_bind, ensures_pure]
      exact ensures_flatten _ _ _ fun _ _ => sound_ok
    | error cause =>
      refine (ih (fun op hop => h op (List.mem_cons_of_mem _ hop)) s₁ (he.start hs)).mono ?_
      exact fun _ _ hrest => hrest.after he.toMoves

/-- Climbing fails where an operand fails, which lies behind its start. -/
theorem anchors_climbFrom (hlax : C.Lax) {element : Matcher Tree} {next : Matcher (Option (Tree × Fixity))}
    (he : C.Anchors element) (hn : C.Anchors next) (combine : Tree → Tree → Tree → Tree)
    (bound : Nat) (floor : UInt32) (left : Tree) :
    C.Anchors (climbFrom element next combine bound floor left) := by
  have hintact {tree : Tree} (hst : C.slices) : Intact tree := absurd hst hlax.slices
  induction bound generalizing floor left with
  | zero => exact fun _ _ => hlax.spent
  | succ bound ih =>
    refine (ends_climbFrom hlax he.ends hn.ends combine _ floor left).anchors fun s hs => ?_
    simp only [climbFrom, ensures_bind, ensures_position]
    refine (hn s hs).mono ?_
    rintro result s₁ ⟨he₁, hsound⟩
    rcases result with cause | _ | ⟨symbol, fixity⟩
    · exact sound_error (hsound cause rfl)
    · exact sound_ok
    · dsimp only
      split
      · simp only [ensures_bind, ensures_moveTo (hs.boundary_after he₁.toMoves), ensures_pure]
        exact sound_ok
      · have hrest : C.Anchors (do
            let first ← element
            let right ← climbFrom element next combine bound fixity.rightFloor first
            climbFrom element next combine bound floor (combine left symbol right)) :=
          he.andThen fun first _ => (ih fixity.rightFloor first).andThen fun right _ => ih floor _
        exact (hrest s₁ (he₁.start hs)).mono fun _ _ he' => he'.2.after he₁.toMoves

/-- An operator expression fails where an operand fails. -/
theorem anchors_operators (hlax : C.Lax) (part : Atom) (h : C.Anchoring body)
    {table : List (Fixity × Matcher Raw)} (ht : ∀ op ∈ table, C.Ends op.2)
    (combine : Option (Tree → Tree → Tree → Tree)) : C.Anchors (operators part body table combine) := by
  have hclimb (bound : Nat) : C.Anchors (do
      return Raw.leaf (← climb (operand part body) (operator table) (combine.getD Tree.operation) bound 0)) := by
    refine Anchors.andThen (α := Tree) ?_ fun tree _ => anchors_pure fun hst => absurd hst hlax.slices
    exact (anchors_operand part h).andThen fun first _ =>
      anchors_climbFrom hlax (anchors_operand part h) (anchors_operator ht) _ bound 0 first
  intro s hs
  rw [operators, ensures_bind, ensures_source]
  exact hclimb _ s hs

end Operators

section Watched

variable {watch : Watch} {apply : RuleRef → Matcher Raw}
  (hwatch : ∀ atom step, C.Anchors step → C.Anchoring (watch atom step))

include hwatch

/-- An expression anchors its failures, however it is watched, if references do. -/
theorem anchoring_watched (hlax : C.Lax) (hrule : ∀ ref, C.Anchors (apply ref)) (atom : Atom) :
    C.Anchoring (atom.watched watch apply) := by
  induction atom using Atom.parts_induction with
  | step atom ih =>
  cases atom with
  | literal word => exact hwatch _ _ (anchors_literal word)
  | char test => exact hwatch _ _ (anchors_character _ test.accepts)
  | sequence parts =>
    simp only [Atom.watched, Atom.watchedAll_eq_map]
    refine hwatch _ _ (Anchors.andThen (anchors_inOrder _ fun part hp => ?_) fun _ hv =>
      anchors_pure fun hst => (Raw.intact_sequence _).2 (hv hst))
    obtain ⟨a, ha, rfl⟩ := List.mem_map.1 hp
    exact ih a (.sequence ha)
  | choice branches =>
    simp only [Atom.watched, Atom.watchedAll_eq_map]
    refine hwatch _ _ (anchors_choice _ fun branch hb => ?_)
    obtain ⟨a, ha, rfl⟩ := List.mem_map.1 hb
    exact ih a (.choice ha)
  | repetition body min max optional =>
    exact hwatch _ _ (anchors_repetition body (ih body (.repetition ..)).anchors hlax min max optional)
  | lookahead body positive =>
    exact hwatch _ _ (anchors_lookahead body (ih body (.lookahead ..)).anchors positive)
  | named body name => exact hwatch _ _ (anchors_named (ih body (.named ..)).anchors name)
  | rule ref => exact hwatch _ _ (hrule ref)
  | ignore body =>
    exact hwatch _ _ ((ih body (.ignore _)).anchors.andThen fun _ _ =>
      anchors_pure fun _ => Raw.intact_unit)
  | map body transform => exact hwatch _ _ (anchors_mapped (ih body (.map ..)).anchors hlax transform)
  | mark body => exact hwatch _ _ (anchors_marked (ih body (.mark _)).anchors)
  | capture body name => exact hwatch _ _ (anchors_captured (ih body (.capture ..)).anchors name)
  | scope body => exact hwatch _ _ (anchors_inScope (ih body (.scope _)).anchors)
  | dynamic pick =>
    exact hwatch _ _ fun s hs => (ih _ (.dynamic pick s.source s.captures)).anchors s hs
  | operators operand table combine =>
    simp only [Atom.watched, Atom.watchedOperators_eq_map]
    refine hwatch _ _ (anchors_operators hlax operand (ih operand (.operand ..)) (fun op hop => ?_) combine)
    obtain ⟨op, hmem, rfl⟩ := List.mem_map.1 hop
    exact (ih op.2 (.operator _ _ hmem)).anchors.ends
  | label body label => exact hwatch _ _ (anchors_labelled (ih body (.label ..)).anchors hlax label)
  | halt => exact hwatch _ _ anchors_halt

end Watched

end Course

/-- The regime under which failures are anchored where rules were applied. -/
abbrev Regime.anchoring (table : RuleTable) (text : Text) : Regime table text :=
  Regime.yielding table text (· = .spent) fun _ start result _ =>
    ∀ cause, result = .error cause → cause.Anchored text start

/-- Every match goes on under the regime of anchored failures: what is remembered is anchored
where the rule was applied. -/
theorem Regime.lawful_anchoring (table : RuleTable) (text : Text) : (Regime.anchoring table text).Lawful :=
  Regime.lawful_yielding _ _ _ fun r _ hb _ heq => by
    cases heq
    exact .leaf (.ruleFailed r.name) none hb

section Rules

variable {table : RuleTable} {text : Text} {watch : Watch}
  (hwatch : ∀ u depth atom step,
    let C := (Regime.anchoring table text).course u depth
    C.Anchors step → C.Anchoring (watch atom step))

include hwatch

/-- References anchor their failures, in whatever state the memo is. -/
theorem anchors_applyWatched (u : Underway) (depth : Nat) (ref : RuleRef) :
    ((Regime.anchoring table text).course u depth).Anchors (table.applyWatched watch depth ref) := by
  induction depth generalizing u ref with
  | zero => exact fun s hs => absurd hs.memo.room (Nat.not_lt_zero _)
  | succ depth ih =>
    intro s hs
    have hbody (index : Nat) (atom : Atom) : (Regime.anchoring table text).Bodies u depth
        ⟨index, ref.name, do flatten false (← atom.watched watch (table.applyWatched watch depth))⟩ :=
      fun u' s' _ hs' => (anchoring_watched (hwatch u' depth) ⟨id, rfl, id⟩ (ih u') atom).anchors.andThen
        (fun _ hr => anchors_flatten false hr) s' hs'
    have happlied := ensures_applyRef hs
      (fun _ answer _ => ∀ cause, answer = .error cause → cause.Anchored text s.source.pos)
      fun index atom bodies trace hatom hstart => Regime.answers_memoized (Regime.lawful_anchoring ..)
        (hbody index atom) (RuleTable.index_lt_of_bodyAt? hatom) hstart trivial
    rw [RuleTable.applyWatched]
    refine happlied.mono ?_
    rintro result s' ⟨he, ⟨label, rfl⟩ | ⟨index, answer, rfl, hanchored⟩⟩
    · exact ⟨he, sound_error (.leaf _ _ hs.boundary)⟩
    · refine ⟨he, ?_⟩
      cases answer with
      | error cause => exact sound_error (hanchored cause rfl)
      | ok tree => exact sound_ok

/-- Matching an expression anchors its failures. -/
theorem anchoring_match (entry : Atom) (u : Underway) (depth : Nat) :
    ((Regime.anchoring table text).course u depth).Anchoring
      (entry.watched watch (table.applyWatched watch depth)) :=
  anchoring_watched (hwatch u depth) ⟨id, rfl, id⟩ (anchors_applyWatched hwatch u depth) entry

end Rules

/-- Whether the cause of a failure of an expression that was applied at an offset lies in the text, at that
offset or behind it, and leads to causes that lie in the text, no earlier than it does. -/
def Source.anchors (source : Source) (start : Nat) : Except Cause Raw → Bool
  | .error cause => decide (start ≤ cause.offset) && cause.isOrdered source.text
  | .ok _ => true

/-- The watch that breaks a match off as soon as an expression fails with a cause that is out of order. -/
def anchoringWatch : Watch := checkingWatch Source.anchors

/-- A step that anchors its failures is not broken off. -/
theorem anchoring_anchoringWatch {C : Course} (atom : Atom) {step : Matcher Raw} (h : C.Anchors step) :
    C.Anchoring (anchoringWatch atom step) := by
  intro s hs
  simp only [anchoringWatch, checkingWatch, ensures_bind, ensures_position, ensures_attempt, ensures_source]
  refine (h.guarded s hs).mono ?_
  rintro result s' ⟨he, hsound, hback⟩
  have hanchors : s'.source.anchors s.source.pos result = true := by
    cases result with
    | ok raw => rfl
    | error cause =>
      have htext : s'.source.text = C.text := he.passes.text.trans hs.text
      have hcause := hsound cause rfl
      rw [Source.anchors, htext, hcause.ordered, Bool.and_true]
      exact decide_eq_true hcause.behind
  rw [if_pos hanchors, ensures_ofResult]
  exact ⟨he, hsound, hback⟩

/-- Failures lie where they were met or behind, and the causes that led to them lie no earlier. With rules
that refer to each other in whatever way, for every text and all options, watching every application of an
expression for that changes nothing about the match that a parse is made of, whatever the memo gets to hold.
In particular, if the match fails, every cause in the tree lies at a boundary within the text, and those that
led to it directly lie no earlier. -/
theorem failures_lie_behind (table : RuleTable) (bodies : List (Nat × Atom)) (hbodies : table.Knows bodies)
    (entry : Atom) (text : String) (options : Options) :
    matchWatched anchoringWatch table bodies entry text options
        = matchEntry table bodies entry text options ∧
      matchEntry table bodies entry text options ≠ .stopped .misplaced ∧
        ∀ root s, matchEntry table bodies entry text options = .failed root s →
          ∀ cause ∈ root.nodes, cause.offset ≤ (Text.ofString text).size ∧
            (Text.ofString text).isBoundary cause.offset = true ∧
            ∀ child ∈ cause.children, cause.offset ≤ child.offset := by
  let C := (Regime.anchoring table (Text.ofString text)).course {} (table.depthBound text.utf8ByteSize)
  have hanchoring : C.Anchoring (entry.watched anchoringWatch
      (table.applyWatched anchoringWatch (table.depthBound text.utf8ByteSize))) :=
    anchoring_match (fun _ _ => anchoring_anchoringWatch) entry {} _
  have hended := hanchoring.anchors _ ((Regime.anchoring table (Text.ofString text)).start_of_knows hbodies
    options ⟨⟨by simp [Memo.find?]⟩, ⟨by simp⟩⟩)
  have hsound : matchWatched anchoringWatch table bodies entry text options
      ≠ .stopped .misplaced := fun hstopped => by cases hended.of_stopped hstopped
  have heq := matchWatched_eq (cuts_checkingWatch _) table bodies entry text options hsound
  refine ⟨heq, heq ▸ hsound, fun root s hfailed cause hcause => ?_⟩
  rw [← heq] at hfailed
  have hordered := ((hended.of_failed hfailed).2 root rfl).ordered
  obtain ⟨hb, hchildren⟩ := Cause.isOrdered_iff.1 hordered cause hcause
  exact ⟨Text.le_size_of_isBoundary hb, hb, hchildren⟩

/-- A sum with an umlaut behind it, or else with a bang. -/
def endedSum : Atom :=
  .choice [.sequence [sumTable.rules.rule "sum", .literal "ü", .literal "n"],
    .sequence [sumTable.rules.rule "sum", .literal "!"]]

/-- Both branches fail behind the sum, which is grown for the first of them and remembered for the second. -/
theorem endedSum_fails_behind : sumTable.Knows [] ∧
    matchWatched anchoringWatch sumTable [] endedSum "n+nü" {}
      = matchEntry sumTable [] endedSum "n+nü" {} ∧
    ∃ root s, matchEntry sumTable [] endedSum "n+nü" {} = .failed root s ∧
      root.nodes.map (·.offset) = [0, 5, 5, 3, 3] ∧
      ∀ cause ∈ root.nodes, cause.offset ≤ (Text.ofString "n+nü").size ∧
        (Text.ofString "n+nü").isBoundary cause.offset = true ∧
        ∀ child ∈ cause.children, cause.offset ≤ child.offset := by
  have hlies := failures_lie_behind sumTable [] sumTable.knows_nil endedSum "n+nü" {}
  obtain ⟨root, s, hfailed, hoffsets⟩ : ∃ root s, matchEntry sumTable [] endedSum "n+nü" {} = .failed root s ∧
      root.nodes.map (·.offset) = [0, 5, 5, 3, 3] := ⟨_, _, by cbv, by cbv⟩
  exact ⟨sumTable.knows_nil, hlies.1, root, s, hfailed, hoffsets, hlies.2.2 root s hfailed⟩

end Packrat
