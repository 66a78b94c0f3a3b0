import Packrat.Proofs.Brackets
import Packrat.Proofs.Watching

/-!
# What failures are blamed on

An expression that fails builds a cause, tags it with the innermost label and shows it to the reporter, or it
hands on the cause that a part of it has failed with. So whatever is said of causes in view of the innermost
label and the reporter goes for all causes that an expression fails with, as long as it goes for those that
the references in it fail with: nothing that comes later takes back what the reporter was shown, unless a
choice is won, and then there is no failure.
-/

namespace Packrat

open Matcher

namespace Reporter

/-- The kind of a reporter. -/
def kind : Reporter → ReporterKind
  | .deepest _ => .deepest
  | .tree => .tree
  | .contextual _ => .contextual

/-- Whatever a reporter is told, it stays of its kind. -/
@[simp] theorem kind_observe (reporter : Reporter) (report : Report) :
    (reporter.observe report).kind = reporter.kind := by
  cases reporter <;> rfl

/-- A reporter is started as one of the kind that was asked for. -/
@[simp] theorem kind_start (kind : ReporterKind) : kind.start.kind = kind := by cases kind <;> rfl

/-- The deepest cause that is tracked lies at the offset or behind it. Reporters that do not look for the
deepest cause reach every offset. -/
def Reaches : Reporter → Nat → Prop
  | .deepest state, offset => ∃ cause, state.tracked = some cause ∧ offset ≤ cause.offset
  | .tree, _ => True
  | .contextual _, _ => True

variable {reporter reporter' : Reporter} {offset : Nat}

/-- A cause that is recorded is tracked from then on, or one is that lies no less deep. -/
theorem reaches_recorded (reporter : Reporter) (cause : Cause) :
    (reporter.observe (.recorded cause)).Reaches cause.offset := by
  cases reporter with
  | deepest state =>
    simp only [observe, Reaches, Deepest.observe, Deepest.record]
    split
    · exact ⟨cause, rfl, Nat.le_refl _⟩
    · rename_i hshallow
      cases htracked : state.tracked with
      | none => simp [htracked] at hshallow
      | some tracked => exact ⟨tracked, rfl, by simpa [htracked] using hshallow⟩
  | tree => trivial
  | contextual state => trivial

/-- What a reporter reaches it still reaches after one more cause. -/
theorem Reaches.recorded (h : reporter.Reaches offset) (cause : Cause) :
    (reporter.observe (.recorded cause)).Reaches offset := by
  cases reporter with
  | deepest state =>
    obtain ⟨tracked, htracked, hle⟩ := h
    simp only [observe, Reaches, Deepest.observe, Deepest.record]
    split
    · rename_i hdeeper
      have hlt : tracked.offset < cause.offset := by simpa [htracked] using hdeeper
      exact ⟨cause, rfl, Nat.le_trans hle (Nat.le_of_lt hlt)⟩
    · exact ⟨tracked, htracked, hle⟩
  | tree => trivial
  | contextual state => trivial

/-- A success makes no difference to the deepest cause. -/
theorem Reaches.succeeded (h : reporter.Reaches offset) (pos : Nat) :
    (reporter.observe (.succeeded pos)).Reaches offset := by
  cases reporter <;> exact h

/-- Starting a choice sets the tracked cause aside, but does not lose it. -/
theorem Reaches.choiceStarted (h : reporter.Reaches offset) :
    (reporter.observe .choiceStarted).Reaches offset := by
  cases reporter <;> exact h

/-- A choice without a match keeps what was tracked in it. -/
theorem Reaches.undecided (h : reporter.Reaches offset) :
    (reporter.observe (.choiceFinished false)).Reaches offset := by
  cases reporter with
  | deepest state =>
    simp only [observe, Reaches, Deepest.observe, Deepest.finishChoice]
    split <;> exact h
  | tree => trivial
  | contextual state => trivial

/-- A choice that is decided leaves at least what was tracked before it. -/
theorem Reaches.chosen (h : reporter.Reaches offset)
    (hchoices : reporter'.choices = (reporter.observe .choiceStarted).choices)
    (hreaches : reporter.Reaches offset → reporter'.Reaches offset) (matched : Bool) :
    (reporter'.observe (.choiceFinished matched)).Reaches offset := by
  cases reporter' with
  | deepest state' =>
    cases reporter with
    | deepest state =>
      have hopen : state'.choices = state.tracked :: state.choices := hchoices
      simp only [observe, Reaches, Deepest.observe, Deepest.finishChoice, hopen]
      cases matched
      · exact hreaches h
      · exact h
    | tree | contextual _ =>
      have hopen : state'.choices = [] := hchoices
      simp only [observe, Reaches, Deepest.observe, Deepest.finishChoice, hopen]
      exact hreaches h
  | tree => trivial
  | contextual state' => trivial

end Reporter

namespace Session

/-- The labels, the open choices and the kind of reporter are the same, and the reporter reaches as far as before
or further. -/
structure Rises (s s' : Session) : Prop where
  labels : s'.labels = s.labels
  choices : s'.reporter.choices = s.reporter.choices
  kind : s'.reporter.kind = s.reporter.kind
  reaches : ∀ offset, s.reporter.Reaches offset → s'.reporter.Reaches offset

variable {s s' s'' : Session}

/-- Rising may be done in several steps. -/
theorem Rises.trans (h : Rises s s') (h' : Rises s' s'') : Rises s s'' where
  labels := h'.labels.trans h.labels
  choices := h'.choices.trans h.choices
  kind := h'.kind.trans h.kind
  reaches offset hs := h'.reaches offset (h.reaches offset hs)

/-- A step that touches neither labels nor reporter makes nothing sink. -/
theorem Rises.of_eq (hlabels : s'.labels = s.labels) (hreporter : s'.reporter = s.reporter) : Rises s s' :=
  ⟨hlabels, by rw [hreporter], by rw [hreporter], by simp [hreporter]⟩

/-- A cause that is recorded does not make the reporter reach less far. -/
theorem Rises.recorded (s : Session) (cause : Cause) :
    Rises s { s with reporter := s.reporter.observe (.recorded cause) } :=
  ⟨rfl, s.reporter.choices_recorded cause, s.reporter.kind_observe _, fun _ h => h.recorded cause⟩

/-- Nor does the announcement of a match. -/
theorem Rises.succeeded (s : Session) (offset : Nat) :
    Rises s { s with reporter := s.reporter.observe (.succeeded offset) } :=
  ⟨rfl, s.reporter.choices_succeeded offset, s.reporter.kind_observe _, fun _ h => h.succeeded offset⟩

/-- A choice that is started and finished around a step leaves the choices open before it, and
the reporter rises if it does in between. -/
theorem Rises.chosen (matched : Bool) (h : Rises { s with reporter := s.reporter.observe .choiceStarted } s') :
    Rises s { s' with reporter := s'.reporter.observe (.choiceFinished matched) } where
  labels := h.labels
  choices := by rw [Reporter.choices_choiceFinished, h.choices, Reporter.tail_choices_choiceStarted]
  kind := by rw [Reporter.kind_observe, h.kind, Reporter.kind_observe]
  reaches offset hs := hs.chosen h.choices (fun hs => h.reaches offset hs.choiceStarted) matched

/-- No step makes a reporter forget what it had come to track before. -/
theorem loose_rises : Latitude.Loose Rises where
  refl _ := .of_eq rfl rfl
  trans := .trans
  moved _ _ _ := .of_eq rfl rfl
  noted _ _ _ := .of_eq rfl rfl
  recorded := .recorded
  announced := .succeeded
  chosen matched h := h.chosen matched
  inScope h := ⟨h.labels, h.choices, h.kind, h.reaches⟩
  labelled _ h := ⟨congrArg List.tail h.labels, h.choices, h.kind, h.reaches⟩
  memo _ _ := .of_eq rfl rfl
  bodies _ _ _ := .of_eq rfl rfl
  captures _ _ := .of_eq rfl rfl
  undefined _ _ _ := .of_eq rfl rfl

end Session

/-- What is said of causes in view of the innermost label and the reporter. It goes for a cause that is built
if it goes for the causes that led to it, and it is not taken back. -/
structure Blame where
  /-- The labels that expressions may put on. -/
  allowed : String → Prop
  /-- The memos and the known bodies with which references keep to what is said. -/
  fits : Memo → List (Nat × Atom) → Prop
  /-- What is said. -/
  On : Option String → Reporter → Cause → Prop
  kept : ∀ {label : Option String} {reporter reporter' : Reporter} {cause : Cause},
    (∀ offset, reporter.Reaches offset → reporter'.Reaches offset) → On label reporter cause →
      On label reporter' cause
  built : ∀ (label : Option String) (reporter : Reporter) (message : Message) (offset : Nat)
    (children : List Cause), (∀ child ∈ children, On label reporter child) →
      On label (reporter.observe (.recorded ⟨message, offset, none, label, children⟩))
        ⟨message, offset, none, label, children⟩
  unlabelled : ∀ {text : String} {reporter : Reporter} {cause : Cause}, allowed text →
    On (some text) reporter cause → ∀ label, On label reporter cause

namespace Blame

variable {B : Blame} {α β : Type} {s s' s'' : Session} {causes : List Cause}

variable (B) in
/-- What is said goes for the cause in the session. -/
def Covers (s : Session) (cause : Cause) : Prop := B.On s.labels.head? s.reporter cause

/-- What is said of a cause is not taken back as the reporter rises. -/
theorem Covers.rises {cause : Cause} (h : B.Covers s cause) (hr : s.Rises s') : B.Covers s' cause := by
  unfold Covers
  rw [hr.labels]
  exact B.kept hr.reaches h

variable (B) in
/-- A step has come to a failure only if what is said goes for its cause. -/
structure Ended (s : Session) (result : Except Cause α) (s' : Session) : Prop where
  fits : B.fits s'.memo s'.bodies
  rises : s.Rises s'
  covers : ∀ cause, result = .error cause → B.Covers s' cause

/-- A match has no cause that anything would have to be said of. -/
theorem Ended.of_ok {value : α} (hfits : B.fits s'.memo s'.bodies) (hr : s.Rises s') : B.Ended s (.ok value) s' :=
  ⟨hfits, hr, fun _ heq => by cases heq⟩

/-- A step that failed has ended as it should if what is said goes for its cause. -/
theorem Ended.of_error {cause : Cause} (hfits : B.fits s'.memo s'.bodies) (hr : s.Rises s') (h : B.Covers s' cause) :
    B.Ended (α := α) s (.error cause) s' := ⟨hfits, hr, fun _ heq => by cases heq; exact h⟩

/-- What came before may be taken in. -/
theorem Ended.after {result : Except Cause α} (h : B.Ended s' result s'') (hr : s.Rises s') :
    B.Ended s result s'' := ⟨h.fits, hr.trans h.rises, h.covers⟩

/-- A guarded step hands a failure on as it is. -/
theorem Ended.guarded {body : Matcher Raw} (h : Ensures anyhow body s (B.Ended s)) :
    Ensures anyhow (guarded body) s (B.Ended s) := by
  simp only [Matcher.guarded, ensures_bind, ensures_position, ensures_attempt]
  refine h.mono fun result s₁ he => ?_
  cases result with
  | ok raw =>
    simp only [ensures_bind, ensures_position, ensures_tell]
    exact .of_ok he.fits (he.rises.trans (.succeeded s₁ _))
  | error cause =>
    simp only [ensures_bind]
    exact ensures_moveTo_anyhow (.of_error he.fits (he.rises.trans (.of_eq rfl rfl)) (he.covers cause rfl))

variable (B) in
/-- From every session in which what is said goes for the given causes, the step fails only with causes that
it goes for. -/
def Blames (causes : List Cause) (step : Matcher α) : Prop :=
  ∀ s, B.fits s.memo s.bodies → (∀ cause ∈ causes, B.Covers s cause) → Ensures anyhow step s (B.Ended s)

namespace Blames

section Basic

/-- More causes may be given than a step asks for. -/
theorem weaken {more : List Cause} {step : Matcher α} (h : B.Blames causes step) (hsub : causes ⊆ more) :
    B.Blames more step := fun s hfits hmore => h s hfits fun cause hc => hmore cause (hsub hc)

/-- A step that asks for nothing may follow when something is given. -/
theorem given {step : Matcher α} (h : B.Blames [] step) : B.Blames causes step := h.weaken (List.nil_subset _)

/-- Of two steps, the second is given the same causes as the first: they go on being covered. -/
theorem bind {step : Matcher α} {next : α → Matcher β} (h : B.Blames causes step)
    (hnext : ∀ value, B.Blames causes (next value)) : B.Blames causes (step >>= next) := by
  intro s hfits hcauses
  rw [ensures_bind]
  refine (h s hfits hcauses).mono fun result s₁ he => ?_
  cases result with
  | error cause => exact .of_error he.fits he.rises (he.covers cause rfl)
  | ok value =>
    have hkept := fun cause hc => (hcauses cause hc).rises he.rises
    exact (hnext value s₁ he.fits hkept).mono fun _ _ he' => he'.after he.rises

/-- What follows a failure is given its cause. -/
theorem bind_attempt {step : Matcher α} {next : Except Cause α → Matcher β} (h : B.Blames causes step)
    (hok : ∀ value, B.Blames causes (next (.ok value)))
    (herror : ∀ cause, B.Blames (cause :: causes) (next (.error cause))) :
    B.Blames causes (attempt step >>= next) := by
  intro s hfits hcauses
  rw [ensures_bind, ensures_attempt]
  refine (h s hfits hcauses).mono fun result s₁ he => ?_
  have hkept := fun cause hc => (hcauses cause hc).rises he.rises
  cases result with
  | ok value => exact (hok value s₁ he.fits hkept).mono fun _ _ he' => he'.after he.rises
  | error cause =>
    refine (herror cause s₁ he.fits ?_).mono fun _ _ he' => he'.after he.rises
    exact List.forall_mem_cons.2 ⟨he.covers cause rfl, hkept⟩

/-- A step that matches and has nothing to do with the memo, the bodies, the labels and the reporter. -/
theorem of_ok {step : Matcher α} (h : ∀ s, Ensures anyhow step s fun result s' => s'.memo = s.memo ∧
    s'.bodies = s.bodies ∧ s'.labels = s.labels ∧ s'.reporter = s.reporter ∧ ∃ value, result = .ok value) :
    B.Blames causes step := by
  intro s hfits _
  refine (h s).mono ?_
  rintro _ s' ⟨hmemo, hbodies, hlabels, hreporter, value, rfl⟩
  exact .of_ok (hmemo ▸ hbodies ▸ hfits) (.of_eq hlabels hreporter)

/-- A value at hand has no cause. -/
theorem pure (value : α) : B.Blames causes (Pure.pure value : Matcher α) :=
  of_ok fun _ => ⟨rfl, rfl, rfl, rfl, value, rfl⟩

/-- Breaking off is not a failure. -/
theorem stop (reason : Stop) : B.Blames causes (Matcher.stop reason : Matcher α) := fun _ _ _ => trivial

/-- Asking for the offset does not fail. -/
theorem position : B.Blames causes Matcher.position := of_ok fun _ => ⟨rfl, rfl, rfl, rfl, _, rfl⟩

/-- Asking for the text does not fail. -/
theorem source : B.Blames causes Matcher.source := of_ok fun _ => ⟨rfl, rfl, rfl, rfl, _, rfl⟩

/-- Noting an event does not fail. -/
theorem emit (event : Event) : B.Blames causes (Matcher.emit event) := of_ok fun _ => ⟨rfl, rfl, rfl, rfl, _, rfl⟩

/-- Moving the cursor either matches or breaks the match off. -/
theorem moveTo (pos : Nat) : B.Blames causes (Matcher.moveTo pos) :=
  of_ok fun _ => ensures_moveTo_anyhow ⟨rfl, rfl, rfl, rfl, _, rfl⟩

/-- Consuming either matches or breaks the match off. -/
theorem consume (n : Nat) : B.Blames causes (Matcher.consume n) :=
  of_ok fun _ => ensures_consume_anyhow ⟨rfl, rfl, rfl, rfl, _, rfl⟩

/-- Flattening warns, but does not fail. -/
theorem flatten (named : Bool) (raw : Raw) : B.Blames causes (Matcher.flatten named raw) :=
  of_ok fun _ => ensures_flatten _ _ _ fun _ _ => ⟨rfl, rfl, rfl, rfl, _, rfl⟩

/-- What is said goes for a cause that is built. -/
theorem refuse (message : Message) (offset : Nat) :
    B.Blames causes (Matcher.refuse message offset causes : Matcher α) := fun s hfits hcauses =>
  .of_error hfits (.recorded s _) (B.built s.labels.head? s.reporter message offset causes hcauses)

/-- A reference that leads nowhere is refused like any other expression. -/
theorem refuseUndefined (name : String) : B.Blames [] (RuleTable.refuseUndefined name) := by
  intro s hfits _
  simp only [RuleTable.refuseUndefined, ensures_bind, ensures_session]
  split
  · exact (refuse (α := Raw) (.undefinedRule name) s.source.pos
      { s with undefined := some name, trace := .aborted name :: s.trace } hfits (by simp)).mono
        fun _ _ he => he.after (.of_eq rfl rfl)
  · exact refuse (.undefinedRule name) s.source.pos s hfits (by simp)

end Basic

section Combinators

variable {body : Matcher Raw}

/-- A guarded body fails with the cause the body failed with. -/
theorem guarded (h : B.Blames [] body) : B.Blames [] (Matcher.guarded body) :=
  fun s hfits hcauses => Ended.guarded (h s hfits hcauses)

/-- A literal fails with a cause of its own, which nothing else led to. -/
theorem literal (word : String) : B.Blames [] (Matcher.literal word) := by
  refine source.bind fun source => ?_
  split
  · exact refuse _ _
  · split
    · exact (consume _).bind fun _ => pure _
    · exact refuse _ _

/-- A class of characters fails with a cause of its own, which nothing else led to. -/
theorem character (whole : Atom) (test : Char → Bool) : B.Blames [] (Matcher.character whole test) := by
  refine source.bind fun source => ?_
  split
  · exact refuse _ _
  · split
    · exact (consume _).bind fun _ => pure _
    · exact refuse _ _

/-- A sequence fails with a cause built on that of the part that failed. -/
theorem inOrder (whole : Atom) {parts : List (Matcher Raw)} (h : ∀ part ∈ parts, B.Blames [] part) :
    B.Blames [] (Matcher.inOrder whole parts) := by
  induction parts with
  | nil => exact pure _
  | cons part rest ih =>
    have hrest := ih fun part hp => h part (List.mem_cons_of_mem _ hp)
    exact (h part List.mem_cons_self).bind_attempt (fun _ => hrest.bind fun _ => pure _)
      fun cause => position.bind fun _ => refuse _ _

/-- What tries the branches of a choice ends with the choice decided; if no branch has matched, a cause is
built after that, of those that the branches have failed with. -/
theorem ensures_firstOf (whole : Atom) (start : Nat) {branches : List (Matcher Raw)}
    (h : ∀ branch ∈ branches, B.Blames [] branch) {causes : List Cause} {s : Session} (hfits : B.fits s.memo s.bodies)
    (hcauses : ∀ cause ∈ causes, B.Covers s cause) :
    Ensures anyhow (Matcher.firstOf whole start branches causes) s fun result s' => ∃ s₁ matched, s.Rises s₁ ∧
      B.Ended { s₁ with reporter := s₁.reporter.observe (.choiceFinished matched) } result s' := by
  induction branches generalizing causes s with
  | nil =>
    -- nothing that was recorded in the choice is forgotten before the cause is built
    have hundecided : ∀ cause ∈ causes.reverse, B.Covers
        { s with reporter := s.reporter.observe (.choiceFinished false) } cause :=
      fun cause hc => B.kept (fun _ h => h.undecided) (hcauses cause (List.mem_reverse.1 hc))
    simp only [Matcher.firstOf, ensures_bind, ensures_tell]
    refine Ensures.mono (refuse (α := Raw) (.alternatives whole) start
      { s with reporter := s.reporter.observe (.choiceFinished false) } hfits hundecided) ?_
    exact fun result s' he => ⟨s, false, .of_eq rfl rfl, he⟩
  | cons branch rest ih =>
    simp only [Matcher.firstOf, ensures_bind, ensures_attempt]
    refine (h branch List.mem_cons_self s hfits (by simp)).mono fun result s₁ he => ?_
    cases result with
    | ok value => exact ⟨s₁, true, he.rises, .of_ok he.fits (.of_eq rfl rfl)⟩
    | error cause =>
      have hmore : ∀ c ∈ cause :: causes, B.Covers s₁ c :=
        List.forall_mem_cons.2 ⟨he.covers cause rfl, fun c hc => (hcauses c hc).rises he.rises⟩
      refine (ih (fun branch hb => h branch (List.mem_cons_of_mem _ hb)) he.fits hmore).mono ?_
      rintro result s' ⟨s₂, matched, hr, hrest⟩
      exact ⟨s₂, matched, he.rises.trans hr, hrest⟩

/-- A choice fails with a cause built on those of all its branches. -/
theorem choice (whole : Atom) {branches : List (Matcher Raw)}
    (h : ∀ branch ∈ branches, B.Blames [] branch) : B.Blames [] (Matcher.choice whole branches) := by
  intro s hfits _
  simp only [Matcher.choice, ensures_bind, ensures_position, ensures_tell]
  refine (ensures_firstOf (s := { s with reporter := s.reporter.observe .choiceStarted }) whole s.source.pos h
    hfits (by simp)).mono ?_
  rintro result s' ⟨s₁, matched, hr, he⟩
  exact he.after (hr.chosen matched)

/-- Rounds end with a match, and with the cause of the round that has failed, if one has. -/
theorem ensures_roundsFrom (h : B.Blames [] body) (max : Option Nat) (bound count : Nat) {s : Session}
    (hfits : B.fits s.memo s.bodies) :
    Ensures anyhow (Matcher.roundsFrom body max bound count) s fun result s' => ∃ rounds,
      result = .ok rounds ∧ B.fits s'.memo s'.bodies ∧ s.Rises s' ∧ ∀ cause ∈ rounds.2.toList, B.Covers s' cause := by
  induction bound generalizing count s with
  | zero => exact trivial
  | succ bound ih =>
    rw [Matcher.roundsFrom]
    split
    · exact ⟨_, rfl, hfits, .of_eq rfl rfl, by simp⟩
    · simp only [ensures_bind, ensures_position, ensures_attempt]
      refine (h s hfits (by simp)).mono fun result s₁ he => ?_
      cases result with
      | error cause => exact ⟨_, rfl, he.fits, he.rises, by simpa using he.covers cause rfl⟩
      | ok value =>
        simp only [ensures_bind, ensures_position]
        split
        · exact ⟨_, rfl, he.fits, he.rises, by simp⟩
        · simp only [ensures_bind]
          refine (ih (count + 1) he.fits).mono ?_
          rintro _ s₂ ⟨rounds, rfl, hfits₂, hr, hcovers⟩
          exact ⟨_, rfl, hfits₂, he.rises.trans hr, hcovers⟩

/-- A repetition fails with a cause built on that of the round that was wanting. -/
theorem repetition (h : B.Blames [] body) (part : Atom) (min : Nat) (max : Option Nat) (optional : Bool) :
    B.Blames [] (Matcher.repetition part body min max optional) := by
  intro s hfits _
  simp only [Matcher.repetition, ensures_bind, ensures_position, ensures_source]
  refine (ensures_roundsFrom h max _ 0 hfits).mono ?_
  rintro _ s₁ ⟨rounds, rfl, hfits₁, hr, hcovers⟩
  dsimp only
  split
  · exact (refuse (.atLeast min part) s.source.pos s₁ hfits₁ hcovers).mono fun _ _ he => he.after hr
  · exact .of_ok hfits₁ (hr.trans (.of_eq rfl rfl))

/-- A lookahead fails with a cause built on its part, or with one of its own if the part
matched. -/
theorem lookahead (h : B.Blames [] body) (part : Atom) (positive : Bool) :
    B.Blames [] (Matcher.lookahead part body positive) := by
  refine position.bind fun start => h.bind_attempt (fun raw => (moveTo start).bind fun _ => ?_)
    fun _ => (moveTo start).bind fun _ => ?_
  · cases positive
    · exact refuse _ _
    · exact pure _
  · cases positive
    · exact pure _
    · exact refuse _ _

/-- An operand fails if the expression for it does. -/
theorem operand (h : B.Blames [] body) (part : Atom) : B.Blames [] (Matcher.operand part body) :=
  h.bind_attempt (fun raw => flatten true raw) fun _ => position.bind fun _ => refuse _ _

/-- The scan for an operator does not fail: one that fails is passed over. -/
theorem operator {table : List (Fixity × Matcher Raw)} (h : ∀ op ∈ table, B.Blames [] op.2) :
    B.Blames [] (Matcher.operator table) := by
  induction table with
  | nil => exact pure _
  | cons op rest ih =>
    have hrest := ih fun op hop => h op (List.mem_cons_of_mem _ hop)
    exact (h op List.mem_cons_self).bind_attempt (fun raw => (flatten true raw).bind fun _ => pure _)
      fun _ => hrest.given

/-- Climbing fails if an operand does. -/
theorem climbFrom {element : Matcher Tree} {next : Matcher (Option (Tree × Fixity))} (he : B.Blames [] element)
    (hn : B.Blames [] next) (combine : Tree → Tree → Tree → Tree) (bound : Nat) (floor : UInt32)
    (left : Tree) : B.Blames [] (Matcher.climbFrom element next combine bound floor left) := by
  induction bound generalizing floor left with
  | zero => exact stop _
  | succ bound ih =>
    rw [Matcher.climbFrom]
    refine position.bind fun before => hn.bind fun found => ?_
    rcases found with _ | ⟨symbol, fixity⟩
    · exact pure _
    · dsimp only
      split
      · exact (moveTo _).bind fun _ => pure _
      · exact he.bind fun first => (ih _ first).bind fun _ => ih floor _

/-- An operator expression fails if an operand does. -/
theorem operators (h : B.Blames [] body) (part : Atom) {table : List (Fixity × Matcher Raw)}
    (ht : ∀ op ∈ table, B.Blames [] op.2) (combine : Option (Tree → Tree → Tree → Tree)) :
    B.Blames [] (Matcher.operators part body table combine) :=
  source.bind fun _ => ((h.operand part).bind fun first =>
    (h.operand part).climbFrom (.operator ht) _ _ 0 first).bind fun _ => pure _

/-- A captured part fails if the part does. -/
theorem captured (h : B.Blames [] body) (name : String) : B.Blames [] (Matcher.captured body name) := by
  refine h.bind fun raw => (flatten false raw).bind fun value => bind (of_ok fun s => ?_) fun _ => pure _
  exact ⟨rfl, rfl, rfl, rfl, _, rfl⟩

/-- A scope fails if its body does; the captures do not enter the causes. -/
theorem inScope (h : B.Blames [] body) : B.Blames [] (Matcher.inScope body) := by
  intro s hfits _
  simp only [Matcher.inScope, ensures_bind, ensures_modify, ensures_attempt, ensures_ofResult]
  refine (h { s with captures := s.captures.openScope } hfits (by simp)).mono fun result s₁ he => ?_
  exact ⟨he.fits, Session.loose_rises.inScope he.rises, he.covers⟩

/-- A labelled step fails with what its body has failed with under the label. -/
theorem ensures_labelled (h : B.Blames [] body) (text : String) {s : Session} (hfits : B.fits s.memo s.bodies) :
    Ensures anyhow (Matcher.labelled body text) s fun result s' => B.fits s'.memo s'.bodies ∧ s.Rises s' ∧
      ∀ cause, result = .error cause → B.On (some text) s'.reporter cause := by
  simp only [Matcher.labelled, ensures_bind, ensures_modify, ensures_attempt, ensures_ofResult]
  refine (h { s with labels := text :: s.labels } hfits (by simp)).mono fun result s₁ he => ?_
  refine ⟨he.fits, Session.loose_rises.labelled text he.rises, ?_⟩
  intro cause heq
  have hcovers := he.covers cause heq
  rwa [Covers, he.rises.labels] at hcovers

/-- What is said under an allowed label goes under any. -/
theorem labelled (h : B.Blames [] body) {text : String} (htext : B.allowed text) :
    B.Blames [] (Matcher.labelled body text) := by
  intro s hfits _
  refine (h.ensures_labelled text hfits).mono ?_
  rintro result s₁ ⟨hfits₁, hr, hcauses⟩
  exact ⟨hfits₁, hr, fun cause heq => B.unlabelled htext (hcauses cause heq) _⟩

/-- A guarded label fails with a cause that what is said goes for under this label. -/
theorem ensures_guarded_labelled (h : B.Blames [] body) (text : String) {s : Session}
    (hfits : B.fits s.memo s.bodies) :
    Ensures anyhow (Matcher.guarded (Matcher.labelled body text)) s fun result s' =>
      ∀ cause, result = .error cause → B.On (some text) s'.reporter cause := by
  simp only [Matcher.guarded, ensures_bind, ensures_position, ensures_attempt]
  refine (h.ensures_labelled text hfits).mono ?_
  rintro (cause | raw) s₁ ⟨-, -, hcause⟩
  · simp only [ensures_bind]
    exact ensures_moveTo_anyhow hcause
  · exact fun cause heq => by cases heq

end Combinators

end Blames

section Watched

variable {watch : Watch} {apply : RuleRef → Matcher Raw}

variable (B watch apply) in
/-- Where the expression is labelled, its label is allowed, and where it refers to a rule, what is said goes for
all causes that the reference fails with. -/
structure Marks (atom : Atom) : Prop where
  label : ∀ body text, atom = .label body text → B.allowed text
  rule : ∀ ref, atom = .rule ref → B.Blames [] (watch (.rule ref) (apply ref))

variable (hwatch : ∀ atom step, (∀ ref, atom ≠ .rule ref) → B.Blames [] step → B.Blames [] (watch atom step))

include hwatch

/-- What is said goes for all causes that an expression fails with. -/
theorem blames_watched {atom : Atom} (h : atom.Every (B.Marks watch apply)) :
    B.Blames [] (atom.watched watch apply) := by
  induction h with
  | @intro atom here _ ih =>
  cases atom with
  | literal word => exact hwatch _ _ (by simp) (.literal word)
  | char test => exact hwatch _ _ (by simp) (.character _ test.accepts)
  | sequence parts =>
    simp only [Atom.watched, Atom.watchedAll_eq_map]
    refine hwatch _ _ (by simp) ((Blames.inOrder _ fun part hp => ?_).bind fun _ => .pure _)
    obtain ⟨a, ha, rfl⟩ := List.mem_map.1 hp
    exact ih a (.sequence ha)
  | choice branches =>
    simp only [Atom.watched, Atom.watchedAll_eq_map]
    refine hwatch _ _ (by simp) (.choice _ fun branch hb => ?_)
    obtain ⟨a, ha, rfl⟩ := List.mem_map.1 hb
    exact ih a (.choice ha)
  | repetition body min max optional =>
    exact hwatch _ _ (by simp) ((ih body (.repetition ..)).repetition body min max optional)
  | lookahead body positive => exact hwatch _ _ (by simp) ((ih body (.lookahead ..)).lookahead body positive)
  | named body name =>
    exact hwatch _ _ (by simp) ((ih body (.named ..)).bind fun raw => (Blames.flatten true raw).bind fun _ =>
      .pure _)
  | rule ref => exact here.rule ref rfl
  | ignore body => exact hwatch _ _ (by simp) ((ih body (.ignore _)).bind fun _ => .pure _)
  | map body transform =>
    exact hwatch _ _ (by simp) ((ih body (.map ..)).bind fun raw => (Blames.flatten false raw).bind fun _ =>
      .pure _)
  | mark body =>
    exact hwatch _ _ (by simp) (Blames.position.bind fun start => (ih body (.mark _)).bind fun _ =>
      (Blames.moveTo start).bind fun _ => .pure _)
  | capture body name => exact hwatch _ _ (by simp) ((ih body (.capture ..)).captured name)
  | scope body => exact hwatch _ _ (by simp) (ih body (.scope _)).inScope
  | dynamic pick =>
    exact hwatch _ _ (by simp) fun s => ih _ (.dynamic pick s.source s.captures) s
  | operators operand table combine =>
    simp only [Atom.watched, Atom.watchedOperators_eq_map]
    refine hwatch _ _ (by simp) ((ih operand (.operand ..)).operators operand (fun op hop => ?_) combine)
    obtain ⟨op, hmem, rfl⟩ := List.mem_map.1 hop
    exact ih op.2 (.operator _ _ hmem)
  | label body text =>
    exact hwatch _ _ (by simp) ((ih body (.label ..)).labelled (here.label body text rfl))
  | halt => exact hwatch _ _ (by simp) (Blames.source.bind fun _ => (Blames.consume _).bind fun _ => .pure _)

end Watched

end Blame

end Packrat
