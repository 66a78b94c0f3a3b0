import Packrat.Proofs.Ensures
import Packrat.Proofs.Parts
import Packrat.Proofs.Telling

/-!
# Bonds between steps

Two matches of one expression that differ in how references are matched are compared step by step. A bond is
a relation between the steps of the one and those of the other that every basic step has to itself and that is
passed on by the ways to join steps. All combinators hand it on, since they are made of nothing else.
-/

namespace Packrat

open Matcher

/-- A relation between steps that basic steps have to themselves and that is passed on by the ways to join
steps. -/
structure Bond where
  /-- The steps are related. -/
  Has : {α : Type} → Matcher α → Matcher α → Prop
  pure : ∀ {α : Type} (value : α), Has (Pure.pure value : Matcher α) (Pure.pure value)
  fail : ∀ {α : Type} (cause : Cause), Has (Matcher.fail cause : Matcher α) (Matcher.fail cause)
  stop : ∀ {α : Type} (reason : Stop), Has (Matcher.stop reason : Matcher α) (Matcher.stop reason)
  bind : ∀ {α β : Type} {step step' : Matcher α} {next next' : α → Matcher β}, Has step step' →
    (∀ value, Has (next value) (next' value)) → Has (step >>= next) (step' >>= next')
  attempt : ∀ {α : Type} {step step' : Matcher α}, Has step step' →
    Has (Matcher.attempt step) (Matcher.attempt step')
  position : Has Matcher.position Matcher.position
  source : Has Matcher.source Matcher.source
  moveTo : ∀ pos, Has (Matcher.moveTo pos) (Matcher.moveTo pos)
  consume : ∀ n, Has (Matcher.consume n) (Matcher.consume n)
  emit : ∀ event, Has (Matcher.emit event) (Matcher.emit event)
  tell : ∀ report, Has (Matcher.tell report) (Matcher.tell report)
  refuse : ∀ {α : Type} message offset children,
    Has (Matcher.refuse message offset children : Matcher α) (Matcher.refuse message offset children)
  flatten : ∀ named raw, Has (Matcher.flatten named raw) (Matcher.flatten named raw)
  /-- What is captured and labelled may be changed. -/
  modify : ∀ (f : Captures → Captures) (g : List String → List String),
    Has (Matcher.modify fun s => { s with captures := f s.captures, labels := g s.labels })
      (Matcher.modify fun s => { s with captures := f s.captures, labels := g s.labels })
  dynamic : ∀ {chosen chosen' : Source → Captures → Matcher Raw},
    (∀ source captures, Has (chosen source captures) (chosen' source captures)) →
      Has (fun s => chosen s.source s.captures s) fun s => chosen' s.source s.captures s

namespace Bond

variable (B : Bond) {α β : Type}

/-- What steps come to is gone on with, whether they match or fail. -/
theorem bind_attempt {step step' : Matcher α} {next next' : Except Cause α → Matcher β}
    (h : B.Has step step') (hok : ∀ value, B.Has (next (.ok value)) (next' (.ok value)))
    (herror : ∀ cause, B.Has (next (.error cause)) (next' (.error cause))) :
    B.Has (Matcher.attempt step >>= next) (Matcher.attempt step' >>= next') := by
  refine B.bind (B.attempt h) fun outcome => ?_
  cases outcome with
  | ok value => exact hok value
  | error cause => exact herror cause

/-- A result at hand has the bond with itself. -/
theorem ofResult (result : Except Cause α) : B.Has (ofResult result) (Matcher.ofResult result) := by
  cases result with
  | ok value => exact B.pure value
  | error cause => exact B.fail cause

/-- What follows two steps may be the same function of their values. -/
theorem map {step step' : Matcher α} (h : B.Has step step') (f : α → β) :
    B.Has (do return f (← step)) (do return f (← step')) := B.bind h fun _ => B.pure _

section Combinators

variable {body body' : Matcher Raw}

/-- Guarded bodies have the bond if the bodies have it. -/
theorem guarded (h : B.Has body body') : B.Has (guarded body) (Matcher.guarded body') :=
  B.bind B.position fun start => B.bind_attempt h
    (fun raw => B.bind B.position fun _ => B.bind (B.tell _) fun _ => B.pure raw)
    fun cause => B.bind (B.moveTo start) fun _ => B.fail cause

/-- A literal has the bond with itself. -/
theorem literal (word : String) : B.Has (literal word) (Matcher.literal word) := by
  refine B.bind B.source fun source => ?_
  split
  · exact B.refuse _ _ _
  · split
    · exact B.map (B.consume _) _
    · exact B.refuse _ _ _

/-- A class of characters has the bond with itself. -/
theorem character (whole : Atom) (test : Char → Bool) :
    B.Has (character whole test) (Matcher.character whole test) := by
  refine B.bind B.source fun source => ?_
  split
  · exact B.refuse _ _ _
  · split
    · exact B.map (B.consume _) _
    · exact B.refuse _ _ _

/-- Sequences have the bond if their parts have it, pair by pair. -/
theorem inOrder (whole : Atom) {ι : Type} {items : List ι} {step step' : ι → Matcher Raw}
    (h : ∀ i ∈ items, B.Has (step i) (step' i)) :
    B.Has (inOrder whole (items.map step)) (Matcher.inOrder whole (items.map step')) := by
  induction items with
  | nil => exact B.pure _
  | cons i rest ih =>
    have hrest := ih fun j hj => h j (List.mem_cons_of_mem _ hj)
    exact B.bind_attempt (h i (by simp)) (fun value => B.map hrest _)
      fun cause => B.bind B.position fun pos => B.refuse _ _ _

/-- Ordered branches have the bond if they have it pair by pair. -/
theorem firstOf (whole : Atom) (start : Nat) {ι : Type} {items : List ι}
    {step step' : ι → Matcher Raw} (h : ∀ i ∈ items, B.Has (step i) (step' i)) (causes : List Cause) :
    B.Has (firstOf whole start (items.map step) causes)
      (Matcher.firstOf whole start (items.map step') causes) := by
  induction items generalizing causes with
  | nil => exact B.bind (B.tell _) fun _ => B.refuse _ _ _
  | cons i rest ih =>
    exact B.bind_attempt (h i (by simp)) (fun value => B.bind (B.tell _) fun _ => B.pure _)
      fun cause => ih (fun j hj => h j (List.mem_cons_of_mem _ hj)) (cause :: causes)

/-- Choices have the bond if their branches have it, pair by pair. -/
theorem choice (whole : Atom) {ι : Type} {items : List ι} {step step' : ι → Matcher Raw}
    (h : ∀ i ∈ items, B.Has (step i) (step' i)) :
    B.Has (choice whole (items.map step)) (Matcher.choice whole (items.map step')) :=
  B.bind B.position fun start => B.bind (B.tell _) fun _ => B.firstOf whole start h []

/-- Rounds have the bond if their bodies have it. -/
theorem roundsFrom (h : B.Has body body') (max : Option Nat) (bound count : Nat) :
    B.Has (roundsFrom body max bound count) (Matcher.roundsFrom body' max bound count) := by
  induction bound generalizing count with
  | zero => exact B.stop _
  | succ bound ih =>
    rw [Matcher.roundsFrom, Matcher.roundsFrom]
    split
    · exact B.pure _
    · refine B.bind B.position fun before => B.bind_attempt h (fun value => ?_) fun cause => B.pure _
      refine B.bind B.position fun now => ?_
      split
      · exact B.pure _
      · exact B.bind (ih (count + 1)) fun _ => B.pure _

/-- Repetitions have the bond if their bodies have it. -/
theorem repetition (part : Atom) (h : B.Has body body') (min : Nat) (max : Option Nat)
    (optional : Bool) : B.Has (repetition part body min max optional)
      (Matcher.repetition part body' min max optional) := by
  refine B.bind B.position fun start => B.bind B.source fun source =>
    B.bind (B.roundsFrom h max _ 0) fun rounds => ?_
  dsimp only
  split
  · exact B.refuse _ _ _
  · exact B.bind B.position fun _ => B.bind (B.emit _) fun _ => B.pure _

/-- Lookaheads have the bond if their parts have it. -/
theorem lookahead (part : Atom) (h : B.Has body body') (positive : Bool) :
    B.Has (lookahead part body positive) (Matcher.lookahead part body' positive) := by
  refine B.bind B.position fun start => B.bind_attempt h
    (fun value => B.bind (B.moveTo start) fun _ => ?_)
    fun cause => B.bind (B.moveTo start) fun _ => ?_
  · cases positive
    · exact B.refuse _ _ _
    · exact B.pure _
  · cases positive
    · exact B.pure _
    · exact B.refuse _ _ _

/-- Named parts have the bond if the parts have it. -/
theorem named (h : B.Has body body') (name : String) :
    B.Has (named body name) (Matcher.named body' name) :=
  B.bind h fun raw => B.map (B.flatten true raw) _

/-- Transformed parts have the bond if the parts have it. -/
theorem mapped (h : B.Has body body') (transform : Tree → Tree) :
    B.Has (mapped body transform) (Matcher.mapped body' transform) :=
  B.bind h fun raw => B.map (B.flatten false raw) _

/-- Marked parts have the bond if the parts have it. -/
theorem marked (h : B.Has body body') : B.Has (marked body) (Matcher.marked body') :=
  B.bind B.position fun start => B.bind h fun _ => B.bind (B.moveTo start) fun _ => B.pure _

/-- Captured parts have the bond if the parts have it. -/
theorem captured (h : B.Has body body') (name : String) :
    B.Has (captured body name) (Matcher.captured body' name) :=
  B.bind h fun raw => B.bind (B.flatten false raw) fun value =>
    B.bind (B.modify (·.insert name value) id) fun _ => B.pure _

/-- Scopes have the bond if their bodies have it. -/
theorem inScope (h : B.Has body body') : B.Has (inScope body) (Matcher.inScope body') :=
  B.bind (B.modify (·.openScope) id) fun _ => B.bind (B.attempt h) fun outcome =>
    B.bind (B.modify (·.closeScope) id) fun _ => B.ofResult outcome

/-- Labelled parts have the bond if the parts have it. -/
theorem labelled (h : B.Has body body') (text : String) :
    B.Has (labelled body text) (Matcher.labelled body' text) :=
  B.bind (B.modify id (text :: ·)) fun _ => B.bind (B.attempt h) fun outcome =>
    B.bind (B.modify id (·.tail)) fun _ => B.ofResult outcome

/-- Taking in the rest has the bond with itself. -/
theorem halt : B.Has Matcher.halt Matcher.halt :=
  B.bind B.source fun _ => B.map (B.consume _) _

/-- Operands have the bond if the expressions for them have it. -/
theorem operand (part : Atom) (h : B.Has body body') :
    B.Has (operand part body) (Matcher.operand part body') :=
  B.bind_attempt h (fun raw => B.flatten true raw) fun _ => B.bind B.position fun _ => B.refuse _ _ _

/-- Scans for an operator have the bond if the operators have it, pair by pair. -/
theorem operator {ι : Type} (fixity : ι → Fixity) {items : List ι} {step step' : ι → Matcher Raw}
    (h : ∀ i ∈ items, B.Has (step i) (step' i)) :
    B.Has (operator (items.map fun i => (fixity i, step i)))
      (Matcher.operator (items.map fun i => (fixity i, step' i))) := by
  induction items with
  | nil => exact B.pure _
  | cons i rest ih =>
    exact B.bind_attempt (h i (by simp)) (fun raw => B.map (B.flatten true raw) _)
      fun _ => ih fun j hj => h j (List.mem_cons_of_mem _ hj)

/-- Climbing has the bond if operands and scans have it. -/
theorem climbFrom {element element' : Matcher Tree} {next next' : Matcher (Option (Tree × Fixity))}
    (he : B.Has element element') (hn : B.Has next next') (combine : Tree → Tree → Tree → Tree)
    (bound : Nat) (floor : UInt32) (left : Tree) : B.Has (climbFrom element next combine bound floor left)
      (Matcher.climbFrom element' next' combine bound floor left) := by
  induction bound generalizing floor left with
  | zero => exact B.stop _
  | succ bound ih =>
    refine B.bind B.position fun before => B.bind hn fun found => ?_
    rcases found with _ | ⟨symbol, fixity⟩
    · exact B.pure _
    · dsimp only
      split
      · exact B.bind (B.moveTo before) fun _ => B.pure _
      · exact B.bind he fun first => B.bind (ih _ first) fun right => ih floor _

/-- Operator expressions have the bond if their operands and their scans have it. -/
theorem operators (part : Atom) (h : B.Has body body') {table table' : List (Fixity × Matcher Raw)}
    (ht : B.Has (Matcher.operator table) (Matcher.operator table'))
    (combine : Option (Tree → Tree → Tree → Tree)) :
    B.Has (operators part body table combine) (Matcher.operators part body' table' combine) :=
  B.bind B.source fun _ => B.map (B.bind (B.operand part h) fun first =>
    B.climbFrom (B.operand part h) ht _ _ 0 first) _

end Combinators

/-- To grow clusters with a bond, the steps through which this is done have to have it. They change the memo
in ways that count no left recursion. -/
structure Recalls : Prop where
  memo : B.Has Matcher.memo Matcher.memo
  modifyMemo : ∀ f : Memo → Memo, (∀ memo, (f memo).statistics.leftRecursions = memo.statistics.leftRecursions) →
    B.Has (Matcher.modifyMemo f) (Matcher.modifyMemo f)
  forget : ∀ rules start, B.Has (Matcher.forget rules start) (Matcher.forget rules start)

/-- What is done on the side has a bond. -/
structure Heeds (asides asides' : Asides) : Prop where
  redo : ∀ rule start, B.Has (asides.redo rule start) (asides'.redo rule start)
  drop : ∀ rules start, B.Has (asides.drop rules start) (asides'.drop rules start)
  mark : ∀ rule id start, B.Has (asides.mark rule id start) (asides'.mark rule id start)

/-- What is not done has every bond. -/
theorem heeds_none : B.Heeds .none .none := ⟨fun _ _ => B.pure (), fun _ _ => B.pure (), fun _ _ _ => B.pure ()⟩

section Growing

variable {B} {asides asides' : Asides} {rule : Nat} {name : String} {body body' : Matcher Tree}
  {start cluster : Nat}

/-- A rule is looked up with a bond if what is done on the side has it, and its body has. -/
theorem Recalls.rememberedWith (hB : B.Recalls) (ha : B.Heeds asides asides') (h : B.Has body body') :
    B.Has (rememberedWith asides ⟨rule, name, body⟩ start)
      (Matcher.rememberedWith asides' ⟨rule, name, body'⟩ start) := by
  refine B.bind hB.memo fun memo => ?_
  dsimp only
  split
  · split
    · exact B.bind (hB.modifyMemo _ fun _ => rfl) fun _ => B.pure _
    · exact B.pure _
  · split
    · exact B.pure _
    · split
      · exact B.bind (ha.redo _ _) fun _ => B.bind (hB.modifyMemo _ fun _ => rfl) fun _ =>
          B.bind (B.attempt h) fun result => B.bind B.position fun stop =>
            B.bind (hB.modifyMemo _ fun _ => rfl) fun _ => B.pure _
      · split
        · exact B.bind (hB.modifyMemo _ fun _ => rfl) fun _ => B.pure _
        · exact B.pure _

/-- A rule is looked up with a bond if its body has it. -/
theorem Recalls.remembered (hB : B.Recalls) (h : B.Has body body') :
    B.Has (remembered ⟨rule, name, body⟩ start) (Matcher.remembered ⟨rule, name, body'⟩ start) :=
  hB.rememberedWith (heeds_none B) h

/-- The rounds of growing have a bond if the body has it. -/
theorem Recalls.growFrom (hB : B.Recalls) (h : B.Has body body') (bound : Nat) (best : Tree) (stop : Nat) :
    B.Has (growFrom ⟨rule, name, body⟩ start cluster bound best stop)
      (Matcher.growFrom ⟨rule, name, body'⟩ start cluster bound best stop) := by
  induction bound generalizing best stop with
  | zero => exact B.stop _
  | succ bound ih =>
    refine B.bind (B.moveTo start) fun _ => B.bind (hB.modifyMemo _ fun _ => rfl) fun _ =>
      B.bind_attempt h (fun tree => B.bind B.position fun reached => ?_)
        fun cause => B.bind B.position fun reached => B.pure _
    dsimp only
    split
    · exact B.bind (hB.modifyMemo _ fun _ => rfl) fun _ => B.bind (B.emit _) fun _ =>
        B.bind (hB.modifyMemo _ fun _ => rfl) fun _ => ih tree reached
    · exact B.pure _

/-- Entries are dropped with a bond if what is done on the side before has it. -/
theorem Recalls.forgetWith (hB : B.Recalls) (ha : B.Heeds asides asides') (rules : List Nat) (start : Nat) :
    B.Has (forgetWith asides rules start) (Matcher.forgetWith asides' rules start) :=
  B.bind (ha.drop rules start) fun _ => hB.forget rules start

/-- A match is grown with a bond if what is done on the side has it, and the body has. -/
theorem Recalls.growWith (hB : B.Recalls) (ha : B.Heeds asides asides') (h : B.Has body body') (seed : Tree)
    (stop : Nat) : B.Has (growWith asides ⟨rule, name, body⟩ start cluster seed stop)
      (Matcher.growWith asides' ⟨rule, name, body'⟩ start cluster seed stop) := by
  refine B.bind hB.memo fun memo => B.bind (hB.modifyMemo _ fun _ => rfl) fun _ =>
    B.bind B.source fun source => B.bind (hB.growFrom h _ seed stop) fun best => ?_
  have hend : B.Has (do Matcher.moveTo best.2; return best.1) (do Matcher.moveTo best.2; return best.1) :=
    B.bind (B.moveTo best.2) fun _ => B.pure best.1
  refine B.bind hB.memo fun memo' => B.bind (hB.modifyMemo _ fun _ => rfl) fun _ => ?_
  split
  · exact B.bind (hB.modifyMemo _ fun _ => rfl) fun _ => hend
  · exact B.bind (hB.modifyMemo _ fun _ => rfl) fun _ => B.bind (hB.forgetWith ha _ _) fun _ => hend

/-- An application answers for its cluster with a bond if what is done on the side has it, and the body has. -/
theorem Recalls.answerWith (hB : B.Recalls) (ha : B.Heeds asides asides') (h : B.Has body body')
    (seed : Except Cause Tree) : B.Has (answerWith asides ⟨rule, name, body⟩ start cluster seed)
      (Matcher.answerWith asides' ⟨rule, name, body'⟩ start cluster seed) := by
  refine B.bind hB.memo fun memo => ?_
  split
  · exact B.ofResult seed
  · split
    · exact B.ofResult seed
    · refine B.bind B.position fun stop => B.bind (hB.modifyMemo _ fun _ => rfl) fun _ => ?_
      cases seed with
      | ok tree => exact hB.growWith ha h tree stop
      | error cause =>
        refine B.bind (hB.modifyMemo _ fun _ => rfl) fun _ => B.bind hB.memo fun memo' => ?_
        split
        · exact B.bind (hB.forgetWith ha _ _) fun _ => B.fail cause
        · exact B.fail cause

/-- An application answers for its cluster with a bond if the body has it. -/
theorem Recalls.answerCluster (hB : B.Recalls) (h : B.Has body body') (seed : Except Cause Tree) :
    B.Has (answerCluster ⟨rule, name, body⟩ start cluster seed)
      (Matcher.answerCluster ⟨rule, name, body'⟩ start cluster seed) :=
  hB.answerWith (heeds_none B) h seed

end Growing

/-- To apply rules through the memo with a bond, whatever is done to the memo has to have it. -/
structure Minds : Prop where
  memo : B.Has Matcher.memo Matcher.memo
  modifyMemo : ∀ f, B.Has (Matcher.modifyMemo f) (Matcher.modifyMemo f)
  forget : ∀ rules start, B.Has (Matcher.forget rules start) (Matcher.forget rules start)

section Applying

variable {B} {asides asides' : Asides} {rule : Nat} {name : String} {body body' : Matcher Tree}

/-- What has a bond whatever is done to the memo has it where no left recursion is counted. -/
theorem Minds.recalls (hB : B.Minds) : B.Recalls := ⟨hB.memo, fun f _ => hB.modifyMemo f, hB.forget⟩

/-- A rule is entered with a bond if what is done on the side has it, and the bodies have. -/
theorem Minds.applyFreshWith (hB : B.Minds) (ha : B.Heeds asides asides')
    {first first' round round' : Nat → Matcher Tree} (hfirst : ∀ id, B.Has (first id) (first' id))
    (hround : ∀ id, B.Has (round id) (round' id)) (start : Nat) :
    B.Has (applyFreshWith asides ⟨rule, name, body⟩ first round start)
      (Matcher.applyFreshWith asides' ⟨rule, name, body'⟩ first' round' start) := by
  refine B.bind (hB.modifyMemo _) fun _ => B.bind hB.memo fun memo => B.bind (hB.modifyMemo _) fun _ =>
    B.bind (hB.modifyMemo _) fun _ => B.bind (B.attempt (hfirst _)) fun result =>
      B.bind (hB.modifyMemo _) fun _ => B.bind B.position fun stop => B.bind hB.memo fun memo' => ?_
  split
  · exact B.bind (hB.modifyMemo _) fun _ => B.bind (hB.modifyMemo _) fun _ =>
      hB.recalls.answerWith ha (hround _) result
  · exact B.bind (hB.modifyMemo _) fun _ => B.bind (hB.modifyMemo _) fun _ => B.ofResult result

/-- An application is marked with a bond. -/
theorem Minds.markLeftRecursion (hB : B.Minds) (rule id : Nat) :
    B.Has (markLeftRecursion rule id) (Matcher.markLeftRecursion rule id) := by
  refine B.bind hB.memo fun memo => B.bind (hB.modifyMemo _) fun _ => ?_
  split
  · exact B.emit _
  · exact B.pure _

/-- A rule is applied with a bond if what is done on the side has it, and the bodies have. -/
theorem Minds.memoizedWith (hB : B.Minds) (ha : B.Heeds asides asides') (h : B.Has body body')
    {first first' round round' : Nat → Nat → Matcher Tree}
    (hfirst : ∀ id start, B.Has (first id start) (first' id start))
    (hround : ∀ id start, B.Has (round id start) (round' id start)) :
    B.Has (memoizedWith asides ⟨rule, name, body⟩ first round)
      (Matcher.memoizedWith asides' ⟨rule, name, body'⟩ first' round') := by
  refine B.bind B.position fun start => B.bind (hB.recalls.rememberedWith ha h) fun entry => ?_
  have hfresh : B.Has (Matcher.applyFreshWith asides ⟨rule, name, body⟩ (first · start) (round · start) start)
      (Matcher.applyFreshWith asides' ⟨rule, name, body'⟩ (first' · start) (round' · start) start) :=
    hB.applyFreshWith ha (hfirst · start) (hround · start) start
  rcases entry with _ | ⟨result | id, stop⟩
  · exact hfresh
  · exact B.bind (B.moveTo stop) fun _ => B.ofResult result
  · refine B.bind hB.memo fun memo => ?_
    dsimp only
    split
    · refine B.bind (B.moveTo stop) fun _ => B.bind (ha.mark rule id start) fun _ =>
        B.bind (hB.markLeftRecursion rule id) fun _ => B.bind hB.memo fun memo' => ?_
      cases memo'.application? id with
      | none => exact hfresh
      | some application => exact B.ofResult application.seed
    · exact hfresh

/-- A rule is applied with a bond if its body has it. -/
theorem Minds.memoized (hB : B.Minds) (h : B.Has body body') :
    B.Has (memoized ⟨rule, name, body⟩) (Matcher.memoized ⟨rule, name, body'⟩) := by
  rw [← memoizedWith_none, ← memoizedWith_none]
  exact hB.memoizedWith (heeds_none B) h (fun _ _ => h) fun _ _ => h

end Applying

end Bond

end Packrat
