import Packrat.Proofs.Boundaries
import Packrat.Proofs.Ensures
import Packrat.Proofs.Parts

/-!
# Habits of steps

A habit is a property of steps that the basic steps have and that is passed on wherever steps follow each
other. The matcher of an expression is put together from basic steps, so it has every habit that the
references in it have. Steps that come in pairs, such as opening and closing a scope, need not have the
habit one by one: what is asked for is that a step between the two hands it on.

One kind of habit is to change a session only within limits, which are given as a relation between the
sessions before and behind a step.
-/

namespace Packrat

open Matcher

/-- A property of steps that basic steps have and that is passed on by the ways to join them. -/
structure Habit where
  /-- The step has the property. -/
  Has : {α : Type} → Matcher α → Prop
  pure : ∀ {α : Type} (value : α), Has (Pure.pure value : Matcher α)
  fail : ∀ {α : Type} (cause : Cause), Has (Matcher.fail cause : Matcher α)
  stop : ∀ {α : Type} (reason : Stop), Has (Matcher.stop reason : Matcher α)
  bind : ∀ {α β : Type} {step : Matcher α} {next : α → Matcher β}, Has step →
    (∀ value, Has (next value)) → Has (step >>= next)
  attempt : ∀ {α : Type} {step : Matcher α}, Has step → Has (Matcher.attempt step)
  position : Has Matcher.position
  source : Has Matcher.source
  moveTo : ∀ pos, Has (Matcher.moveTo pos)
  /-- Text is consumed only as it is read. -/
  literal : ∀ word, Has (Matcher.literal word)
  character : ∀ whole test, Has (Matcher.character whole test)
  halt : Has Matcher.halt
  emit : ∀ event, Has (Matcher.emit event)
  announce : ∀ offset, Has (Matcher.tell (.succeeded offset))
  refuse : ∀ {α : Type} message offset children, Has (Matcher.refuse message offset children : Matcher α)
  flatten : ∀ named raw, Has (Matcher.flatten named raw)
  /-- A choice has the property if, with the reporter told of its start, what tries the branches has it. -/
  choice : ∀ {whole : Atom} {branches : List (Matcher Raw)}, (∀ branch ∈ branches, Has branch) →
    Has (Matcher.choice whole branches)
  inScope : ∀ {body : Matcher Raw}, Has body → Has (Matcher.inScope body)
  labelled : ∀ {body : Matcher Raw} text, Has body → Has (Matcher.labelled body text)

namespace Habit

variable (K : Habit)

section Combinators

variable {α β : Type} {body : Matcher Raw}

/-- What a step comes to is gone on with, whether it matches or fails. -/
theorem bind_attempt {step : Matcher α} {next : Except Cause α → Matcher β} (h : K.Has step)
    (hok : ∀ value, K.Has (next (.ok value))) (herror : ∀ cause, K.Has (next (.error cause))) :
    K.Has (Matcher.attempt step >>= next) := by
  refine K.bind (K.attempt h) fun outcome => ?_
  cases outcome with
  | ok value => exact hok value
  | error cause => exact herror cause

/-- A result at hand has the habit, be it a match or a failure. -/
theorem ofResult (result : Except Cause α) : K.Has (Matcher.ofResult result) := by
  cases result with
  | ok value => exact K.pure value
  | error cause => exact K.fail cause

/-- A guarded body has the habit if the body has it. -/
theorem guarded (h : K.Has body) : K.Has (guarded body) :=
  K.bind K.position fun start => K.bind_attempt h
    (fun raw => K.bind K.position fun _ => K.bind (K.announce _) fun _ => K.pure raw)
    fun cause => K.bind (K.moveTo start) fun _ => K.fail cause

/-- Rounds have the habit if their body has it. -/
theorem roundsFrom (h : K.Has body) (max : Option Nat) (bound count : Nat) :
    K.Has (roundsFrom body max bound count) := by
  induction bound generalizing count with
  | zero => exact K.stop _
  | succ bound ih =>
    rw [Matcher.roundsFrom]
    split
    · exact K.pure _
    · refine K.bind K.position fun before => K.bind_attempt h (fun value => ?_) fun _ => K.pure _
      refine K.bind K.position fun reached => ?_
      split
      · exact K.pure _
      · exact K.bind (ih (count + 1)) fun _ => K.pure _

/-- A repetition has the habit if its body has it. -/
theorem repetition (h : K.Has body) (part : Atom) (min : Nat) (max : Option Nat) (optional : Bool) :
    K.Has (repetition part body min max optional) := by
  refine K.bind K.position fun start => K.bind K.source fun source =>
    K.bind (K.roundsFrom h max _ 0) fun rounds => ?_
  dsimp only
  split
  · exact K.refuse _ _ _
  · exact K.bind K.position fun _ => K.bind (K.emit _) fun _ => K.pure _

/-- A lookahead has the habit if its part has it. -/
theorem lookahead (h : K.Has body) (part : Atom) (positive : Bool) : K.Has (lookahead part body positive) := by
  refine K.bind K.position fun start => K.bind_attempt h
    (fun value => K.bind (K.moveTo start) fun _ => ?_)
    fun cause => K.bind (K.moveTo start) fun _ => ?_
  · cases positive
    · exact K.refuse _ _ _
    · exact K.pure _
  · cases positive
    · exact K.pure _
    · exact K.refuse _ _ _

/-- A named part has the habit if the part has it. -/
theorem named (h : K.Has body) (name : String) : K.Has (named body name) :=
  K.bind h fun raw => K.bind (K.flatten true raw) fun _ => K.pure _

/-- A transformed part has the habit if the part has it. -/
theorem mapped (h : K.Has body) (transform : Tree → Tree) : K.Has (mapped body transform) :=
  K.bind h fun raw => K.bind (K.flatten false raw) fun _ => K.pure _

/-- A marked part has the habit if the part has it. -/
theorem marked (h : K.Has body) : K.Has (marked body) :=
  K.bind K.position fun start => K.bind h fun _ => K.bind (K.moveTo start) fun _ => K.pure _

/-- An operand has the habit if the expression for it has it. -/
theorem operand (h : K.Has body) (part : Atom) : K.Has (operand part body) :=
  K.bind_attempt h (fun raw => K.flatten true raw) fun _ => K.bind K.position fun _ => K.refuse _ _ _

/-- A sequence has the habit if its parts have it. -/
theorem inOrder (whole : Atom) {parts : List (Matcher Raw)} (h : ∀ part ∈ parts, K.Has part) :
    K.Has (inOrder whole parts) := by
  induction parts with
  | nil => exact K.pure _
  | cons part rest ih =>
    have hrest := ih fun part hp => h part (List.mem_cons_of_mem _ hp)
    exact K.bind_attempt (h part (by simp)) (fun _ => K.bind hrest fun _ => K.pure _)
      fun _ => K.bind K.position fun _ => K.refuse _ _ _

/-- The scan for an operator has the habit if the operators have it. -/
theorem operator {table : List (Fixity × Matcher Raw)} (h : ∀ op ∈ table, K.Has op.2) :
    K.Has (operator table) := by
  induction table with
  | nil => exact K.pure _
  | cons op rest ih =>
    have hrest := ih fun op hop => h op (List.mem_cons_of_mem _ hop)
    exact K.bind_attempt (h op (by simp)) (fun raw => K.bind (K.flatten true raw) fun _ => K.pure _)
      fun _ => hrest

/-- Climbing has the habit if operand and scan have it. -/
theorem climbFrom {element : Matcher Tree} {next : Matcher (Option (Tree × Fixity))}
    (he : K.Has element) (hn : K.Has next) (combine : Tree → Tree → Tree → Tree) (bound : Nat)
    (floor : UInt32) (left : Tree) : K.Has (climbFrom element next combine bound floor left) := by
  induction bound generalizing floor left with
  | zero => exact K.stop _
  | succ bound ih =>
    rw [Matcher.climbFrom]
    refine K.bind K.position fun before => K.bind hn fun found => ?_
    rcases found with _ | ⟨symbol, fixity⟩
    · exact K.pure _
    · dsimp only
      split
      · exact K.bind (K.moveTo _) fun _ => K.pure _
      · exact K.bind he fun first => K.bind (ih _ first) fun _ => ih floor _

/-- An operator expression has the habit if its operand and its operators have it. -/
theorem operators (h : K.Has body) (part : Atom) {table : List (Fixity × Matcher Raw)}
    (ht : ∀ op ∈ table, K.Has op.2) (combine : Option (Tree → Tree → Tree → Tree)) :
    K.Has (operators part body table combine) :=
  K.bind K.source fun _ => K.bind (K.bind (K.operand h part) fun first =>
    K.climbFrom (K.operand h part) (K.operator ht) _ _ 0 first) fun _ => K.pure _

end Combinators

/-- An expression hands a habit on. That is not a matter of course where it refers to a rule, captures a value
or reads what was captured. -/
structure Passes (apply : RuleRef → Matcher Raw) (atom : Atom) : Prop where
  rule : ∀ ref, atom = .rule ref → K.Has (apply ref)
  capture : ∀ body name, atom = .capture body name → ∀ step, K.Has step → K.Has (captured step name)
  dynamic : ∀ pick, atom = .dynamic pick → ∀ chosen : Source → Captures → Matcher Raw,
    (∀ source captures, K.Has (chosen source captures)) → K.Has fun s => chosen s.source s.captures s

/-- An expression has a habit if it hands it on everywhere. -/
theorem has_matcher {apply : RuleRef → Matcher Raw} {atom : Atom} (h : atom.Every (K.Passes apply)) :
    K.Has (atom.matcher apply) := by
  induction h with
  | @intro atom here _ ih =>
  cases atom with
  | literal word => exact K.guarded (K.literal word)
  | char test => exact K.guarded (K.character _ test.accepts)
  | sequence parts =>
    simp only [Atom.matcher, Atom.matchers_eq_map]
    refine K.guarded (K.bind (K.inOrder _ fun part hp => ?_) fun _ => K.pure _)
    obtain ⟨a, ha, rfl⟩ := List.mem_map.1 hp
    exact ih a (.sequence ha)
  | choice branches =>
    simp only [Atom.matcher, Atom.matchers_eq_map]
    refine K.guarded (K.choice fun branch hb => ?_)
    obtain ⟨a, ha, rfl⟩ := List.mem_map.1 hb
    exact ih a (.choice ha)
  | repetition body min max optional =>
    exact K.guarded (K.repetition (ih body (.repetition ..)) body min max optional)
  | lookahead body positive => exact K.guarded (K.lookahead (ih body (.lookahead ..)) body positive)
  | named body name => exact K.guarded (K.named (ih body (.named ..)) name)
  | rule ref => exact K.guarded (here.rule ref rfl)
  | ignore body => exact K.guarded (K.bind (ih body (.ignore _)) fun _ => K.pure _)
  | map body transform => exact K.guarded (K.mapped (ih body (.map ..)) transform)
  | mark body => exact K.guarded (K.marked (ih body (.mark _)))
  | capture body name => exact K.guarded (here.capture body name rfl _ (ih body (.capture ..)))
  | scope body => exact K.guarded (K.inScope (ih body (.scope _)))
  | dynamic pick =>
    exact K.guarded (here.dynamic pick rfl _ fun source captures => ih _ (.dynamic pick source captures))
  | operators operand table combine =>
    simp only [Atom.matcher, Atom.operatorMatchers_eq_map]
    refine K.guarded (K.operators (ih operand (.operand ..)) operand (fun op hop => ?_) combine)
    obtain ⟨op, hmem, rfl⟩ := List.mem_map.1 hop
    exact ih op.2 (.operator _ _ hmem)
  | label body text => exact K.guarded (K.labelled text (ih body (.label ..)))
  | halt => exact K.guarded K.halt

/-- To apply rules with a habit, the steps through which they go to the memo have to have it. How an
application enters and leaves its record, and how growing takes its turn at an offset, is left open. -/
structure Recalls : Prop where
  memo : K.Has Matcher.memo
  countHit : K.Has (modifyMemo Memo.countHit)
  countGrowth : K.Has (modifyMemo Memo.countGrowth)
  remember : ∀ rule start answer stop, K.Has (Matcher.remember rule start answer stop)
  forget : ∀ rules start, K.Has (Matcher.forget rules start)
  modifyCluster : ∀ c f, K.Has (modifyMemo (·.modifyCluster c f))
  mark : ∀ rule id, K.Has (modifyMemo (·.markLeftRecursion rule id))
  resolve : ∀ table ref, K.Has (RuleTable.resolve table ref)
  abort : ∀ name, K.Has (RuleTable.refuseUndefined name)

section Applying

variable {K} {r : RuleBody} {start cluster : Nat}

/-- Recalling has the habit: a rule of a growing cluster that is evaluated again may be any step
that has it. -/
theorem Recalls.remembered (hK : K.Recalls) (hb : K.Has r.body) : K.Has (remembered r start) := by
  refine K.bind hK.memo fun memo => ?_
  dsimp only
  split
  · split
    · exact K.bind hK.countHit fun _ => K.pure _
    · exact K.pure _
  · split
    · exact K.pure _
    · split
      · exact K.bind (hK.modifyCluster _ _) fun _ => K.bind (K.attempt hb) fun result =>
          K.bind K.position fun stop => K.bind (hK.remember _ _ _ _) fun _ => K.pure _
      · split
        · exact K.bind hK.countHit fun _ => K.pure _
        · exact K.pure _

/-- To mark the calls of a rule that is under way has the habit, as the cluster is noted in the
memo. -/
theorem Recalls.markLeftRecursion (hK : K.Recalls) (rule id : Nat) :
    K.Has (markLeftRecursion rule id) := by
  refine K.bind hK.memo fun memo => K.bind (hK.mark rule id) fun _ => ?_
  split
  · exact K.emit _
  · exact K.pure _

/-- Growing has the habit if the body has it, round after round. -/
theorem Recalls.growFrom (hK : K.Recalls) (hb : K.Has r.body) (bound : Nat) (best : Tree) (stop : Nat) :
    K.Has (growFrom r start cluster bound best stop) := by
  induction bound generalizing best stop with
  | zero => exact K.stop _
  | succ bound ih =>
    rw [Matcher.growFrom]
    refine K.bind (K.moveTo start) fun _ => K.bind (hK.modifyCluster _ _) fun _ =>
      K.bind_attempt hb (fun tree => K.bind K.position fun reached => ?_)
        fun cause => K.bind K.position fun reached => K.pure _
    dsimp only
    split
    · exact K.bind hK.countGrowth fun _ => K.bind (K.emit _) fun _ =>
        K.bind (hK.remember _ _ _ _) fun _ => ih tree reached
    · exact K.pure _

/-- The outermost rule of a cluster answers with the habit if it grows with it. -/
theorem Recalls.answerCluster (hK : K.Recalls) (hgrow : ∀ seed stop, K.Has (grow r start cluster seed stop))
    (seed : Except Cause Tree) : K.Has (answerCluster r start cluster seed) := by
  refine K.bind hK.memo fun memo => ?_
  split
  · exact K.ofResult seed
  · split
    · exact K.ofResult seed
    · refine K.bind K.position fun stop => K.bind (hK.remember _ _ _ _) fun _ => ?_
      cases seed with
      | ok tree => exact hgrow tree stop
      | error cause =>
        refine K.bind (hK.modifyCluster _ _) fun _ => K.bind hK.memo fun memo => ?_
        split
        · exact K.bind (hK.forget _ _) fun _ => K.fail cause
        · exact K.fail cause

/-- Remembering what a rule comes to has the habit if its evaluation has it. -/
theorem Recalls.memoized (hK : K.Recalls) (hb : K.Has r.body)
    (hfresh : ∀ start, K.Has (applyFresh r start)) : K.Has (memoized r) := by
  refine K.bind K.position fun start => K.bind (hK.remembered hb) fun entry => ?_
  split
  · exact K.bind (K.moveTo _) fun _ => K.ofResult _
  · refine K.bind hK.memo fun memo => ?_
    split
    · refine K.bind (K.moveTo _) fun _ => K.bind (hK.markLeftRecursion _ _) fun _ =>
        K.bind hK.memo fun memo => ?_
      split
      · exact K.ofResult _
      · exact hfresh start
    · exact hfresh start
  · exact hfresh start

section Rules

variable (hK : K.Recalls) (hcapture : ∀ step name, K.Has step → K.Has (captured step name))
  (hdynamic : ∀ chosen : Source → Captures → Matcher Raw,
    (∀ source captures, K.Has (chosen source captures)) → K.Has fun s => chosen s.source s.captures s)

include hcapture hdynamic in
/-- Every expression has a habit if references have it. -/
theorem has_matcher_of_rules {apply : RuleRef → Matcher Raw} (happly : ∀ ref, K.Has (apply ref)) (atom : Atom) :
    K.Has (atom.matcher apply) :=
  K.has_matcher (Atom.Every.of_forall (fun _ => ⟨fun ref _ => happly ref,
    fun _ name _ step => hcapture step name, fun _ _ => hdynamic⟩) atom)

variable (hfresh : ∀ (r : RuleBody) start, K.Has r.body → K.Has (applyFresh r start)) (table : RuleTable)
  (depth : Nat)

include hK hcapture hdynamic hfresh

/-- References have a habit if fresh applications have it wherever the bodies of rules do. -/
theorem Recalls.applyRule (ref : RuleRef) : K.Has (table.applyRule depth ref) := by
  induction depth generalizing ref with
  | zero => exact K.stop _
  | succ depth ih =>
    refine K.bind (hK.resolve table ref) fun found => ?_
    split
    · exact hK.abort _
    · rename_i index body
      have hbody := K.bind (has_matcher_of_rules hcapture hdynamic ih body) fun raw => K.flatten false raw
      exact K.bind (hK.memoized hbody fun start => hfresh _ start hbody) fun tree => K.pure _

/-- The matcher of every expression has the habit where rules are applied to some depth. -/
theorem Recalls.matcher (atom : Atom) : K.Has (atom.matcher (table.applyRule depth)) :=
  has_matcher_of_rules hcapture hdynamic (hK.applyRule hcapture hdynamic hfresh table depth) atom

end Rules

end Applying

end Habit

/-- How far steps may change a session, as a relation between the sessions before and behind a step: basic
steps keep to it, and so do bracketed ones as long as the step between the brackets does. -/
structure Latitude (R : Session → Session → Prop) : Prop where
  refl : ∀ s, R s s
  trans : ∀ {s s' s''}, R s s' → R s' s'' → R s s''
  /-- The cursor stands at a boundary again if it did before. -/
  moved : ∀ (s : Session) pos,
    (s.source.text.isBoundary s.source.pos = true → s.source.text.isBoundary pos = true) →
      R s { s with source.pos := pos }
  noted : ∀ (s : Session) overwritten trace, R s { s with overwritten, trace }
  recorded : ∀ (s : Session) cause, R s { s with reporter := s.reporter.observe (.recorded cause) }
  announced : ∀ (s : Session) offset, R s { s with reporter := s.reporter.observe (.succeeded offset) }
  chosen : ∀ {s s' : Session} matched, R { s with reporter := s.reporter.observe .choiceStarted } s' →
    R s { s' with reporter := s'.reporter.observe (.choiceFinished matched) }
  inScope : ∀ {s s' : Session}, R { s with captures := s.captures.openScope } s' →
    R s { s' with captures := s'.captures.closeScope }
  labelled : ∀ {s s' : Session} text, R { s with labels := text :: s.labels } s' →
    R s { s' with labels := s'.labels.tail }

namespace Matcher

variable {α β : Type} {R : Session → Session → Prop}

/-- Wherever the step ends, it has changed the session no further than the relation says. -/
def Within (R : Session → Session → Prop) (step : Matcher α) : Prop :=
  ∀ s, Ensures anyhow step s fun _ s' => R s s'

namespace Within

variable (hR : Latitude R)

include hR

/-- Two steps in a row keep within the limits. -/
theorem bind {step : Matcher α} {next : α → Matcher β} (h : Within R step)
    (hnext : ∀ value, Within R (next value)) : Within R (step >>= next) := by
  intro s
  rw [ensures_bind]
  refine (h s).mono fun result s₁ hs₁ => ?_
  cases result with
  | error cause => exact hs₁
  | ok value => exact (hnext value s₁).mono fun _ _ hs₂ => hR.trans hs₁ hs₂

/-- What tries the branches of a choice ends with the choice decided. -/
theorem ensures_firstOf (whole : Atom) (start : Nat) {branches : List (Matcher Raw)}
    (h : ∀ branch ∈ branches, Within R branch) (causes : List Cause) (s : Session) :
    Ensures anyhow (firstOf whole start branches causes) s fun _ s' => ∃ s₁ matched, R s s₁ ∧
      R { s₁ with reporter := s₁.reporter.observe (.choiceFinished matched) } s' := by
  induction branches generalizing causes s with
  | nil =>
    simp only [firstOf, ensures_bind, ensures_tell, ensures_refuse]
    exact ⟨s, false, hR.refl s, hR.recorded _ _⟩
  | cons branch rest ih =>
    simp only [firstOf, ensures_bind, ensures_attempt]
    refine (h branch (by simp) s).mono fun result s₁ hs₁ => ?_
    cases result with
    | ok value => exact ⟨s₁, true, hs₁, hR.refl _⟩
    | error cause =>
      refine (ih (fun branch hb => h branch (List.mem_cons_of_mem _ hb)) (cause :: causes) s₁).mono ?_
      rintro result s' ⟨s₂, matched, hs₂, hs'⟩
      exact ⟨s₂, matched, hR.trans hs₁ hs₂, hs'⟩

/-- Moving the cursor keeps within the limits, which allow every move between boundaries. -/
theorem moveTo (pos : Nat) : Within R (moveTo pos) := by
  intro s
  by_cases hb : s.source.text.isBoundary pos = true
  · exact (ensures_moveTo hb _).2 (hR.moved s pos fun _ => hb)
  · simp [Ensures, Matcher.moveTo, Source.setPos?, hb, anyhow]

/-- A literal moves the cursor to a boundary if it matches. -/
theorem literal (word : String) : Within R (literal word) := by
  intro s
  simp only [Matcher.literal, ensures_bind, ensures_source]
  split
  · exact hR.recorded s _
  · split
    · rename_i hword
      rw [ensures_bind]
      refine ensures_consume_anyhow ?_
      exact hR.moved s _ fun hb => (Source.isBoundary_of_startsWith hb hword).2
    · exact hR.recorded s _

/-- A class of characters moves the cursor to a boundary if it matches. -/
theorem character (whole : Atom) (test : Char → Bool) : Within R (character whole test) := by
  intro s
  simp only [Matcher.character, ensures_bind, ensures_source]
  split
  · exact hR.recorded s _
  · rename_i c hc
    split
    · rw [ensures_bind]
      refine ensures_consume_anyhow ?_
      exact hR.moved s _ fun hb => (Source.isBoundary_of_nextChar? hb hc).2
    · exact hR.recorded s _

/-- Taking in the rest moves the cursor to the end, which is a boundary. -/
theorem halt : Within R halt := by
  intro s
  simp only [Matcher.halt, ensures_bind, ensures_source]
  refine ensures_consume_anyhow (hR.moved s _ fun hb => ?_)
  rw [Source.pos_add_remaining hb]
  exact Text.isBoundary_size _

/-- A choice keeps within the limits, as these bridge the start and the end of a choice. -/
theorem choice (whole : Atom) {branches : List (Matcher Raw)}
    (h : ∀ branch ∈ branches, Within R branch) : Within R (choice whole branches) := by
  intro s
  simp only [Matcher.choice, ensures_bind, ensures_position, ensures_tell]
  refine (ensures_firstOf hR whole _ h [] _).mono ?_
  rintro result s' ⟨s₁, matched, hs₁, hs'⟩
  exact hR.trans (hR.chosen matched hs₁) hs'

end Within

end Matcher

/-- To keep to a latitude is a habit. -/
def Habit.within {R : Session → Session → Prop} (hR : Latitude R) : Habit where
  Has := Within R
  pure _ s := hR.refl s
  fail _ s := hR.refl s
  stop _ _ := trivial
  bind h hnext := Within.bind hR h hnext
  attempt h s := (ensures_attempt _ _).2 (h s)
  position s := hR.refl s
  source s := hR.refl s
  moveTo := Within.moveTo hR
  literal := Within.literal hR
  character := Within.character hR
  halt := Within.halt hR
  emit event s := hR.noted s s.overwritten (event :: s.trace)
  announce offset s := hR.announced s offset
  refuse _ _ _ s := hR.recorded s _
  flatten named raw s := ensures_flatten named raw _ fun overwritten trace => hR.noted s overwritten trace
  choice h := Within.choice hR _ h
  inScope h s := by
    simp only [Matcher.inScope, ensures_bind, ensures_modify, ensures_attempt, ensures_ofResult]
    exact (h _).mono fun _ _ hs => hR.inScope hs
  labelled text h s := by
    simp only [Matcher.labelled, ensures_bind, ensures_modify, ensures_attempt, ensures_ofResult]
    exact (h _).mono fun _ _ hs => hR.labelled text hs

/-- What is remembered, built, captured or reached in vain does not matter to the relation. -/
structure Latitude.Loose (R : Session → Session → Prop) : Prop extends Latitude R where
  memo : ∀ (s : Session) memo, R s { s with memo }
  bodies : ∀ (s : Session) bodies trace, R s { s with bodies, trace }
  captures : ∀ (s : Session) captures, R s { s with captures }
  undefined : ∀ (s : Session) undefined trace, R s { s with undefined, trace }

namespace Latitude.Loose

variable {R : Session → Session → Prop} (hR : Loose R)

/-- To keep to a loose relation is a habit. -/
abbrev habit : Habit := .within hR.toLatitude

include hR

/-- Any change to the memo keeps within loose limits. -/
theorem modifyMemo (f : Memo → Memo) : Within R (modifyMemo f) := fun s => hR.memo s (f s.memo)

/-- Where an undefined name is reached, that is noted and refused within loose limits. -/
theorem refuseUndefined (name : String) : Within R (RuleTable.refuseUndefined name) := by
  intro s
  simp only [RuleTable.refuseUndefined, ensures_bind, ensures_session]
  split
  · exact hR.trans (hR.undefined s (some name) (.aborted name :: s.trace)) (hR.recorded _ _)
  · exact hR.recorded _ _

/-- Applications of rules keep within loose limits as far as they go to the memo. -/
theorem recalls : hR.habit.Recalls where
  memo := hR.refl
  countHit := hR.modifyMemo _
  countGrowth := hR.modifyMemo _
  remember _ _ _ _ := hR.modifyMemo _
  forget _ _ s := hR.trans (hR.memo s _) (hR.noted _ _ _)
  modifyCluster _ _ := hR.modifyMemo _
  mark _ _ := hR.modifyMemo _
  resolve table ref s := by
    unfold RuleTable.resolve Ensures
    dsimp only
    cases (table.resolve? ref).bind fun index => (table.body? index s.bodies).map (index, ·) with
    | none => exact hR.refl s
    | some found => exact hR.bodies s _ _
  abort := hR.refuseUndefined

/-- Capturing keeps within loose limits. -/
theorem captured {body : Matcher Raw} (h : Within R body) (name : String) : Within R (captured body name) :=
  hR.habit.bind h fun raw =>
    hR.habit.bind (hR.habit.flatten false raw) fun _ =>
      hR.habit.bind (fun s => hR.captures s _) fun _ s => hR.refl s

section Applying

variable {r : RuleBody} (hb : Within R r.body)

include hb

/-- Growing keeps within loose limits, with what is noted before and after it. -/
theorem grow (start cluster : Nat) (seed : Tree) (stop : Nat) : Within R (grow r start cluster seed stop) := by
  refine hR.habit.bind hR.refl fun memo => hR.habit.bind (hR.modifyMemo _) fun _ =>
    hR.habit.bind hR.refl fun source =>
    hR.habit.bind (hR.recalls.growFrom hb _ _ _) fun grown => ?_
  refine hR.habit.bind hR.refl fun memo' => hR.habit.bind (hR.modifyMemo _) fun _ => ?_
  have hmove : Within R (do moveTo grown.2; return grown.1) :=
    hR.habit.bind (hR.habit.moveTo grown.2) fun _ s => hR.refl s
  split
  · exact hR.habit.bind (hR.modifyMemo _) fun _ => hmove
  · exact hR.habit.bind (hR.modifyMemo _) fun _ =>
      hR.habit.bind (hR.recalls.forget _ _) fun _ => hmove

/-- An evaluation keeps within loose limits, with its record entered and left. -/
theorem applyFresh (start : Nat) : Within R (applyFresh r start) := by
  refine hR.habit.bind (hR.modifyMemo _) fun _ => hR.habit.bind hR.refl fun memo =>
    hR.habit.bind (hR.modifyMemo _) fun _ =>
    hR.habit.bind (hR.recalls.remember _ _ _ _) fun _ =>
    hR.habit.bind (hR.habit.attempt hb) fun result =>
    hR.habit.bind (hR.modifyMemo _) fun _ => hR.habit.bind hR.refl fun stop =>
    hR.habit.bind hR.refl fun memo' => ?_
  split
  · exact hR.habit.bind (hR.modifyMemo _) fun _ =>
      hR.habit.bind (hR.recalls.remember _ _ _ _) fun _ =>
        hR.recalls.answerCluster (fun seed stop => hR.grow hb _ _ seed stop) result
  · exact hR.habit.bind (hR.modifyMemo _) fun _ =>
      hR.habit.bind (hR.recalls.remember _ _ _ _) fun _ =>
        hR.habit.ofResult result

end Applying

/-- Matching any expression keeps to a relation to which what is remembered does not matter. -/
theorem matcher (table : RuleTable) (depth : Nat) (atom : Atom) :
    Within R (atom.matcher (table.applyRule depth)) :=
  hR.recalls.matcher (fun _ name h => hR.captured h name) (fun _ h s => h s.source s.captures s)
    (fun _ start hb => hR.applyFresh hb start) table depth atom

end Latitude.Loose

end Packrat
