import Packrat.Proofs.Bonds
import Packrat.Proofs.Rules

/-!
# Watched matches

A match can be watched: a watch sees every application of an expression and may break the match off.
Apart from that a watched match is the match itself, so that one that is not broken off by its watch
shows that everything in it is as the watch asks. What is said about every expression that is applied
in a match, in every state that the match gets into, is said by a watch.
-/

namespace Packrat

open Matcher

/-- What is done for every application of an expression: it is given the expression and the step that
matches it. -/
abbrev Watch := Atom → Matcher Raw → Matcher Raw

mutual

/-- The matcher of an expression, watched. -/
def Atom.watched (watch : Watch) (apply : RuleRef → Matcher Raw) : Atom → Matcher Raw
  | .literal text => watch (.literal text) (Matcher.literal text)
  | .char test => watch (.char test) (character (.char test) test.accepts)
  | .sequence parts => watch (.sequence parts) do
    return .sequence (← inOrder (.sequence parts) (Atom.watchedAll watch apply parts))
  | .choice branches => watch (.choice branches)
    (Matcher.choice (.choice branches) (Atom.watchedAll watch apply branches))
  | .repetition body min max optional => watch (.repetition body min max optional)
    (Matcher.repetition body (body.watched watch apply) min max optional)
  | .lookahead body positive => watch (.lookahead body positive)
    (Matcher.lookahead body (body.watched watch apply) positive)
  | .named body name => watch (.named body name) (Matcher.named (body.watched watch apply) name)
  | .rule ref => watch (.rule ref) (apply ref)
  | .ignore body => watch (.ignore body) do
    let _ ← body.watched watch apply
    return .unit
  | .map body transform => watch (.map body transform) (mapped (body.watched watch apply) transform)
  | .mark body => watch (.mark body) (marked (body.watched watch apply))
  | .capture body name => watch (.capture body name)
    (Matcher.captured (body.watched watch apply) name)
  | .scope body => watch (.scope body) (inScope (body.watched watch apply))
  | .dynamic pick => watch (.dynamic pick) fun session =>
    (pick session.source session.captures).watched watch apply session
  | .operators operand table combine => watch (.operators operand table combine)
    (Matcher.operators operand (operand.watched watch apply)
      (Atom.watchedOperators watch apply table) combine)
  | .label body text => watch (.label body text) (labelled (body.watched watch apply) text)
  | .halt => watch .halt Matcher.halt

/-- The matcher of each expression, watched. -/
def Atom.watchedAll (watch : Watch) (apply : RuleRef → Matcher Raw) : List Atom → List (Matcher Raw)
  | [] => []
  | atom :: rest => atom.watched watch apply :: Atom.watchedAll watch apply rest

/-- The matcher of each operator of a table, watched. -/
def Atom.watchedOperators (watch : Watch) (apply : RuleRef → Matcher Raw) :
    List (Fixity × Atom) → List (Fixity × Matcher Raw)
  | [] => []
  | (fixity, atom) :: rest =>
    (fixity, atom.watched watch apply) :: Atom.watchedOperators watch apply rest

end

/-- Applies the rule that a reference leads to, watching its body. -/
def RuleTable.applyWatched (table : RuleTable) (watch : Watch) : (depth : Nat) → RuleRef → Matcher Raw
  | 0, _ => stop .spent
  | depth + 1, ref =>
    table.applyWith (fun _ atom => atom.watched watch (table.applyWatched watch depth)) ref

/-- The match that a parse is made of, watched. -/
def matchWatched (watch : Watch) (table : RuleTable) (bodies : List (Nat × Atom)) (entry : Atom)
    (text : String) (options : Options) : Reply Raw :=
  entry.watched watch (table.applyWatched watch (table.depthBound text.utf8ByteSize))
    (Session.start text options bodies)

namespace Atom

/-- A list of expressions is watched one by one. -/
theorem watchedAll_eq_map (watch : Watch) (apply : RuleRef → Matcher Raw) (atoms : List Atom) :
    watchedAll watch apply atoms = atoms.map (·.watched watch apply) := by
  induction atoms with
  | nil => rfl
  | cons atom rest ih => rw [watchedAll, ih, List.map_cons]

/-- A table of operators is watched operator by operator. -/
theorem watchedOperators_eq_map (watch : Watch) (apply : RuleRef → Matcher Raw)
    (table : List (Fixity × Atom)) :
    watchedOperators watch apply table = table.map fun op => (op.1, op.2.watched watch apply) := by
  induction table with
  | nil => rfl
  | cons op rest ih => rw [watchedOperators, ih, List.map_cons]

/-- The watch that only guards is no watch at all. -/
theorem watched_guarded (apply : RuleRef → Matcher Raw) (atom : Atom) :
    atom.watched (fun _ => guarded) apply = atom.matcher apply := by
  induction atom using Atom.parts_induction with
  | step atom ih =>
  cases atom with
  | sequence parts =>
    have hparts := List.map_congr_left fun part hp => ih part (.sequence hp)
    simp only [watched, matcher, watchedAll_eq_map, matchers_eq_map, hparts]
  | choice branches =>
    have hbranches := List.map_congr_left fun branch hb => ih branch (.choice hb)
    simp only [watched, matcher, watchedAll_eq_map, matchers_eq_map, hbranches]
  | operators operand table combine =>
    have htable : table.map (fun op => (op.1, op.2.watched (fun _ => guarded) apply))
        = table.map fun op => (op.1, op.2.matcher apply) :=
      List.map_congr_left fun op hop => by rw [ih op.2 (.operator _ _ hop)]
    simp only [watched, matcher, watchedOperators_eq_map, operatorMatchers_eq_map, htable,
      ih operand (.operand ..)]
  | dynamic pick =>
    have hpick (s : Session) := ih (pick s.source s.captures) (.dynamic pick s.source s.captures)
    simp only [watched, matcher, hpick]
  | repetition body => simp only [watched, matcher, ih body (.repetition ..)]
  | lookahead body => simp only [watched, matcher, ih body (.lookahead ..)]
  | named body => simp only [watched, matcher, ih body (.named ..)]
  | ignore body => simp only [watched, matcher, ih body (.ignore _)]
  | map body => simp only [watched, matcher, ih body (.map ..)]
  | mark body => simp only [watched, matcher, ih body (.mark _)]
  | capture body => simp only [watched, matcher, ih body (.capture ..)]
  | scope body => simp only [watched, matcher, ih body (.scope _)]
  | label body => simp only [watched, matcher, ih body (.label ..)]
  | literal _ | char _ | rule _ | halt => rfl

end Atom

/-- Watching an expression hands a bond on if watching the application of other expressions than references
does and every reference in it is watched with the bond. -/
theorem Bond.watched_of_refs (B : Bond) {watch watch' : Watch} {apply apply' : RuleRef → Matcher Raw}
    (hwatch : ∀ atom step step', (∀ ref, atom ≠ .rule ref) → B.Has step step' →
      B.Has (watch atom step) (watch' atom step'))
    {atom : Atom} (hatom : atom.Every fun part => ∀ ref, part = .rule ref →
      B.Has (watch (.rule ref) (apply ref)) (watch' (.rule ref) (apply' ref))) :
    B.Has (atom.watched watch apply) (atom.watched watch' apply') := by
  induction hatom with
  | @intro atom here _ ih =>
  cases atom with
  | literal word => exact hwatch _ _ _ (by simp) (B.literal word)
  | char test => exact hwatch _ _ _ (by simp) (B.character _ test.accepts)
  | halt => exact hwatch _ _ _ (by simp) B.halt
  | rule ref => exact here ref rfl
  | sequence parts =>
    simp only [Atom.watched, Atom.watchedAll_eq_map]
    exact hwatch _ _ _ (by simp) (B.map (B.inOrder _ fun part hp => ih part (.sequence hp)) _)
  | choice branches =>
    simp only [Atom.watched, Atom.watchedAll_eq_map]
    exact hwatch _ _ _ (by simp) (B.choice _ fun branch hb => ih branch (.choice hb))
  | repetition body min max optional =>
    exact hwatch _ _ _ (by simp) (B.repetition body (ih body (.repetition ..)) min max optional)
  | lookahead body positive =>
    exact hwatch _ _ _ (by simp) (B.lookahead body (ih body (.lookahead ..)) positive)
  | named body name => exact hwatch _ _ _ (by simp) (B.named (ih body (.named ..)) name)
  | ignore body => exact hwatch _ _ _ (by simp) (B.map (ih body (.ignore _)) _)
  | map body transform => exact hwatch _ _ _ (by simp) (B.mapped (ih body (.map ..)) transform)
  | mark body => exact hwatch _ _ _ (by simp) (B.marked (ih body (.mark _)))
  | capture body name => exact hwatch _ _ _ (by simp) (B.captured (ih body (.capture ..)) name)
  | scope body => exact hwatch _ _ _ (by simp) (B.inScope (ih body (.scope _)))
  | dynamic pick =>
    exact hwatch _ _ _ (by simp) (B.dynamic fun source captures => ih _ (.dynamic pick source captures))
  | operators operand table combine =>
    simp only [Atom.watched, Atom.watchedOperators_eq_map]
    refine hwatch _ _ _ (by simp) (B.operators operand (ih operand (.operand ..)) ?_ combine)
    exact B.operator (fun op : Fixity × Atom => op.1) fun op hop => ih op.2 (.operator _ _ hop)
  | label body text => exact hwatch _ _ _ (by simp) (B.labelled (ih body (.label ..)) text)

/-- Watching an expression hands a bond on if watching the application of one does and references have it. -/
theorem Bond.watched (B : Bond) {watch watch' : Watch} {apply apply' : RuleRef → Matcher Raw}
    (hwatch : ∀ atom step step', B.Has step step' → B.Has (watch atom step) (watch' atom step'))
    (hrule : ∀ ref, B.Has (apply ref) (apply' ref)) (atom : Atom) :
    B.Has (atom.watched watch apply) (atom.watched watch' apply') :=
  B.watched_of_refs (fun atom _ _ _ h => hwatch atom _ _ h)
    (.of_forall (fun _ ref _ => hwatch _ _ _ (hrule ref)) atom)

/-- Matching an expression hands a bond on if references have it. -/
theorem Bond.matcher (B : Bond) {apply apply' : RuleRef → Matcher Raw}
    (hrule : ∀ ref, B.Has (apply ref) (apply' ref)) (atom : Atom) :
    B.Has (atom.matcher apply) (atom.matcher apply') := by
  rw [← atom.watched_guarded apply, ← atom.watched_guarded apply']
  exact B.watched (fun _ _ _ h => B.guarded h) hrule atom

namespace Matcher

variable {α β : Type} {reason : Stop}

/-- Handing on what a step has come to leaves the step as it is. -/
theorem attempt_ofResult (step : Matcher α) : (do ofResult (← attempt step)) = step := by
  funext s
  change Matcher.bind (attempt step) ofResult s = step s
  unfold Matcher.bind attempt
  cases step s <;> rfl

/-- The first step is the second, or else it is broken off for the reason. -/
def Cuts (reason : Stop) (step step' : Matcher α) : Prop :=
  ∀ s, step s = .stopped reason ∨ step s = step' s

namespace Cuts

variable {step step' : Matcher α}

/-- A step cuts itself: it is never broken off. -/
theorem refl (step : Matcher α) : Cuts reason step step := fun _ => .inr rfl

/-- A step that is never broken off for the reason is not cut at all. -/
theorem eq_of_ne (h : Cuts reason step step') {s : Session} (hs : step s ≠ .stopped reason) :
    step s = step' s := (h s).resolve_left hs

/-- Of two steps in a row, either may be broken off early. -/
theorem bind {next next' : α → Matcher β} (h : Cuts reason step step')
    (hnext : ∀ value, Cuts reason (next value) (next' value)) :
    Cuts reason (step >>= next) (step' >>= next') := by
  intro s
  change Matcher.bind step next s = _ ∨ Matcher.bind step next s = Matcher.bind step' next' s
  unfold Matcher.bind
  rcases h s with hs | hs
  · rw [hs]
    exact .inl rfl
  · rw [← hs]
    cases step s with
    | stopped _ => exact .inr rfl
    | failed cause s' => exact .inr rfl
    | matched value s' => exact hnext value s'

/-- What follows a step may be cut. -/
theorem after (first : Matcher α) {next next' : α → Matcher β}
    (hnext : ∀ value, Cuts reason (next value) (next' value)) :
    Cuts reason (first >>= next) (first >>= next') := bind (refl first) hnext

/-- A step may be cut, whatever follows it. -/
theorem before (h : Cuts reason step step') (next : α → Matcher β) :
    Cuts reason (step >>= next) (step' >>= next) := bind h fun _ => refl _

/-- A step whose failure is handed on as a value may be broken off early if the step may. -/
theorem attempt (h : Cuts reason step step') :
    Cuts reason (attempt step) (Matcher.attempt step') := by
  intro s
  unfold Matcher.attempt
  rcases h s with hs | hs
  · rw [hs]
    exact .inl rfl
  · rw [← hs]
    exact .inr rfl

/-- A guarded step may be broken off early if the step may. -/
theorem guarded {step step' : Matcher Raw} (h : Cuts reason step step') :
    Cuts reason (guarded step) (Matcher.guarded step') :=
  after _ fun _ => h.attempt.before _

/-- Nothing is left of a step that is broken off at once. -/
theorem stop (step : Matcher α) : Cuts reason (stop reason) step := fun _ => .inl rfl

/-- To be cut is a bond. -/
def bond (reason : Stop) : Bond where
  Has := Cuts reason
  pure _ := refl _
  fail _ := refl _
  stop _ := refl _
  bind := bind
  attempt := attempt
  position := refl _
  source := refl _
  moveTo _ := refl _
  consume _ := refl _
  emit _ := refl _
  tell _ := refl _
  refuse _ _ _ := refl _
  flatten _ _ := refl _
  modify _ _ := refl _
  dynamic h s := h s.source s.captures s

/-- What applications of rules do to the memo is never broken off early. -/
theorem minds (reason : Stop) : (bond reason).Minds where
  memo := refl _
  modifyMemo _ := refl _
  forget _ _ := refl _

/-- Watching cuts the application of rules if it cuts that of expressions. -/
theorem applyWatched {watch watch' : Watch}
    (hwatch : ∀ atom step step', Cuts reason step step' →
      Cuts reason (watch atom step) (watch' atom step'))
    (table : RuleTable) (depth : Nat) (ref : RuleRef) :
    Cuts reason (table.applyWatched watch depth ref) (table.applyWatched watch' depth ref) := by
  induction depth generalizing ref with
  | zero => exact refl _
  | succ depth ih =>
    refine after _ fun found => ?_
    rcases found with _ | ⟨index, atom⟩
    · exact refl _
    · have hbody := ((bond reason).watched hwatch ih atom).before (flatten false)
      exact before ((minds reason).memoized hbody) _

end Cuts

end Matcher

/-- Applying rules with the watch that only guards is applying them. -/
theorem RuleTable.applyWatched_guarded (table : RuleTable) (depth : Nat) :
    table.applyWatched (fun _ => guarded) depth = table.applyRule depth := by
  induction depth with
  | zero => rfl
  | succ depth ih =>
    funext ref
    rw [applyWatched, applyRule_succ]
    simp only [ih, Atom.watched_guarded]

/-- The watch that breaks a match off as soon as an expression comes to what does not pass a check. The check
is given where the match has got to and where the expression was applied. -/
def checkingWatch (check : Source → Nat → Except Cause Raw → Bool) : Watch := fun _ step => do
  let start ← position
  let outcome ← attempt (guarded step)
  if check (← source) start outcome then ofResult outcome else stop .misplaced

/-- Breaking a step off where it does not pass a check cuts it. -/
theorem cuts_checkingWatch (check : Source → Nat → Except Cause Raw → Bool) (atom : Atom)
    {step step' : Matcher Raw} (h : Cuts .misplaced step step') :
    Cuts .misplaced (checkingWatch check atom step) (guarded step') := by
  have hcuts : Cuts .misplaced (checkingWatch check atom step) (do
      let _ ← position
      let outcome ← attempt (guarded step')
      let _ ← source
      ofResult outcome) := by
    refine .after _ fun start => h.guarded.attempt.bind fun outcome => .after _ fun source => ?_
    split
    · exact .refl _
    · exact .stop _
  have heq := attempt_ofResult (guarded step')
  exact heq ▸ hcuts

/-- A watched match of an expression that is not broken off by its watch is the match of the expression. -/
theorem Atom.watched_eq {watch : Watch} {reason : Stop}
    (hwatch : ∀ atom step step', Cuts reason step step' →
      Cuts reason (watch atom step) (guarded step'))
    (table : RuleTable) (depth : Nat) (entry : Atom) {s : Session}
    (h : entry.watched watch (table.applyWatched watch depth) s ≠ .stopped reason) :
    entry.watched watch (table.applyWatched watch depth) s
      = entry.matcher (table.applyRule depth) s := by
  have heq := ((Cuts.bond reason).watched hwatch (Cuts.applyWatched hwatch table depth) entry).eq_of_ne h
  rwa [RuleTable.applyWatched_guarded, Atom.watched_guarded] at heq

/-- A watched match that is not broken off by its watch is the match that a parse is made of. -/
theorem matchWatched_eq {watch : Watch} {reason : Stop}
    (hwatch : ∀ atom step step', Cuts reason step step' →
      Cuts reason (watch atom step) (guarded step'))
    (table : RuleTable) (bodies : List (Nat × Atom)) (entry : Atom) (text : String) (options : Options)
    (h : matchWatched watch table bodies entry text options ≠ .stopped reason) :
    matchWatched watch table bodies entry text options
      = matchEntry table bodies entry text options :=
  entry.watched_eq hwatch table _ h

end Packrat
