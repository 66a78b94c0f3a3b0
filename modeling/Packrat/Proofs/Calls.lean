import Packrat.Proofs.Termination

/-!
# Matches that are told of their calls

An application of a rule matches the body of the rule and then returns, unless the rule is found to be the head of
a cluster: then its match is grown first. A watch, and what is done on the side of applying rules, can be told which
applications have not returned yet. This is not looked up in the memo but handed on from every application to what is
matched in it, so that what the memo says about applications can be held against it: a match may be broken off unless
the memo meets a condition.
-/

namespace Packrat

open Matcher Course

/-- The applications of rules that have not returned. -/
structure Calls where
  /-- The call path: those whose bodies are being matched since the rules were entered, the latest first. -/
  path : List Waiting := []
  /-- Those whose matches are being grown, the latest first. -/
  grown : List Waiting := []

namespace Calls

/-- A further rule is entered. -/
def enter (calls : Calls) (w : Waiting) : Calls := { calls with path := w :: calls.path }

/-- A further match is grown. -/
def grow (calls : Calls) (w : Waiting) : Calls := { calls with grown := w :: calls.grown }

end Calls

/-- Applies a rule through the memo, where the body of the rule is told of the calls that it is matched in, and
what is done on the side of the calls that the rule is applied in. -/
def Matcher.memoizedIn (asides : Calls → Asides) (calls : Calls) (rule : Nat) (name : String)
    (body : Calls → Matcher Tree) : Matcher Tree :=
  memoizedWith (asides calls) ⟨rule, name, body calls⟩ (fun id start => body (calls.enter ⟨id, rule, start⟩))
    fun id start => body (calls.grow ⟨id, rule, start⟩)

/-- Applies the rule that a reference leads to, with a watch on its body and with steps on the side that are told of
the calls. -/
def RuleTable.applyAttended (table : RuleTable) (watch : Calls → Watch) (asides : Calls → Asides) :
    (depth : Nat) → Calls → RuleRef → Matcher Raw
  | 0, _, _ => stop .spent
  | depth + 1, calls, ref =>
    table.applyBy (fun index atom => memoizedIn asides calls index ref.name fun calls => do
      flatten false (← atom.watched (watch calls) (table.applyAttended watch asides depth calls))) ref

/-- The match that a parse is made of, with a watch and with steps on the side that are told of the calls. -/
def matchAttended (watch : Calls → Watch) (asides : Calls → Asides) (table : RuleTable)
    (bodies : List (Nat × Atom)) (entry : Atom) (text : String) (options : Options) : Reply Raw :=
  entry.watched (watch {}) (table.applyAttended watch asides (table.depthBound text.utf8ByteSize) {})
    (Session.start text options bodies)

/-- The match that a parse is made of, with a watch that is told of the calls. -/
def matchTold (watch : Calls → Watch) : (table : RuleTable) → (bodies : List (Nat × Atom)) → (entry : Atom) →
    (text : String) → (options : Options) → Reply Raw := matchAttended watch fun _ => .none

section Cutting

variable {reason : Stop} {asides : Calls → Asides}

/-- A bond between what a body does in some calls and what it does anyway is handed on, if steps on the side have the
bond with no step at all. -/
theorem Bond.Minds.memoizedIn {B : Bond} (hB : B.Minds) (hasides : ∀ calls, B.Heeds (asides calls) .none)
    {body : Calls → Matcher Tree} {body' : Matcher Tree} (h : ∀ calls, B.Has (body calls) body') (calls : Calls)
    (rule : Nat) (name : String) :
    B.Has (Matcher.memoizedIn asides calls rule name body) (Matcher.memoized ⟨rule, name, body'⟩) := by
  rw [← memoizedWith_none]
  exact hB.memoizedWith (hasides calls) (h calls) (fun _ _ => h _) fun _ _ => h _

/-- Telling of the calls cuts the application of rules if watching cuts that of expressions, and what is done on the
side is cut from nothing. -/
theorem Matcher.Cuts.applyAttended {watch : Calls → Watch} {watch' : Watch}
    (hwatch : ∀ calls atom step step', Cuts reason step step' →
      Cuts reason (watch calls atom step) (watch' atom step'))
    (hasides : ∀ calls, (bond reason).Heeds (asides calls) .none) (table : RuleTable) (depth : Nat) (calls : Calls)
    (ref : RuleRef) :
    Cuts reason (table.applyAttended watch asides depth calls ref) (table.applyWatched watch' depth ref) := by
  induction depth generalizing calls ref with
  | zero => exact .refl _
  | succ depth ih =>
    refine .after _ fun found => ?_
    rcases found with _ | ⟨index, atom⟩
    · exact .refl _
    · have hbody (calls : Calls) :=
        ((bond reason).watched (hwatch calls) (ih calls) atom).before (flatten false)
      exact ((minds reason).memoizedIn hasides hbody calls index ref.name).before _

/-- A match that is told of its calls and not broken off for this is the match that a parse is made of. -/
theorem matchAttended_eq {watch : Calls → Watch}
    (hwatch : ∀ calls atom step step', Cuts reason step step' →
      Cuts reason (watch calls atom step) (guarded step'))
    (hasides : ∀ calls, (Cuts.bond reason).Heeds (asides calls) .none) (table : RuleTable)
    (bodies : List (Nat × Atom)) (entry : Atom) (text : String) (options : Options)
    (h : matchAttended watch asides table bodies entry text options ≠ .stopped reason) :
    matchAttended watch asides table bodies entry text options = matchEntry table bodies entry text options := by
  have heq := ((Cuts.bond reason).watched (hwatch {}) (Cuts.applyAttended hwatch hasides table _ {}) entry).eq_of_ne h
  rwa [RuleTable.applyWatched_guarded, Atom.watched_guarded] at heq

end Cutting

/-- What is under way is what has not returned. -/
structure Underway.Tells (u : Underway) (calls : Calls) : Prop where
  path : u.path = calls.path
  grown : ∀ w ∈ calls.grown, ∃ g ∈ u.grown, g.head = w.rule ∧ g.start = w.start

namespace Underway.Tells

variable {u : Underway} {calls : Calls}

/-- Where nothing is under way, everything has returned. -/
theorem nil : ({} : Underway).Tells {} := ⟨rfl, by simp⟩

/-- A rule that is entered has not returned. -/
theorem enter (h : u.Tells calls) (id rule start : Nat) :
    (u.enter id rule start).Tells (calls.enter ⟨id, rule, start⟩) where
  path := by rw [Underway.enter, Calls.enter, h.path]
  grown := h.grown

/-- The head of a cluster that is grown has not returned. -/
theorem grow (h : u.Tells calls) (cluster id rule start : Nat) :
    (u.grow cluster rule start).Tells (calls.grow ⟨id, rule, start⟩) where
  path := h.path
  grown := by
    rintro w (_ | ⟨_, hw⟩)
    · exact ⟨_, List.mem_cons_self, rfl, rfl⟩
    · obtain ⟨g, hg, hspot⟩ := h.grown w hw
      exact ⟨g, List.mem_cons_of_mem _ hg, hspot⟩

/-- To apply a member again adds no call that the match is told of. -/
theorem redo (h : u.Tells calls) (rule start : Nat) : (u.redo rule start).Tells calls := ⟨h.path, h.grown⟩

end Underway.Tells

section Ending

variable {table : RuleTable} {text : Text} {K : Regime table text} {u : Underway} {calls : Calls}
  {asides : Calls → Asides}

/-- What is done on the side changes nothing about a rule that is applied where the regime lets a match start. -/
def Regime.Idles (K : Regime table text) (asides : Calls → Asides) : Prop :=
  ∀ {u : Underway} {depth : Nat} {calls : Calls} {s : Session} {r : RuleBody} {first round : Nat → Nat → Matcher Tree},
    u.Tells calls → K.Bodied u depth s.source.pos r (first · s.source.pos) (round · s.source.pos) →
    r.rule < table.definitions.length → (K.course u (depth + 1)).Start s →
      memoizedWith (asides calls) r first round s = memoizedWith .none r first round s

/-- What is not done changes nothing. -/
theorem Regime.idles_none : K.Idles fun _ => .none := fun _ _ _ _ => rfl

/-- A rule answers if its body keeps to the regime in whatever calls it is matched. -/
theorem Regime.answers_memoizedIn (hK : K.Lawful) (hidles : K.Idles asides) {depth rule : Nat} {name : String}
    {body : Calls → Matcher Tree} {s : Session} (ht : u.Tells calls)
    (hbody : ∀ u' calls' start, u'.Tells calls' → K.Body u' depth rule start (body calls'))
    (hrule : rule < table.definitions.length) (hs : (K.course u (depth + 1)).Start s)
    (hmay : K.May u s.memo rule s.source.pos) :
    K.AnswersAt u (depth + 1) rule (memoizedIn asides calls rule name body) s := by
  have hbodied : K.Bodied u depth s.source.pos ⟨rule, name, body calls⟩
      (fun id => body (calls.enter ⟨id, rule, s.source.pos⟩))
      fun id => body (calls.grow ⟨id, rule, s.source.pos⟩) :=
    { entered := fun id => hbody _ _ _ (ht.enter id rule s.source.pos)
      grown := fun id c => hbody _ _ _ (ht.grow c id rule s.source.pos)
      again := hbody _ _ _ (ht.redo rule s.source.pos) }
  rw [AnswersAt, memoizedIn, ensures_congr (hidles ht hbodied hrule hs)]
  exact answers_memoizedWith hK hbodied hrule hs hmay

/-- Under a regime that leaves everything open about the bodies of rules, references end or are broken off,
whatever is told of their calls. -/
theorem Regime.Lawful.ends_applyAttended (hK : K.Lawful) (hlax : ∀ u depth, (K.course u depth).Lax)
    (hmay : ∀ u memo rule start, K.May u memo rule start)
    (hmatches : ∀ u rule start memo result stop memo', K.Matches u rule start memo result stop memo')
    (hidles : K.Idles asides) {watch : Calls → Watch}
    (hwatch : ∀ u depth calls, u.Tells calls → ∀ atom least step,
      (K.course u depth).Takes least step → (K.course u depth).Takes least (watch calls atom step))
    (depth : Nat) (ht : u.Tells calls) (ref : RuleRef) :
    (K.course u depth).Ends (table.applyAttended watch asides depth calls ref) := by
  induction depth generalizing u calls ref with
  | zero => exact fun s hs => absurd hs.memo.room (Nat.not_lt_zero _)
  | succ depth ih =>
    intro s hs
    have hbody (index : Nat) (atom : Atom) (u' : Underway) (calls' : Calls) (start : Nat) (ht' : u'.Tells calls') :
        K.Body u' depth index start (do
          flatten false (← atom.watched (watch calls') (table.applyAttended watch asides depth calls'))) := by
      intro s' hs' _
      have hends := (ends_watched_of_lax (hlax u' depth) (hwatch u' depth calls' ht') (ih ht') atom).andThen
        fun raw hr => ends_flatten false hr
      exact (hends s' hs').mono fun _ _ he => ⟨he, hmatches ..⟩
    rw [EndsAt, RuleTable.applyAttended]
    refine (ensures_applyRefBy hs (fun _ _ _ => True) fun index atom bodies trace hatom hstart => ?_).mono
      fun _ _ h => h.1
    exact (Regime.answers_memoizedIn hK hidles ht (hbody index atom) (RuleTable.index_lt_of_bodyAt? hatom) hstart
      (hmay ..)).mono fun _ _ h => ⟨h.1, trivial⟩

/-- A match that is told of its calls is the match that a parse is made of, and it is not broken off for a reason that
the regime does not allow for, if this is the only reason for which watching and what is done on the side cut it. -/
theorem Regime.Lawful.matchAttended_eq {text : String} {K : Regime table (Text.ofString text)} (hK : K.Lawful)
    (hlax : ∀ u depth, (K.course u depth).Lax) (hmay : ∀ u memo rule start, K.May u memo rule start)
    (hmatches : ∀ u rule start memo result stop memo', K.Matches u rule start memo result stop memo')
    (hidles : K.Idles asides) {watch : Calls → Watch}
    (hwatch : ∀ u depth calls, u.Tells calls → ∀ atom least step,
      (K.course u depth).Takes least step → (K.course u depth).Takes least (watch calls atom step))
    {reason : Stop} (hreason : ¬ K.lenient reason)
    (hcuts : ∀ calls atom step step', Cuts reason step step' →
      Cuts reason (watch calls atom step) (guarded step'))
    (hasides : ∀ calls, (Cuts.bond reason).Heeds (asides calls) .none) {bodies : List (Nat × Atom)}
    (hbodies : table.Knows bodies) (hholds : K.Holds {} {}) (entry : Atom) (options : Options) :
    matchAttended watch asides table bodies entry text options = matchEntry table bodies entry text options ∧
      matchEntry table bodies entry text options ≠ .stopped reason := by
  have hends : (K.course {} (table.depthBound text.utf8ByteSize)).Ends (entry.watched (watch {})
      (table.applyAttended watch asides (table.depthBound text.utf8ByteSize) {})) :=
    ends_watched_of_lax (hlax ..) (hwatch _ _ _ .nil)
      (hK.ends_applyAttended hlax hmay hmatches hidles hwatch _ .nil) entry
  have hended := hends _ (Regime.start_of_knows _ hbodies options hholds)
  have hsound : matchAttended watch asides table bodies entry text options ≠ .stopped reason :=
    fun hstopped => hreason (hended.of_stopped hstopped)
  have heq := Packrat.matchAttended_eq hcuts hasides table bodies entry text options hsound
  exact ⟨heq, heq ▸ hsound⟩

end Ending

section Insisting

open Classical in
/-- Breaks the match off unless the memo meets the condition. -/
noncomputable def Matcher.insist (condition : Memo → Prop) : Matcher Unit := do
  if condition (← memo) then return () else stop .misplaced

/-- The watch that breaks a match off as soon as the memo does not meet the condition, where an expression is about
to be applied or where it has come to something. -/
noncomputable def insistingWatch (condition : Memo → Prop) : Watch := fun _ step => do
  insist condition
  let outcome ← attempt (guarded step)
  insist condition
  ofResult outcome

variable {condition : Memo → Prop}

namespace Matcher

/-- Insisting on what the memo meets comes to nothing. -/
theorem ensures_insist {lenient : Stop → Prop} {s : Session} (h : condition s.memo)
    (post : Except Cause Unit → Session → Prop) : Ensures lenient (insist condition) s post ↔ post (.ok ()) s := by
  simp only [insist, ensures_bind, ensures_memo, if_pos h, ensures_pure]

/-- To insist on something changes nothing unless it breaks the match off. -/
theorem cuts_insist (condition : Memo → Prop) : Cuts .misplaced (insist condition) (pure ()) := by
  intro s
  rw [insist, memo_bind]
  by_cases h : condition s.memo
  · exact .inr (by rw [if_pos h])
  · exact .inl (by rw [if_neg h, Matcher.stop])

/-- To insist on a condition in front of a step cuts it at most. -/
theorem Cuts.insisting {α : Type} {next next' : Matcher α} (h : Cuts .misplaced next next')
    (condition : Memo → Prop) : Cuts .misplaced (do insist condition; next) next' := by
  have hcuts := (cuts_insist condition).bind fun _ => h
  rwa [pure_bind] at hcuts

/-- A watch that insists on a condition cuts a match short at most. -/
theorem cuts_insistingWatch (condition : Memo → Prop) (atom : Atom) {step step' : Matcher Raw}
    (h : Cuts .misplaced step step') : Cuts .misplaced (insistingWatch condition atom step) (guarded step') := by
  have hcuts := Cuts.insisting (h.guarded.attempt.bind fun outcome =>
    (Cuts.refl (ofResult outcome)).insisting condition) condition
  rwa [attempt_ofResult] at hcuts

end Matcher

/-- What the memo meets wherever a match may start breaks no match off. -/
theorem Course.Takes.insisting {C : Course} {least : Nat} {step : Matcher Raw} (h : C.Takes least step)
    (hcondition : ∀ {s}, C.Start s → condition s.memo) (atom : Atom) :
    C.Takes least (insistingWatch condition atom step) := by
  intro s hs
  simp only [insistingWatch, ensures_bind, ensures_attempt, ensures_insist (hcondition hs)]
  refine (h.ensures_guarded hs).mono ?_
  rintro result s' ⟨hended, -⟩
  simp only [ensures_insist (hcondition (hended.1.start hs)), ensures_ofResult]
  exact hended

end Insisting

end Packrat
