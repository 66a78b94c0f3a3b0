import Packrat.Proofs.CallPath
import Packrat.Proofs.Habits

/-!
# Brackets

A match pushes and pops in many places: labels, scopes of captures, the choices that the deepest reporter
has open, applications on the call path, and clusters that are being grown at an offset. What is opened
around a step is closed again wherever the step ends, so that matching an expression leaves all of these
as they were, in a session of any kind.
-/

namespace Packrat

open Matcher

/-- What the deepest reporter tracked when each open choice started, the innermost first. The other
reporters do not keep track of choices. -/
def Reporter.choices : Reporter → List (Option Cause)
  | .deepest state => state.choices
  | .tree => []
  | .contextual _ => []

namespace Reporter

variable (reporter : Reporter)

/-- A cause that is recorded leaves the open choices alone. -/
@[simp] theorem choices_recorded (cause : Cause) :
    (reporter.observe (.recorded cause)).choices = reporter.choices := by
  cases reporter with
  | deepest state =>
    simp only [observe, choices, Deepest.observe, Deepest.record]
    split <;> rfl
  | tree => rfl
  | contextual state => rfl

/-- The announcement of a match leaves the open choices alone. -/
@[simp] theorem choices_succeeded (offset : Nat) :
    (reporter.observe (.succeeded offset)).choices = reporter.choices := by
  cases reporter <;> rfl

/-- A choice that is opened goes on top of those that are open. -/
@[simp] theorem tail_choices_choiceStarted :
    (reporter.observe .choiceStarted).choices.tail = reporter.choices := by
  cases reporter <;> rfl

/-- A choice that is decided is the innermost one that is open. -/
@[simp] theorem choices_choiceFinished (matched : Bool) :
    (reporter.observe (.choiceFinished matched)).choices = reporter.choices.tail := by
  cases reporter with
  | deepest state =>
    simp only [observe, choices, Deepest.observe, Deepest.finishChoice]
    split
    · rename_i hnone
      simp [hnone]
    · rename_i hsome
      simp [hsome]
  | tree => rfl
  | contextual state => rfl

end Reporter

namespace Memo

section Marking

variable (memo : Memo)

/-- Giving an application a cluster leaves alone what is being grown. -/
@[simp] theorem growing_clusterOf (rule id : Nat) :
    (memo.clusterOf rule id).2.growing = memo.growing := by
  cases hc : (memo.application? id).bind (·.cluster) with
  | some cluster => rw [clusterOf_of_some _ hc]
  | none =>
    rw [clusterOf_of_none _ hc]
    rfl

/-- Joining a cluster leaves alone what is being grown. -/
@[simp] theorem growing_join (cluster id : Nat) : (memo.join cluster id).growing = memo.growing := by
  unfold join
  split <;> rfl

/-- Marking a left recursion leaves alone what is being grown. -/
@[simp] theorem growing_markLeftRecursion (rule id : Nat) :
    (memo.markLeftRecursion rule id).growing = memo.growing :=
  (memo.markLeftRecursion_eq (·.growing) (fun _ _ _ => growing_join ..) rule id).trans
    (growing_clusterOf ..)

end Marking

/-- The second memo has the call path of the first, all of its records, and the same clusters that are
being grown. -/
structure Balances (memo memo' : Memo) : Prop extends Frame memo memo' where
  growing : ∀ start : Nat, memo'.growing[start]? = memo.growing[start]?

namespace Balances

variable {memo memo' memo'' : Memo}

/-- A memo is in balance with itself. -/
theorem refl (memo : Memo) : Balances memo memo := ⟨.refl memo, fun _ => rfl⟩

/-- Balance is kept step by step. -/
theorem trans (h : Balances memo memo') (h' : Balances memo' memo'') : Balances memo memo'' :=
  ⟨h.toFrame.trans h'.toFrame, fun start => (h'.growing start).trans (h.growing start)⟩

/-- A step that leaves records, the path and what is being grown alone. -/
theorem of_eq (htop : memo'.top = memo.top) (ha : memo'.applications = memo.applications)
    (hg : memo'.growing = memo.growing) : Balances memo memo' := ⟨.of_eq htop ha, fun _ => by rw [hg]⟩

/-- Marking a left recursion keeps the path and what is being grown. -/
theorem markLeftRecursion (memo : Memo) (rule id : Nat) :
    Balances memo (memo.markLeftRecursion rule id) :=
  ⟨.markLeftRecursion memo rule id, fun _ => by rw [growing_markLeftRecursion]⟩

/-- Forgetting keeps the path and what is being grown. -/
theorem forget (memo : Memo) (rules : List Nat) (start : Nat) : Balances memo (memo.forget rules start) :=
  of_eq (by simp) (by simp) (by simp)

section Leaving

variable {rule start : Nat} {seed : Except Cause Tree}

/-- An application that was entered before and is left now has closed its bracket. -/
theorem leave (h : Balances (memo.enter rule start seed) memo') (result : Except Cause Tree)
    (stop : Nat) : Balances memo (memo'.leave memo.applications.size rule start result stop) := by
  refine ⟨h.toFrame.leave result stop, fun start' => ?_⟩
  refine Eq.trans ?_ (h.growing start')
  change ((memo'.pop _).release _).growing[start']? = _
  rw [growing_release]
  rfl

/-- An application that is left with its seed has closed its bracket, too. -/
theorem leaveSeeded (h : Balances (memo.enter rule start seed) memo') (result : Except Cause Tree)
    (stop : Nat) : Balances memo (memo'.leaveSeeded memo.applications.size rule start result stop) :=
  ⟨h.toFrame.leaveSeeded result stop, h.growing⟩

end Leaving

/-- When the rounds of growing a cluster are over, what was being grown at the offset before is being grown
there again. -/
theorem restore {start cluster : Nat}
    (h : Balances { memo with growing := memo.growing.insert start cluster } memo') :
    (∀ id, memo.growing[start]? = some id →
      Balances memo { memo' with growing := memo'.growing.insert start id }) ∧
    (memo.growing[start]? = none → Balances memo { memo' with growing := memo'.growing.erase start }) := by
  have hgrowing (start' : Nat) : memo'.growing[start']?
      = if start' = start then some cluster else memo.growing[start']? := by
    rw [h.growing, growing_insert]
  constructor
  · refine fun id hid => ⟨⟨h.top, h.records⟩, fun start' => ?_⟩
    rw [growing_insert, hgrowing]
    split
    · rename_i heq
      rw [heq, hid]
    · rfl
  · refine fun hnone => ⟨⟨h.top, h.records⟩, fun start' => ?_⟩
    rw [growing_erase, hgrowing]
    split
    · rename_i heq
      rw [heq, hnone]
    · rfl

end Balances

end Memo

/-- Every bracket that is open in the first session is open in the second, and no other one is. -/
structure Session.Balances (s s' : Session) : Prop where
  labels : s'.labels = s.labels
  scopes : s'.captures.outer = s.captures.outer
  choices : s'.reporter.choices = s.reporter.choices
  memo : s.memo.Balances s'.memo

namespace Session

/-- A session is in balance with itself. -/
theorem Balances.refl (s : Session) : Balances s s := ⟨rfl, rfl, rfl, .refl _⟩

/-- Balance is kept step by step. -/
theorem Balances.trans {s s' s'' : Session} (h : Balances s s') (h' : Balances s' s'') : Balances s s'' where
  labels := h'.labels.trans h.labels
  scopes := h'.scopes.trans h.scopes
  choices := h'.choices.trans h.choices
  memo := h.memo.trans h'.memo

/-- A scope that was opened is the innermost one when its body has been matched, so closing it gives back
the captures there were. -/
theorem Balances.closeScope {s s' : Session}
    (h : Balances { s with captures := s.captures.openScope } s') : s'.captures.closeScope = s.captures := by
  rw [Captures.closeScope, h.scopes]
  rfl

/-- Balance is a limit that all basic steps keep within. -/
theorem latitude_balances : Latitude Balances where
  refl := .refl
  trans := .trans
  moved _ _ _ := ⟨rfl, rfl, rfl, .refl _⟩
  noted _ _ _ := ⟨rfl, rfl, rfl, .refl _⟩
  recorded s cause := ⟨rfl, rfl, s.reporter.choices_recorded cause, .refl _⟩
  announced s offset := ⟨rfl, rfl, s.reporter.choices_succeeded offset, .refl _⟩
  chosen {s s'} matched h := by
    refine ⟨h.labels, h.scopes, ?_, h.memo⟩
    rw [Reporter.choices_choiceFinished, h.choices, Reporter.tail_choices_choiceStarted]
  inScope {s s'} h := ⟨h.labels, congrArg Captures.outer h.closeScope, h.choices, h.memo⟩
  labelled {s s'} text h := ⟨congrArg List.tail h.labels, h.scopes, h.choices, h.memo⟩

end Session

namespace Matcher

/-- The step closes what it opens. -/
abbrev Balanced {α : Type} (step : Matcher α) : Prop := Within Session.Balances step

/-- To close what was opened is a habit. -/
abbrev balanced : Habit := .within Session.latitude_balances

variable {α : Type}

/-- A step that changes only the memo is balanced if the change is. -/
theorem balanced_modifyMemo {f : Memo → Memo} (h : ∀ memo, Memo.Balances memo (f memo)) :
    Balanced (modifyMemo f) := fun s => ⟨rfl, rfl, rfl, h s.memo⟩

/-- Forgetting is balanced. -/
theorem balanced_forget (rules : List Nat) (start : Nat) : Balanced (forget rules start) :=
  balanced.bind (fun s => Session.Balances.refl s) fun _ =>
    balanced.bind (balanced_modifyMemo fun memo' => .forget memo' _ start) fun _ _ =>
      ⟨rfl, rfl, rfl, .refl _⟩

/-- To refuse a name that leads nowhere is balanced. -/
theorem balanced_refuseUndefined (name : String) : Balanced (RuleTable.refuseUndefined name) := by
  refine balanced.bind (fun s => Session.Balances.refl s) fun session => ?_
  have hrefuse := balanced.bind balanced.position fun pos =>
    balanced.refuse (α := Raw) (.undefinedRule name) pos []
  dsimp only
  split
  · exact balanced.bind (fun _ => ⟨rfl, rfl, rfl, .refl _⟩) fun _ => hrefuse
  · exact hrefuse

/-- Capturing is balanced, as captures are no bracket. -/
theorem balanced_captured {body : Matcher Raw} (h : Balanced body) (name : String) :
    Balanced (captured body name) :=
  balanced.bind h fun raw => balanced.bind (balanced.flatten false raw) fun value =>
    balanced.bind (fun _ => ⟨rfl, rfl, rfl, .refl _⟩) fun _ => balanced.pure value

/-- What an application of a rule does to the memo, apart from entering and leaving, is
balanced. -/
theorem balanced_recalls : balanced.Recalls where
  memo := Session.Balances.refl
  countHit := balanced_modifyMemo fun _ => .of_eq rfl rfl rfl
  countGrowth := balanced_modifyMemo fun _ => .of_eq rfl rfl rfl
  remember _ _ _ _ := balanced_modifyMemo fun _ => .of_eq rfl rfl rfl
  forget := balanced_forget
  modifyCluster _ _ := balanced_modifyMemo fun _ => .of_eq rfl rfl rfl
  mark rule id := balanced_modifyMemo fun memo => .markLeftRecursion memo rule id
  resolve table ref s := by
    unfold RuleTable.resolve Ensures
    dsimp only
    cases (table.resolve? ref).bind fun index => (table.body? index s.bodies).map (index, ·) with
    | none => exact .refl s
    | some found => exact ⟨rfl, rfl, rfl, .refl _⟩
  abort := balanced_refuseUndefined

section Applying

variable {r : RuleBody} {start cluster : Nat}

/-- Rounds of growing come to a match, whatever the body comes to. -/
theorem ensures_growFrom_ok (bound : Nat) (best : Tree) (stop : Nat) (s : Session) :
    Ensures anyhow (growFrom r start cluster bound best stop) s fun result _ =>
      ∃ value, result = .ok value := by
  induction bound generalizing best stop s with
  | zero => exact trivial
  | succ bound ih =>
    simp only [growFrom, ensures_bind]
    refine ensures_moveTo_anyhow ?_
    simp only [ensures_modifyMemo, ensures_attempt, ensures_position]
    refine (ensures_anyhow r.body _).mono fun result s' _ => ?_
    cases result with
    | error cause => exact ⟨_, rfl⟩
    | ok tree =>
      dsimp only
      split
      · exact ih tree _ _
      · exact ⟨_, rfl⟩

/-- Growing puts back what was being grown at the offset. -/
theorem balanced_grow (hb : Balanced r.body) (seed : Tree) (stop : Nat) :
    Balanced (grow r start cluster seed stop) := by
  intro s
  simp only [grow, ensures_bind, ensures_memo, ensures_modifyMemo, ensures_source]
  refine ((ensures_growFrom_ok _ seed stop _).and (balanced_recalls.growFrom hb _ seed stop _)).mono ?_
  rintro result s' ⟨⟨value, rfl⟩, hs'⟩
  have hmemo : Memo.Balances _ (s'.memo.clearDue cluster) := hs'.memo.trans (.of_eq rfl rfl rfl)
  obtain ⟨hsome, hnone⟩ := hmemo.restore
  dsimp only
  cases houter : s.memo.growing[start]? with
  | some id =>
    simp only [ensures_bind, ensures_modifyMemo]
    exact ensures_moveTo_anyhow ⟨hs'.labels, hs'.scopes, hs'.choices, hsome id houter⟩
  | none =>
    simp only [ensures_bind, ensures_modifyMemo]
    have herased : s.Balances { s' with
        memo := { s'.memo.clearDue cluster with growing := s'.memo.growing.erase start } } :=
      ⟨hs'.labels, hs'.scopes, hs'.choices, hnone houter⟩
    refine (balanced_forget _ start _).mono fun result s'' hs'' => ?_
    have hall := herased.trans hs''
    cases result with
    | error cause => exact hall
    | ok value =>
      exact ensures_moveTo_anyhow ⟨hall.labels, hall.scopes, hall.choices, hall.memo⟩

/-- An application is off the call path again when it has come to its answer. -/
theorem balanced_applyFresh (hb : Balanced r.body) : Balanced (applyFresh r start) := by
  intro s
  rw [ensures_applyFresh]
  refine (hb _).mono fun result s' hs' => ?_
  dsimp only
  split
  · have hleft : s.Balances { s' with
        memo := s'.memo.leaveSeeded s.memo.applications.size r.rule start result s'.source.pos } :=
      ⟨hs'.labels, hs'.scopes, hs'.choices, hs'.memo.leaveSeeded result _⟩
    exact (balanced_recalls.answerCluster (balanced_grow hb) result _).mono fun _ _ hs'' => hleft.trans hs''
  · exact ⟨hs'.labels, hs'.scopes, hs'.choices, hs'.memo.leave result _⟩

end Applying

end Matcher

namespace RuleTable

/-- The matcher of an expression closes what it opened, however it ends. -/
theorem balanced_matcher (table : RuleTable) (depth : Nat) (atom : Atom) :
    Balanced (atom.matcher (table.applyRule depth)) :=
  balanced_recalls.matcher (fun _ name h => balanced_captured h name)
    (fun _ h s => h s.source s.captures s) (fun _ _ hb => balanced_applyFresh hb) table depth atom

/-- Wherever matching an expression ends, the labels, the scopes around the innermost one, the open choices
of the deepest reporter, the application on top of the call path and the clusters that are being grown are
those it found. A scope leaves all captures as it found them. -/
theorem matcher_closes_brackets (table : RuleTable) (depth : Nat) (atom : Atom) (s : Session) :
    Ensures anyhow (atom.matcher (table.applyRule depth)) s fun _ s' =>
      s'.labels = s.labels ∧
      s'.captures.outer.length = s.captures.outer.length ∧
      s'.captures.outer = s.captures.outer ∧
      s'.reporter.choices = s.reporter.choices ∧
      s'.memo.top = s.memo.top ∧
      (∀ start : Nat, s'.memo.growing[start]? = s.memo.growing[start]?) ∧
      ∀ body, atom = .scope body → s'.captures = s.captures := by
  have hall := table.balanced_matcher depth atom s
  have hscope : Ensures anyhow (atom.matcher (table.applyRule depth)) s fun _ s' =>
      ∀ body, atom = .scope body → s'.captures = s.captures := by
    cases atom with
    | scope body =>
      simp only [Atom.matcher, guarded, inScope, ensures_bind, ensures_attempt, ensures_position,
        ensures_modify, ensures_ofResult]
      refine (table.balanced_matcher depth body _).mono fun result s' hs' => ?_
      cases result with
      | error cause =>
        simp only [ensures_bind]
        exact ensures_moveTo_anyhow fun _ _ => hs'.closeScope
      | ok raw => exact fun _ _ => hs'.closeScope
    | _ => exact (ensures_anyhow _ s).mono fun _ _ _ body heq => by simp at heq
  refine (hall.and hscope).mono fun result s' hs' => ?_
  obtain ⟨hbrackets, hcaptures⟩ := hs'
  exact ⟨hbrackets.labels, congrArg List.length hbrackets.scopes, hbrackets.scopes, hbrackets.choices,
    hbrackets.memo.top, hbrackets.memo.growing, hcaptures⟩

end RuleTable

end Packrat
