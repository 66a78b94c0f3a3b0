import Packrat.Matcher.Apply

/-!
# Rules through the memo, looked on from outside

Whoever looks on while a rule is applied through the memo can take part in two ways. The body of the rule is
matched for three reasons: because the rule has been entered, because what it matched then is being grown, or
because the rule is a member of a cluster and is applied again; so the body can be told of the application that
it is matched for. And right before something is done to what the memo keeps about a cluster, a step can be
taken on the side. Without such steps, and with a body that pays no heed to what it is told, rules are applied
as ever.
-/

namespace Packrat.Matcher

/-- Steps that are taken on the side while a rule is applied through the memo. -/
structure Asides where
  /-- Before a member of a cluster is applied again at an offset. -/
  redo : (rule start : Nat) → Matcher Unit
  /-- Before the entries of rules at an offset are dropped. -/
  drop : (rules : List Nat) → (start : Nat) → Matcher Unit
  /-- Before an application is marked that its rule has come back to at an offset. -/
  mark : (rule id start : Nat) → Matcher Unit

/-- No steps on the side. -/
def Asides.none : Asides := ⟨fun _ _ => return (), fun _ _ => return (), fun _ _ _ => return ()⟩

section Attended

variable (asides : Asides)

/-- Drops the entries of rules at an offset. -/
def forgetWith (rules : List Nat) (start : Nat) : Matcher Unit := do
  asides.drop rules start
  forget rules start

/-- What is known about a rule at an offset, which is applied again if it is due. -/
def rememberedWith (r : RuleBody) (start : Nat) : Matcher (Option Entry) := do
  let memo ← memo
  let entry := memo.find? r.rule start
  match memo.growing? start with
  | none => do
    if entry.isSome then modifyMemo Memo.countHit
    return entry
  | some (id, cluster) =>
    if entry.isNone && r.rule != cluster.head && !cluster.involved.contains r.rule then
      return some ⟨.done (.error (r.failed start)), start⟩
    else if cluster.pending.contains r.rule then do
      asides.redo r.rule start
      modifyMemo (·.modifyCluster id fun c => { c with pending := c.pending.erase r.rule })
      let result ← attempt r.body
      let stop ← position
      remember r.rule start (.done result) stop
      return some ⟨.done result, stop⟩
    else do
      if entry.isSome then modifyMemo Memo.countHit
      return entry

/-- Grows the match of the head of a cluster, and forgets the rules that the last round did not reach. -/
def growWith (r : RuleBody) (start cluster : Nat) (seed : Tree) (stop : Nat) : Matcher Tree := do
  let outer := (← memo).growing[start]?
  modifyMemo fun m => { m with growing := m.growing.insert start cluster }
  let (best, stop) ← growFrom r start cluster ((← source).text.size + 1) seed stop
  let stale := ((← memo).clusters[cluster]?.map (·.pending)).getD []
  modifyMemo (·.modifyCluster cluster fun c => { c with pending := [] })
  match outer with
  | some id => modifyMemo fun m => { m with growing := m.growing.insert start id }
  | none => do
    modifyMemo fun m => { m with growing := m.growing.erase start }
    forgetWith asides stale start
  moveTo stop
  return best

/-- The answer of an application that belongs to a cluster. -/
def answerWith (r : RuleBody) (start cluster : Nat) (seed : Except Cause Tree) : Matcher Tree := do
  match (← memo).clusters[cluster]? with
  | none => ofResult seed
  | some found =>
    if found.head != r.rule then ofResult seed
    else do
      let stop ← position
      remember r.rule start (.done seed) stop
      match seed with
      | .ok tree => growWith asides r start cluster tree stop
      | .error cause => do
        modifyMemo (·.modifyCluster cluster fun c => { c with involved := [] })
        if !(← memo).growing.contains start then forgetWith asides found.involved start
        fail cause

/-- Applies a rule by matching its body. The body is `first` when the rule is entered and `round` in rounds of
growing, and both are told the number of the record that the application has. -/
def applyFreshWith (r : RuleBody) (first round : (id : Nat) → Matcher Tree) (start : Nat) : Matcher Tree := do
  modifyMemo Memo.countMiss
  let (id, pushed) := (← memo).push r.rule start (.error (r.failed start))
  modifyMemo fun _ => pushed
  remember r.rule start (.inProgress id) start
  let result ← attempt (first id)
  modifyMemo (·.pop id)
  let stop ← position
  match ((← memo).application? id).bind (·.cluster) with
  | some cluster => do
    modifyMemo (·.modifyApplication id fun a => { a with seed := result })
    remember r.rule start (.inProgress id) stop
    answerWith asides { r with body := round id } start cluster result
  | none => do
    modifyMemo (·.release id)
    remember r.rule start (.done result) stop
    ofResult result

/-- Applies a rule through the memo. The body is that of `r` only when the rule is applied again as a member of a
cluster. -/
def memoizedWith (r : RuleBody) (first round : (id start : Nat) → Matcher Tree) : Matcher Tree := do
  let start ← position
  match ← rememberedWith asides r start with
  | some ⟨.done result, stop⟩ => do
    moveTo stop
    ofResult result
  | some ⟨.inProgress id, stop⟩ => do
    if (← memo).isActive id then
      moveTo stop
      asides.mark r.rule id start
      markLeftRecursion r.rule id
      match (← memo).application? id with
      | some application => ofResult application.seed
      | none => applyFreshWith asides r (first · start) (round · start) start
    else applyFreshWith asides r (first · start) (round · start) start
  | none => applyFreshWith asides r (first · start) (round · start) start

end Attended

/-- Without steps on the side, entries are dropped as ever. -/
@[simp] theorem forgetWith_none : forgetWith .none = forget := rfl

/-- Without steps on the side, a rule is looked up as ever. -/
@[simp] theorem rememberedWith_none : rememberedWith .none = remembered := rfl

/-- Without steps on the side, a match is grown as ever. -/
@[simp] theorem growWith_none : growWith .none = grow := rfl

/-- Without steps on the side, an application answers for its cluster as ever. -/
@[simp] theorem answerWith_none : answerWith .none = answerCluster := rfl

/-- Without steps on the side, a body that pays no heed to what it is told is applied as ever. -/
theorem memoizedWith_none (r : RuleBody) :
    memoizedWith .none r (fun _ _ => r.body) (fun _ _ => r.body) = memoized r := rfl

end Packrat.Matcher
