import Packrat.Matcher.Combinators

/-!
# Rules through the memo

A rule is applied through the memo: what is known about it at the offset is used, and what is found
out is remembered. Left-recursive rules are grown. The first time a rule comes back to itself it
gets its seed, which is a failure; the match found with that seed becomes the next seed, and so on
for as long as the match gets longer. During a round of growing, the rules of the cluster are
applied again once each, and rules that are neither known nor in the cluster fail.

All of this works on the matcher of the rule's body; it does not matter what the body is.
-/

namespace Packrat.Matcher

/-- A rule as it is applied. -/
structure RuleBody where
  /-- The place of the rule in its table. -/
  rule : Nat
  /-- The name of the rule. -/
  name : String
  /-- The flat value of the rule's body. -/
  body : Matcher Tree

/-- The failure of a rule whose body was not tried. -/
def RuleBody.failed (r : RuleBody) (start : Nat) : Cause := .leaf (.ruleFailed r.name) start

/-- Remembers an answer for a rule at an offset. -/
def remember (rule start : Nat) (answer : Answer) (stop : Nat) : Matcher Unit :=
  modifyMemo (·.remember rule start answer stop)

/-- Drops the entries of rules at an offset. -/
def forget (rules : List Nat) (start : Nat) : Matcher Unit := do
  let known := (← memo).known rules start
  modifyMemo (·.forget known start)
  modify fun s =>
    { s with trace := known.foldl (fun trace rule => .entryDropped rule start :: trace) s.trace }

/-- What is known about a rule at an offset. While a cluster is being grown there, a rule that is
neither known nor in the cluster fails, and a rule of the cluster that was not applied in this round
is applied now. -/
def remembered (r : RuleBody) (start : Nat) : Matcher (Option Entry) := do
  let memo ← memo
  let entry := memo.find? r.rule start
  match memo.growing? start with
  | none => do
    if entry.isSome then modifyMemo Memo.countHit
    return entry
  | some (id, cluster) =>
    if entry.isNone && r.rule != cluster.head && !cluster.involved.contains r.rule then
      return some ⟨.done (.error (r.failed start)), start⟩
    else if cluster.pending.contains r.rule then do
      modifyMemo (·.modifyCluster id fun c => { c with pending := c.pending.erase r.rule })
      let result ← attempt r.body
      let stop ← position
      remember r.rule start (.done result) stop
      return some ⟨.done result, stop⟩
    else do
      if entry.isSome then modifyMemo Memo.countHit
      return entry

/-- Marks the application that a rule came back to. -/
def markLeftRecursion (rule id : Nat) : Matcher Unit := do
  let fresh := ((← memo).application? id).all (·.cluster.isNone)
  modifyMemo (·.markLeftRecursion rule id)
  if fresh then emit (.leftRecursion rule)

/-- Rounds of growing from the match `best`, which ends at `stop`: the body is matched again and
again from the start, as long as the match gets longer. At most `bound` rounds are tried. -/
def growFrom (r : RuleBody) (start cluster : Nat) :
    (bound : Nat) → (best : Tree) → (stop : Nat) → Matcher (Tree × Nat)
  | 0, _, _ => Matcher.stop .spent
  | bound + 1, best, stop => do
    moveTo start
    modifyMemo (·.modifyCluster cluster fun c => { c with pending := c.involved })
    let result ← attempt r.body
    let reached ← position
    match result with
    | .error _ => return (best, stop)
    | .ok tree =>
      if stop < reached then do
        modifyMemo Memo.countGrowth
        emit (.seedGrew r.name start reached)
        remember r.rule start (.done (.ok tree)) reached
        growFrom r start cluster bound tree reached
      else return (best, stop)

/-- Grows the match `seed` of the head of a cluster, which ends at `stop`. Afterwards the rules that
the last round did not reach are forgotten, unless another cluster is being grown at the same
offset. -/
def grow (r : RuleBody) (start cluster : Nat) (seed : Tree) (stop : Nat) : Matcher Tree := do
  let outer := (← memo).growing[start]?
  modifyMemo fun m => { m with growing := m.growing.insert start cluster }
  let (best, stop) ← growFrom r start cluster ((← source).text.size + 1) seed stop
  let stale := ((← memo).clusters[cluster]?.map (·.pending)).getD []
  modifyMemo (·.modifyCluster cluster fun c => { c with pending := [] })
  match outer with
  | some id => modifyMemo fun m => { m with growing := m.growing.insert start id }
  | none => do
    modifyMemo fun m => { m with growing := m.growing.erase start }
    forget stale start
  moveTo stop
  return best

/-- The answer of an application that belongs to a cluster. A member other than the head hands on
what it found; the head grows its match, or, if there is none, forgets the members. -/
def answerCluster (r : RuleBody) (start cluster : Nat) (seed : Except Cause Tree) :
    Matcher Tree := do
  match (← memo).clusters[cluster]? with
  | none => ofResult seed
  | some found =>
    if found.head != r.rule then ofResult seed
    else do
      let stop ← position
      remember r.rule start (.done seed) stop
      match seed with
      | .ok tree => grow r start cluster tree stop
      | .error cause => do
        modifyMemo (·.modifyCluster cluster fun c => { c with involved := [] })
        if !(← memo).growing.contains start then forget found.involved start
        fail cause

/-- Applies a rule by matching its body. -/
def applyFresh (r : RuleBody) (start : Nat) : Matcher Tree := do
  modifyMemo Memo.countMiss
  let (id, pushed) := (← memo).push r.rule start (.error (r.failed start))
  modifyMemo fun _ => pushed
  remember r.rule start (.inProgress id) start
  let result ← attempt r.body
  modifyMemo (·.pop id)
  let stop ← position
  match ((← memo).application? id).bind (·.cluster) with
  | some cluster => do
    modifyMemo (·.modifyApplication id fun a => { a with seed := result })
    remember r.rule start (.inProgress id) stop
    answerCluster r start cluster result
  | none => do
    modifyMemo (·.release id)
    remember r.rule start (.done result) stop
    ofResult result

/-- Applies a rule through the memo. -/
def memoized (r : RuleBody) : Matcher Tree := do
  let start ← position
  match ← remembered r start with
  | some ⟨.done result, stop⟩ => do
    moveTo stop
    ofResult result
  | some ⟨.inProgress id, stop⟩ => do
    if (← memo).isActive id then
      moveTo stop
      markLeftRecursion r.rule id
      match (← memo).application? id with
      | some application => ofResult application.seed
      | none => applyFresh r start
    else applyFresh r start
  | none => applyFresh r start

end Packrat.Matcher
