import Packrat.Cause.Basic
import Std.Data.TreeMap

/-!
# Memo

Every application of a rule at an offset is remembered for the rest of the match. While an
application is under way, its entry says so, and a record of it waits on the call path; a rule that
meets such an entry has come back to itself without moving, which is left recursion. The rules
between the two meetings form a cluster around the rule that was entered first, its head. While the
head's match is being grown at an offset, the cluster is registered there.

Records live in an array and are linked from each application to the one below it on the call path.
The record of an application that met no left recursion is given back if it is the last one.
-/

namespace Packrat

/-- A rule at an offset. -/
structure Spot where
  /-- The offset at which the rule is applied. -/
  start : Nat
  /-- The place of the rule in its table. -/
  rule : Nat
  deriving DecidableEq, Repr

/-- Spots are ordered by offset and then by rule. -/
def Spot.order : Spot → Spot → Ordering := compareLex (compareOn Spot.start) (compareOn Spot.rule)

instance : Std.TransCmp Spot.order := inferInstanceAs (Std.TransCmp (compareLex _ _))

instance : Std.LawfulEqCmp Spot.order where
  eq_of_compare {a b} h := by
    obtain ⟨start, rule⟩ := a
    obtain ⟨start', rule'⟩ := b
    simp [Spot.order, compareLex, compareOn, Ordering.then_eq_eq] at h
    simp [h.1, h.2]

/-- What is known about a rule at an offset. -/
inductive Answer where
  /-- The rule has been applied. -/
  | done (result : Except Cause Tree)
  /-- The rule was being applied when the entry was made; the application has this record. -/
  | inProgress (id : Nat)

/-- What is remembered for a rule at an offset. -/
structure Entry where
  /-- What is known. -/
  answer : Answer
  /-- The offset that the cursor moves to. -/
  stop : Nat

/-- An application of a rule that has not finished yet. -/
structure Application where
  /-- The rule that is applied. -/
  rule : Nat
  /-- The offset at which it is applied. -/
  start : Nat
  /-- The answer given when the rule comes back to itself. -/
  seed : Except Cause Tree
  /-- The cluster that the application belongs to. -/
  cluster : Option Nat
  /-- The application below this one on the call path. -/
  below : Option Nat

/-- The rules that take part in one left recursion. -/
structure Cluster where
  /-- The rule that the recursion comes back to. -/
  head : Nat
  /-- The other rules on the way, in ascending order. -/
  involved : List Nat := []
  /-- Those of them that have not been applied again in this round. -/
  pending : List Nat := []
  deriving DecidableEq, Repr

/-- Counts kept during a match. -/
structure Statistics where
  /-- Applications answered from the memo. -/
  hits : Nat := 0
  /-- Applications that had to be carried out. -/
  misses : Nat := 0
  /-- Clusters found. -/
  leftRecursions : Nat := 0
  /-- Rounds in which a match grew. -/
  growthRounds : Nat := 0
  deriving DecidableEq, Repr

/-- Everything remembered during a match. -/
structure Memo where
  /-- What is known about rules at offsets. -/
  entries : Std.TreeMap Spot Entry Spot.order := {}
  /-- The records of applications. -/
  applications : Array Application := #[]
  /-- The application on top of the call path. -/
  top : Option Nat := none
  /-- The cluster that is being grown at an offset. -/
  growing : Std.TreeMap Nat Nat := {}
  /-- The clusters found so far. -/
  clusters : Array Cluster := #[]
  /-- The counts so far. -/
  statistics : Statistics := {}

/-- Inserts a rule into an ascending list of rules, once. -/
def insertRule (rule : Nat) : List Nat → List Nat
  | [] => [rule]
  | r :: rest =>
    if rule < r then rule :: r :: rest
    else if rule = r then r :: rest
    else r :: insertRule rule rest

namespace Memo

/-- What is known about a rule at an offset. -/
def find? (memo : Memo) (rule start : Nat) : Option Entry := memo.entries[Spot.mk start rule]?

/-- Remembers an answer for a rule at an offset. -/
def remember (memo : Memo) (rule start : Nat) (answer : Answer) (stop : Nat) : Memo :=
  { memo with entries := memo.entries.insert ⟨start, rule⟩ ⟨answer, stop⟩ }

/-- The cluster that is being grown at an offset, with its number. -/
def growing? (memo : Memo) (start : Nat) : Option (Nat × Cluster) :=
  memo.growing[start]?.bind fun id => memo.clusters[id]?.map (id, ·)

/-- The record of an application. -/
def application? (memo : Memo) (id : Nat) : Option Application := memo.applications[id]?

/-- Puts a new application on top of the call path. -/
def push (memo : Memo) (rule start : Nat) (seed : Except Cause Tree) : Nat × Memo :=
  let id := memo.applications.size
  (id, { memo with
    applications := memo.applications.push ⟨rule, start, seed, none, memo.top⟩
    top := some id })

/-- Takes the application off the call path. -/
def pop (memo : Memo) (id : Nat) : Memo :=
  { memo with top := (memo.application? id).bind (·.below) }

/-- Gives the record of an application back, if it is the last one. -/
def release (memo : Memo) (id : Nat) : Memo :=
  if id + 1 = memo.applications.size then { memo with applications := memo.applications.pop }
  else memo

/-- The applications from `cursor` down, at most `bound` of them. -/
def pathFrom (applications : Array Application) : Nat → Option Nat → List Nat
  | _, none => []
  | 0, some _ => []
  | bound + 1, some id =>
    id :: pathFrom applications bound (applications[id]?.bind (·.below))

/-- The call path from top to bottom. A record is linked only to earlier ones, so the number of
records bounds its length. -/
def callPath (memo : Memo) : List Nat :=
  pathFrom memo.applications memo.applications.size memo.top

/-- Whether the application is still on the call path. -/
def isActive (memo : Memo) (id : Nat) : Bool := memo.callPath.contains id

/-- Changes the record of an application. -/
def modifyApplication (memo : Memo) (id : Nat) (f : Application → Application) : Memo :=
  { memo with applications := memo.applications.modify id f }

/-- Changes a cluster. -/
def modifyCluster (memo : Memo) (id : Nat) (f : Cluster → Cluster) : Memo :=
  { memo with clusters := memo.clusters.modify id f }

/-- Changes the counts. -/
def count (memo : Memo) (f : Statistics → Statistics) : Memo :=
  { memo with statistics := f memo.statistics }

/-- Counts an answer from the memo. -/
def countHit (memo : Memo) : Memo := memo.count fun s => { s with hits := s.hits + 1 }

/-- Counts an application that has to be carried out. -/
def countMiss (memo : Memo) : Memo := memo.count fun s => { s with misses := s.misses + 1 }

/-- Counts a round in which a match grew. -/
def countGrowth (memo : Memo) : Memo :=
  memo.count fun s => { s with growthRounds := s.growthRounds + 1 }

/-- The cluster of an application; a new one, with `rule` at its head, if it has none yet. -/
def clusterOf (memo : Memo) (rule id : Nat) : Nat × Memo :=
  match (memo.application? id).bind (·.cluster) with
  | some cluster => (cluster, memo)
  | none =>
    let cluster := memo.clusters.size
    let memo := { memo with clusters := memo.clusters.push { head := rule } }
    let memo := memo.modifyApplication id fun a => { a with cluster := some cluster }
    (cluster, memo.count fun s => { s with leftRecursions := s.leftRecursions + 1 })

/-- Makes an application a member of a cluster. -/
def join (memo : Memo) (cluster id : Nat) : Memo :=
  match memo.application? id with
  | none => memo
  | some application =>
    let memo := memo.modifyApplication id fun a => { a with cluster := some cluster }
    memo.modifyCluster cluster fun c =>
      { c with involved := insertRule application.rule c.involved }

/-- The applications on the call path above the first that belongs to the cluster. -/
def above (memo : Memo) (cluster : Nat) : List Nat :=
  memo.callPath.takeWhile fun id => (memo.application? id).bind (·.cluster) != some cluster

/-- Marks an application as one that `rule` came back to: every application above it on the call
path joins its cluster. -/
def markLeftRecursion (memo : Memo) (rule id : Nat) : Memo :=
  let (cluster, memo) := memo.clusterOf rule id
  (memo.above cluster).foldl (fun memo member => memo.join cluster member) memo

/-- Drops the entry of a rule at an offset. -/
def drop (memo : Memo) (start rule : Nat) : Memo :=
  { memo with entries := memo.entries.erase ⟨start, rule⟩ }

/-- The rules that have an entry at an offset. -/
def known (memo : Memo) (rules : List Nat) (start : Nat) : List Nat :=
  rules.filter fun rule => (memo.find? rule start).isSome

/-- Drops the entries of rules at an offset. -/
def forget (memo : Memo) (rules : List Nat) (start : Nat) : Memo :=
  rules.foldl (fun memo rule => memo.drop start rule) memo

end Memo

end Packrat
