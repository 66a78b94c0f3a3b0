import Packrat.Parse
import Packrat.Proofs.MemoLaws
import Packrat.Proofs.Parts

/-!
# Other references

The messages of causes hold the expressions that they are about, and with them references to rules. Causes
are told to reporters, remembered in memos and written into traces. What each of these is with other
references in the place of its own is said here, and that nothing in them ever looks at a reference: to
rename first and to tell or to remember then is the same as the other way round.
-/

namespace Packrat

/-- The reference with the key of another table, if it was made by the table with the first key. -/
def RuleRef.rekey (key key' : Nat) (ref : RuleRef) : RuleRef :=
  if ref.table = key then { ref with table := key' } else ref

/-- A reference keeps the name it is made by when its table changes. -/
@[simp] theorem RuleRef.rekey_name (key key' : Nat) (ref : RuleRef) :
    (ref.rekey key key').name = ref.name := by
  unfold rekey
  split <;> rfl

variable (f : RuleRef → RuleRef)

/-- The message with other references. -/
def Message.mapRefs : Message → Message
  | .noMatch atom => .noMatch (atom.mapRefs f)
  | .sequence atom => .sequence (atom.mapRefs f)
  | .alternatives atom => .alternatives (atom.mapRefs f)
  | .atLeast min atom => .atLeast min (atom.mapRefs f)
  | .lookahead positive atom => .lookahead positive (atom.mapRefs f)
  | .operandExpected atom => .operandExpected (atom.mapRefs f)
  | .prematureEnd => .prematureEnd
  | .expected text got => .expected text got
  | .unconsumed rest => .unconsumed rest
  | .ruleFailed name => .ruleFailed name
  | .undefinedRule name => .undefinedRule name
  | .custom text => .custom text

namespace Cause

mutual

/-- The cause with other references, in all that led to it as well. -/
def mapRefs : Cause → Cause
  | ⟨message, offset, position, label, children⟩ =>
    ⟨message.mapRefs f, offset, position, label, mapRefsAll children⟩

/-- The causes with other references. -/
def mapRefsAll : List Cause → List Cause
  | [] => []
  | child :: rest => child.mapRefs :: mapRefsAll rest

end

/-- The causes in a list are renamed one by one. -/
theorem mapRefsAll_eq_map (causes : List Cause) : mapRefsAll f causes = causes.map (mapRefs f) := by
  induction causes with
  | nil => rfl
  | cons child rest ih => rw [mapRefsAll, ih, List.map_cons]

/-- A cause stays at its offset. -/
@[simp] theorem offset_mapRefs (cause : Cause) : (cause.mapRefs f).offset = cause.offset := by
  cases cause
  rfl

mutual

/-- The place of a cause does not depend on references. -/
theorem locate_mapRefs (source : Source) : ∀ cause : Cause,
    (cause.mapRefs f).locate source = ((cause.locate source).1.mapRefs f, (cause.locate source).2)
  | ⟨message, offset, position, label, children⟩ => by
    have hchildren := locateAll_mapRefs (source.position offset).2 children
    simp only [mapRefs, locate, hchildren]

/-- The line and the column of causes do not depend on references. -/
theorem locateAll_mapRefs (source : Source) : ∀ causes : List Cause,
    locateAll (mapRefsAll f causes) source
      = (mapRefsAll f (locateAll causes source).1, (locateAll causes source).2)
  | [] => rfl
  | child :: rest => by
    have hchild := locate_mapRefs source child
    have hrest := locateAll_mapRefs (child.locate source).2 rest
    simp only [mapRefsAll, locateAll, hchild, hrest]

end

end Cause

section Telling

/-- The report with other references. -/
def Report.mapRefs : Report → Report
  | .recorded cause => .recorded (cause.mapRefs f)
  | .succeeded offset => .succeeded offset
  | .choiceStarted => .choiceStarted
  | .choiceFinished matched => .choiceFinished matched

/-- The deepest cause, and what it was before, with other references. -/
def Deepest.mapRefs (d : Deepest) : Deepest :=
  ⟨d.tracked.map (·.mapRefs f), d.choices.map fun before => before.map (·.mapRefs f)⟩

/-- The deepest cause since the last reset, with other references. -/
def Contextual.mapRefs (c : Contextual) : Contextual := ⟨c.tracked.map (·.mapRefs f), c.lastReset⟩

/-- The reporter with other references in what it was told. -/
def Reporter.mapRefs : Reporter → Reporter
  | .deepest state => .deepest (state.mapRefs f)
  | .tree => .tree
  | .contextual state => .contextual (state.mapRefs f)

/-- The deepest cause is the same one, whatever references are in the reports. -/
theorem Deepest.observe_mapRefs (d : Deepest) (report : Report) :
    (d.mapRefs f).observe (report.mapRefs f) = (d.observe report).mapRefs f := by
  cases report with
  | succeeded offset => rfl
  | choiceStarted => rfl
  | recorded cause =>
    rcases d with ⟨_ | tracked, choices⟩
    · rfl
    · simp only [observe, Report.mapRefs, record, mapRefs, Option.map_some, Option.all_some,
        Cause.offset_mapRefs]
      split <;> rfl
  | choiceFinished matched =>
    rcases d with ⟨tracked, _ | ⟨before, choices⟩⟩
    · rfl
    · cases matched <;> rfl

/-- The causes since the last reset are the same ones, whatever references are in the reports.
-/
theorem Contextual.observe_mapRefs (c : Contextual) (report : Report) :
    (c.mapRefs f).observe (report.mapRefs f) = (c.observe report).mapRefs f := by
  cases report with
  | choiceStarted => rfl
  | choiceFinished matched => rfl
  | succeeded offset =>
    by_cases hback : offset < c.lastReset <;> simp [observe, Report.mapRefs, mapRefs, hback]
  | recorded cause =>
    rcases c with ⟨_ | tracked, lastReset⟩
    · rfl
    · simp only [observe, Report.mapRefs, mapRefs, Option.map_some, Option.all_some, Cause.offset_mapRefs]
      split <;> rfl

/-- A reporter makes the same of the same reports with other references. -/
theorem Reporter.observe_mapRefs (reporter : Reporter) (report : Report) :
    (reporter.mapRefs f).observe (report.mapRefs f) = (reporter.observe report).mapRefs f := by
  cases reporter with
  | tree => rfl
  | deepest state => exact congrArg Reporter.deepest (state.observe_mapRefs f report)
  | contextual state => exact congrArg Reporter.contextual (state.observe_mapRefs f report)

/-- Which cause a reporter picks does not depend on references. -/
theorem Reporter.pick_mapRefs (reporter : Reporter) (root : Cause) :
    (reporter.mapRefs f).pick (root.mapRefs f) = (reporter.pick root).mapRefs f := by
  cases reporter with
  | tree => rfl
  | deepest state =>
    rcases state with ⟨_ | tracked, choices⟩
    · rfl
    · simp only [mapRefs, pick, Deepest.mapRefs, Deepest.pick, Option.map_some, Cause.offset_mapRefs]
      split <;> rfl
  | contextual state =>
    rcases state with ⟨_ | tracked, lastReset⟩
    · rfl
    · simp only [mapRefs, pick, Contextual.mapRefs, Contextual.pick, Option.map_some, Cause.offset_mapRefs]
      split <;> rfl

/-- A reporter that has heard nothing holds no references. -/
@[simp] theorem Reporter.mapRefs_start (kind : ReporterKind) : kind.start.mapRefs f = kind.start := by
  cases kind <;> rfl

/-- The event with other references. -/
def Event.mapRefs : Event → Event
  | .failed cause => .failed (cause.mapRefs f)
  | event => event

/-- The failure with other references. -/
def Failure.mapRefs : Failure → Failure
  | .parse cause => .parse (cause.mapRefs f)
  | failure => failure

/-- What a parse comes to, with other references. -/
def Outcome.mapRefs : Outcome → Outcome
  | .rejected failure => .rejected (failure.mapRefs f)
  | outcome => outcome

end Telling

section Remembering

/-- The result with other references in its cause. -/
def retold {α : Type} : Except Cause α → Except Cause α := Except.mapError (·.mapRefs f)

/-- A match holds no references. -/
@[simp] theorem retold_ok {α : Type} (value : α) : retold f (.ok value) = .ok value := rfl

/-- A failure has its cause renamed. -/
@[simp] theorem retold_error {α : Type} (cause : Cause) :
    retold f (.error cause : Except Cause α) = .error (cause.mapRefs f) := rfl

/-- The answer with other references. -/
def Answer.mapRefs : Answer → Answer
  | .done result => .done (retold f result)
  | .inProgress id => .inProgress id

/-- What is remembered for a rule, with other references. -/
def Entry.mapRefs (entry : Entry) : Entry := { entry with answer := entry.answer.mapRefs f }

/-- The record of an application, with other references. -/
def Application.mapRefs (a : Application) : Application := { a with seed := retold f a.seed }

namespace Memo

/-- The second memo is the first one with other references. -/
structure Renamed (memo memo' : Memo) : Prop where
  entries : ∀ spot : Spot, memo'.entries[spot]? = memo.entries[spot]?.map (Entry.mapRefs f)
  size : memo'.entries.size = memo.entries.size
  applications : memo'.applications = memo.applications.map (Application.mapRefs f)
  top : memo'.top = memo.top
  growing : memo'.growing = memo.growing
  clusters : memo'.clusters = memo.clusters
  statistics : memo'.statistics = memo.statistics

/-- A memo in which nothing is remembered holds no references. -/
theorem renamed_empty : Renamed f {} {} where
  entries spot := by simp
  size := rfl
  applications := Array.map_empty.symm
  top := rfl
  growing := rfl
  clusters := rfl
  statistics := rfl

namespace Renamed

variable {f} {memo memo' : Memo} (h : memo.Renamed f memo')

include h

/-- What is remembered for a rule is found renamed. -/
theorem find? (rule start : Nat) : memo'.find? rule start = (memo.find? rule start).map (Entry.mapRefs f) :=
  h.entries ⟨start, rule⟩

/-- The same rules are remembered at the same offsets. -/
theorem contains (spot : Spot) : memo'.entries.contains spot = memo.entries.contains spot := by
  rw [← Std.TreeMap.isSome_getElem?_eq_contains, ← Std.TreeMap.isSome_getElem?_eq_contains, h.entries spot,
    Option.isSome_map]

/-- The same rules of a list have entries at an offset. -/
theorem known (rules : List Nat) (start : Nat) : memo'.known rules start = memo.known rules start := by
  unfold Memo.known
  simp only [h.find?, Option.isSome_map]

/-- The record of an application is found renamed. -/
theorem application? (id : Nat) :
    memo'.application? id = (memo.application? id).map (Application.mapRefs f) := by
  unfold Memo.application?
  rw [h.applications, Array.getElem?_map]

/-- The cluster of an application is the same. -/
theorem clusterAt (id : Nat) :
    (memo'.application? id).bind (·.cluster) = (memo.application? id).bind (·.cluster) := by
  rw [h.application?]
  cases memo.application? id <;> rfl

/-- The same cluster grows at an offset. -/
theorem growing? (start : Nat) : memo'.growing? start = memo.growing? start := by
  unfold Memo.growing?
  rw [h.growing, h.clusters]

/-- The same applications are under way, in the same order. -/
theorem callPath : memo'.callPath = memo.callPath := by
  have hpath (bound : Nat) (cursor : Option Nat) :
      pathFrom memo'.applications bound cursor = pathFrom memo.applications bound cursor := by
    induction bound generalizing cursor with
    | zero => cases cursor <;> rfl
    | succ bound ih =>
      cases cursor with
      | none => rfl
      | some id =>
        have hbelow : (memo'.applications[id]?).bind (·.below) = (memo.applications[id]?).bind (·.below) := by
          rw [h.applications, Array.getElem?_map]
          cases memo.applications[id]? <;> rfl
        rw [pathFrom, pathFrom, hbelow, ih]
  have hsize : memo'.applications.size = memo.applications.size := by rw [h.applications, Array.size_map]
  unfold Memo.callPath
  rw [hsize, h.top, hpath]

/-- The same applications are active. -/
theorem isActive (id : Nat) : memo'.isActive id = memo.isActive id := by
  unfold Memo.isActive
  rw [h.callPath]

/-- The same applications lie above the head of a cluster. -/
theorem above (cluster : Nat) : memo'.above cluster = memo.above cluster := by
  unfold Memo.above
  simp only [h.callPath, h.clusterAt]

/-- An answer that is remembered is renamed. -/
theorem remember (rule start : Nat) (answer : Answer) (stop : Nat) :
    (memo.remember rule start answer stop).Renamed f
      (memo'.remember rule start (answer.mapRefs f) stop) where
  entries spot := by
    unfold Memo.remember
    rw [Std.TreeMap.getElem?_insert, Std.TreeMap.getElem?_insert]
    split
    · rfl
    · exact h.entries spot
  size := by
    unfold Memo.remember
    rw [Std.TreeMap.size_insert, Std.TreeMap.size_insert, h.contains, h.size]
  applications := h.applications
  top := h.top
  growing := h.growing
  clusters := h.clusters
  statistics := h.statistics

/-- An entry may be dropped from both. -/
theorem drop (start rule : Nat) : (memo.drop start rule).Renamed f (memo'.drop start rule) where
  entries spot := by
    unfold Memo.drop
    rw [Std.TreeMap.getElem?_erase, Std.TreeMap.getElem?_erase]
    split
    · rfl
    · exact h.entries spot
  size := by
    unfold Memo.drop
    rw [Std.TreeMap.size_erase, Std.TreeMap.size_erase, h.contains, h.size]
  applications := h.applications
  top := h.top
  growing := h.growing
  clusters := h.clusters
  statistics := h.statistics

/-- The same entries may be forgotten in both. -/
theorem forget (rules : List Nat) (start : Nat) :
    (memo.forget rules start).Renamed f (memo'.forget rules start) := by
  induction rules generalizing memo memo' with
  | nil => exact h
  | cons rule rest ih => exact ih (h.drop start rule)

/-- The records of applications may change in the same way. -/
theorem withApplications {applications applications' : Array Application} (top : Option Nat)
    (happ : applications' = applications.map (Application.mapRefs f)) :
    ({ memo with applications, top } : Memo).Renamed f
      { memo' with applications := applications', top } :=
  ⟨h.entries, h.size, happ, rfl, h.growing, h.clusters, h.statistics⟩

/-- An application is entered under the same number, its seed renamed. -/
theorem push (rule start : Nat) (seed : Except Cause Tree) :
    (memo'.push rule start (retold f seed)).1 = (memo.push rule start seed).1 ∧
      (memo.push rule start seed).2.Renamed f (memo'.push rule start (retold f seed)).2 := by
  have hsize : memo'.applications.size = memo.applications.size := by rw [h.applications, Array.size_map]
  refine ⟨hsize, ?_⟩
  unfold Memo.push
  dsimp only
  rw [hsize]
  refine h.withApplications _ ?_
  rw [Array.map_push, h.applications, h.top]
  rfl

/-- An application may be left in both. -/
theorem pop (id : Nat) : (memo.pop id).Renamed f (memo'.pop id) := by
  have hbelow : (memo'.application? id).bind (·.below) = (memo.application? id).bind (·.below) := by
    rw [h.application?]
    cases memo.application? id <;> rfl
  unfold Memo.pop
  rw [hbelow]
  exact h.withApplications _ h.applications

/-- A cluster may be released in both. -/
theorem release (id : Nat) : (memo.release id).Renamed f (memo'.release id) := by
  have hsize : memo'.applications.size = memo.applications.size := by rw [h.applications, Array.size_map]
  unfold Memo.release
  rw [hsize]
  split
  · rw [h.applications, ← Array.map_pop]
    exact ⟨h.entries, h.size, rfl, h.top, h.growing, h.clusters, h.statistics⟩
  · exact h

/-- Records may be changed in both, if the changes agree but for references. -/
theorem modifyApplication (id : Nat) {change change' : Application → Application}
    (hchange : ∀ a : Application, change' (a.mapRefs f) = (change a).mapRefs f) :
    (memo.modifyApplication id change).Renamed f (memo'.modifyApplication id change') := by
  have happ : memo'.applications.modify id change'
      = (memo.applications.modify id change).map (Application.mapRefs f) := by
    refine Array.ext_getElem? fun i => ?_
    rw [Array.getElem?_map, Array.getElem?_modify, Array.getElem?_modify, h.applications, Array.getElem?_map]
    split
    · cases memo.applications[i]? with
      | none => rfl
      | some a => exact congrArg some (hchange a)
    · rfl
  exact ⟨h.entries, h.size, happ, h.top, h.growing, h.clusters, h.statistics⟩

/-- A record may be put into the same cluster in both. -/
theorem assign (id : Nat) (cluster : Option Nat) :
    (memo.modifyApplication id fun a => { a with cluster }).Renamed f
      (memo'.modifyApplication id fun a => { a with cluster }) :=
  h.modifyApplication id fun _ => rfl

/-- A record may get another seed in both, renamed in the second. -/
theorem reseed (id : Nat) (seed : Except Cause Tree) :
    (memo.modifyApplication id fun a => { a with seed }).Renamed f
      (memo'.modifyApplication id fun a => { a with seed := retold f seed }) :=
  h.modifyApplication id fun _ => rfl

/-- A cluster may be changed in both, as it holds no references. -/
theorem modifyCluster (id : Nat) (change : Cluster → Cluster) :
    (memo.modifyCluster id change).Renamed f (memo'.modifyCluster id change) := by
  refine ⟨h.entries, h.size, h.applications, h.top, h.growing, ?_, h.statistics⟩
  unfold Memo.modifyCluster
  rw [h.clusters]

/-- Counting is the same in both. -/
theorem count (change : Statistics → Statistics) :
    (memo.count change).Renamed f (memo'.count change) :=
  ⟨h.entries, h.size, h.applications, h.top, h.growing, h.clusters, congrArg change h.statistics⟩

/-- Which cluster grows where may be changed in both. -/
theorem grow (change : Std.TreeMap Nat Nat → Std.TreeMap Nat Nat) :
    ({ memo with growing := change memo.growing } : Memo).Renamed f
      { memo' with growing := change memo'.growing } :=
  ⟨h.entries, h.size, h.applications, h.top, congrArg change h.growing, h.clusters, h.statistics⟩

/-- An application is put into a cluster of the same number. -/
theorem clusterOf (rule id : Nat) : (memo'.clusterOf rule id).1 = (memo.clusterOf rule id).1 ∧
    (memo.clusterOf rule id).2.Renamed f (memo'.clusterOf rule id).2 := by
  have hcluster := h.clusterAt id
  cases hc : (memo.application? id).bind (·.cluster) with
  | some cluster =>
    rw [hc] at hcluster
    rw [clusterOf_of_some _ hc, clusterOf_of_some _ hcluster]
    exact ⟨rfl, h⟩
  | none =>
    rw [hc] at hcluster
    rw [clusterOf_of_none _ hc, clusterOf_of_none _ hcluster, h.clusters]
    have hpushed : ({ memo with clusters := memo.clusters.push { head := rule } } : Memo).Renamed f
        { memo' with clusters := memo.clusters.push { head := rule } } :=
      ⟨h.entries, h.size, h.applications, h.top, h.growing, rfl, h.statistics⟩
    have hassigned := hpushed.assign id (some memo.clusters.size)
    exact ⟨rfl, hassigned.count fun s => { s with leftRecursions := s.leftRecursions + 1 }⟩

/-- An application joins the same cluster, with those above it. -/
theorem join (cluster id : Nat) : (memo.join cluster id).Renamed f (memo'.join cluster id) := by
  unfold Memo.join
  rw [h.application?]
  cases memo.application? id with
  | none => exact h
  | some a => exact (h.assign id _).modifyCluster cluster _

/-- A call of a rule that is under way marks the same applications. -/
theorem markLeftRecursion (rule id : Nat) :
    (memo.markLeftRecursion rule id).Renamed f (memo'.markLeftRecursion rule id) := by
  have hjoins (cluster : Nat) (members : List Nat) {memo memo' : Memo} (h : memo.Renamed f memo') :
      (members.foldl (fun memo member => memo.join cluster member) memo).Renamed f
        (members.foldl (fun memo member => memo.join cluster member) memo') := by
    induction members generalizing memo memo' with
    | nil => exact h
    | cons member rest ih => exact ih (h.join cluster member)
  obtain ⟨hcluster, hmemo⟩ := h.clusterOf rule id
  have habove := hmemo.above (memo.clusterOf rule id).1
  unfold Memo.markLeftRecursion
  dsimp only
  rw [hcluster, habove]
  exact hjoins _ _ hmemo

end Renamed

end Memo

end Remembering

end Packrat
