import Packrat.Proofs.MemoLaws
import Packrat.Proofs.Rules

/-!
# The call path

Applications that have not finished form a path, each linked to the one below it. Links lead from later
records to earlier ones, so the path is read off completely. Whatever is matched while an application
waits leaves the path and all records there were as they are, but for the clusters they belong to.
-/

namespace Packrat.Memo

/-- The path from an application down, by the links of the records. -/
inductive Linked (applications : Array Application) : Option Nat → List Nat → Prop where
  /-- No application is left. -/
  | bottom : Linked applications none []
  /-- An application is on top of those that its record links to, all of them earlier. -/
  | above {id : Nat} {application : Application} {rest : List Nat}
    (record : applications[id]? = some application) (below : Linked applications application.below rest)
    (earlier : ∀ id' ∈ rest, id' < id) : Linked applications (some id) (id :: rest)

namespace Linked

variable {applications : Array Application} {top : Option Nat} {path : List Nat}

/-- Reading off the path takes no more rounds than there are applications on it. -/
theorem pathFrom_eq (h : Linked applications top path) {bound : Nat} (hb : path.length ≤ bound) :
    pathFrom applications bound top = path := by
  induction h generalizing bound with
  | bottom =>
    cases bound <;> rfl
  | @above id application rest record below earlier ih =>
    obtain ⟨bound, rfl⟩ : ∃ b, bound = b + 1 := ⟨bound - 1, by simp at hb; omega⟩
    rw [pathFrom, record, Option.bind_some, ih (by simpa using hb)]

/-- Every application on the path has a number below that of the next record. -/
theorem lt_size (h : Linked applications top path) : ∀ id ∈ path, id < applications.size := by
  induction h with
  | bottom => simp
  | above record below earlier ih =>
    intro id' hid'
    rcases List.mem_cons.1 hid' with rfl | hid'
    · exact (Array.getElem?_eq_some_iff.1 record).1
    · exact ih id' hid'

/-- There are no more applications on the path than records below a bound on them. -/
theorem length_le (h : Linked applications top path) {bound : Nat} (hb : ∀ id ∈ path, id < bound) :
    path.length ≤ bound := by
  induction h generalizing bound with
  | bottom => exact Nat.zero_le _
  | @above id _ _ record below earlier ih =>
    have hrest := ih earlier
    have hid := hb id (by simp)
    rw [List.length_cons]
    omega

/-- Every application on the path has a record. -/
theorem exists_record (h : Linked applications top path) :
    ∀ id ∈ path, ∃ application, applications[id]? = some application :=
  fun id hid => ⟨_, Array.getElem?_eq_getElem (h.lt_size id hid)⟩

/-- Only the links of the records on the path matter. -/
theorem congr {applications' : Array Application} (h : Linked applications top path)
    (hlinks : ∀ id ∈ path, ∀ a : Application, applications[id]? = some a →
      ∃ a' : Application, applications'[id]? = some a' ∧ a'.below = a.below) :
    Linked applications' top path := by
  induction h with
  | bottom => exact .bottom
  | above record below earlier ih =>
    obtain ⟨a', hrecord, hbelow⟩ := hlinks _ List.mem_cons_self _ record
    have hrest := ih fun id hid => hlinks id (List.mem_cons_of_mem _ hid)
    exact .above hrecord (hbelow ▸ hrest) earlier

/-- What the application on top is linked to. -/
theorem rest_below {id : Nat} {rest : List Nat} (h : Linked applications top (id :: rest)) :
    (∃ a : Application, applications[id]? = some a ∧ Linked applications a.below rest) ∧
      ∀ id' ∈ rest, id' < id := by
  cases h with
  | above record below earlier => exact ⟨⟨_, record, below⟩, earlier⟩

end Linked

/-- The path that is read off is the one given by the links. -/
theorem callPath_eq {memo : Memo} {path : List Nat} (h : Linked memo.applications memo.top path) :
    memo.callPath = path := h.pathFrom_eq (h.length_le h.lt_size)

/-- The second memo has the call path of the first and all of its records, but for the clusters that
these belong to. -/
structure Frame (memo memo' : Memo) : Prop where
  top : memo'.top = memo.top
  records : ∀ (id : Nat) a, memo.applications[id]? = some a →
    ∃ cluster, memo'.applications[id]? = some { a with cluster }

namespace Frame

variable {memo memo' memo'' : Memo}

/-- A memo keeps its own path and records. -/
theorem refl (memo : Memo) : Frame memo memo := ⟨rfl, fun _ a h => ⟨a.cluster, h⟩⟩

/-- Path and records are kept step by step. -/
theorem trans (h : Frame memo memo') (h' : Frame memo' memo'') : Frame memo memo'' where
  top := h'.top.trans h.top
  records id a ha := by
    obtain ⟨cluster, ha'⟩ := h.records id a ha
    obtain ⟨cluster', ha''⟩ := h'.records id _ ha'
    exact ⟨cluster', ha''⟩

/-- A step that leaves records and the path alone. -/
theorem of_eq (htop : memo'.top = memo.top) (ha : memo'.applications = memo.applications) :
    Frame memo memo' := ⟨htop, fun _ a h => ⟨a.cluster, by rw [ha, h]⟩⟩

/-- A path that is linked in the first memo is linked in the second. -/
theorem linked (h : Frame memo memo') {top : Option Nat} {path : List Nat}
    (hl : Linked memo.applications top path) : Linked memo'.applications top path :=
  hl.congr fun id _ a ha => by
    obtain ⟨cluster, ha'⟩ := h.records id a ha
    exact ⟨_, ha', rfl⟩

/-- An application may join a cluster. -/
theorem modifyApplication (memo : Memo) (id cluster : Nat) :
    Frame memo (memo.modifyApplication id fun a => { a with cluster := some cluster }) where
  top := rfl
  records id' a ha := by
    rw [Memo.modifyApplication, Array.getElem?_modify]
    split
    · rw [ha]
      exact ⟨_, rfl⟩
    · exact ⟨a.cluster, ha⟩

/-- Giving an application a cluster keeps the path and the records. -/
theorem clusterOf (memo : Memo) (rule id : Nat) : Frame memo (memo.clusterOf rule id).2 := by
  cases hc : (memo.application? id).bind (·.cluster) with
  | some cluster =>
    rw [clusterOf_of_some _ hc]
    exact refl memo
  | none =>
    rw [clusterOf_of_none _ hc]
    exact ((of_eq rfl rfl).trans (modifyApplication _ id _)).trans (of_eq rfl rfl)

/-- Joining a cluster keeps the path and the records. -/
theorem join (memo : Memo) (cluster id : Nat) : Frame memo (memo.join cluster id) := by
  unfold Memo.join
  split
  · exact refl memo
  · exact (modifyApplication memo id cluster).trans (of_eq rfl rfl)

/-- Marking a left recursion keeps the path and the records. -/
theorem markLeftRecursion (memo : Memo) (rule id : Nat) :
    Frame memo (memo.markLeftRecursion rule id) := by
  have hjoins (cluster : Nat) (members : List Nat) (memo : Memo) :
      Frame memo (members.foldl (fun memo member => memo.join cluster member) memo) := by
    induction members generalizing memo with
    | nil => exact refl memo
    | cons member rest ih => exact (join memo cluster member).trans (ih _)
  exact (clusterOf memo rule id).trans (hjoins _ _ _)

section Entering

variable {rule start : Nat} {seed : Except Cause Tree}

/-- The application that was entered is still on top when its body has been matched. -/
theorem record_of_enter (h : Frame (memo.enter rule start seed) memo') :
    ∃ cluster, memo'.applications[memo.applications.size]?
      = some ⟨rule, start, seed, cluster, memo.top⟩ :=
  h.records _ _ Array.getElem?_push_size

/-- Once a rule was entered, the records from before it are kept. -/
theorem records_of_enter (h : Frame (memo.enter rule start seed) memo') {id : Nat} {a : Application}
    (ha : memo.applications[id]? = some a) :
    ∃ cluster, memo'.applications[id]? = some { a with cluster } := by
  refine h.records id a ?_
  have hid := (Array.getElem?_eq_some_iff.1 ha).1
  exact (Array.getElem?_push.trans (if_neg (Nat.ne_of_lt hid))).trans ha

/-- Leaving takes the application off the path. -/
theorem top_pop (h : Frame (memo.enter rule start seed) memo') :
    (memo'.pop memo.applications.size).top = memo.top := by
  obtain ⟨cluster, hrecord⟩ := h.record_of_enter
  rw [pop, application?, hrecord]
  rfl

/-- A rule that was entered and is left again takes its record from the path. -/
theorem leave (h : Frame (memo.enter rule start seed) memo') (result : Except Cause Tree)
    (stop : Nat) :
    Frame memo (memo'.leave memo.applications.size rule start result stop) where
  top := by
    rw [← h.top_pop]
    exact top_release _ _
  records id a ha := by
    obtain ⟨cluster, ha'⟩ := h.records_of_enter ha
    refine ⟨cluster, ?_⟩
    rw [← ha']
    exact applications_release _ (Nat.ne_of_lt (Array.getElem?_eq_some_iff.1 ha).1)

/-- A rule that is left with its seed goes from the path, too, and its record stays. -/
theorem leaveSeeded (h : Frame (memo.enter rule start seed) memo') (result : Except Cause Tree)
    (stop : Nat) :
    Frame memo (memo'.leaveSeeded memo.applications.size rule start result stop) where
  top := h.top_pop
  records id a ha := by
    obtain ⟨cluster, ha'⟩ := h.records_of_enter ha
    have hid := (Array.getElem?_eq_some_iff.1 ha).1
    refine ⟨cluster, ?_⟩
    rw [← ha']
    exact Array.getElem?_modify.trans (if_neg (Ne.symm (Nat.ne_of_lt hid)))

/-- Entering puts the application on top of the path. -/
theorem linked_enter {path : List Nat} (hl : Linked memo.applications memo.top path) :
    Linked (memo.enter rule start seed).applications (memo.enter rule start seed).top
      (memo.applications.size :: path) := by
  refine .above Array.getElem?_push_size (hl.congr fun id _ a ha => ⟨a, ?_, rfl⟩) hl.lt_size
  have hid := (Array.getElem?_eq_some_iff.1 ha).1
  exact (Array.getElem?_push.trans (if_neg (Nat.ne_of_lt hid))).trans ha

end Entering

end Frame

end Packrat.Memo
