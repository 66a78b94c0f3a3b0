import Packrat.Memo

/-!
# Laws of the memo

What each operation on the memo does to the entries, to the records of applications, to the call
path and to the clusters. The other operations leave these as they are.
-/

namespace Packrat

/-- Two spots are at the same place of the order only if they are the same. -/
theorem Spot.order_eq_iff {start rule start' rule' : Nat} :
    Spot.order ⟨start, rule⟩ ⟨start', rule'⟩ = .eq ↔ rule' = rule ∧ start' = start := by
  rw [Std.LawfulEqCmp.compare_eq_iff_eq, Spot.mk.injEq]
  constructor
  · rintro ⟨hstart, hrule⟩
    exact ⟨hrule.symm, hstart.symm⟩
  · rintro ⟨hrule, hstart⟩
    exact ⟨hstart.symm, hrule.symm⟩

namespace Memo

/-- The rule has been applied at the offset, and what it came to is remembered. -/
def Knows (memo : Memo) (index start : Nat) : Prop :=
  ∃ result stop, memo.find? index start = some ⟨.done result, stop⟩

variable (memo : Memo)

section Entries

/-- An answer is found where it was remembered, and no other is changed. -/
theorem find?_remember (rule start : Nat) (answer : Answer) (stop rule' start' : Nat) :
    (memo.remember rule start answer stop).find? rule' start'
      = if rule' = rule ∧ start' = start then some ⟨answer, stop⟩
        else memo.find? rule' start' := by
  unfold remember find?
  rw [Std.TreeMap.getElem?_insert]
  simp only [Spot.order_eq_iff]

/-- What was just remembered is found. -/
@[simp] theorem find?_remember_self (rule start : Nat) (answer : Answer) (stop : Nat) :
    (memo.remember rule start answer stop).find? rule start = some ⟨answer, stop⟩ := by
  rw [find?_remember, if_pos ⟨rfl, rfl⟩]

/-- What is remembered for other rules or at other offsets is still found. -/
theorem find?_remember_of_ne {rule start rule' start' : Nat} (answer : Answer) (stop : Nat)
    (h : ¬ (rule' = rule ∧ start' = start)) :
    (memo.remember rule start answer stop).find? rule' start' = memo.find? rule' start' := by
  rw [find?_remember, if_neg h]

/-- A dropped entry is found no more, and no other is changed. -/
theorem find?_drop (start rule rule' start' : Nat) :
    (memo.drop start rule).find? rule' start'
      = if rule' = rule ∧ start' = start then none else memo.find? rule' start' := by
  unfold drop find?
  rw [Std.TreeMap.getElem?_erase]
  simp only [Spot.order_eq_iff]

/-- Forgetting drops the entries of the given rules at the offset and no others. -/
theorem find?_forget (rules : List Nat) (start rule' start' : Nat) :
    (memo.forget rules start).find? rule' start'
      = if rule' ∈ rules ∧ start' = start then none else memo.find? rule' start' := by
  induction rules generalizing memo with
  | nil => simp [forget]
  | cons rule rest ih =>
    have hstep : memo.forget (rule :: rest) start = (memo.drop start rule).forget rest start := rfl
    rw [hstep, ih, find?_drop]
    by_cases hrest : rule' ∈ rest ∧ start' = start
    · simp [hrest]
    · by_cases hrule : rule' = rule ∧ start' = start
      · simp [hrule]
      · rw [if_neg hrest, if_neg hrule, if_neg]
        rintro ⟨hmem, hstart⟩
        rcases List.mem_cons.1 hmem with heq | hmem
        · exact hrule ⟨heq, hstart⟩
        · exact hrest ⟨hmem, hstart⟩

/-- Leaving an application changes no answer. -/
@[simp] theorem find?_pop (id rule start : Nat) :
    (memo.pop id).find? rule start = memo.find? rule start := rfl

/-- Giving a record back changes no answer. -/
@[simp] theorem find?_release (id rule start : Nat) :
    (memo.release id).find? rule start = memo.find? rule start := by
  unfold release
  split <;> rfl

end Entries

section Others

/-- What dropping an entry leaves alone, forgetting entries leaves alone. -/
theorem forget_eq {β : Type} (f : Memo → β) (hdrop : ∀ (memo : Memo) start rule, f (memo.drop start rule) = f memo)
    (rules : List Nat) (start : Nat) : f (memo.forget rules start) = f memo := by
  induction rules generalizing memo with
  | nil => rfl
  | cons rule rest ih => exact (ih (memo.drop start rule)).trans (hdrop memo start rule)

/-- Forgetting does not change which application is on top. -/
@[simp] theorem top_forget (rules : List Nat) (start : Nat) : (memo.forget rules start).top = memo.top :=
  memo.forget_eq (·.top) (fun _ _ _ => rfl) rules start

/-- Forgetting does not change what is being grown. -/
@[simp] theorem growing_forget (rules : List Nat) (start : Nat) :
    (memo.forget rules start).growing = memo.growing :=
  memo.forget_eq (·.growing) (fun _ _ _ => rfl) rules start

/-- Forgetting does not change the records of applications. -/
@[simp] theorem applications_forget (rules : List Nat) (start : Nat) :
    (memo.forget rules start).applications = memo.applications :=
  memo.forget_eq (·.applications) (fun _ _ _ => rfl) rules start

/-- Forgetting does not change the clusters. -/
@[simp] theorem clusters_forget (rules : List Nat) (start : Nat) :
    (memo.forget rules start).clusters = memo.clusters :=
  memo.forget_eq (·.clusters) (fun _ _ _ => rfl) rules start

/-- Forgetting is not counted. -/
@[simp] theorem statistics_forget (rules : List Nat) (start : Nat) :
    (memo.forget rules start).statistics = memo.statistics :=
  memo.forget_eq (·.statistics) (fun _ _ _ => rfl) rules start

/-- Giving a record back does not change which application is on top. -/
@[simp] theorem top_release (id : Nat) : (memo.release id).top = memo.top := by
  unfold release
  split <;> rfl

/-- Giving a record back does not change what is being grown. -/
@[simp] theorem growing_release (id : Nat) : (memo.release id).growing = memo.growing := by
  unfold release
  split <;> rfl

/-- Giving a record back does not change the clusters. -/
@[simp] theorem clusters_release (id : Nat) : (memo.release id).clusters = memo.clusters := by
  unfold release
  split <;> rfl

/-- Giving a record back is not counted. -/
@[simp] theorem statistics_release (id : Nat) : (memo.release id).statistics = memo.statistics := by
  unfold release
  split <;> rfl

/-- Giving a record back leaves all entries. -/
@[simp] theorem entries_release (id : Nat) : (memo.release id).entries = memo.entries := by
  unfold release
  split <;> rfl

/-- Giving a record back leaves all others. -/
theorem applications_release {id id' : Nat} (h : id' ≠ id) :
    (memo.release id).applications[id']? = memo.applications[id']? := by
  unfold release
  split
  · rename_i hlast
    rw [Array.getElem?_pop]
    split
    · rfl
    · exact (Array.getElem?_eq_none (by omega)).symm
  · rfl

/-- It makes no difference whether a record is given back before an answer is remembered or
after. -/
theorem release_remember (id rule start : Nat) (answer : Answer) (stop : Nat) :
    (memo.release id).remember rule start answer stop
      = (memo.remember rule start answer stop).release id := by
  have happ : (memo.remember rule start answer stop).applications = memo.applications := rfl
  unfold release
  rw [happ]
  split <;> rfl

end Others

section Growing

/-- The cluster that starts to grow is found at its offset, and the others at theirs. -/
theorem growing_insert (start cluster start' : Nat) :
    (memo.growing.insert start cluster)[start']?
      = if start' = start then some cluster else memo.growing[start']? := by
  have hiff : compare start start' = .eq ↔ start' = start :=
    Std.LawfulEqCmp.compare_eq_iff_eq.trans eq_comm
  simp only [Std.TreeMap.getElem?_insert, hiff]

/-- The cluster that has grown is found no more, and the others at their offsets. -/
theorem growing_erase (start start' : Nat) :
    (memo.growing.erase start)[start']? = if start' = start then none else memo.growing[start']? := by
  have hiff : compare start start' = .eq ↔ start' = start :=
    Std.LawfulEqCmp.compare_eq_iff_eq.trans eq_comm
  simp only [Std.TreeMap.getElem?_erase, hiff]

variable {memo} in
/-- Where no cluster is entered, none is growing. -/
theorem growing?_of_none {start : Nat} (h : memo.growing[start]? = none) :
    memo.growing? start = none := by
  simp [growing?, h]

end Growing

section Marking

/-- Changing the record that was pushed last changes no other. -/
theorem modify_push {α : Type} (items : Array α) (item : α) (f : α → α) :
    (items.push item).modify items.size f = items.push (f item) := by
  refine Array.ext_getElem? fun i => ?_
  rw [Array.getElem?_modify, Array.getElem?_push, Array.getElem?_push]
  by_cases hi : i = items.size
  · simp [hi]
  · rw [if_neg hi, if_neg (Ne.symm hi)]
    rw [if_neg hi]

/-- An application that belongs to a cluster stays in it. -/
theorem clusterOf_of_some {rule id cluster : Nat}
    (h : (memo.application? id).bind (·.cluster) = some cluster) :
    memo.clusterOf rule id = (cluster, memo) := by
  unfold clusterOf
  rw [h]

/-- An application that belongs to no cluster gets a new one. -/
theorem clusterOf_of_none {rule id : Nat}
    (h : (memo.application? id).bind (·.cluster) = none) :
    memo.clusterOf rule id = (memo.clusters.size,
      (({ memo with clusters := memo.clusters.push { head := rule } } : Memo).modifyApplication id
        fun a => { a with cluster := some memo.clusters.size }).count
          fun s => { s with leftRecursions := s.leftRecursions + 1 }) := by
  unfold clusterOf
  rw [h]

/-- Giving an application a cluster leaves all entries. -/
@[simp] theorem entries_clusterOf (rule id : Nat) :
    (memo.clusterOf rule id).2.entries = memo.entries := by
  cases hc : (memo.application? id).bind (·.cluster) with
  | some cluster => rw [clusterOf_of_some _ hc]
  | none =>
    rw [clusterOf_of_none _ hc]
    rfl

/-- Joining a cluster leaves all entries. -/
@[simp] theorem entries_join (cluster id : Nat) : (memo.join cluster id).entries = memo.entries := by
  unfold join
  split <;> rfl

/-- What no member changes by joining is settled by the time the cluster is found. -/
theorem markLeftRecursion_eq {β : Type} (f : Memo → β)
    (hjoin : ∀ (memo : Memo) cluster id, f (memo.join cluster id) = f memo) (rule id : Nat) :
    f (memo.markLeftRecursion rule id) = f (memo.clusterOf rule id).2 := by
  have hjoins (cluster : Nat) (members : List Nat) (memo : Memo) :
      f (members.foldl (fun memo member => memo.join cluster member) memo) = f memo := by
    induction members generalizing memo with
    | nil => rfl
    | cons member rest ih => exact (ih _).trans (hjoin _ _ _)
  exact hjoins _ _ _

/-- Marking a left recursion leaves all entries. -/
@[simp] theorem entries_markLeftRecursion (rule id : Nat) :
    (memo.markLeftRecursion rule id).entries = memo.entries :=
  (memo.markLeftRecursion_eq (·.entries) (fun _ _ _ => entries_join ..) rule id).trans
    (entries_clusterOf ..)

end Marking

end Memo

end Packrat
