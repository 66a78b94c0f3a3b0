import Packrat.Proofs.Rules
import Packrat.Proofs.MemoLaws
import Packrat.Proofs.Slices

/-!
# Slices that are remembered

What the memo remembers of the results of rules, in entries and as seeds, is intact if all results that
it was told of are. The operations that only move or drop what is there keep it so.
-/

namespace Packrat.Memo

/-- All remembered results are intact. -/
structure Intact (memo : Memo) : Prop where
  entries : ∀ rule start result stop, memo.find? rule start = some ⟨.done result, stop⟩ →
    Packrat.Intact result
  seeds : ∀ (id : Nat) (a : Application), memo.applications[id]? = some a → Packrat.Intact a.seed

namespace Intact

variable {memo memo' : Memo}

/-- Nothing is remembered that would have to be intact. -/
theorem nil : Intact {} := ⟨by simp [Memo.find?], by simp⟩

/-- Entries may be dropped, and records may change as long as their seeds stay. -/
theorem of_le (h : memo.Intact)
    (hentries : ∀ rule start result stop, memo'.find? rule start = some ⟨.done result, stop⟩ →
      memo.find? rule start = some ⟨.done result, stop⟩)
    (hseeds : ∀ (id : Nat) (a : Application), memo'.applications[id]? = some a →
      ∃ a' : Application, memo.applications[id]? = some a' ∧ a'.seed = a.seed) : memo'.Intact where
  entries rule start result stop he := h.entries rule start result stop (hentries _ _ _ _ he)
  seeds id a ha := by
    obtain ⟨a', ha', hseed⟩ := hseeds id a ha
    exact hseed ▸ h.seeds id a' ha'

/-- A step that leaves entries and records alone. -/
theorem of_eq (h : memo.Intact) (he : memo'.entries = memo.entries)
    (ha : memo'.applications = memo.applications) : memo'.Intact :=
  h.of_le (fun rule start result stop hf => by rwa [Memo.find?, he] at hf) fun id a hid =>
    ⟨a, by rw [← ha, hid], rfl⟩

/-- Counting changes no slice. -/
theorem count (h : memo.Intact) (f : Statistics → Statistics) : (memo.count f).Intact := h.of_eq rfl rfl

/-- There are no slices in clusters. -/
theorem modifyCluster (h : memo.Intact) (c : Nat) (f : Cluster → Cluster) :
    (memo.modifyCluster c f).Intact := h.of_eq rfl rfl

/-- There are no slices in what is being grown. -/
theorem startGrowth (h : memo.Intact) (start c : Nat) : (memo.startGrowth start c).Intact :=
  h.of_eq rfl rfl

/-- An answer may be remembered if the result in it is intact. -/
theorem remember (h : memo.Intact) {rule start stop : Nat} {answer : Answer}
    (hr : ∀ result, answer = .done result → Packrat.Intact result) :
    (memo.remember rule start answer stop).Intact where
  entries rule' start' result stop' he := by
    rw [find?_remember] at he
    split at he
    · cases he
      exact hr result rfl
    · exact h.entries rule' start' result stop' he
  seeds := h.seeds

/-- An intact result may be remembered. -/
theorem remember_done (h : memo.Intact) {rule start stop : Nat} {result : Except Cause Tree}
    (hr : Packrat.Intact result) : (memo.remember rule start (.done result) stop).Intact := by
  refine h.remember fun result' heq => ?_
  cases heq
  exact hr

/-- Entries may be forgotten. -/
theorem forget (h : memo.Intact) (rules : List Nat) (start : Nat) : (memo.forget rules start).Intact := by
  refine h.of_le (fun rule start' result stop he => ?_) fun id a ha => ⟨a, ?_, rfl⟩
  · rw [find?_forget] at he
    split at he
    · cases he
    · exact he
  · rwa [applications_forget] at ha

/-- Changes of a record that keep its seed. -/
theorem modifyApplication (h : memo.Intact) (id : Nat) {f : Application → Application}
    (hf : ∀ a, Packrat.Intact a.seed → Packrat.Intact (f a).seed) :
    (memo.modifyApplication id f).Intact where
  entries := h.entries
  seeds id' a ha := by
    rw [Memo.modifyApplication, Array.getElem?_modify] at ha
    split at ha
    · obtain ⟨a', ha', rfl⟩ := Option.map_eq_some_iff.1 ha
      exact hf a' (h.seeds id' a' ha')
    · exact h.seeds id' a ha

/-- An application may join a cluster. -/
theorem withCluster (h : memo.Intact) (id cluster : Nat) :
    (memo.modifyApplication id fun a => { a with cluster := some cluster }).Intact :=
  h.modifyApplication id fun _ hs => hs

/-- An application may get a cluster of its own. -/
theorem clusterOf (h : memo.Intact) (rule id : Nat) : (memo.clusterOf rule id).2.Intact := by
  cases hc : (memo.application? id).bind (·.cluster) with
  | some cluster => rwa [clusterOf_of_some _ hc]
  | none =>
    rw [clusterOf_of_none _ hc]
    have hpushed : ({ memo with clusters := memo.clusters.push { head := rule } } : Memo).Intact :=
      h.of_eq rfl rfl
    exact (hpushed.withCluster id _).of_eq rfl rfl

/-- An application may join a cluster. -/
theorem join (h : memo.Intact) (cluster member : Nat) : (memo.join cluster member).Intact := by
  unfold Memo.join
  split
  · exact h
  · exact (h.withCluster member cluster).of_eq rfl rfl

/-- A left recursion may be marked, which moves applications from cluster to cluster. -/
theorem markLeftRecursion (h : memo.Intact) (rule id : Nat) : (memo.markLeftRecursion rule id).Intact := by
  have hjoins (cluster : Nat) (members : List Nat) {memo : Memo} (h : memo.Intact) :
      (members.foldl (fun memo member => memo.join cluster member) memo).Intact := by
    induction members generalizing memo with
    | nil => exact h
    | cons member rest ih => exact ih (h.join cluster member)
  exact hjoins _ _ (h.clusterOf rule id)

/-- A rule may be entered with an intact seed. -/
theorem enter (h : memo.Intact) {rule start : Nat} {seed : Except Cause Tree}
    (hs : Packrat.Intact seed) : (memo.enter rule start seed).Intact := by
  have hpushed : (memo.countMiss.push rule start seed).2.Intact := by
    refine ⟨h.entries, fun id a ha => ?_⟩
    rw [Memo.push, Array.getElem?_push] at ha
    split at ha
    · cases ha
      exact hs
    · exact h.seeds id a ha
  exact hpushed.remember (by simp)

/-- A rule may be left with an intact result. -/
theorem leave (h : memo.Intact) (id : Nat) {rule start stop : Nat} {result : Except Cause Tree}
    (hr : Packrat.Intact result) : (memo.leave id rule start result stop).Intact := by
  refine remember_done (h.of_le (fun rule start result stop he => ?_) fun id' a ha => ⟨a, ?_, rfl⟩) hr
  · rwa [find?_release] at he
  · by_cases hid : id' = id
    · -- a record that was given back is gone
      subst hid
      unfold release at ha
      split at ha
      · rename_i hlast
        rw [Array.getElem?_pop, if_neg (by simp only [pop] at hlast ⊢; omega)] at ha
        cases ha
      · exact ha
    · rwa [applications_release _ hid] at ha

/-- A rule may be left with an intact seed. -/
theorem leaveSeeded (h : memo.Intact) (id : Nat) {rule start stop : Nat} {result : Except Cause Tree}
    (hr : Packrat.Intact result) : (memo.leaveSeeded id rule start result stop).Intact := by
  have hpopped : (memo.pop id).Intact := h.of_eq rfl rfl
  exact (hpopped.modifyApplication id fun _ _ => hr).remember (by simp)

/-- The head of a cluster may be left with an intact tree. -/
theorem leaveHead (h : memo.Intact) (id : Nat) {rule start stop : Nat} {tree : Tree}
    (ht : Packrat.Intact (Except.ok (ε := Cause) tree)) :
    (memo.leaveHead id rule start tree stop).Intact := (h.leaveSeeded id ht).remember_done ht

/-- The head of a cluster may be left with an intact failure. -/
theorem failHead (h : memo.Intact) {rule start stop c : Nat} (involved : List Nat) {cause : Cause}
    (hc : Packrat.Intact cause) : (memo.failHead rule start stop c involved cause).Intact := by
  have hfailed : (memo.remember rule start (.done (.error cause)) stop).Intact :=
    h.remember_done ((intact_error cause).2 hc)
  unfold Memo.failHead
  dsimp only
  split
  · exact hfailed.of_eq rfl rfl
  · apply Intact.forget
    exact hfailed.of_eq rfl rfl

/-- Growing may end: it only drops entries. -/
theorem endGrowth (h : memo.Intact) (start c : Nat) (outer : Option Nat) :
    (memo.endGrowth start c outer).Intact := by
  cases outer with
  | some id => exact h.of_eq rfl rfl
  | none =>
    apply Intact.forget
    exact h.of_eq rfl rfl

end Intact

end Packrat.Memo
