import Packrat.Proofs.Clustering

/-!
# Room for rules

Rules are nested only as deep as there are spots left to enter rules at, and for each of them as there are
members of a cluster left to be applied again. Entering a rule takes a spot, and so does growing it; to
apply a member again takes that member from those that are left. Neither comes back while the rule is
under way.
-/

namespace Packrat

/-- The number of rules still to be applied in the round of growing at an offset. -/
def Memo.pendingAt (memo : Memo) (start : Nat) : Nat :=
  ((memo.growing? start).map fun (_, cluster) => cluster.pending.length).getD 0

namespace Accounts

variable {rules : Nat} {text : Text} {u : Underway} {memo memo' : Memo} {start : Nat}

/-- Either no cluster is grown at the offset, or one is, and it is known. -/
theorem pendingAt_cases (h : Accounts rules text u memo) (start : Nat) :
    (memo.growing[start]? = none ∧ memo.pendingAt start = 0) ∨
      ∃ g ∈ u.grown, ∃ cluster, g.start = start ∧ memo.growing[start]? = some g.cluster ∧
        memo.clusters[g.cluster]? = some cluster ∧ memo.pendingAt start = cluster.pending.length := by
  cases hg : memo.growing[start]? with
  | none => exact .inl ⟨rfl, by simp [Memo.pendingAt, Memo.growing?, hg]⟩
  | some c =>
    obtain ⟨g, hmem, hstart, rfl⟩ := h.exists_growth hg
    obtain ⟨-, cluster, hcluster⟩ := h.grown g hmem
    exact .inr ⟨g, hmem, cluster, hstart, rfl, hcluster, by
      simp [Memo.pendingAt, Memo.growing?, hg, hcluster]⟩

/-- No more members are due at an offset than there are rules. -/
theorem pendingAt_le (h : Accounts rules text u memo) (start : Nat) : memo.pendingAt start ≤ rules := by
  rcases h.pendingAt_cases start with ⟨-, hzero⟩ | ⟨g, -, cluster, -, -, hcluster, hlength⟩
  · omega
  · rw [hlength]
    exact (h.members _ cluster hcluster).2.length_le

/-- What is grown at an offset is so throughout, and ever fewer members are left. -/
theorem pendingAt_anti (h : Accounts rules text u memo) (h' : Accounts rules text u memo')
    (hs : Shrinks u memo memo') (start : Nat) : memo'.pendingAt start ≤ memo.pendingAt start := by
  have hgrowing : memo'.growing[start]? = memo.growing[start]? := by rw [h.growing, h'.growing]
  rcases h.pendingAt_cases start with ⟨hnone, -⟩ | ⟨g, hmem, cluster, -, hg, hcluster, hlength⟩
  · rw [← hgrowing] at hnone
    simp [Memo.pendingAt, Memo.growing?, hnone]
  · obtain ⟨cluster', hcluster', -, hpending⟩ := hs g hmem cluster hcluster
    rw [hlength]
    simpa [Memo.pendingAt, Memo.growing?, hgrowing, hg, hcluster'] using hpending.length_le

/-- To apply a member again leaves one less. -/
theorem pendingAt_erase_lt {c rule : Nat} {cluster : Cluster} (hg : memo.growing[start]? = some c)
    (hcluster : memo.clusters[c]? = some cluster) (hmem : rule ∈ cluster.pending) :
    (memo.redo c rule).pendingAt start < memo.pendingAt start := by
  have hlength := List.length_erase_add_one hmem
  have hfind : (memo.redo c rule).clusters[c]?
      = some { cluster with pending := cluster.pending.erase rule } := by
    rw [Memo.redo, Memo.clusters_modifyCluster, hcluster, Option.map_some, if_pos rfl]
  have hg' : (memo.redo c rule).growing[start]? = some c := hg
  simp only [Memo.pendingAt, Memo.growing?, hg, hg', hcluster, hfind, Option.bind_some, Option.map_some,
    Option.getD_some]
  omega

end Accounts

/-- A bound on how deep rules can be nested from now on. -/
def Underway.room (u : Underway) (rules size : Nat) (memo : Memo) (pos : Nat) : Nat :=
  (rules + 1) * u.spare rules size pos + memo.pendingAt pos

namespace Underway

variable {u u' : Underway} {rules size pos pos' : Nat}

/-- There is no more room from a later offset on, since nothing is grown behind the cursor. -/
theorem room_anti {text : Text} {memo : Memo} (ho : u.Orderly rules pos)
    (h : Accounts rules text u memo) (hle : pos ≤ pos') :
    u.room rules size memo pos' ≤ u.room rules size memo pos := by
  have hspare := u.spare_anti rules size hle
  have hpending : memo.pendingAt pos' ≤ memo.pendingAt pos := by
    rcases h.pendingAt_cases pos' with ⟨-, hzero⟩ | ⟨g, hmem, -, hstart, -⟩
    · omega
    · have hpos : pos' = pos := by
        have := ho.growing_le hmem
        omega
      rw [hpos]
  exact Nat.add_le_add (Nat.mul_le_mul_left _ hspare) hpending

/-- A spot that is taken leaves room for one rule less, whatever is to be applied again there. -/
theorem room_lt_of_taken (memo : Memo) {memo' : Memo} {rule : Nat}
    (hbusy : ∀ x q, u.Busy x q → u'.Busy x q) (hfree : ¬ u.Busy rule pos) (htaken : u'.Busy rule pos)
    (hrule : rule < rules) (hpos : pos ≤ size) (hpending : memo'.pendingAt pos ≤ rules) :
    u'.room rules size memo' pos < u.room rules size memo pos := by
  have hspare := Nat.mul_le_mul_left (rules + 1)
    (Nat.succ_le_of_lt (Underway.spare_lt hbusy hfree htaken hrule hpos))
  rw [Nat.mul_succ] at hspare
  unfold Underway.room
  omega

end Underway

end Packrat
