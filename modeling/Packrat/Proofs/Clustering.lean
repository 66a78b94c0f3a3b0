import Mathlib.Data.List.TakeWhile
import Packrat.Proofs.Accounts

/-!
# Clusters that are found and grown

What marking a left recursion and growing a cluster do to the invariant. The applications that join a
cluster are those on top of the call path, one after the other, down to one that belongs to it already.
All of them wait at the offset of its head, and no rule waits twice at an offset; this is why no member of
a cluster ever waits below its head.
-/

namespace Packrat

namespace Memo

variable (memo : Memo)

/-- A cluster is changed, and the others are as before. -/
theorem clusters_modifyCluster (c : Nat) (f : Cluster → Cluster) (c' : Nat) :
    (memo.modifyCluster c f).clusters[c']?
      = memo.clusters[c']?.map fun cluster => if c' = c then f cluster else cluster := by
  rw [modifyCluster, Array.getElem?_modify]
  by_cases hc : c' = c
  · subst hc
    simp
  · simp [hc, Ne.symm hc]

variable {memo} in
/-- The application whose record is changed joins the cluster, and no other does. -/
theorem clusterAt?_modifyApplication {id c : Nat} {a : Application}
    (ha : memo.applications[id]? = some a) (id' : Nat) :
    (memo.modifyApplication id fun a => { a with cluster := some c }).clusterAt? id'
      = if id' = id then some c else memo.clusterAt? id' := by
  rw [clusterAt?, application?, modifyApplication, Array.getElem?_modify]
  by_cases hid : id' = id
  · rw [if_pos hid, if_pos hid.symm, hid, ha]
    rfl
  · rw [if_neg hid, if_neg (Ne.symm hid)]
    rfl

variable {memo} in
/-- An application with a record joins by its record naming the cluster, and its rule becoming a
member. -/
theorem join_of_record {c id : Nat} {a : Application} (ha : memo.applications[id]? = some a) :
    memo.join c id = (memo.modifyApplication id fun a => { a with cluster := some c }).modifyCluster c
      fun cluster => { cluster with involved := insertRule a.rule cluster.involved } := by
  unfold join application?
  rw [ha]

/-- The failure of a head is remembered, since it is none of the members. -/
theorem find?_failHead {rule start : Nat} (stop c : Nat) (cause : Cause) {involved : List Nat}
    (hout : rule ∉ involved) : (memo.failHead rule start stop c involved cause).find? rule start
      = some ⟨.done (.error cause), stop⟩ := by
  unfold Memo.failHead
  dsimp only
  split
  · exact Memo.find?_remember_self ..
  · rw [Memo.find?_forget, if_neg fun hdropped => hout (List.mem_filter.1 hdropped.1).1]
    exact Memo.find?_remember_self ..

end Memo

/-- The clusters that are being grown keep their members, and none of these is added again to those
that are still to be applied in the round. -/
def Shrinks (u : Underway) (memo memo' : Memo) : Prop :=
  ∀ g ∈ u.grown, ∀ cluster, memo.clusters[g.cluster]? = some cluster →
    ∃ cluster', memo'.clusters[g.cluster]? = some cluster' ∧ cluster'.involved = cluster.involved ∧
      cluster'.pending.Sublist cluster.pending

namespace Shrinks

variable {u : Underway} {memo memo' memo'' : Memo}

/-- Clusters that stay as they are keep their members. -/
theorem of_eq (hc : memo'.clusters = memo.clusters) : Shrinks u memo memo' :=
  fun _ _ cluster hcluster => ⟨cluster, hc ▸ hcluster, rfl, .refl _⟩

/-- Clusters keep their own members. -/
theorem refl (memo : Memo) : Shrinks u memo memo := of_eq rfl

/-- Members are kept step by step. -/
theorem trans (h : Shrinks u memo memo') (h' : Shrinks u memo' memo'') : Shrinks u memo memo'' := by
  intro g hg cluster hc
  obtain ⟨cluster', hc', hinvolved, hpending⟩ := h g hg cluster hc
  obtain ⟨cluster'', hc'', hinvolved', hpending'⟩ := h' g hg cluster' hc'
  exact ⟨cluster'', hc'', hinvolved'.trans hinvolved, hpending'.trans hpending⟩

/-- A cluster that is not being grown may be changed. -/
theorem modifyCluster {c : Nat} (hc : ∀ g ∈ u.grown, g.cluster ≠ c) (f : Cluster → Cluster) :
    Shrinks u memo (memo.modifyCluster c f) := by
  intro g hg cluster hcluster
  refine ⟨cluster, ?_, rfl, .refl _⟩
  rw [Memo.clusters_modifyCluster, hcluster, Option.map_some, if_neg (hc g hg)]

/-- A member may be taken from those that are still to be applied. -/
theorem erase (c rule : Nat) :
    Shrinks u memo (memo.modifyCluster c fun cluster =>
      { cluster with pending := cluster.pending.erase rule }) := by
  intro g hg cluster hcluster
  rw [Memo.clusters_modifyCluster, hcluster, Option.map_some]
  split
  · exact ⟨_, rfl, rfl, List.erase_sublist⟩
  · exact ⟨_, rfl, rfl, .refl _⟩

/-- At the start of a further round no more is to be applied than at the start of an earlier one. -/
theorem refill {c : Nat} (h : Shrinks u (memo.refill c) memo') :
    Shrinks u (memo.refill c) (memo'.refill c) := by
  intro g hg cluster hcluster
  obtain ⟨cluster', hcluster', hinvolved, hpending⟩ := h g hg cluster hcluster
  rw [Memo.refill, Memo.clusters_modifyCluster, hcluster', Option.map_some]
  split
  · rename_i hc
    rw [Memo.refill, Memo.clusters_modifyCluster] at hcluster
    obtain ⟨cluster₀, -, rfl⟩ := Option.map_eq_some_iff.1 hcluster
    simp only [if_pos hc] at hinvolved ⊢
    exact ⟨_, rfl, hinvolved, by rw [hinvolved]⟩
  · exact ⟨cluster', rfl, hinvolved, hpending⟩

end Shrinks

/-- A cluster may be changed if it keeps its head and gains no members. -/
theorem Clusters.modifyCluster {rules : Nat} {u : Underway} {memo : Memo} (h : Clusters rules u memo)
    {c : Nat} {f : Cluster → Cluster} (hhead : ∀ cluster, (f cluster).head = cluster.head)
    (hinvolved : ∀ cluster, (f cluster).involved.Sublist cluster.involved)
    (hpending : ∀ cluster, memo.clusters[c]? = some cluster → Ascending rules (f cluster).pending) :
    Clusters rules u (memo.modifyCluster c f) where
  clustered w hw c' hc' := by
    obtain ⟨hgrown, cluster, hcluster, head, hmem, hle, hc, hrule, hstart⟩ := h.clustered w hw c' hc'
    refine ⟨hgrown, _, by rw [Memo.clusters_modifyCluster, hcluster]; rfl, head, hmem, hle, hc, ?_, hstart⟩
    split
    · rw [hrule, hhead]
    · exact hrule
  apart head hmem c' cluster' hc' hcluster' heq w hw hlt := by
    rw [Memo.clusters_modifyCluster] at hcluster'
    obtain ⟨cluster, hcluster, rfl⟩ := Option.map_eq_some_iff.1 hcluster'
    by_cases hsame : c' = c
    · simp only [if_pos hsame] at heq ⊢
      obtain ⟨hne, hapart⟩ := h.apart head hmem c' cluster hc' hcluster (heq.trans (hhead _)) w hw hlt
      exact ⟨hne, fun hstart hinv => hapart hstart ((hinvolved cluster).subset hinv)⟩
    · simp only [if_neg hsame] at heq ⊢
      exact h.apart head hmem c' cluster hc' hcluster heq w hw hlt
  members c' cluster' hcluster' := by
    rw [Memo.clusters_modifyCluster] at hcluster'
    obtain ⟨cluster, hcluster, rfl⟩ := Option.map_eq_some_iff.1 hcluster'
    split
    · rename_i heq
      subst heq
      exact ⟨(h.members _ cluster hcluster).1.sublist (hinvolved cluster), hpending cluster hcluster⟩
    · exact h.members c' cluster hcluster

namespace Accounts

variable {rules : Nat} {text : Text} {u : Underway} {memo memo' : Memo}

section Growing

/-- A cluster may be changed if it keeps its head and gains no members, and if rules that wait are not to
be applied again after that. -/
theorem modifyCluster (h : Accounts rules text u memo) {c : Nat} {f : Cluster → Cluster}
    (hhead : ∀ cluster, (f cluster).head = cluster.head)
    (hinvolved : ∀ cluster, (f cluster).involved.Sublist cluster.involved)
    (hpending : ∀ cluster, memo.clusters[c]? = some cluster → Ascending rules (f cluster).pending ∧
      ∀ start, memo.growing[start]? = some c → ∀ w ∈ u.path, w.start = start →
        w.rule ∉ (f cluster).pending) :
    Accounts rules text u (memo.modifyCluster c f) where
  toClusters := h.toClusters.modifyCluster hhead hinvolved fun cluster hc => (hpending cluster hc).1
  linked := h.linked
  waits := h.waits
  stops := h.stops
  records := h.records
  grown g hg := by
    obtain ⟨hknows, cluster, hcluster⟩ := h.grown g hg
    exact ⟨hknows, _, by rw [Memo.clusters_modifyCluster, hcluster]; rfl⟩
  growing := h.growing
  pending start c' cluster' hg hcluster' w hw hstart := by
    rw [Memo.clusters_modifyCluster] at hcluster'
    obtain ⟨cluster, hcluster, rfl⟩ := Option.map_eq_some_iff.1 hcluster'
    split
    · rename_i heq
      subst heq
      exact (hpending cluster hcluster).2 start hg w hw hstart
    · exact h.pending start c' cluster hg hcluster w hw hstart

/-- A member may be taken from those that are still to be applied. -/
theorem erase (h : Accounts rules text u memo) (c rule : Nat) :
    Accounts rules text u (memo.modifyCluster c fun cluster =>
      { cluster with pending := cluster.pending.erase rule }) := by
  refine h.modifyCluster (fun _ => rfl) (fun _ => .refl _) fun cluster hcluster => ?_
  refine ⟨(h.members c cluster hcluster).2.sublist List.erase_sublist, fun start hg w hw hstart hp => ?_⟩
  exact h.pending start c cluster hg hcluster w hw hstart (List.mem_of_mem_erase hp)

/-- A cluster may be grown if none of its members waits at the offset. -/
theorem grow (h : Accounts rules text u memo) {c head start : Nat} (hknows : memo.Knows head start)
    (hpath : ∀ w ∈ u.path, memo.clusterAt? w.id ≠ some c)
    (hcluster : ∃ cluster, memo.clusters[c]? = some cluster)
    (hpending : ∀ cluster, memo.clusters[c]? = some cluster → ∀ w ∈ u.path, w.start = start →
      w.rule ∉ cluster.pending) :
    Accounts rules text (u.grow c head start)
      { memo with growing := memo.growing.insert start c } where
  linked := h.linked
  waits := h.waits
  stops := h.stops
  records := h.records
  clustered w hw c' hc' := by
    obtain ⟨hgrown, hrest⟩ := h.clustered w hw c' hc'
    refine ⟨?_, hrest⟩
    rintro g (_ | ⟨_, hg⟩)
    · exact fun heq => hpath w hw (hc'.trans (congrArg some heq.symm))
    · exact hgrown g hg
  apart := h.apart
  members := h.members
  grown := by
    rintro g (_ | ⟨_, hg⟩)
    · exact ⟨hknows, hcluster⟩
    · exact h.grown g hg
  growing start' := by
    rw [Memo.growing_insert, Underway.grow, List.find?_cons]
    by_cases hstart : start' = start
    · simp [hstart]
    · simp [hstart, Ne.symm hstart, h.growing start']
  pending start' c' cluster hg hc w hw hstart := by
    rw [Memo.growing_insert] at hg
    split at hg
    · rename_i heq
      cases hg
      exact hpending cluster hc w hw (hstart.trans heq)
    · exact h.pending start' c' cluster hg hc w hw hstart

/-- A cluster need not be grown any further, if no rule that waits is about to be applied again for the
one that was grown before it at the offset. -/
theorem settle {c head start : Nat} (h : Accounts rules text (u.grow c head start) memo)
    {growing : Std.TreeMap Nat Nat}
    (hgrowing : ∀ start' : Nat, growing[start']? = (u.grown.find? (·.start = start')).map (·.cluster))
    (hpending : ∀ (c' : Nat) (cluster : Cluster), growing[start]? = some c' →
      memo.clusters[c']? = some cluster → ∀ w ∈ u.path, w.start = start → w.rule ∉ cluster.pending) :
    Accounts rules text u { memo with growing } where
  linked := h.linked
  waits := h.waits
  stops := h.stops
  records := h.records
  clustered w hw c' hc' := by
    obtain ⟨hgrown, hrest⟩ := h.clustered w hw c' hc'
    exact ⟨fun g hg => hgrown g (List.mem_cons_of_mem _ hg), hrest⟩
  apart := h.apart
  members := h.members
  grown g hg := h.grown g (List.mem_cons_of_mem _ hg)
  growing := hgrowing
  pending start' c' cluster hg hc w hw hstart := by
    by_cases heq : start' = start
    · subst heq
      exact hpending c' cluster hg hc w hw hstart
    · refine h.pending start' c' cluster ?_ hc w hw hstart
      rw [← hg, hgrowing, h.growing, Underway.grow, List.find?_cons]
      simp [Ne.symm heq]

/-- The first round of growing a cluster may be started if none of its members waits at the offset. -/
theorem growth (h : Accounts rules text u memo) {c head start : Nat} {cluster : Cluster}
    (hknows : memo.Knows head start) (hgrown : ∀ g ∈ u.grown, g.cluster ≠ c)
    (hpath : ∀ w ∈ u.path, memo.clusterAt? w.id ≠ some c)
    (hcluster : memo.clusters[c]? = some cluster)
    (hapart : ∀ w ∈ u.path, w.start = start → w.rule ∉ cluster.involved) :
    Accounts rules text (u.grow c head start)
      { memo.refill c with growing := memo.growing.insert start c } := by
  have hrefilled : Accounts rules text u (memo.refill c) := by
    refine h.modifyCluster (fun _ => rfl) (fun _ => .refl _) fun cluster' hcluster' =>
      ⟨(h.members c cluster' hcluster').1, fun start' hg => ?_⟩
    obtain ⟨g, hmem, -, hc⟩ := h.exists_growth hg
    exact absurd hc (hgrown g hmem)
  have hfind : (memo.refill c).clusters[c]? = some { cluster with pending := cluster.involved } := by
    rw [Memo.refill, Memo.clusters_modifyCluster, hcluster, Option.map_some, if_pos rfl]
  refine hrefilled.grow hknows hpath ⟨_, hfind⟩ fun cluster' hcluster' => ?_
  rw [hfind] at hcluster'
  cases hcluster'
  exact hapart

/-- No rule waits where it is grown. -/
theorem spot_ne_of_grow {c head start : Nat} (h : Accounts rules text (u.grow c head start) memo) :
    ∀ w ∈ u.path, ¬ (w.rule = head ∧ w.start = start) := by
  rintro w hw ⟨rfl, rfl⟩
  obtain ⟨⟨result, stop, hknown⟩, -⟩ := h.grown _ List.mem_cons_self
  rw [h.waits w hw] at hknown
  cases hknown

/-- Nor is a rule that waits among those that are still to be applied. -/
theorem not_stale_of_grow {c head start : Nat} (h : Accounts rules text (u.grow c head start) memo) :
    ∀ w ∈ u.path, w.start = start → w.rule ∉ (memo.clusters[c]?.map (·.pending)).getD [] := by
  intro w hw hstart
  obtain ⟨-, cluster, hcluster⟩ := h.grown _ List.mem_cons_self
  have hgrowing : memo.growing[start]? = some c := by
    rw [h.growing, Underway.grow, List.find?_cons]
    simp
  have hpending := h.pending start c cluster hgrowing hcluster w hw hstart
  rwa [hcluster]

/-- A further round may be started after an earlier one. -/
theorem refill {c head start : Nat} (hgrown : ∀ g ∈ u.grown, g.cluster ≠ c)
    (h : Accounts rules text (u.grow c head start) (memo.refill c))
    (h' : Accounts rules text (u.grow c head start) memo')
    (hs : Shrinks (u.grow c head start) (memo.refill c) memo') :
    Accounts rules text (u.grow c head start) (memo'.refill c) := by
  refine h'.modifyCluster (fun _ => rfl) (fun _ => .refl _) fun cluster' hcluster' =>
    ⟨(h'.members c cluster' hcluster').1, fun start' hg w hw hstart => ?_⟩
  -- the cluster is grown at no other offset
  have hsame : start' = start := by
    obtain ⟨g, hmem, rfl, hc⟩ := h'.exists_growth hg
    rcases hmem with _ | ⟨_, hmem⟩
    · rfl
    · exact absurd hc (hgrown g hmem)
  subst hsame
  obtain ⟨-, cluster, hcluster⟩ := h.grown _ List.mem_cons_self
  obtain ⟨cluster'', hcluster'', hinvolved, -⟩ := hs _ List.mem_cons_self cluster hcluster
  rw [hcluster'] at hcluster''
  cases hcluster''
  have hpending := h.pending start' c cluster (by rw [h.growing, ← h'.growing, hg]) hcluster w hw hstart
  rw [Memo.refill, Memo.clusters_modifyCluster] at hcluster
  obtain ⟨cluster₀, -, rfl⟩ := Option.map_eq_some_iff.1 hcluster
  rw [if_pos rfl] at hinvolved hpending
  rwa [hinvolved]

/-- After the last round no member is left to be applied again, and the cluster that was grown before at
the offset is registered again. -/
theorem settled {c head start : Nat} (hgrown : ∀ g ∈ u.grown, g.cluster ≠ c)
    (h : Accounts rules text u memo) (h' : Accounts rules text (u.grow c head start) memo')
    (hs : Shrinks u memo memo') {growing : Std.TreeMap Nat Nat}
    (hgrowing : ∀ start' : Nat, growing[start']?
      = if start' = start then memo.growing[start']? else memo'.growing[start']?) :
    Accounts rules text u { memo'.modifyCluster c fun cluster => { cluster with pending := [] } with
      growing } := by
  have hcleared : Accounts rules text (u.grow c head start)
      (memo'.modifyCluster c fun cluster => { cluster with pending := [] }) :=
    h'.modifyCluster (fun _ => rfl) (fun _ => .refl _) fun _ _ =>
      ⟨.nil _, fun _ _ _ _ _ => List.not_mem_nil⟩
  refine hcleared.settle (fun start' => ?_) fun c' cluster' hg hcluster' w hw hstart hpending => ?_
  · rw [hgrowing]
    split
    · exact h.growing start'
    · rename_i hne
      rw [h'.growing, Underway.grow, List.find?_cons]
      simp [Ne.symm hne]
  · rw [hgrowing, if_pos rfl] at hg
    obtain ⟨g, hmem, -, rfl⟩ := h.exists_growth hg
    obtain ⟨-, cluster, hcluster⟩ := h.grown g hmem
    obtain ⟨cluster'', hcluster'', -, hsub⟩ := hs g hmem cluster hcluster
    rw [Memo.clusters_modifyCluster, hcluster'', Option.map_some, if_neg (hgrown g hmem)] at hcluster'
    cases hcluster'
    exact h.pending start g.cluster cluster hg hcluster w hw hstart (hsub.subset hpending)

/-- After the last round of growing, members that it did not apply again may be dropped, unless a cluster
is grown at the offset as before. -/
theorem endGrowth {c head start : Nat} (hgrown : ∀ g ∈ u.grown, g.cluster ≠ c)
    (h : Accounts rules text u memo) (h' : Accounts rules text (u.grow c head start) memo')
    (hs : Shrinks u memo memo') :
    Accounts rules text u (memo'.endGrowth start c memo.growing[start]?) ∧
      Shrinks u memo (memo'.endGrowth start c memo.growing[start]?) := by
  have hcleared : Shrinks u memo (memo'.clearDue c) := hs.trans (.modifyCluster hgrown _)
  cases houter : memo.growing[start]? with
  | some id =>
    refine ⟨h.settled hgrown h' hs fun start' => ?_, hcleared.trans (.of_eq rfl)⟩
    rw [Memo.growing_insert]
    split
    · rename_i heq
      rw [heq, houter]
    · rfl
  | none =>
    have hsettled : Accounts rules text u
        { memo'.clearDue c with growing := memo'.growing.erase start } := by
      refine h.settled hgrown h' hs fun start' => ?_
      rw [Memo.growing_erase]
      split
      · rename_i heq
        rw [heq, houter]
      · rfl
    refine ⟨hsettled.forget (fun w hw hstart hmem => ?_) (h.start_ne houter), ?_⟩
    · exact h'.not_stale_of_grow w hw hstart (List.mem_filter.1 hmem).1
    · exact hcleared.trans (.of_eq (Memo.clusters_forget ..))

/-- The head of a cluster may be left without a match, if none of the members waits at the offset. -/
theorem failHead (h : Accounts rules text u memo) {rule start stop c : Nat} {cluster : Cluster}
    (cause : Cause) (hspot : ∀ w ∈ u.path, ¬ (w.rule = rule ∧ w.start = start)) (hle : start ≤ stop)
    (hb : text.isBoundary stop = true) (hgrown : ∀ g ∈ u.grown, g.cluster ≠ c)
    (hapart : ∀ w ∈ u.path, w.start = start → w.rule ∉ cluster.involved) :
    Accounts rules text u (memo.failHead rule start stop c cluster.involved cause) ∧
      Shrinks u memo (memo.failHead rule start stop c cluster.involved cause) := by
  have hdone := h.remember_done hspot (.error cause) hle hb
  have hcleared := hdone.modifyCluster (c := c) (f := fun cluster => { cluster with involved := [] })
    (fun _ => rfl) (fun _ => List.nil_sublist _) fun cluster hcluster =>
      ⟨(hdone.members c cluster hcluster).2, fun start hg => hdone.pending start c cluster hg hcluster⟩
  have hshrinks : Shrinks u memo ((memo.remember rule start (.done (.error cause)) stop).modifyCluster c
      fun cluster => { cluster with involved := [] }) :=
    (Shrinks.of_eq rfl).trans (.modifyCluster hgrown _)
  unfold Memo.failHead
  dsimp only
  split
  · exact ⟨hcleared, hshrinks⟩
  · rename_i hnone
    have hnone : memo.growing[start]? = none :=
      Std.TreeMap.getElem?_eq_none_of_contains_eq_false (Bool.eq_false_iff.2 hnone)
    refine ⟨hcleared.forget (fun w hw hstart hmem => ?_) (h.start_ne hnone), ?_⟩
    · exact hapart w hw hstart (List.mem_filter.1 hmem).1
    · exact hshrinks.trans (.of_eq (Memo.clusters_forget ..))

end Growing

section Marking

/-- Records determine where applications wait. -/
theorem spot_eq (h : Accounts rules text u memo) {w w' : Waiting} (hw : w ∈ u.path) (hw' : w' ∈ u.path)
    (hid : w.id = w'.id) : w.rule = w'.rule ∧ w.start = w'.start := by
  obtain ⟨a, ha, hrule, hstart⟩ := h.record hw
  obtain ⟨a', ha', hrule', hstart'⟩ := h.record hw'
  rw [hid, ha'] at ha
  cases ha
  exact ⟨hrule.symm.trans hrule', hstart.symm.trans hstart'⟩

/-- The records may change in the clusters that they belong to, as long as the clusters that are being
grown stay as they are. -/
theorem of_frame (h : Accounts rules text u memo) (hframe : memo.Frame memo')
    (hentries : memo'.entries = memo.entries) (hgrowing : memo'.growing = memo.growing)
    (hgrown : ∀ g ∈ u.grown, memo'.clusters[g.cluster]? = memo.clusters[g.cluster]?)
    (hclusters : Clusters rules u memo') : Accounts rules text u memo' := by
  have hentry (rule start : Nat) : memo'.find? rule start = memo.find? rule start := by
    rw [Memo.find?, Memo.find?, hentries]
  refine ⟨hclusters, ?_, ?_, ?_, ?_, ?_, ?_, ?_⟩
  · rw [hframe.top]
    exact hframe.linked h.linked
  · intro w hw
    rw [hentry, h.waits w hw]
  · intro rule start entry he
    exact h.stops rule start entry (hentry rule start ▸ he)
  · intro rule start id stop he
    obtain ⟨a, ha, hspot⟩ := h.records rule start id stop (hentry rule start ▸ he)
    obtain ⟨cluster, ha'⟩ := hframe.records id a ha
    exact ⟨_, ha', hspot⟩
  · intro g hg
    rw [Memo.Knows, hentry, hgrown g hg]
    exact h.grown g hg
  · rw [hgrowing]
    exact h.growing
  · intro start c cluster hg hcluster
    rw [hgrowing] at hg
    obtain ⟨g, hmem, -, rfl⟩ := h.exists_growth hg
    exact h.pending start g.cluster cluster hg (hgrown g hmem ▸ hcluster)

/-- The next cluster has a number that no cluster has yet. -/
theorem ne_size_of_cluster {c : Nat} {cluster : Cluster} (hcluster : memo.clusters[c]? = some cluster) :
    c ≠ memo.clusters.size :=
  Nat.ne_of_lt (Array.getElem?_eq_some_iff.1 hcluster).1

section Found

variable {w : Waiting} (h : Accounts rules text u memo) (hw : w ∈ u.path)
  (hnone : memo.clusterAt? w.id = none)

include hnone

/-- An application that belongs to no cluster becomes the head of a new one. -/
theorem clusters_clusterOf (c : Nat) : (memo.clusterOf w.rule w.id).2.clusters[c]?
    = if c = memo.clusters.size then some { head := w.rule } else memo.clusters[c]? := by
  rw [Memo.clusterOf_of_none _ hnone]
  exact Array.getElem?_push

include h hw

/-- The application that a cluster is found for belongs to it, and the others to what they
belonged to. -/
theorem clusterAt?_clusterOf (id : Nat) : (memo.clusterOf w.rule w.id).2.clusterAt? id
    = if id = w.id then some memo.clusters.size else memo.clusterAt? id := by
  obtain ⟨a, ha, -⟩ := h.record hw
  rw [Memo.clusterOf_of_none _ hnone]
  exact Memo.clusterAt?_modifyApplication ha id

/-- With a new cluster, the head of every cluster still waits below all that belong to it. -/
theorem clustered_clusterOf (w' : Waiting) (hw' : w' ∈ u.path) (c : Nat)
    (hc : (memo.clusterOf w.rule w.id).2.clusterAt? w'.id = some c) :
    (∀ g ∈ u.grown, g.cluster ≠ c) ∧
      ∃ cluster, (memo.clusterOf w.rule w.id).2.clusters[c]? = some cluster ∧
        ∃ head ∈ u.path, head.id ≤ w'.id ∧ (memo.clusterOf w.rule w.id).2.clusterAt? head.id = some c ∧
          head.rule = cluster.head ∧ head.start = w'.start := by
  have hat := h.clusterAt?_clusterOf hw hnone
  have hfind := clusters_clusterOf hnone
  rw [hat] at hc
  split at hc
  · rename_i hid
    cases hc
    have hgrown (g : Growth) (hg : g ∈ u.grown) : g.cluster ≠ memo.clusters.size := by
      obtain ⟨-, cluster, hcluster⟩ := h.grown g hg
      exact ne_size_of_cluster hcluster
    refine ⟨hgrown, _, by rw [hfind, if_pos rfl], w, hw, Nat.le_of_eq hid.symm, ?_, rfl, ?_⟩
    · rw [hat, if_pos rfl]
    · exact (h.spot_eq hw hw' hid.symm).2
  · obtain ⟨hgrown, cluster, hcluster, head, hhead, hle, hheadc, hrest⟩ := h.clustered w' hw' c hc
    have hne : head.id ≠ w.id := by
      intro hid
      rw [hid, hnone] at hheadc
      cases hheadc
    refine ⟨hgrown, cluster, ?_, head, hhead, hle, ?_, hrest⟩
    · rw [hfind, if_neg (ne_size_of_cluster hcluster), hcluster]
    · rw [hat, if_neg hne, hheadc]

/-- With a new cluster, none that belongs to a cluster waits below its head, and no member does. -/
theorem apart_clusterOf (head : Waiting) (hhead : head ∈ u.path) (c : Nat) (cluster : Cluster)
    (hc : (memo.clusterOf w.rule w.id).2.clusterAt? head.id = some c)
    (hcluster : (memo.clusterOf w.rule w.id).2.clusters[c]? = some cluster)
    (hrule : head.rule = cluster.head) (w' : Waiting) (hw' : w' ∈ u.path) (hlt : w'.id < head.id) :
    (memo.clusterOf w.rule w.id).2.clusterAt? w'.id ≠ some c ∧
      (w'.start = head.start → w'.rule ∉ cluster.involved) := by
  have hat := h.clusterAt?_clusterOf hw hnone
  rw [hat] at hc ⊢
  rw [clusters_clusterOf hnone] at hcluster
  split at hc
  · rename_i hid
    cases hc
    rw [if_pos rfl] at hcluster
    cases hcluster
    refine ⟨fun hc' => ?_, fun _ => List.not_mem_nil⟩
    rw [if_neg (by omega)] at hc'
    obtain ⟨-, cluster, hcluster, -⟩ := h.clustered w' hw' _ hc'
    exact ne_size_of_cluster hcluster rfl
  · obtain ⟨-, cluster', hcluster', -⟩ := h.clustered head hhead c hc
    have hne := ne_size_of_cluster hcluster'
    rw [if_neg hne] at hcluster
    obtain ⟨hout, hapart⟩ := h.apart head hhead c cluster hc hcluster hrule w' hw' hlt
    refine ⟨fun hc' => ?_, hapart⟩
    split at hc'
    · cases hc'
      exact hne rfl
    · exact hout hc'

/-- A new cluster may be found for an application that belongs to none. -/
theorem found : Accounts rules text u (memo.clusterOf w.rule w.id).2 := by
  have hfind := clusters_clusterOf hnone
  refine h.of_frame (Memo.Frame.clusterOf memo w.rule w.id) (Memo.entries_clusterOf memo w.rule w.id) ?_
    (fun g hg => ?_) ⟨h.clustered_clusterOf hw hnone, h.apart_clusterOf hw hnone,
      fun c cluster hcluster => ?_⟩
  · rw [Memo.clusterOf_of_none _ hnone]
    rfl
  · obtain ⟨-, cluster, hcluster⟩ := h.grown g hg
    rw [hfind, if_neg (ne_size_of_cluster hcluster)]
  · rw [hfind] at hcluster
    split at hcluster
    · cases hcluster
      exact ⟨.nil _, .nil _⟩
    · exact h.members c cluster hcluster

end Found

/-- The head of a cluster waits below all others that belong to it. -/
theorem head_eq (h : Accounts rules text u memo) {head head' : Waiting} (hmem : head ∈ u.path)
    (hmem' : head' ∈ u.path) {c : Nat} {cluster : Cluster} (hcluster : memo.clusters[c]? = some cluster)
    (hc : memo.clusterAt? head.id = some c) (hc' : memo.clusterAt? head'.id = some c)
    (hrule : head.rule = cluster.head) (hrule' : head'.rule = cluster.head) : head.id = head'.id := by
  rcases Nat.lt_trichotomy head.id head'.id with hlt | heq | hlt
  · exact absurd hc (h.apart head' hmem' c cluster hc' hcluster hrule' head hmem hlt).1
  · exact heq
  · exact absurd hc' (h.apart head hmem c cluster hc hcluster hrule head' hmem' hlt).1

/-- Which cluster each application belongs to after one has joined. -/
theorem clusterAt?_join (h : Accounts rules text u memo) {m : Waiting} (hm : m ∈ u.path) (c id : Nat) :
    (memo.join c m.id).clusterAt? id = if id = m.id then some c else memo.clusterAt? id := by
  obtain ⟨a, ha, -⟩ := h.record hm
  rw [Memo.join_of_record ha]
  exact Memo.clusterAt?_modifyApplication ha id

/-- The rule of an application that joins is a member of the cluster from then on. -/
theorem clusters_join (h : Accounts rules text u memo) {m : Waiting} (hm : m ∈ u.path) (c c' : Nat) :
    (memo.join c m.id).clusters[c']? = memo.clusters[c']?.map fun cluster =>
      if c' = c then { cluster with involved := insertRule m.rule cluster.involved } else cluster := by
  obtain ⟨a, ha, harule, -⟩ := h.record hm
  rw [Memo.join_of_record ha, harule]
  exact Memo.clusters_modifyCluster ..

/-- What an application may join: a cluster that one below it at the same offset belongs to, and that all
above it have joined before. -/
structure CanJoin (u : Underway) (memo : Memo) (m : Waiting) (c : Nat) : Prop where
  mem : m ∈ u.path
  /-- It has not joined yet. -/
  outside : memo.clusterAt? m.id ≠ some c
  /-- One below it belongs to the cluster. -/
  below : ∃ f ∈ u.path, f.id < m.id ∧ f.start = m.start ∧ memo.clusterAt? f.id = some c
  /-- All above it belong to the cluster. -/
  above : ∀ w ∈ u.path, m.id < w.id → memo.clusterAt? w.id = some c

/-- The head of the cluster that is joined waits below, at the same offset. -/
theorem head_of_canJoin (h : Accounts rules text u memo) {m : Waiting} {c : Nat} (hj : CanJoin u memo m c) :
    (∀ g ∈ u.grown, g.cluster ≠ c) ∧ ∃ cluster, memo.clusters[c]? = some cluster ∧
      ∃ head ∈ u.path, head.id < m.id ∧ memo.clusterAt? head.id = some c ∧ head.rule = cluster.head ∧
        head.start = m.start := by
  obtain ⟨f, hf, hlt, hstart, hfc⟩ := hj.below
  obtain ⟨hgrown, cluster, hcluster, head, hhead, hle, hheadc, hrule, hheadstart⟩ :=
    h.clustered f hf c hfc
  exact ⟨hgrown, cluster, hcluster, head, hhead, Nat.lt_of_le_of_lt hle hlt, hheadc, hrule,
    hheadstart.trans hstart⟩

/-- After one has joined, the head of every cluster still waits below all that belong to it. -/
theorem clustered_join (h : Accounts rules text u memo) {m : Waiting} {c : Nat} (hj : CanJoin u memo m c)
    (w : Waiting) (hw : w ∈ u.path) (c' : Nat) (hc' : (memo.join c m.id).clusterAt? w.id = some c') :
    (∀ g ∈ u.grown, g.cluster ≠ c') ∧ ∃ cluster, (memo.join c m.id).clusters[c']? = some cluster ∧
      ∃ head ∈ u.path, head.id ≤ w.id ∧ (memo.join c m.id).clusterAt? head.id = some c' ∧
        head.rule = cluster.head ∧ head.start = w.start := by
  have hat := h.clusterAt?_join hj.mem c
  rw [hat] at hc'
  split at hc'
  · rename_i hid
    cases hc'
    obtain ⟨hgrown, cluster, hcluster, head, hhead, hlt, hheadc, hrule, hstart⟩ := h.head_of_canJoin hj
    obtain ⟨-, hwstart⟩ := h.spot_eq hj.mem hw hid.symm
    refine ⟨hgrown, _, by rw [h.clusters_join hj.mem, hcluster, Option.map_some], head, hhead, by omega,
      ?_, ?_, hstart.trans hwstart⟩
    · rw [hat, if_neg (by omega), hheadc]
    · rw [if_pos rfl]
      exact hrule
  · obtain ⟨hgrown, cluster, hcluster, head, hhead, hle, hheadc, hrule, hstart⟩ :=
      h.clustered w hw c' hc'
    -- were `m` a head, then of a cluster that all above it have left for this one
    have hne : head.id ≠ m.id := by
      intro heq
      have hwc := hj.above w hw (by omega)
      have hsame : c = c' := by
        rw [hc'] at hwc
        exact (Option.some.inj hwc).symm
      rw [heq, ← hsame] at hheadc
      exact hj.outside hheadc
    refine ⟨hgrown, _, by rw [h.clusters_join hj.mem, hcluster, Option.map_some], head, hhead, hle, ?_,
      ?_, hstart⟩
    · rw [hat, if_neg hne, hheadc]
    · split <;> exact hrule

/-- After one has joined, none that belongs to a cluster waits below its head, and no member does. -/
theorem apart_join (h : Accounts rules text u memo) {m : Waiting} {c : Nat} (hj : CanJoin u memo m c)
    (head : Waiting) (hhead : head ∈ u.path) (c' : Nat) (cluster' : Cluster)
    (hc' : (memo.join c m.id).clusterAt? head.id = some c')
    (hcluster' : (memo.join c m.id).clusters[c']? = some cluster') (hrule' : head.rule = cluster'.head)
    (w : Waiting) (hw : w ∈ u.path) (hlt : w.id < head.id) :
    (memo.join c m.id).clusterAt? w.id ≠ some c' ∧
      (w.start = head.start → w.rule ∉ cluster'.involved) := by
  obtain ⟨-, joined, hjoined, least, hleast, hbelow, hleastc, hleastrule, hleaststart⟩ :=
    h.head_of_canJoin hj
  have hat := h.clusterAt?_join hj.mem c
  rw [h.clusters_join hj.mem] at hcluster'
  obtain ⟨cluster, hcluster, rfl⟩ := Option.map_eq_some_iff.1 hcluster'
  have hrule : head.rule = cluster.head := by
    split at hrule' <;> exact hrule'
  -- `m` is not the head, which waits below it at the same offset
  have hne : head.id ≠ m.id := by
    intro hid
    rw [hat, if_pos hid] at hc'
    cases hc'
    rw [hjoined] at hcluster
    cases hcluster
    obtain ⟨hr, -⟩ := h.spot_eq hhead hj.mem hid
    have hsame := h.id_eq hleast hj.mem (by rw [hleastrule, ← hrule, hr]) hleaststart
    omega
  rw [hat, if_neg hne] at hc'
  obtain ⟨hout, hapart⟩ := h.apart head hhead c' cluster hc' hcluster hrule w hw hlt
  rw [hat]
  by_cases hsame : c' = c
  · subst hsame
    rw [hjoined] at hcluster
    cases hcluster
    have hid := h.head_eq hleast hhead hjoined hleastc hc' hleastrule hrule
    rw [if_neg (by omega), if_pos rfl]
    refine ⟨hout, fun hstart hin => ?_⟩
    rcases mem_insertRule.1 hin with heq | hin
    · obtain ⟨-, hheadstart⟩ := h.spot_eq hleast hhead hid
      have hsame := h.id_eq hw hj.mem heq (by rw [hstart, ← hheadstart, hleaststart])
      omega
    · exact hapart hstart hin
  · rw [if_neg hsame]
    refine ⟨fun hwc => ?_, hapart⟩
    split at hwc
    · cases hwc
      exact hsame rfl
    · exact hout hwc

/-- An application may join a cluster that one below it at the same offset belongs to. -/
theorem join (h : Accounts rules text u memo) {m : Waiting} {c : Nat} (hj : CanJoin u memo m c)
    (hrules : m.rule < rules) : Accounts rules text u (memo.join c m.id) := by
  refine h.of_frame (Memo.Frame.join memo c m.id) (Memo.entries_join memo c m.id) ?_ (fun g hg => ?_)
    ⟨h.clustered_join hj, h.apart_join hj, fun c' cluster' hcluster' => ?_⟩
  · obtain ⟨a, ha, -⟩ := h.record hj.mem
    rw [Memo.join_of_record ha]
    rfl
  · obtain ⟨hgrown, -⟩ := h.head_of_canJoin hj
    rw [h.clusters_join hj.mem]
    simp only [hgrown g hg, if_false, Option.map_id']
  · rw [h.clusters_join hj.mem] at hcluster'
    obtain ⟨cluster, hcluster, rfl⟩ := Option.map_eq_some_iff.1 hcluster'
    obtain ⟨hinvolved, hpending⟩ := h.members c' cluster hcluster
    split
    · exact ⟨hinvolved.insertRule hrules, hpending⟩
    · exact ⟨hinvolved, hpending⟩

/-- The applications on top may join a cluster one after the other, down to one that belongs to it. What
holds of the memo before, and still holds after each of them has joined, holds of the memo in the end. -/
theorem joins {motive : Memo → Prop} {c : Nat}
    (hjoin : ∀ {memo m}, Accounts rules text u memo → CanJoin u memo m c → motive memo →
      motive (memo.join c m.id))
    (h : Accounts rules text u memo) (hmotive : motive memo) {pos : Nat} (ho : u.Orderly rules pos)
    (joined : List Waiting) {waiting rest : List Waiting} {f : Waiting}
    (hpath : u.path = joined ++ waiting ++ f :: rest) (hfc : memo.clusterAt? f.id = some c)
    (hjoined : ∀ w ∈ joined, memo.clusterAt? w.id = some c)
    (hwaiting : ∀ w ∈ waiting, memo.clusterAt? w.id ≠ some c ∧ w.start = f.start) :
    Accounts rules text u
        ((waiting.map (·.id)).foldl (fun memo member => memo.join c member) memo) ∧
      motive ((waiting.map (·.id)).foldl (fun memo member => memo.join c member) memo) := by
  induction waiting generalizing memo joined with
  | nil => exact ⟨h, hmotive⟩
  | cons m waiting ih =>
    have hm : m ∈ u.path := by simp [hpath]
    have hf : f ∈ u.path := by simp [hpath]
    obtain ⟨hmc, hstart⟩ := hwaiting m (by simp)
    -- the order of the records on both sides of `m`
    have hlater := ho.later
    rw [hpath, List.append_assoc, List.cons_append, List.pairwise_append, List.pairwise_cons] at hlater
    obtain ⟨-, ⟨hbelow, -⟩, habove⟩ := hlater
    have hlt (w : Waiting) (hw : w ∈ waiting ++ f :: rest) : w.id < m.id := (hbelow w hw).1
    have hgt (w : Waiting) (hw : w ∈ joined) : m.id < w.id := (habove w hw m List.mem_cons_self).1
    have hfm := hlt f (by simp)
    have hall (w : Waiting) (hw : w ∈ u.path) (hid : m.id < w.id) : memo.clusterAt? w.id = some c := by
      rw [hpath, List.append_assoc, List.cons_append, List.mem_append, List.mem_cons] at hw
      rcases hw with hw | rfl | hw
      · exact hjoined w hw
      · omega
      · exact absurd (hlt w hw) (Nat.lt_asymm hid)
    have hj : CanJoin u memo m c := ⟨hm, hmc, ⟨f, hf, hfm, hstart.symm, hfc⟩, hall⟩
    have hat := h.clusterAt?_join hm c
    exact ih (h.join hj (ho.rules m hm)) (hjoin h hj hmotive) (joined ++ [m]) (by simp [hpath])
      (by rw [hat, if_neg (Nat.ne_of_lt hfm), hfc])
      (fun w hw => by
        rcases List.mem_append.1 hw with hw | hw
        · rw [hat, if_neg (Nat.ne_of_gt (hgt w hw)), hjoined w hw]
        · rw [hat, if_pos (by simp at hw; rw [hw])])
      (fun w hw => by
        rw [hat, if_neg (Nat.ne_of_lt (hlt w (by simp [hw])))]
        exact hwaiting w (List.mem_cons_of_mem _ hw))

/-- The clusters that are being grown are none that can be joined. -/
theorem shrinks_join (h : Accounts rules text u memo) {m : Waiting} {c : Nat} (hj : CanJoin u memo m c) :
    Shrinks u memo (memo.join c m.id) := by
  obtain ⟨hgrown, -⟩ := h.head_of_canJoin hj
  obtain ⟨a, ha, -⟩ := h.record hj.mem
  rw [Memo.join_of_record ha]
  exact (Shrinks.of_eq rfl).trans (.modifyCluster hgrown _)

/-- An application belongs to a cluster as soon as a rule has come back to it. -/
theorem clusterOf (h : Accounts rules text u memo) {w : Waiting} (hw : w ∈ u.path) :
    ∃ c, (memo.clusterOf w.rule w.id).1 = c ∧ (memo.clusterOf w.rule w.id).2.clusterAt? w.id = some c ∧
      Accounts rules text u (memo.clusterOf w.rule w.id).2 := by
  cases hc : memo.clusterAt? w.id with
  | some c =>
    have hof : memo.clusterOf w.rule w.id = (c, memo) := Memo.clusterOf_of_some _ hc
    exact ⟨c, by rw [hof], by rw [hof, hc], by rwa [hof]⟩
  | none =>
    have hnew : (memo.clusterOf w.rule w.id).1 = memo.clusters.size := by
      rw [Memo.clusterOf_of_none _ hc]
    refine ⟨memo.clusters.size, hnew, ?_, h.found hw hc⟩
    rw [h.clusterAt?_clusterOf hw hc, if_pos rfl]

/-- A new cluster is none of those that are being grown. -/
theorem shrinks_clusterOf {w : Waiting} (hnone : memo.clusterAt? w.id = none) :
    Shrinks u memo (memo.clusterOf w.rule w.id).2 := by
  intro g hg cluster hcluster
  refine ⟨cluster, ?_, rfl, .refl _⟩
  rw [clusters_clusterOf hnone, if_neg (ne_size_of_cluster hcluster), hcluster]

/-- All that belong to a cluster wait at one offset. -/
theorem start_eq_of_cluster (h : Accounts rules text u memo) {w w' : Waiting} (hw : w ∈ u.path)
    (hw' : w' ∈ u.path) {c : Nat} (hc : memo.clusterAt? w.id = some c)
    (hc' : memo.clusterAt? w'.id = some c) : w.start = w'.start := by
  obtain ⟨-, cluster, hcluster, head, hhead, -, hheadc, hrule, hstart⟩ := h.clustered w hw c hc
  obtain ⟨-, cluster', hcluster', head', hhead', -, hheadc', hrule', hstart'⟩ := h.clustered w' hw' c hc'
  rw [hcluster] at hcluster'
  cases hcluster'
  have hid := h.head_eq hhead hhead' hcluster hheadc hheadc' hrule hrule'
  obtain ⟨-, hsame⟩ := h.spot_eq hhead hhead' hid
  rw [← hstart, hsame, hstart']

/-- Above the first application that belongs to the cluster of one at the cursor, all wait at the
cursor. -/
theorem exists_above (h : Accounts rules text u memo) {pos c : Nat} (ho : u.Orderly rules pos)
    {w : Waiting} (hw : w ∈ u.path) (hstart : w.start = pos) (hc : memo.clusterAt? w.id = some c) :
    ∃ front f rest, u.path = front ++ f :: rest ∧ memo.above c = front.map (·.id) ∧
      memo.clusterAt? f.id = some c ∧
        ∀ w' ∈ front, memo.clusterAt? w'.id ≠ some c ∧ w'.start = f.start := by
  let outside (w : Waiting) : Bool := memo.clusterAt? w.id != some c
  have hsplit : u.path.takeWhile outside ++ u.path.dropWhile outside = u.path :=
    List.takeWhile_append_dropWhile
  have houtside (w' : Waiting) (hw' : w' ∈ u.path.takeWhile outside) :
      memo.clusterAt? w'.id ≠ some c := by
    simpa [outside] using List.mem_takeWhile_imp hw'
  obtain ⟨f, rest, hdrop⟩ : ∃ f rest, u.path.dropWhile outside = f :: rest := by
    refine List.exists_cons_of_ne_nil fun hnil => ?_
    have hall := List.dropWhile_eq_nil_iff.1 hnil w hw
    simp [outside, hc] at hall
  have hfc : memo.clusterAt? f.id = some c := by
    have hnot := List.head_dropWhile_not outside (l := u.path) (by simp [hdrop])
    simpa [hdrop, outside] using hnot
  rw [hdrop] at hsplit
  refine ⟨u.path.takeWhile outside, f, rest, hsplit.symm, ?_, hfc, fun w' hw' => ⟨houtside w' hw', ?_⟩⟩
  · rw [Memo.above, Memo.callPath_eq h.linked, List.takeWhile_map]
    rfl
  · have hlater := ho.later
    rw [← hsplit, List.pairwise_append, List.pairwise_cons] at hlater
    obtain ⟨-, ⟨hbelow, -⟩, hfront⟩ := hlater
    have hge := (hfront w' hw' f List.mem_cons_self).2
    have hle := ho.waiting_le (hsplit ▸ List.mem_append_left _ hw' : w' ∈ u.path)
    have hwf : w.start ≤ f.start := by
      rw [← hsplit, List.mem_append, List.mem_cons] at hw
      rcases hw with hout | rfl | hin
      · exact absurd hc (houtside w hout)
      · exact Nat.le_refl _
      · exact (hbelow w hin).2
    omega

/-- A left recursion may be marked when a rule that waits at the cursor comes back to itself. What holds of
the memo before, and still holds after a cluster was made and after each application has joined that of the
rule, holds of the memo in the end. -/
theorem marked (h : Accounts rules text u memo) {pos : Nat} (ho : u.Orderly rules pos)
    {w : Waiting} (hw : w ∈ u.path) (hstart : w.start = pos) {motive : Memo → Prop} (hmotive : motive memo)
    (hfound : memo.clusterAt? w.id = none → motive (memo.clusterOf w.rule w.id).2)
    (hjoin : ∀ {memo m c}, Accounts rules text u memo → CanJoin u memo m c →
      memo.clusterAt? w.id = some c → motive memo → motive (memo.join c m.id)) :
    Accounts rules text u (memo.markLeftRecursion w.rule w.id) ∧
      motive (memo.markLeftRecursion w.rule w.id) := by
  obtain ⟨c, hof, hc, hfit⟩ := h.clusterOf hw
  have hclustered : motive (memo.clusterOf w.rule w.id).2 := by
    cases hnone : memo.clusterAt? w.id with
    | none => exact hfound hnone
    | some c => rwa [Memo.clusterOf_of_some _ hnone]
  obtain ⟨front, f, rest, hpath, habove, hfc, hfront⟩ := hfit.exists_above ho hw hstart hc
  have hjoined := joins (motive := fun memo => memo.clusterAt? w.id = some c ∧ motive memo)
    (fun {memo m} ha hj hm => ⟨by rw [ha.clusterAt?_join hj.mem, hm.1, ite_self], hjoin ha hj hm.1 hm.2⟩)
    hfit ⟨hc, hclustered⟩ ho [] hpath hfc (by simp) hfront
  rw [Memo.markLeftRecursion]
  dsimp only
  rw [hof, habove]
  exact ⟨hjoined.1, hjoined.2.2⟩

/-- Marking a left recursion changes no cluster that is being grown. -/
theorem markLeftRecursion (h : Accounts rules text u memo) {pos : Nat} (ho : u.Orderly rules pos)
    {w : Waiting} (hw : w ∈ u.path) (hstart : w.start = pos) :
    Accounts rules text u (memo.markLeftRecursion w.rule w.id) ∧
      Shrinks u memo (memo.markLeftRecursion w.rule w.id) :=
  h.marked ho hw hstart (.refl memo) shrinks_clusterOf fun ha hj _ hs => hs.trans (ha.shrinks_join hj)

end Marking

end Accounts

end Packrat
