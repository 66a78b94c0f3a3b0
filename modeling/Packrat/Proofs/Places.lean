import Packrat.Proofs.Regime

/-!
# The places of clusters

Applications start no earlier than those below them on the call path, and none starts behind the cursor. When a
rule comes back to itself without moving, everything above its application has therefore been applied where it
has, and that is what joins its cluster. So every cluster has a place, an offset at which all of its members were
applied and at which it is grown, although a cluster lists its members without any offset.

An application may leave one cluster for another, and its record names the last of them only. But it leaves for a
cluster at the same place, and a record that names a cluster is never given back; so the record of a member stays,
whatever becomes of the cluster that it was first listed in.
-/

namespace Packrat

open Matcher Course

/-- The rule takes part in the left recursion, be it already applied again or not. -/
def Cluster.Lists (cluster : Cluster) (rule : Nat) : Prop := rule ∈ cluster.involved ∨ rule ∈ cluster.pending

namespace Memo

/-- The record of the application says which rule was applied, and where. -/
def Shows (memo : Memo) (w : Waiting) : Prop :=
  ∃ a : Application, memo.application? w.id = some a ∧ a.rule = w.rule ∧ a.start = w.start

/-- There is a record of an application of the rule at the offset. -/
def HasApplied (memo : Memo) (rule start : Nat) : Prop := ∃ id, memo.Shows ⟨id, rule, start⟩

/-- There are records of applications of all the rules at the offset. -/
def HaveApplied (rules : List Nat) (start : Nat) (memo : Memo) : Prop := ∀ rule ∈ rules, memo.HasApplied rule start

/-- The application has a record, and belongs to the cluster. -/
def HasJoined (memo : Memo) (w : Waiting) (c : Nat) : Prop := memo.Shows w ∧ memo.clusterAt? w.id = some c

section Records

variable {memo memo' : Memo} {w : Waiting} {c : Nat}

/-- A record is about one application. -/
theorem Shows.spot_eq {w' : Waiting} (h : memo.Shows w) (h' : memo.Shows w') (hid : w.id = w'.id) :
    w.rule = w'.rule ∧ w.start = w'.start := by
  obtain ⟨a, ha, hrule, hstart⟩ := h
  obtain ⟨a', ha', hrule', hstart'⟩ := h'
  rw [hid, ha'] at ha
  cases ha
  exact ⟨hrule.symm.trans hrule', hstart.symm.trans hstart'⟩

/-- Only the record matters. -/
theorem hasJoined_congr (hrecord : memo'.application? w.id = memo.application? w.id) :
    memo'.HasJoined w c ↔ memo.HasJoined w c := by
  rw [HasJoined, HasJoined, Shows, Shows, clusterAt?, clusterAt?, hrecord]

/-- Without a cluster, an application has joined none. -/
theorem not_hasJoined_of_none (hnone : memo.clusterAt? w.id = none) : ¬ memo.HasJoined w c := by
  rintro ⟨-, hc⟩
  rw [hnone] at hc
  cases hc

/-- What an application has come to, or belongs to, says nothing about which application it is. -/
theorem shows_modifyApplication (memo : Memo) (id : Nat) (f : Application → Application)
    (hrule : ∀ a, (f a).rule = a.rule) (hstart : ∀ a, (f a).start = a.start) (w : Waiting) :
    (memo.modifyApplication id f).Shows w ↔ memo.Shows w := by
  rw [Shows, Shows, application?, application?, modifyApplication, Array.getElem?_modify]
  split
  · cases memo.applications[w.id]? with
    | none => simp
    | some a => simp [hrule, hstart]
  · rfl

/-- Joining a cluster leaves every record about its application. -/
theorem shows_join (memo : Memo) (c id : Nat) (w : Waiting) : (memo.join c id).Shows w ↔ memo.Shows w := by
  unfold join
  split
  · rfl
  · exact shows_modifyApplication memo id (fun a => { a with cluster := some c }) (fun _ => rfl) (fun _ => rfl) w

/-- Giving an application a cluster leaves every record about its application. -/
theorem shows_clusterOf (memo : Memo) (rule id : Nat) (w : Waiting) :
    (memo.clusterOf rule id).2.Shows w ↔ memo.Shows w := by
  cases hc : (memo.application? id).bind (·.cluster) with
  | some cluster => rw [clusterOf_of_some _ hc]
  | none =>
    rw [clusterOf_of_none _ hc]
    exact shows_modifyApplication _ id (fun a => { a with cluster := some memo.clusters.size })
      (fun _ => rfl) (fun _ => rfl) w

/-- An application that is entered has not joined any cluster. -/
theorem hasJoined_enter (memo : Memo) (rule start : Nat) (seed : Except Cause Tree) (w : Waiting) (c : Nat) :
    (memo.enter rule start seed).HasJoined w c ↔ memo.HasJoined w c := by
  cases hc : memo.clusterAt? w.id with
  | none => exact iff_of_false (not_hasJoined_of_none (by rwa [clusterAt?_enter])) (not_hasJoined_of_none hc)
  | some c' =>
    obtain ⟨a, ha, -⟩ := Option.bind_eq_some_iff.1 hc
    refine hasJoined_congr ?_
    rw [application?, applications_enter, Array.getElem?_push]
    exact if_neg (Nat.ne_of_lt (Array.getElem?_eq_some_iff.1 ha).1)

/-- The record that is given back when a rule is left is none that names a cluster. -/
theorem hasJoined_leave {id : Nat} (hnone : memo.clusterAt? id = none) (rule start : Nat)
    (result : Except Cause Tree) (stop : Nat) (w : Waiting) (c : Nat) :
    (memo.leave id rule start result stop).HasJoined w c ↔ memo.HasJoined w c := by
  by_cases hid : w.id = id
  · subst hid
    refine iff_of_false (not_hasJoined_of_none ?_) (not_hasJoined_of_none hnone)
    change (((memo.pop w.id).release w.id).applications[w.id]?).bind (·.cluster) = none
    unfold release
    split
    · rw [Array.getElem?_pop, if_neg (by omega)]
      rfl
    · exact hnone
  · exact hasJoined_congr (applications_release (memo.pop id) hid)

/-- An application that is left with a seed stays in its cluster. -/
theorem hasJoined_leaveSeeded (memo : Memo) (id rule start : Nat) (seed : Except Cause Tree) (stop : Nat)
    (w : Waiting) (c : Nat) : (memo.leaveSeeded id rule start seed stop).HasJoined w c ↔ memo.HasJoined w c :=
  and_congr (shows_modifyApplication (memo.pop id) id (fun a => { a with seed }) (fun _ => rfl) (fun _ => rfl) w)
    (by rw [← clusterAt?_seed memo id seed w.id]; rfl)

/-- Whoever belongs to a cluster still belongs to one after an application has come to belong to one. -/
theorem HasJoined.exists_of_clusterAt? {id c' : Nat} (h : memo.HasJoined w c)
    (hshows : memo'.Shows w ↔ memo.Shows w)
    (hat : memo'.clusterAt? w.id = if w.id = id then some c' else memo.clusterAt? w.id) :
    ∃ c, memo'.HasJoined w c := by
  by_cases hid : w.id = id
  · exact ⟨c', hshows.2 h.1, by rw [hat, if_pos hid]⟩
  · exact ⟨c, hshows.2 h.1, by rw [hat, if_neg hid, h.2]⟩

end Records

section Joining

variable {memo : Memo} {w : Waiting} {c id : Nat}

/-- The applications that join the cluster of one that its rule has come back to. -/
def joining (memo : Memo) (rule id : Nat) : List Nat :=
  (memo.clusterOf rule id).2.above (memo.clusterOf rule id).1

/-- The memo after applications have joined the cluster, one after the other. -/
def joinAll (memo : Memo) (c : Nat) (members : List Nat) : Memo :=
  members.foldl (fun memo member => memo.join c member) memo

/-- Marking gives the head a cluster, and all that joins it joins one by one. -/
theorem markLeftRecursion_eq_joinAll (memo : Memo) (rule id : Nat) : memo.markLeftRecursion rule id
    = (memo.clusterOf rule id).2.joinAll (memo.clusterOf rule id).1 (memo.joining rule id) := rfl

/-- Changing one record leaves the others in their clusters. -/
theorem clusterAt?_modifyApplication_of_ne (f : Application → Application) {id' : Nat} (hne : id' ≠ id) :
    (memo.modifyApplication id f).clusterAt? id' = memo.clusterAt? id' := by
  rw [clusterAt?, application?, modifyApplication, Array.getElem?_modify, if_neg (Ne.symm hne)]
  rfl

/-- When one application joins, the others stay in their clusters. -/
theorem clusterAt?_join_of_ne (c : Nat) {id' : Nat} (hne : id' ≠ id) :
    (memo.join c id).clusterAt? id' = memo.clusterAt? id' := by
  unfold join
  split
  · rfl
  · exact clusterAt?_modifyApplication_of_ne _ hne

/-- Whoever does not join belongs to what it belonged to. -/
theorem clusterAt?_joinAll {members : List Nat} (hout : id ∉ members) :
    (memo.joinAll c members).clusterAt? id = memo.clusterAt? id := by
  induction members generalizing memo with
  | nil => rfl
  | cons member rest ih =>
    obtain ⟨hne, hrest⟩ := List.ne_and_not_mem_of_not_mem_cons hout
    exact (ih hrest).trans (clusterAt?_join_of_ne c hne)

/-- When one application gets a cluster, the others stay in theirs. -/
theorem clusterAt?_clusterOf_of_ne (rule : Nat) {id' : Nat} (hne : id' ≠ id) :
    (memo.clusterOf rule id).2.clusterAt? id' = memo.clusterAt? id' := by
  cases hc : (memo.application? id).bind (·.cluster) with
  | some cluster => rw [clusterOf_of_some _ hc]
  | none =>
    rw [clusterOf_of_none _ hc]
    exact clusterAt?_modifyApplication_of_ne _ hne

/-- The records that marking changes are those of the application itself and of what joins its cluster. -/
theorem mem_joining_of_clusterAt?_ne {rule id' : Nat}
    (hne : (memo.markLeftRecursion rule id).clusterAt? id' ≠ memo.clusterAt? id') :
    id' = id ∨ id' ∈ memo.joining rule id := by
  by_contra hout
  obtain ⟨hid, hmember⟩ := not_or.1 hout
  rw [markLeftRecursion_eq_joinAll, clusterAt?_joinAll hmember, clusterAt?_clusterOf_of_ne rule hid] at hne
  exact hne rfl

/-- A rule that comes to be a member is that of the application that joins. -/
theorem involved_join {c' rule : Nat} {cluster' : Cluster}
    (hcluster' : (memo.join c id).clusters[c']? = some cluster') (hrule : rule ∈ cluster'.involved) :
    (∃ cluster, memo.clusters[c']? = some cluster ∧ rule ∈ cluster.involved) ∨
      ∃ start, memo.Shows ⟨id, rule, start⟩ := by
  cases ha : memo.application? id with
  | none =>
    rw [join, ha] at hcluster'
    exact .inl ⟨cluster', hcluster', hrule⟩
  | some a =>
    rw [join_of_record ha, clusters_modifyCluster] at hcluster'
    obtain ⟨cluster, hcluster, rfl⟩ := Option.map_eq_some_iff.1 hcluster'
    split at hrule
    · rcases mem_insertRule.1 hrule with rfl | hmember
      · exact .inr ⟨a.start, a, ha, rfl, rfl⟩
      · exact .inl ⟨cluster, hcluster, hmember⟩
    · exact .inl ⟨cluster, hcluster, hrule⟩

/-- A rule that comes to be a member is that of one of the applications that join. -/
theorem involved_joinAll {members : List Nat} {c' rule : Nat} {cluster' : Cluster}
    (hcluster' : (memo.joinAll c members).clusters[c']? = some cluster') (hrule : rule ∈ cluster'.involved) :
    (∃ cluster, memo.clusters[c']? = some cluster ∧ rule ∈ cluster.involved) ∨
      ∃ member ∈ members, ∃ start, memo.Shows ⟨member, rule, start⟩ := by
  induction members generalizing memo with
  | nil => exact .inl ⟨cluster', hcluster', hrule⟩
  | cons member rest ih =>
    rcases ih hcluster' with ⟨joined, hjoined, hmember⟩ | ⟨later, hlater, start, hshows⟩
    · rcases involved_join hjoined hmember with hbefore | hshows
      · exact .inl hbefore
      · exact .inr ⟨member, List.mem_cons_self, hshows⟩
    · exact .inr ⟨later, List.mem_cons_of_mem _ hlater, start, (shows_join memo c member _).1 hshows⟩

/-- A new cluster has no members. -/
theorem involved_clusterOf {rule c' member : Nat} {cluster' : Cluster}
    (hcluster' : (memo.clusterOf rule id).2.clusters[c']? = some cluster') (hmember : member ∈ cluster'.involved) :
    ∃ cluster, memo.clusters[c']? = some cluster ∧ member ∈ cluster.involved := by
  cases hc : (memo.application? id).bind (·.cluster) with
  | some cluster =>
    rw [clusterOf_of_some _ hc] at hcluster'
    exact ⟨cluster', hcluster', hmember⟩
  | none =>
    rw [Accounts.clusters_clusterOf (w := ⟨id, rule, 0⟩) hc] at hcluster'
    split at hcluster'
    · cases hcluster'
      exact absurd hmember List.not_mem_nil
    · exact ⟨cluster', hcluster', hmember⟩

/-- A rule that marking makes a member is that of an application that joins. -/
theorem involved_markLeftRecursion {rule c' member : Nat} {cluster' : Cluster}
    (hcluster' : (memo.markLeftRecursion rule id).clusters[c']? = some cluster')
    (hmember : member ∈ cluster'.involved) :
    (∃ cluster, memo.clusters[c']? = some cluster ∧ member ∈ cluster.involved) ∨
      ∃ id' ∈ memo.joining rule id, ∃ start, memo.Shows ⟨id', member, start⟩ := by
  rw [markLeftRecursion_eq_joinAll] at hcluster'
  rcases involved_joinAll hcluster' hmember with ⟨joined, hjoined, hmem⟩ | ⟨id', hid', start, hshows⟩
  · exact .inl (involved_clusterOf hjoined hmem)
  · exact .inr ⟨id', hid', start, (shows_clusterOf memo rule id _).1 hshows⟩

end Joining

/-- What is grown is grown at the places of the clusters, and their members have been applied there. -/
structure Placed (grown : List Growth) (memo : Memo) (place : Nat → Nat) : Prop where
  /-- An application that belongs to a cluster was made at the place of the cluster. -/
  joined : ∀ w c, memo.HasJoined w c → c < memo.clusters.size ∧ w.start = place c
  /-- A rule that a cluster lists was applied at the place of the cluster, by an application that has joined it,
  whether or not it has left it for another since. -/
  listed : ∀ (c : Nat) (cluster : Cluster), memo.clusters[c]? = some cluster → ∀ rule, cluster.Lists rule →
    ∃ id c', memo.HasJoined ⟨id, rule, place c⟩ c'
  /-- A cluster is grown at its place. -/
  grown : ∀ g ∈ grown, g.start = place g.cluster

namespace Placed

variable {grown : List Growth} {memo memo' : Memo} {place : Nat → Nat}

/-- Where there are no records and no clusters, nothing can be out of place. -/
theorem nil : ({} : Memo).Placed [] fun _ => 0 := by
  constructor <;> simp [HasJoined, Shows, application?]

/-- A rule that a cluster lists has been applied at the place of the cluster. -/
theorem hasApplied (h : memo.Placed grown place) {c rule : Nat} {cluster : Cluster}
    (hcluster : memo.clusters[c]? = some cluster) (hrule : cluster.Lists rule) :
    memo.HasApplied rule (place c) := by
  obtain ⟨id, c', hshows, -⟩ := h.listed c cluster hcluster rule hrule
  exact ⟨id, hshows⟩

/-- The members of the cluster of an application have been applied where the application was made. -/
theorem haveApplied_involved (h : memo.Placed grown place) {w : Waiting} {c : Nat} {cluster : Cluster}
    (hw : memo.HasJoined w c) (hcluster : memo.clusters[c]? = some cluster) :
    HaveApplied cluster.involved w.start memo := by
  intro rule hrule
  rw [(h.joined w c hw).2]
  exact h.hasApplied hcluster (.inl hrule)

/-- The members that are still to be applied again have been applied where the cluster is grown. -/
theorem haveApplied_pending (h : memo.Placed grown place) {g : Growth} (hg : g ∈ grown) {cluster : Cluster}
    (hcluster : memo.clusters[g.cluster]? = some cluster) : HaveApplied cluster.pending g.start memo := by
  intro rule hrule
  rw [h.grown g hg]
  exact h.hasApplied hcluster (.inr hrule)

/-- The same of those that the last round has not reached. -/
theorem haveApplied_stale (h : memo.Placed grown place) {g : Growth} (hg : g ∈ grown) :
    HaveApplied (memo.stale g.cluster) g.start memo := by
  unfold stale
  cases hcluster : memo.clusters[g.cluster]? with
  | none => exact fun _ hrule => absurd hrule List.not_mem_nil
  | some cluster => exact h.haveApplied_pending hg hcluster

/-- Only the clusters and the applications that belong to them matter. -/
theorem congr (h : memo.Placed grown place) (hclusters : memo'.clusters = memo.clusters)
    (hsame : ∀ w c, memo'.HasJoined w c ↔ memo.HasJoined w c) : memo'.Placed grown place where
  joined w c hw := by
    rw [hclusters]
    exact h.joined w c ((hsame w c).1 hw)
  listed c cluster hcluster rule hrule := by
    obtain ⟨id, c', hjoined⟩ := h.listed c cluster (hclusters ▸ hcluster) rule hrule
    exact ⟨id, c', (hsame _ c').2 hjoined⟩
  grown := h.grown

/-- A step that leaves records and clusters alone. -/
theorem of_eq (h : memo.Placed grown place) (ha : memo'.applications = memo.applications)
    (hclusters : memo'.clusters = memo.clusters) : memo'.Placed grown place :=
  h.congr hclusters fun w _ => hasJoined_congr (by rw [application?, application?, ha])

/-- A cluster may be changed if no further rule comes to be listed. -/
theorem modifyCluster (h : memo.Placed grown place) (c : Nat) {f : Cluster → Cluster}
    (hf : ∀ cluster rule, (f cluster).Lists rule → cluster.Lists rule) :
    (memo.modifyCluster c f).Placed grown place where
  joined w c' hw := by
    rw [Memo.modifyCluster, Array.size_modify]
    exact h.joined w c' hw
  listed c' cluster' hcluster' rule hrule := by
    rw [clusters_modifyCluster] at hcluster'
    obtain ⟨cluster, hcluster, rfl⟩ := Option.map_eq_some_iff.1 hcluster'
    refine h.listed c' cluster hcluster rule ?_
    split at hrule
    · exact hf cluster rule hrule
    · exact hrule
  grown := h.grown

/-- Forgetting entries leaves clusters at their places. -/
theorem forget (h : memo.Placed grown place) (rules : List Nat) (start : Nat) :
    (memo.forget rules start).Placed grown place :=
  h.of_eq (applications_forget ..) (clusters_forget ..)

/-- A new round lists only members that were listed before. -/
theorem refill (h : memo.Placed grown place) (c : Nat) : (memo.refill c).Placed grown place :=
  h.modifyCluster c fun _ _ hrule => .inl (or_self_iff.1 hrule)

/-- To apply a member again only takes it off the list of those that are due. -/
theorem redo (h : memo.Placed grown place) (c rule : Nat) : (memo.redo c rule).Placed grown place :=
  h.modifyCluster c fun _ _ => Or.imp_right List.mem_of_mem_erase

/-- An application that is entered belongs to no cluster yet. -/
theorem enter (h : memo.Placed grown place) (rule start : Nat) (seed : Except Cause Tree) :
    (memo.enter rule start seed).Placed grown place := h.congr rfl (hasJoined_enter memo rule start seed)

/-- An application that belongs to no cluster may be left. -/
theorem leave (h : memo.Placed grown place) {id : Nat} (hnone : memo.clusterAt? id = none) (rule start : Nat)
    (result : Except Cause Tree) (stop : Nat) : (memo.leave id rule start result stop).Placed grown place :=
  h.congr (clusters_release (memo.pop id) id) (hasJoined_leave hnone rule start result stop)

/-- An application may be left with its seed, in its cluster. -/
theorem leaveSeeded (h : memo.Placed grown place) (id rule start : Nat) (seed : Except Cause Tree) (stop : Nat) :
    (memo.leaveSeeded id rule start seed stop).Placed grown place :=
  h.congr rfl (hasJoined_leaveSeeded memo id rule start seed stop)

/-- A cluster whose head has failed lists fewer rules than before. -/
theorem failHead (h : memo.Placed grown place) (rule start stop c : Nat) (involved : List Nat) (cause : Cause) :
    (memo.failHead rule start stop c involved cause).Placed grown place := by
  have hremembered : (memo.remember rule start (.done (.error cause)) stop).Placed grown place := h.of_eq rfl rfl
  have hcleared := hremembered.modifyCluster c (f := fun cluster => { cluster with involved := [] })
    fun _ _ hrule => .inr (hrule.resolve_left List.not_mem_nil)
  unfold Memo.failHead
  dsimp only
  split
  · exact hcleared
  · exact hcleared.forget ..

/-- A cluster may be grown where an application that belongs to it was made. -/
theorem startGrowth (h : memo.Placed grown place) {w : Waiting} {c : Nat} (hw : memo.HasJoined w c) :
    (memo.startGrowth w.start c).Placed (⟨c, w.rule, w.start⟩ :: grown) place := by
  have hregistered : ({ memo with growing := memo.growing.insert w.start c } : Memo).Placed grown place :=
    h.of_eq rfl rfl
  obtain ⟨hjoined, hlisted, hgrown⟩ := hregistered.refill c
  exact ⟨hjoined, hlisted, List.forall_mem_cons.2 ⟨(h.joined w c hw).2, hgrown⟩⟩

/-- When the rounds are over, nothing is due, and one growth less goes on. -/
theorem endGrowth {g : Growth} (h : memo.Placed (g :: grown) place) (start c : Nat) (outer : Option Nat) :
    (memo.endGrowth start c outer).Placed grown place := by
  have hinner : memo.Placed grown place := ⟨h.joined, h.listed, (List.forall_mem_cons.1 h.grown).2⟩
  have hcleared : (memo.clearDue c).Placed grown place :=
    hinner.modifyCluster c fun _ _ hrule => .inl (hrule.resolve_right List.not_mem_nil)
  cases outer with
  | some id => exact hcleared.of_eq rfl rfl
  | none =>
    apply Placed.forget
    exact hcleared.of_eq rfl rfl

end Placed

end Memo

section Marking

variable {rules : Nat} {text : Text} {u : Underway} {memo : Memo} {place : Nat → Nat}

/-- Every application that waits has a record. -/
theorem Accounts.shows (h : Accounts rules text u memo) {w : Waiting} (hw : w ∈ u.path) : memo.Shows w :=
  h.record hw

/-- A new cluster has its place where its head waits. -/
theorem Memo.Placed.found (h : memo.Placed u.grown place) (ha : Accounts rules text u memo) {w : Waiting}
    (hw : w ∈ u.path) (hnone : memo.clusterAt? w.id = none) :
    (memo.clusterOf w.rule w.id).2.Placed u.grown (Function.update place memo.clusters.size w.start) := by
  have hat := ha.clusterAt?_clusterOf hw hnone
  have hfind := Accounts.clusters_clusterOf hnone
  have hshows := memo.shows_clusterOf w.rule w.id
  have hsize : (memo.clusterOf w.rule w.id).2.clusters.size = memo.clusters.size + 1 := by
    rw [Memo.clusterOf_of_none _ hnone]
    exact Array.size_push _
  have hold {c : Nat} (hc : c < memo.clusters.size) :
      Function.update place memo.clusters.size w.start c = place c := Function.update_of_ne (Nat.ne_of_lt hc) ..
  constructor
  · rintro w' c ⟨hw', hc⟩
    rw [hshows] at hw'
    rw [hsize]
    rw [hat] at hc
    split at hc
    · rename_i hid
      cases hc
      exact ⟨Nat.lt_succ_self _, by rw [Function.update_self, (hw'.spot_eq (ha.shows hw) hid).2]⟩
    · obtain ⟨hlt, hstart⟩ := h.joined w' c ⟨hw', hc⟩
      exact ⟨Nat.lt_succ_of_lt hlt, by rw [hold hlt, hstart]⟩
  · intro c cluster hcluster rule hrule
    rw [hfind] at hcluster
    split at hcluster
    · cases hcluster
      exact absurd (or_self_iff.1 hrule) List.not_mem_nil
    · obtain ⟨id, c', hjoined⟩ := h.listed c cluster hcluster rule hrule
      rw [hold (Array.getElem?_eq_some_iff.1 hcluster).1]
      exact ⟨id, hjoined.exists_of_clusterAt? (hshows _) (hat id)⟩
  · intro g hg
    obtain ⟨-, cluster, hcluster⟩ := ha.grown g hg
    rw [hold (Array.getElem?_eq_some_iff.1 hcluster).1]
    exact h.grown g hg

/-- An application may join a cluster that one below it at the same offset belongs to. -/
theorem Memo.Placed.join (h : memo.Placed u.grown place) (ha : Accounts rules text u memo) {m : Waiting} {c : Nat}
    (hj : Accounts.CanJoin u memo m c) : (memo.join c m.id).Placed u.grown place := by
  have hat := ha.clusterAt?_join hj.mem c
  have hshows := memo.shows_join c m.id
  obtain ⟨f, hf, -, hstart, hfc⟩ := hj.below
  obtain ⟨hlt, hplace⟩ := h.joined f c ⟨ha.shows hf, hfc⟩
  have hmplace : m.start = place c := hstart.symm.trans hplace
  have hsize : (memo.join c m.id).clusters.size = memo.clusters.size := by
    obtain ⟨a, hrecord, -⟩ := ha.record hj.mem
    rw [Memo.join_of_record hrecord]
    exact Array.size_modify
  constructor
  · rintro w c' ⟨hw, hc'⟩
    rw [hshows] at hw
    rw [hsize]
    rw [hat] at hc'
    split at hc'
    · rename_i hid
      cases hc'
      exact ⟨hlt, (hw.spot_eq (ha.shows hj.mem) hid).2.trans hmplace⟩
    · exact h.joined w c' ⟨hw, hc'⟩
  · intro c' cluster' hcluster' rule hrule
    rw [ha.clusters_join hj.mem] at hcluster'
    obtain ⟨cluster, hcluster, rfl⟩ := Option.map_eq_some_iff.1 hcluster'
    have hold (hlists : cluster.Lists rule) :
        ∃ id c'', (memo.join c m.id).HasJoined ⟨id, rule, place c'⟩ c'' := by
      obtain ⟨id, c'', hjoined⟩ := h.listed c' cluster hcluster rule hlists
      exact ⟨id, hjoined.exists_of_clusterAt? (hshows _) (hat id)⟩
    split at hrule
    · rename_i hsame
      subst hsame
      rcases hrule with hinvolved | hpending
      · rcases mem_insertRule.1 hinvolved with rfl | hmember
        · refine ⟨m.id, c', ?_, by rw [hat, if_pos rfl]⟩
          rw [hshows, ← hmplace]
          exact ha.shows hj.mem
        · exact hold (.inl hmember)
      · exact hold (.inr hpending)
    · exact hold hrule
  · exact h.grown

/-- Marking a left recursion at the cursor leaves all clusters at their places and may find a new one. -/
theorem Memo.Placed.markLeftRecursion (h : memo.Placed u.grown place) (ha : Accounts rules text u memo) {pos : Nat}
    (ho : u.Orderly rules pos) {w : Waiting} (hw : w ∈ u.path) (hstart : w.start = pos) :
    ∃ place', (memo.markLeftRecursion w.rule w.id).Placed u.grown place' :=
  (ha.marked ho hw hstart (motive := fun memo => ∃ place, memo.Placed u.grown place) ⟨place, h⟩
    (fun hnone => ⟨_, h.found ha hw hnone⟩) fun ha' hj _ ⟨place', h'⟩ => ⟨place', h'.join ha' hj⟩).2

end Marking

/-- The regime under which clusters keep to their places. -/
def Regime.placing (table : RuleTable) (text : Text) : Regime table text where
  lenient := (· = .spent)
  slices := False
  Holds u memo := ∃ place, memo.Placed u.grown place
  Leads _ _ _ := True
  May _ _ _ _ := True
  Matches _ _ _ _ _ _ _ := True
  Answers _ _ _ _ _ _ _ := True
  Grows _ _ _ _ _ _ _ _ := True
  refl _ _ := trivial
  trans _ _ := trivial

/-- Every match goes on under the regime that keeps clusters at their places. -/
theorem Regime.lawful_placing (table : RuleTable) (text : Text) : (Regime.placing table text).Lawful where
  count := by
    rintro u memo n ⟨place, h⟩
    exact ⟨⟨place, h.of_eq rfl rfl⟩, trivial⟩
  may_count _ _ := trivial
  answers_count _ _ := trivial
  hit _ _ _ := trivial
  refused _ _ _ := trivial
  recurs := by
    rintro u rule start memo w a h hw rfl hstart -
    obtain ⟨place, hplaced⟩ := h.fits.holds
    exact ⟨hplaced.markLeftRecursion h.fits.accounts h.orderly hw hstart, trivial, trivial⟩
  redo := by
    rintro u rule start c cluster memo h
    obtain ⟨place, hplaced⟩ := h.fits.holds
    exact ⟨place, hplaced.redo c rule⟩
  redone := by
    rintro u rule start c cluster memo result stop memo' - - - hgoes -
    obtain ⟨place, hplaced⟩ := hgoes.fits.holds
    exact ⟨⟨place, hplaced.of_eq rfl rfl⟩, trivial, trivial⟩
  enter := by
    rintro u start memo r h
    obtain ⟨place, hplaced⟩ := h.fits.holds
    exact ⟨place, hplaced.enter ..⟩
  left := by
    rintro u rule start memo cause result stop memo' h hnone
    obtain ⟨place, hplaced⟩ := h.goes.fits.holds
    exact ⟨⟨place, hplaced.leave hnone ..⟩, trivial, trivial⟩
  member := by
    rintro u rule start memo cause result stop memo' c found h - - -
    obtain ⟨place, hplaced⟩ := h.goes.fits.holds
    exact ⟨⟨place, hplaced.leaveSeeded ..⟩, trivial, trivial⟩
  failed := by
    rintro u rule start memo cause cause' stop memo' c found h - - -
    obtain ⟨place, hplaced⟩ := h.goes.fits.holds
    exact ⟨⟨place, (hplaced.leaveSeeded ..).failHead ..⟩, trivial, trivial⟩
  grow := by
    rintro u rule start memo cause tree stop memo' c found h hc - - grown rfl
    obtain ⟨place, hplaced⟩ := h.goes.fits.holds
    let head : Waiting := ⟨memo.applications.size, rule, start⟩
    have hhead : (memo'.leaveHead head.id rule start tree stop).HasJoined head c :=
      (Memo.hasJoined_leaveSeeded memo' head.id rule start (.ok tree) stop head c).2
        ⟨h.goes.fits.accounts.shows List.mem_cons_self, hc⟩
    have hleft : (memo'.leaveHead head.id rule start tree stop).Placed u.grown place :=
      (hplaced.leaveSeeded head.id rule start (.ok tree) stop).of_eq rfl rfl
    exact ⟨⟨place, hleft.startGrowth hhead⟩, trivial⟩
  grew := by
    rintro u rule start c memo best stop before tree reached after h - refilled rfl
    obtain ⟨place, hplaced⟩ := h.goes.fits.holds
    have hlonger : (after.longer rule start tree reached).Placed (u.grow c rule start).grown place :=
      hplaced.of_eq rfl rfl
    exact ⟨⟨place, hlonger.refill c⟩, trivial, trivial⟩
  settled := by
    rintro u rule start c memo best stop before result reached after h -
    obtain ⟨place, hplaced⟩ := h.goes.fits.holds
    exact ⟨⟨place, hplaced.endGrowth ..⟩, trivial, trivial⟩

end Packrat
