import Packrat.Proofs.Regime

/-!
# Answers that are settled

What is remembered for a rule at an offset is given up only by what is under way there: the members of a
cluster are applied again or forgotten, and the head of a cluster that is grown gets longer matches. An
answer is settled if its rule is neither. Settled answers stay whatever is matched, and where nothing is
under way at an offset, the answer that a rule gives there is remembered and settled from then on.

While a cluster is grown, its head is not settled, but within a single round its match stays too. This is
said by pinning the head: the spot of a pinned rule counts as settled although it is being grown.
-/

namespace Packrat

open Matcher Course

/-- Nothing is under way at the offset. -/
structure Underway.Quiet (u : Underway) (start : Nat) : Prop where
  path : ∀ w ∈ u.path, w.start ≠ start
  grown : ∀ g ∈ u.grown, g.start ≠ start

namespace Memo

variable {pin : Option Spot} {u u' : Underway} {memo memo' : Memo} {rule start c id : Nat}
  {answer : Except Cause Tree} {stop : Nat}

/-- The rule is one of the members of the cluster that are not its head. -/
def Member (memo : Memo) (c rule : Nat) : Prop :=
  ∃ cluster, memo.clusters[c]? = some cluster ∧ rule ∈ cluster.involved

/-- What is remembered for the rule at the offset may be given up: a cluster that is under way there has
it for a member or, unless it is pinned, is grown with it at its head. -/
def Unsettled (pin : Option Spot) (u : Underway) (memo : Memo) (rule start : Nat) : Prop :=
  (∃ w ∈ u.path, w.start = start ∧ ∃ c, memo.clusterAt? w.id = some c ∧ memo.Member c rule) ∨
    ∃ g ∈ u.grown, g.start = start ∧
      (memo.Member g.cluster rule ∨ g.head = rule ∧ pin ≠ some ⟨start, rule⟩)

/-- The answer is remembered for the rule at the offset and will not be given up. -/
structure Settled (pin : Option Spot) (u : Underway) (memo : Memo) (rule start : Nat)
    (answer : Except Cause Tree) (stop : Nat) : Prop where
  known : memo.find? rule start = some ⟨.done answer, stop⟩
  still : ¬ memo.Unsettled pin u rule start

/-- What is settled in the first memo is so in the second. -/
def Persists (pin : Option Spot) (u : Underway) (memo : Memo) (u' : Underway) (memo' : Memo) : Prop :=
  ∀ rule start answer stop, memo.Settled pin u rule start answer stop →
    memo'.Settled pin u' rule start answer stop

/-- The head of a cluster is none of its other members. A cluster that is grown has the head that it is
grown for, and none but its members are due again. -/
structure Composed (u : Underway) (memo : Memo) : Prop where
  apart : ∀ (c : Nat) (cluster : Cluster), memo.clusters[c]? = some cluster →
    cluster.head ∉ cluster.involved
  grown : ∀ g ∈ u.grown, ∀ cluster, memo.clusters[g.cluster]? = some cluster →
    cluster.head = g.head ∧ ∀ rule ∈ cluster.pending, rule ∈ cluster.involved

/-- Members are what a cluster lists, if clusters stay. -/
theorem member_congr (hclusters : memo'.clusters = memo.clusters) :
    memo'.Member c rule ↔ memo.Member c rule := by
  rw [Member, Member, hclusters]

/-- A cluster that is changed has no members that it did not have before. -/
theorem member_of_modifyCluster {c' : Nat} {f : Cluster → Cluster}
    (hf : ∀ cluster, ∀ rule ∈ (f cluster).involved, rule ∈ cluster.involved)
    (h : (memo.modifyCluster c f).Member c' rule) : memo.Member c' rule := by
  obtain ⟨cluster', hcluster', hmem⟩ := h
  rw [clusters_modifyCluster] at hcluster'
  obtain ⟨cluster, hcluster, rfl⟩ := Option.map_eq_some_iff.1 hcluster'
  split at hmem
  · exact ⟨cluster, hcluster, hf cluster rule hmem⟩
  · exact ⟨cluster, hcluster, hmem⟩

/-- A step keeps an answer settled if it leaves the entry alone and nothing comes to be under way that
could have it given up. -/
theorem Settled.pass (h : memo.Settled pin u rule start answer stop)
    (hfind : memo'.find? rule start = memo.find? rule start)
    (hpath : ∀ w ∈ u'.path, ∀ c, memo'.clusterAt? w.id = some c →
      w ∈ u.path ∧ memo.clusterAt? w.id = some c)
    (hgrown : ∀ g ∈ u'.grown, g ∈ u.grown) (hmember : ∀ c, memo'.Member c rule → memo.Member c rule) :
    memo'.Settled pin u' rule start answer stop := by
  refine ⟨hfind.trans h.known, fun hunsettled => h.still ?_⟩
  rcases hunsettled with ⟨w, hw, hstart, c, hc, hmem⟩ | ⟨g, hg, hstart, hhow⟩
  · obtain ⟨hw', hc'⟩ := hpath w hw c hc
    exact .inl ⟨w, hw', hstart, c, hc', hmember c hmem⟩
  · exact .inr ⟨g, hgrown g hg, hstart, hhow.imp_left (hmember _)⟩

/-- Other answers may be dropped. -/
theorem Settled.forget (h : memo.Settled pin u rule start answer stop) {dropped : List Nat} {start' : Nat}
    (hkept : ¬ (rule ∈ dropped ∧ start = start')) :
    (memo.forget dropped start').Settled pin u rule start answer stop := by
  refine h.pass ?_ (fun w hw c hc => ⟨hw, ?_⟩) (fun g hg => hg) fun c hm => ?_
  · rw [find?_forget, if_neg hkept]
  · rwa [clusterAt?, application?, applications_forget] at hc
  · exact (member_congr (clusters_forget ..)).1 hm

/-- Where nothing is under way, every answer that is remembered is settled. -/
theorem settled_of_quiet (hquiet : u.Quiet start)
    (hfind : memo.find? rule start = some ⟨.done answer, stop⟩) :
    memo.Settled pin u rule start answer stop := by
  refine ⟨hfind, fun hunsettled => ?_⟩
  rcases hunsettled with ⟨w, hw, hstart, -⟩ | ⟨g, hg, hstart, -⟩
  · exact hquiet.path w hw hstart
  · exact hquiet.grown g hg hstart

/-- No rule that waits at an offset has a settled answer there. -/
theorem Settled.spot_ne (h : memo.Settled pin u rule start answer stop) {rules : Nat} {text : Text}
    (ha : Accounts rules text u' memo) {w : Waiting} (hw : w ∈ u'.path) :
    ¬ (rule = w.rule ∧ start = w.start) := by
  rintro ⟨rfl, rfl⟩
  have hknown := h.known
  rw [ha.waits w hw] at hknown
  cases hknown

namespace Persists

/-- What is settled is settled. -/
theorem refl (pin : Option Spot) (u : Underway) (memo : Memo) : Persists pin u memo u memo :=
  fun _ _ _ _ hs => hs

/-- What is settled stays so step by step. -/
theorem trans {u'' : Underway} {memo'' : Memo} (h : Persists pin u memo u' memo')
    (h' : Persists pin u' memo' u'' memo'') : Persists pin u memo u'' memo'' :=
  fun _ _ _ _ hs => h' _ _ _ _ (h _ _ _ _ hs)

/-- A step that leaves entries, records and the members of clusters alone. -/
theorem of_eq (hentries : memo'.entries = memo.entries)
    (happlications : memo'.applications = memo.applications) (hpath : u'.path = u.path)
    (hgrown : u'.grown = u.grown) (hmember : ∀ c rule, memo'.Member c rule → memo.Member c rule) :
    Persists pin u memo u' memo' := by
  intro rule start answer stop h
  refine h.pass (by rw [find?, find?, hentries]) (fun w hw c hc => ⟨hpath ▸ hw, ?_⟩) (fun g hg => ?_)
    fun c => hmember c rule
  · rwa [clusterAt?, application?, happlications] at hc
  · exact hgrown ▸ hg

/-- Answers stay settled where a cluster gains no members. -/
theorem modifyCluster {f : Cluster → Cluster}
    (hf : ∀ cluster, ∀ rule ∈ (f cluster).involved, rule ∈ cluster.involved) :
    Persists pin u memo u (memo.modifyCluster c f) :=
  of_eq rfl rfl rfl rfl fun _ _ => member_of_modifyCluster hf

/-- An entry may be overwritten that is not settled. -/
theorem remember {answer' : Answer} {stop' : Nat}
    (hspot : ∀ answer stop, ¬ memo.Settled pin u rule start answer stop) :
    Persists pin u memo u (memo.remember rule start answer' stop') := by
  intro rule' start' answer stop h
  have hne : ¬ (rule' = rule ∧ start' = start) := by
    rintro ⟨rfl, rfl⟩
    exact hspot answer stop h
  exact h.pass (find?_remember_of_ne _ _ _ hne) (fun w hw c hc => ⟨hw, hc⟩) (fun g hg => hg) fun c hm => hm

/-- A member of a cluster may be taken from those to be applied again. -/
theorem redo : Persists pin u memo (u.redo rule start) (memo.redo c rule) :=
  of_eq rfl rfl rfl rfl fun _ _ => member_of_modifyCluster fun _ _ hm => hm

/-- What a member has come to that was applied again may be remembered. -/
theorem redone {answer' : Answer} {stop' : Nat} (hunsettled : memo.Unsettled pin u rule start) :
    Persists pin (u.redo rule start) memo u (memo.remember rule start answer' stop') := by
  have hback : Persists pin (u.redo rule start) memo u memo := of_eq rfl rfl rfl rfl fun _ _ hm => hm
  exact hback.trans (remember fun _ _ h => h.still hunsettled)

/-- A rule may be entered about which nothing is known. -/
theorem enter {seed : Except Cause Tree} (hopen : memo.Open rule start) :
    Persists pin u memo (u.enter memo.applications.size rule start) (memo.enter rule start seed) := by
  intro rule' start' answer stop h
  have hne : ¬ (rule' = rule ∧ start' = start) := by
    rintro ⟨rfl, rfl⟩
    obtain ⟨id, stop', heq, -⟩ := hopen _ h.known
    cases heq
  refine h.pass (find?_remember_of_ne _ _ _ hne) (fun w hw c hc => ?_) (fun g hg => hg) fun c hm => hm
  rw [clusterAt?_enter] at hc
  rcases List.mem_cons.1 hw with rfl | hw
  · simp [clusterAt?, application?] at hc
  · exact ⟨hw, hc⟩

section Leaving

variable {rules : Nat} {text : Text}

/-- The application on top may be taken off the call path, and anything be remembered for its rule, as long
as the other records stay. -/
theorem leaving (ha : Accounts rules text (u.enter id rule start) memo)
    (hfind : ∀ rule' start', ¬ (rule' = rule ∧ start' = start) →
      memo'.find? rule' start' = memo.find? rule' start')
    (hat : ∀ w ∈ u.path, memo'.clusterAt? w.id = memo.clusterAt? w.id)
    (hmember : ∀ c rule, memo'.Member c rule → memo.Member c rule) :
    Persists pin (u.enter id rule start) memo u memo' := by
  intro rule' start' answer stop h
  refine h.pass (hfind _ _ (h.spot_ne ha List.mem_cons_self)) (fun w hw c hc => ?_) (fun g hg => hg)
    fun c => hmember c rule'
  exact ⟨List.mem_cons_of_mem _ hw, hat w hw ▸ hc⟩

/-- Answers stay settled when a rule is left: that of the rule itself was none. -/
theorem leave (ha : Accounts rules text (u.enter id rule start) memo) (result : Except Cause Tree)
    (stop : Nat) : Persists pin (u.enter id rule start) memo u (memo.leave id rule start result stop) := by
  refine leaving ha (fun rule' start' hne => ?_) (fun w hw => ?_) fun c rule' hm => ?_
  · rw [Memo.leave, find?_remember_of_ne _ _ _ hne, find?_release]
    rfl
  · have happlication : (memo.leave id rule start result stop).applications[w.id]?
        = memo.applications[w.id]? :=
      applications_release _ (Nat.ne_of_lt (ha.lt_of_enter hw))
    rw [clusterAt?, application?, happlication]
    rfl
  · have hclusters : (memo.leave id rule start result stop).clusters = memo.clusters :=
      clusters_release ..
    exact (member_congr hclusters).1 hm

/-- Answers stay settled when a rule is left with its seed, in progress as before. -/
theorem leaveSeeded (ha : Accounts rules text (u.enter id rule start) memo) (result : Except Cause Tree)
    (stop : Nat) :
    Persists pin (u.enter id rule start) memo u (memo.leaveSeeded id rule start result stop) :=
  leaving ha (fun _ _ hne => find?_remember_of_ne _ _ _ hne)
    (fun w _ => clusterAt?_seed memo id result w.id) fun _ _ hm => hm

/-- A head that has failed has its members forgotten. -/
theorem failHead (ha : Accounts rules text (u.enter id rule start) memo) {found : Cluster}
    (hc : memo.clusterAt? id = some c) (hfound : memo.clusters[c]? = some found) (cause : Cause)
    (stop : Nat) : Persists pin (u.enter id rule start) memo u
      ((memo.leaveSeeded id rule start (.error cause) stop).failHead rule start stop c found.involved
        cause) := by
  intro rule' start' answer stop' h
  have hne := h.spot_ne ha List.mem_cons_self
  have hkept : ¬ (rule' ∈ found.involved ∧ start' = start) := by
    rintro ⟨hmem, rfl⟩
    exact h.still (.inl ⟨_, List.mem_cons_self, rfl, c, hc, found, hfound, hmem⟩)
  have hfailed : ((memo.leaveSeeded id rule start (.error cause) stop).remember rule start
      (.done (.error cause)) stop).Settled pin u rule' start' answer stop' := by
    refine (leaveSeeded ha (.error cause) stop _ _ _ _ h).pass (find?_remember_of_ne _ _ _ hne)
      (fun w hw c hc => ⟨hw, hc⟩) (fun g hg => hg) fun c hm => hm
  have hcleared := modifyCluster (c := c) (f := fun cluster => { cluster with involved := [] })
    (fun _ _ hmem => absurd hmem List.not_mem_nil) _ _ _ _ hfailed
  unfold Memo.failHead
  dsimp only
  split
  · exact hcleared
  · exact hcleared.forget fun hdropped => hkept ⟨(List.mem_filter.1 hdropped.1).1, hdropped.2⟩

/-- A head that has matched is going to be grown. -/
theorem grow (ha : Accounts rules text (u.enter id rule start) memo) (hc : memo.clusterAt? id = some c)
    (tree : Tree) (stop : Nat) : Persists pin (u.enter id rule start) memo (u.grow c rule start)
      ((memo.leaveHead id rule start tree stop).startGrowth start c) := by
  intro rule' start' answer stop' h
  have hne := h.spot_ne ha List.mem_cons_self
  have hleft := leaveSeeded ha (.ok tree) stop _ _ _ _ h
  have hmember (c' : Nat)
      (hm : ((memo.leaveHead id rule start tree stop).startGrowth start c).Member c' rule') :
      memo.Member c' rule' :=
    member_of_modifyCluster (f := fun cluster => { cluster with pending := cluster.involved })
      (fun _ _ hmem => hmem) hm
  refine ⟨?_, fun hunsettled => ?_⟩
  · change (memo.leaveHead id rule start tree stop).find? rule' start' = _
    rw [leaveHead, find?_remember_of_ne _ _ _ hne]
    exact hleft.known
  · rcases hunsettled with ⟨w, hw, hstart, c', hc', hm⟩ | ⟨g, hg, hstart, hhow⟩
    · exact hleft.still (.inl ⟨w, hw, hstart, c', hc', hmember c' hm⟩)
    · rcases List.mem_cons.1 hg with rfl | hg
      · rcases hhow with hm | ⟨hhead, -⟩
        · exact h.still (.inl ⟨_, List.mem_cons_self, hstart, c, hc, hmember c hm⟩)
        · exact hne ⟨hhead.symm, hstart.symm⟩
      · exact hleft.still (.inr ⟨g, hg, hstart, hhow.imp_left (hmember _)⟩)

end Leaving

/-- The head that is grown may get a longer match, unless it is pinned, and be grown on. -/
theorem grew (hpin : pin ≠ some ⟨start, rule⟩) (tree : Tree) (reached : Nat) :
    Persists pin (u.grow c rule start) memo (u.grow c rule start)
      ((memo.longer rule start tree reached).refill c) := by
  have hcounted : Persists pin (u.grow c rule start) memo (u.grow c rule start) memo.countGrowth :=
    .of_eq rfl rfl rfl rfl fun _ _ hm => hm
  have hlonger : Persists pin (u.grow c rule start) memo.countGrowth (u.grow c rule start)
      (memo.longer rule start tree reached) :=
    remember fun _ _ h => h.still
      (.inr ⟨⟨c, rule, start⟩, List.mem_cons_self, rfl, .inr ⟨rfl, hpin⟩⟩)
  exact (hcounted.trans hlonger).trans (modifyCluster fun _ _ hm => hm)

/-- After the last round no other members are forgotten than such as are due. -/
theorem endGrowth (hcomposed : memo.Composed (u.grow c rule start)) (outer : Option Nat) :
    Persists pin (u.grow c rule start) memo u (memo.endGrowth start c outer) := by
  intro rule' start' answer stop h
  have hcleared : (memo.clearDue c).Settled pin u rule' start' answer stop := by
    refine (modifyCluster (c := c) (f := fun cluster => { cluster with pending := [] })
      (fun _ _ hmem => hmem) _ _ _ _ h).pass rfl (fun w hw c hc => ⟨hw, hc⟩)
      (fun g hg => List.mem_cons_of_mem _ hg) fun c hm => hm
  cases outer with
  | some id => exact hcleared.pass rfl (fun w hw c hc => ⟨hw, hc⟩) (fun g hg => hg) fun c hm => hm
  | none =>
    have hkept : ¬ (rule' ∈ memo.stale c ∧ start' = start) := by
      rintro ⟨hmem, rfl⟩
      rw [stale] at hmem
      cases hcluster : memo.clusters[c]? with
      | none => simp [hcluster] at hmem
      | some cluster =>
        obtain ⟨-, hdue⟩ := hcomposed.grown _ List.mem_cons_self cluster hcluster
        have hin : rule' ∈ cluster.involved := hdue rule' (by simpa [hcluster] using hmem)
        exact h.still (.inr ⟨_, List.mem_cons_self, rfl, .inl ⟨cluster, hcluster, hin⟩⟩)
    have hclosed : ({ memo.clearDue c with growing := memo.growing.erase start } : Memo).Settled pin u rule'
        start' answer stop :=
      hcleared.pass rfl (fun w hw c hc => ⟨hw, hc⟩) (fun g hg => hg) fun c hm => hm
    exact hclosed.forget fun hdropped => hkept ⟨(List.mem_filter.1 hdropped.1).1, hdropped.2⟩

end Persists

namespace Composed

/-- Nothing but the clusters and which of them are grown matters. -/
theorem congr (h : memo.Composed u) (hclusters : memo'.clusters = memo.clusters)
    (hgrown : ∀ g ∈ u'.grown, g ∈ u.grown) : memo'.Composed u' where
  apart c cluster hcluster := h.apart c cluster (hclusters ▸ hcluster)
  grown g hg cluster hcluster := h.grown g (hgrown g hg) cluster (hclusters ▸ hcluster)

/-- A cluster may be changed if it keeps its head and gains no members, and if none but members are due
afterwards. -/
theorem modifyCluster (h : memo.Composed u) {f : Cluster → Cluster}
    (hhead : ∀ cluster, (f cluster).head = cluster.head)
    (hinvolved : ∀ cluster, ∀ rule ∈ (f cluster).involved, rule ∈ cluster.involved)
    (hpending : ∀ g ∈ u.grown, g.cluster = c → ∀ cluster,
      (∀ rule ∈ cluster.pending, rule ∈ cluster.involved) →
        ∀ rule ∈ (f cluster).pending, rule ∈ (f cluster).involved) :
    (memo.modifyCluster c f).Composed u where
  apart c' cluster' hcluster' := by
    rw [clusters_modifyCluster] at hcluster'
    obtain ⟨cluster, hcluster, rfl⟩ := Option.map_eq_some_iff.1 hcluster'
    have hapart := h.apart c' cluster hcluster
    split
    · rw [hhead]
      exact fun hmem => hapart (hinvolved cluster _ hmem)
    · exact hapart
  grown g hg cluster' hcluster' := by
    rw [clusters_modifyCluster] at hcluster'
    obtain ⟨cluster, hcluster, rfl⟩ := Option.map_eq_some_iff.1 hcluster'
    obtain ⟨hgrown, hdue⟩ := h.grown g hg cluster hcluster
    split
    · rename_i hc
      exact ⟨(hhead cluster).trans hgrown, hpending g hg hc cluster hdue⟩
    · exact ⟨hgrown, hdue⟩

/-- To apply a member again only takes it off the list of those that are due. -/
theorem redo (h : memo.Composed u) (c rule : Nat) : (memo.redo c rule).Composed u :=
  h.modifyCluster (fun _ => rfl) (fun _ _ hmem => hmem) fun _ _ _ _ hdue _ hmem =>
    hdue _ (List.mem_of_mem_erase hmem)

/-- At the start of a round just the members are due. -/
theorem refill (h : memo.Composed u) (c : Nat) : (memo.refill c).Composed u :=
  h.modifyCluster (fun _ => rfl) (fun _ _ hmem => hmem) fun _ _ _ _ _ _ hmem => hmem

/-- A cluster may be grown with its head. -/
theorem grow (h : memo.Composed u) {found : Cluster} (hfound : memo.clusters[c]? = some found)
    (hhead : found.head = rule) : (memo.startGrowth start c).Composed (u.grow c rule start) := by
  have hrefilled := h.refill c
  refine ⟨hrefilled.apart, fun g hg cluster hcluster => ?_⟩
  rcases List.mem_cons.1 hg with rfl | hg
  · have hnow : (memo.refill c).clusters[c]? = some { found with pending := found.involved } := by
      rw [Memo.refill, clusters_modifyCluster, hfound, Option.map_some, if_pos rfl]
    have heq : some { found with pending := found.involved } = some cluster := hnow.symm.trans hcluster
    cases heq
    exact ⟨hhead, fun _ hmem => hmem⟩
  · exact hrefilled.grown g hg cluster hcluster

/-- When the rounds are over, nothing is due. -/
theorem endGrowth (h : memo.Composed (u.grow c rule start)) (outer : Option Nat) :
    (memo.endGrowth start c outer).Composed u := by
  have hcleared : (memo.clearDue c).Composed u :=
    (h.modifyCluster (c := c) (f := fun cluster => { cluster with pending := [] }) (fun _ => rfl)
      (fun _ _ hmem => hmem) fun _ _ _ _ _ _ hmem => absurd hmem List.not_mem_nil).congr rfl
        fun g hg => List.mem_cons_of_mem _ hg
  cases outer with
  | some id => exact hcleared.congr rfl fun g hg => hg
  | none => exact hcleared.congr (clusters_forget ..) fun g hg => hg

/-- A cluster whose head has failed has no members, and was not being grown. -/
theorem failHead (h : memo.Composed u) (hgrown : ∀ g ∈ u.grown, g.cluster ≠ c) (rule start stop : Nat)
    (involved : List Nat) (cause : Cause) :
    (memo.failHead rule start stop c involved cause).Composed u := by
  have hcleared : ((memo.remember rule start (.done (.error cause)) stop).modifyCluster c
      fun cluster => { cluster with involved := [] }).Composed u := by
    have hfailed : (memo.remember rule start (.done (.error cause)) stop).Composed u :=
      h.congr rfl fun g hg => hg
    exact hfailed.modifyCluster (fun _ => rfl)
      (fun _ _ hmem => absurd hmem List.not_mem_nil) fun g hg hc => absurd hc (hgrown g hg)
  unfold Memo.failHead
  dsimp only
  split
  · exact hcleared
  · exact hcleared.congr (clusters_forget ..) fun g hg => hg

end Composed

section Marking

variable {rules : Nat} {text : Text} {w : Waiting}

/-- A new cluster has no members yet. -/
theorem Composed.clusterOf (h : memo.Composed u) (ha : Accounts rules text u memo)
    (hnone : memo.clusterAt? w.id = none) : (memo.clusterOf w.rule w.id).2.Composed u where
  apart c cluster hcluster := by
    rw [Accounts.clusters_clusterOf hnone] at hcluster
    split at hcluster
    · cases hcluster
      exact List.not_mem_nil
    · exact h.apart c cluster hcluster
  grown g hg cluster hcluster := by
    obtain ⟨-, cluster', hcluster'⟩ := ha.grown g hg
    rw [Accounts.clusters_clusterOf hnone, if_neg (Accounts.ne_size_of_cluster hcluster')] at hcluster
    exact h.grown g hg cluster hcluster

/-- A head never joins its own cluster. -/
theorem Composed.join (h : memo.Composed u) (ha : Accounts rules text u memo)
    (hj : Accounts.CanJoin u memo w c) : (memo.join c w.id).Composed u := by
  obtain ⟨hgrown, joined, hjoined, head, hhead, hlt, -, hrule, hstart⟩ := ha.head_of_canJoin hj
  have hclusters := ha.clusters_join hj.mem c
  refine ⟨fun c' cluster' hcluster' => ?_, fun g hg cluster hcluster => ?_⟩
  · rw [hclusters] at hcluster'
    obtain ⟨cluster, hcluster, rfl⟩ := Option.map_eq_some_iff.1 hcluster'
    have hapart := h.apart c' cluster hcluster
    split
    · rename_i heq
      subst heq
      rw [hjoined] at hcluster
      cases hcluster
      intro hmem
      rcases mem_insertRule.1 hmem with heq | hmem
      · have hid := ha.id_eq hhead hj.mem (hrule.trans heq) hstart
        omega
      · exact hapart hmem
    · exact hapart
  · rw [hclusters] at hcluster
    simp only [hgrown g hg, if_false, Option.map_id'] at hcluster
    exact h.grown g hg cluster hcluster

/-- A new cluster has nothing given up. -/
theorem Persists.clusterOf (ha : Accounts rules text u memo) (hw : w ∈ u.path)
    (hnone : memo.clusterAt? w.id = none) : Persists pin u memo u (memo.clusterOf w.rule w.id).2 := by
  intro rule start answer stop h
  refine ⟨?_, fun hunsettled => h.still ?_⟩
  · rw [find?, entries_clusterOf]
    exact h.known
  have hmember (c : Nat) (hm : (memo.clusterOf w.rule w.id).2.Member c rule) :
      c ≠ memo.clusters.size ∧ memo.Member c rule := by
    obtain ⟨cluster, hcluster, hmem⟩ := hm
    rw [Accounts.clusters_clusterOf hnone] at hcluster
    split at hcluster
    · cases hcluster
      cases hmem
    · rename_i hne
      exact ⟨hne, cluster, hcluster, hmem⟩
  rcases hunsettled with ⟨w', hw', hstart, c, hc, hm⟩ | ⟨g, hg, hstart, hhow⟩
  · obtain ⟨hne, hm⟩ := hmember c hm
    rw [ha.clusterAt?_clusterOf hw hnone] at hc
    split at hc
    · cases hc
      exact absurd rfl hne
    · exact .inl ⟨w', hw', hstart, c, hc, hm⟩
  · exact .inr ⟨g, hg, hstart, hhow.imp_left fun hm => (hmember _ hm).2⟩

/-- What joins a cluster waits, so it has nothing settled that could be given up. -/
theorem Persists.join (ha : Accounts rules text u memo) (hj : Accounts.CanJoin u memo w c) :
    Persists pin u memo u (memo.join c w.id) := by
  intro rule start answer stop h
  obtain ⟨hgrown, -⟩ := ha.head_of_canJoin hj
  obtain ⟨f, hf, -, hfstart, hfc⟩ := hj.below
  have hclusters := ha.clusters_join hj.mem c
  have hat := ha.clusterAt?_join hj.mem c
  refine ⟨?_, fun hunsettled => ?_⟩
  · rw [find?, entries_join]
    exact h.known
  have hmember (c' : Nat) (hm : (memo.join c w.id).Member c' rule) :
      memo.Member c' rule ∨ c' = c ∧ rule = w.rule := by
    obtain ⟨cluster', hcluster', hmem⟩ := hm
    rw [hclusters] at hcluster'
    obtain ⟨cluster, hcluster, rfl⟩ := Option.map_eq_some_iff.1 hcluster'
    split at hmem
    · rename_i hc
      rcases mem_insertRule.1 hmem with heq | hmem
      · exact .inr ⟨hc, heq⟩
      · exact .inl ⟨cluster, hcluster, hmem⟩
    · exact .inl ⟨cluster, hcluster, hmem⟩
  rcases hunsettled with ⟨w', hw', hstart, c', hc', hm⟩ | ⟨g, hg, hstart, hhow⟩
  · -- an application of the cluster that waits at the offset, before this one has joined
    have hbefore : ∃ w₀ ∈ u.path, w₀.start = start ∧ memo.clusterAt? w₀.id = some c' := by
      rw [hat] at hc'
      split at hc'
      · rename_i hid
        cases hc'
        obtain ⟨-, hsame⟩ := ha.spot_eq hw' hj.mem hid
        exact ⟨f, hf, hfstart.trans (hsame.symm.trans hstart), hfc⟩
      · exact ⟨w', hw', hstart, hc'⟩
    obtain ⟨w₀, hw₀, hstart₀, hc₀⟩ := hbefore
    rcases hmember c' hm with hm | ⟨rfl, rfl⟩
    · exact h.still (.inl ⟨w₀, hw₀, hstart₀, c', hc₀, hm⟩)
    · refine h.spot_ne ha hj.mem ⟨rfl, ?_⟩
      rw [← hstart₀, ← hfstart]
      exact ha.start_eq_of_cluster hw₀ hf hc₀ hfc
  · refine h.still (.inr ⟨g, hg, hstart, hhow.imp_left fun hm => ?_⟩)
    rcases hmember _ hm with hm | ⟨hc, -⟩
    · exact hm
    · exact absurd hc (hgrown g hg)

/-- Marking a left recursion has nothing settled given up. -/
theorem marked (h : memo.Composed u) (ha : Accounts rules text u memo) {pos : Nat}
    (ho : u.Orderly rules pos) (hw : w ∈ u.path) (hstart : w.start = pos) :
    (memo.markLeftRecursion w.rule w.id).Composed u ∧
      Persists pin u memo u (memo.markLeftRecursion w.rule w.id) := by
  refine (ha.marked ho hw hstart (motive := fun memo' => memo'.Composed u ∧ Persists pin u memo u memo')
    ⟨h, .refl pin u memo⟩ (fun hnone => ?_) fun ha' hj _ hmarked => ?_).2
  · exact ⟨h.clusterOf ha hnone, .clusterOf ha hw hnone⟩
  · exact ⟨hmarked.1.join ha' hj, hmarked.2.trans (.join ha' hj)⟩

end Marking

end Memo

end Packrat
