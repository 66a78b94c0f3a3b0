import Packrat.Proofs.Lockstep
import Packrat.Proofs.Lookup
import Packrat.Proofs.Termination

/-!
# A rule that only passes on

Two tables are compared. In the first, a rule refers to nothing but itself. In the second, it passes on to
a further rule, and that rule has the body. Whenever the rule is entered in the first match, both rules
are entered in the second, one right behind the other; if the rule comes back to itself, both belong to
the cluster, so that in each round of growing the further rule is applied again. The memos tell the same
of the rule, and what they tell of the further rule plays no part.
-/

namespace Packrat

open Matcher

/-- Something that is under way in both matches. -/
inductive Stage where
  /-- The rule was entered at the offset. Its record is `id` in the first match and `outer` in the second,
  where the rule behind it has the record `inner`. -/
  | entered (id outer inner start : Nat)
  /-- The rule is grown at the offset, by clusters with these numbers. -/
  | grown (direct detour start : Nat)

namespace Stage

/-- What is under way in the first match. -/
def direct : List Stage → Underway
  | [] => {}
  | .entered id _ _ start :: rest => (direct rest).enter id 0 start
  | .grown c _ start :: rest => (direct rest).grow c 0 start

/-- What is under way in the second match. -/
def detour : List Stage → Underway
  | [] => {}
  | .entered _ outer inner start :: rest => ((detour rest).enter outer 0 start).enter inner 1 start
  | .grown _ c start :: rest => ((detour rest).grow c 0 start).redo 1 start

/-- In the first match, only the rule waits, once for every stage at which it was entered. -/
theorem mem_path_direct {stages : List Stage} {w : Waiting} : w ∈ (direct stages).path ↔
    ∃ id outer inner start, .entered id outer inner start ∈ stages ∧ w = ⟨id, 0, start⟩ := by
  induction stages with
  | nil => simp [direct]
  | cons stage rest ih =>
    cases stage with
    | entered id outer inner start =>
      simp only [direct, Underway.enter, List.mem_cons, ih, Stage.entered.injEq]
      constructor
      · rintro (rfl | ⟨id', outer', inner', start', hmem, rfl⟩)
        · exact ⟨_, _, _, _, .inl ⟨rfl, rfl, rfl, rfl⟩, rfl⟩
        · exact ⟨_, _, _, _, .inr hmem, rfl⟩
      · rintro ⟨id', outer', inner', start', ⟨rfl, rfl, rfl, rfl⟩ | hmem, rfl⟩
        · exact .inl rfl
        · exact .inr ⟨_, _, _, _, hmem, rfl⟩
    | grown c c' start => simp [direct, Underway.grow, ih]

/-- In the second match, the rule and the one behind it wait, both at every stage at which it
was entered. -/
theorem mem_path_detour {stages : List Stage} {w : Waiting} : w ∈ (detour stages).path ↔
    ∃ id outer inner start, .entered id outer inner start ∈ stages ∧
      (w = ⟨inner, 1, start⟩ ∨ w = ⟨outer, 0, start⟩) := by
  induction stages with
  | nil => simp [detour]
  | cons stage rest ih =>
    cases stage with
    | entered id outer inner start =>
      simp only [detour, Underway.enter, List.mem_cons, ih, Stage.entered.injEq]
      constructor
      · rintro (rfl | rfl | ⟨id', outer', inner', start', hmem, hw⟩)
        · exact ⟨_, _, _, _, .inl ⟨rfl, rfl, rfl, rfl⟩, .inl rfl⟩
        · exact ⟨_, _, _, _, .inl ⟨rfl, rfl, rfl, rfl⟩, .inr rfl⟩
        · exact ⟨_, _, _, _, .inr hmem, hw⟩
      · rintro ⟨id', outer', inner', start', ⟨rfl, rfl, rfl, rfl⟩ | hmem, hw⟩
        · exact hw.elim .inl fun hw => .inr (.inl hw)
        · exact .inr (.inr ⟨_, _, _, _, hmem, hw⟩)
    | grown c c' start => simp [detour, Underway.grow, Underway.redo, ih]

/-- In the first match, the rule is grown once for every stage at which it is. -/
theorem mem_grown_direct {stages : List Stage} {g : Growth} : g ∈ (direct stages).grown ↔
    ∃ c c' start, .grown c c' start ∈ stages ∧ g = ⟨c, 0, start⟩ := by
  induction stages with
  | nil => simp [direct]
  | cons stage rest ih =>
    cases stage with
    | entered id outer inner start => simp [direct, Underway.enter, ih]
    | grown c c' start =>
      simp only [direct, Underway.grow, List.mem_cons, ih, Stage.grown.injEq]
      constructor
      · rintro (rfl | ⟨c₁, c₂, start', hmem, rfl⟩)
        · exact ⟨_, _, _, .inl ⟨rfl, rfl, rfl⟩, rfl⟩
        · exact ⟨_, _, _, .inr hmem, rfl⟩
      · rintro ⟨c₁, c₂, start', ⟨rfl, rfl, rfl⟩ | hmem, rfl⟩
        · exact .inl rfl
        · exact .inr ⟨_, _, _, hmem, rfl⟩

/-- In the second match, the rule is grown at the same stages, by clusters of its own. -/
theorem mem_grown_detour {stages : List Stage} {g : Growth} : g ∈ (detour stages).grown ↔
    ∃ c c' start, .grown c c' start ∈ stages ∧ g = ⟨c', 0, start⟩ := by
  induction stages with
  | nil => simp [detour]
  | cons stage rest ih =>
    cases stage with
    | entered id outer inner start => simp [detour, Underway.enter, ih]
    | grown c c' start =>
      simp only [detour, Underway.grow, Underway.redo, List.mem_cons, ih, Stage.grown.injEq]
      constructor
      · rintro (rfl | ⟨c₁, c₂, start', hmem, rfl⟩)
        · exact ⟨_, _, _, .inl ⟨rfl, rfl, rfl⟩, rfl⟩
        · exact ⟨_, _, _, .inr hmem, rfl⟩
      · rintro ⟨c₁, c₂, start', ⟨rfl, rfl, rfl⟩ | hmem, rfl⟩
        · exact .inl rfl
        · exact .inr ⟨_, _, _, hmem, rfl⟩

end Stage

section Records

/-- The application has the same record, and what is known about its cluster is the same. -/
structure Memo.SameRecord (memo memo' : Memo) (id : Nat) : Prop where
  record : memo'.applications[id]? = memo.applications[id]?
  cluster : ∀ c, memo.clusterAt? id = some c → memo'.clusters[c]? = memo.clusters[c]?

/-- The applications that wait and the clusters that are grown are as before. -/
structure Memo.Spares (u : Underway) (memo memo' : Memo) : Prop where
  records : ∀ w ∈ u.path, memo.SameRecord memo' w.id
  grown : ∀ g ∈ u.grown, memo'.clusters[g.cluster]? = memo.clusters[g.cluster]?

/-- The entries at other offsets are as before. -/
structure Memo.SameElsewhere (start : Nat) (memo memo' : Memo) : Prop where
  entries : ∀ rule start', start' ≠ start → memo'.find? rule start' = memo.find? rule start'

variable {u : Underway} {memo memo' memo'' : Memo} {rules : Nat} {text : Text}

/-- An application with the same record belongs to the same cluster. -/
theorem Memo.SameRecord.clusterAt? {id : Nat} (h : memo.SameRecord memo' id) :
    memo'.clusterAt? id = memo.clusterAt? id := by
  rw [Memo.clusterAt?, Memo.application?, h.record]
  rfl

/-- Nothing changes by itself. -/
theorem Memo.SameElsewhere.refl (start : Nat) (memo : Memo) : memo.SameElsewhere start memo :=
  ⟨fun _ _ _ => rfl⟩

/-- What is the same at other offsets stays so step by step. -/
theorem Memo.SameElsewhere.trans {start : Nat} (h : memo.SameElsewhere start memo')
    (h' : memo'.SameElsewhere start memo'') : memo.SameElsewhere start memo'' :=
  ⟨fun rule start' hne => (h'.entries rule start' hne).trans (h.entries rule start' hne)⟩

/-- Only the entries matter. -/
theorem Memo.SameElsewhere.of_eq {start : Nat} (h : memo.SameElsewhere start memo')
    (hentries : memo''.entries = memo'.entries) : memo.SameElsewhere start memo'' := by
  refine ⟨fun rule start' hne => ?_⟩
  rw [Memo.find?, hentries]
  exact h.entries rule start' hne

section Elsewhere

variable (memo : Memo) (id rule start stop : Nat) (result : Except Cause Tree)

/-- To remember an answer changes nothing at other offsets. -/
theorem Memo.SameElsewhere.remember (answer : Answer) :
    memo.SameElsewhere start (memo.remember rule start answer stop) :=
  ⟨fun _ _ hne => Memo.find?_remember_of_ne _ _ _ fun heq => hne heq.2⟩

/-- To forget entries changes nothing at other offsets. -/
theorem Memo.SameElsewhere.forget (dropped : List Nat) :
    memo.SameElsewhere start (memo.forget dropped start) := by
  refine ⟨fun rule' start' hne => ?_⟩
  rw [Memo.find?_forget, if_neg fun heq => hne heq.2]

/-- To enter a rule changes nothing at other offsets. -/
theorem Memo.SameElsewhere.enter : memo.SameElsewhere start (memo.enter rule start result) :=
  ⟨fun _ _ hne => Memo.find?_remember_of_ne _ _ _ fun heq => hne heq.2⟩

/-- To leave a rule changes nothing at other offsets. -/
theorem Memo.SameElsewhere.leave : memo.SameElsewhere start (memo.leave id rule start result stop) := by
  refine ⟨fun rule' start' hne => ?_⟩
  rw [Memo.leave, Memo.find?_remember_of_ne _ _ _ fun heq => hne heq.2, Memo.find?_release, Memo.find?_pop]

/-- To leave a rule with its seed changes nothing at other offsets. -/
theorem Memo.SameElsewhere.leaveSeeded :
    memo.SameElsewhere start (memo.leaveSeeded id rule start result stop) :=
  ⟨fun _ _ hne => Memo.find?_remember_of_ne _ _ _ fun heq => hne heq.2⟩

/-- To leave a head with its tree changes nothing at other offsets. -/
theorem Memo.SameElsewhere.leaveHead (tree : Tree) :
    memo.SameElsewhere start (memo.leaveHead id rule start tree stop) :=
  (leaveSeeded memo id rule start stop (.ok tree)).trans (remember ..)

/-- To leave a head with a failure changes nothing at other offsets. -/
theorem Memo.SameElsewhere.failHead (c : Nat) (involved : List Nat) (cause : Cause) :
    memo.SameElsewhere start (memo.failHead rule start stop c involved cause) := by
  have hdone : memo.SameElsewhere start ((memo.remember rule start (.done (.error cause)) stop).modifyCluster c
      fun cluster => { cluster with involved := [] }) :=
    (remember memo rule start stop (.done (.error cause))).of_eq rfl
  unfold Memo.failHead
  dsimp only
  split
  · exact hdone
  · exact hdone.trans (forget ..)

end Elsewhere

namespace Memo.Spares

/-- A step that leaves records and clusters alone spares all that is under way. -/
theorem of_eq (ha : memo'.applications = memo.applications) (hc : memo'.clusters = memo.clusters) :
    memo.Spares u memo' :=
  ⟨fun _ _ => ⟨by rw [ha], fun _ _ => by rw [hc]⟩, fun _ _ => by rw [hc]⟩

/-- What is under way is spared step by step. -/
theorem trans (h : memo.Spares u memo') (h' : memo'.Spares u memo'') : memo.Spares u memo'' where
  records w hw := by
    have hrecord := h.records w hw
    have hrecord' := h'.records w hw
    refine ⟨hrecord'.record.trans hrecord.record, fun c hc => ?_⟩
    exact (hrecord'.cluster c (hrecord.clusterAt?.trans hc)).trans (hrecord.cluster c hc)
  grown g hg := (h'.grown g hg).trans (h.grown g hg)

/-- A rule that is entered gets a new record. -/
theorem enter (h : Accounts rules text u memo) (rule start : Nat) (seed : Except Cause Tree) :
    memo.Spares u (memo.enter rule start seed) where
  records w hw := by
    refine ⟨?_, fun _ _ => rfl⟩
    rw [Memo.applications_enter, Array.getElem?_push, if_neg (Nat.ne_of_lt (h.lt_size hw))]
  grown _ _ := rfl

/-- A record that is given back is none of those that still wait. -/
theorem leave {id rule start : Nat} (h : Accounts rules text (u.enter id rule start) memo)
    (result : Except Cause Tree) (stop : Nat) : memo.Spares u (memo.leave id rule start result stop) where
  records w hw := by
    refine ⟨?_, fun c _ => ?_⟩
    · exact Memo.applications_release _ (Nat.ne_of_lt (h.lt_of_enter hw))
    · exact congrArg (·[c]?) (Memo.clusters_release (memo.pop id) id)
  grown g _ := congrArg (·[g.cluster]?) (Memo.clusters_release (memo.pop id) id)

/-- The seed is noted in none of the records that still wait. -/
theorem leaveSeeded {id rule start : Nat} (h : Accounts rules text (u.enter id rule start) memo)
    (result : Except Cause Tree) (stop : Nat) :
    memo.Spares u (memo.leaveSeeded id rule start result stop) where
  records w hw := by
    refine ⟨?_, fun _ _ => rfl⟩
    exact Array.getElem?_modify.trans (if_neg (Nat.ne_of_gt (h.lt_of_enter hw)))
  grown _ _ := rfl

/-- A cluster may be changed to which none of the applications that wait belongs. -/
theorem modifyCluster {c : Nat} (hpath : ∀ w ∈ u.path, memo.clusterAt? w.id ≠ some c)
    (hgrown : ∀ g ∈ u.grown, g.cluster ≠ c) (f : Cluster → Cluster) :
    memo.Spares u (memo.modifyCluster c f) where
  records w hw := by
    refine ⟨rfl, fun c' hc' => ?_⟩
    have hne : c' ≠ c := fun heq => hpath w hw (heq ▸ hc')
    exact Array.getElem?_modify.trans (if_neg (Ne.symm hne))
  grown g hg := Array.getElem?_modify.trans (if_neg (Ne.symm (hgrown g hg)))

/-- The same after more has been done. -/
theorem change (h : memo.Spares u memo') {c : Nat} (hpath : ∀ w ∈ u.path, memo.clusterAt? w.id ≠ some c)
    (hgrown : ∀ g ∈ u.grown, g.cluster ≠ c) (f : Cluster → Cluster) :
    memo.Spares u (memo'.modifyCluster c f) := by
  refine h.trans (modifyCluster (fun w hw => ?_) hgrown f)
  rw [(h.records w hw).clusterAt?]
  exact hpath w hw

/-- The same if the head of the cluster fails. -/
theorem failHead (h : memo.Spares u memo') {c : Nat} (hpath : ∀ w ∈ u.path, memo.clusterAt? w.id ≠ some c)
    (hgrown : ∀ g ∈ u.grown, g.cluster ≠ c) (rule start stop : Nat) (involved : List Nat) (cause : Cause) :
    memo.Spares u (memo'.failHead rule start stop c involved cause) := by
  have hdone : memo.Spares u (memo'.remember rule start (.done (.error cause)) stop) :=
    h.trans (.of_eq rfl rfl)
  have hchanged := hdone.change hpath hgrown fun cluster => { cluster with involved := [] }
  unfold Memo.failHead
  dsimp only
  split
  · exact hchanged
  · exact hchanged.trans (.of_eq (Memo.applications_forget ..) (Memo.clusters_forget ..))

/-- What is spared of more is spared of less. -/
theorem of_enter {id rule start : Nat} (h : memo.Spares (u.enter id rule start) memo') :
    memo.Spares u memo' :=
  ⟨fun w hw => h.records w (List.mem_cons_of_mem _ hw), h.grown⟩

end Memo.Spares

/-- To the cluster of a rule at its head belongs nothing that waits below or is grown. -/
theorem Accounts.apart_of_head (h : Accounts rules text u memo) {head : Waiting} {c : Nat} {cluster : Cluster}
    (hmem : head ∈ u.path) (hc : memo.clusterAt? head.id = some c)
    (hcluster : memo.clusters[c]? = some cluster) (hrule : head.rule = cluster.head) :
    (∀ g ∈ u.grown, g.cluster ≠ c) ∧ ∀ w ∈ u.path, w.id < head.id → memo.clusterAt? w.id ≠ some c :=
  ⟨(h.clustered head hmem c hc).1, fun w hw hlt => (h.apart head hmem c cluster hc hcluster hrule w hw hlt).1⟩

/-- To a cluster that is being grown belongs nothing that waits. -/
theorem Accounts.apart_of_growth {c head start : Nat} (h : Accounts rules text (u.grow c head start) memo) :
    ∀ w ∈ u.path, memo.clusterAt? w.id ≠ some c :=
  fun w hw hc => (h.clustered w hw c hc).1 _ List.mem_cons_self rfl

end Records

/-- After a last round that applied all members again, nothing is forgotten. -/
theorem Memo.endGrowth_of_settled {memo : Memo} {start c : Nat} {cluster : Cluster}
    (hcluster : memo.clusters[c]? = some cluster) (hpending : cluster.pending = []) :
    memo.endGrowth start c none = { memo.clearDue c with growing := memo.growing.erase start } := by
  have hstale : memo.stale c = [] := by rw [Memo.stale, hcluster, Option.map_some, Option.getD_some, hpending]
  rw [Memo.endGrowth, hstale]
  rfl

end Packrat
