import Packrat.Proofs.Clustering
import Packrat.Proofs.Detour

/-!
# Paired memos

The memos of two matches, one with a rule that refers to itself and one in which the same rule passes on
to a further one, are paired if they tell the same of the rule at every offset, and if the clusters that
the rule is at the head of stand in the same state. The one cluster has no members but its head, the other
the further rule. Each operation on one memo goes with one or two on the other.
-/

namespace Packrat

variable {stages stages' : List Stage} {memo memo' memo₁ memo₂ : Memo} {rules rules' : Nat} {text : Text}

/-- A rule that is entered next belongs to no cluster yet. -/
theorem Memo.clusterAt?_size (memo : Memo) : memo.clusterAt? memo.applications.size = none := by
  rw [clusterAt?, application?, Array.getElem?_eq_none (Nat.le_refl _)]
  rfl

/-- If the rule comes back to the application, there is no match to answer with yet. -/
def Memo.Barren (memo : Memo) (id : Nat) : Prop :=
  ∃ (a : Application) (cause : Cause), memo.applications[id]? = some a ∧ a.seed = .error cause

/-- An application whose record is as before still has no match to answer with. -/
theorem Memo.Barren.spared {id : Nat} (h : memo.Barren id) (hs : memo.SameRecord memo₁ id) :
    memo₁.Barren id := by
  obtain ⟨a, cause, ha, hseed⟩ := h
  exact ⟨a, cause, hs.record.trans ha, hseed⟩

/-- An application whose record joins another cluster still has no match to answer with. -/
theorem Memo.Barren.frame {id : Nat} (h : memo.Barren id) (hf : memo.Frame memo₁) :
    memo₁.Barren id := by
  obtain ⟨a, cause, ha, hseed⟩ := h
  obtain ⟨cluster, ha₁⟩ := hf.records id a ha
  exact ⟨_, cause, ha₁, hseed⟩

/-- The clusters of a stage stand in the same state: the rule has come back to itself on both sides or on
neither, and nothing is to be applied again. -/
def Stage.Tallies (memo memo' : Memo) : Stage → Prop
  | .entered id outer inner _ => memo.Barren id ∧ memo'.Barren outer ∧
      ((memo.clusterAt? id = none ∧ memo'.clusterAt? outer = none ∧ memo'.clusterAt? inner = none) ∨
        ∃ c c', (memo.clusterAt? id = some c ∧ memo.clusters[c]? = some ⟨0, [], []⟩) ∧
          (memo'.clusterAt? outer = some c' ∧ memo'.clusterAt? inner = some c' ∧
            memo'.clusters[c']? = some ⟨0, [1], []⟩))
  | .grown c c' _ => memo.clusters[c]? = some ⟨0, [], []⟩ ∧ memo'.clusters[c']? = some ⟨0, [1], []⟩

/-- Nothing known of the rule at the offset, or the same, unless the rule waits there. -/
def SameEntry (stages : List Stage) (memo memo' : Memo) (start : Nat) : Prop :=
  (memo.find? 0 start = none ∧ memo'.find? 0 start = none) ∨
    (∃ result result' stop, memo.find? 0 start = some ⟨.done result, stop⟩ ∧
      memo'.find? 0 start = some ⟨.done result', stop⟩ ∧ Agree Eq result result') ∨
    ∃ id outer inner, .entered id outer inner start ∈ stages

/-- The memos of the two matches tell the same while these stages are under way. -/
structure Paired (stages : List Stage) (memo memo' : Memo) : Prop where
  entries : ∀ start, SameEntry stages memo memo' start
  /-- The further rule is known only where the rule itself is. -/
  behind : ∀ start, memo'.find? 0 start = none → memo'.find? 1 start = none
  tallies : ∀ stage ∈ stages, stage.Tallies memo memo'

/-- Clusters of a stage that are spared stay in the same state. -/
theorem Stage.Tallies.spared {stage : Stage} (h : stage.Tallies memo memo') (hmem : stage ∈ stages)
    (h₁ : memo.Spares (direct stages) memo₁) (h₂ : memo'.Spares (detour stages) memo₂) :
    stage.Tallies memo₁ memo₂ := by
  cases stage with
  | entered id outer inner start =>
    obtain ⟨hseed, hseed', hclusters⟩ := h
    have hid := h₁.records _ (mem_path_direct.2 ⟨id, outer, inner, start, hmem, rfl⟩)
    have houter := h₂.records _ (mem_path_detour.2 ⟨id, outer, inner, start, hmem, .inr rfl⟩)
    have hinner := h₂.records _ (mem_path_detour.2 ⟨id, outer, inner, start, hmem, .inl rfl⟩)
    refine ⟨hseed.spared hid, hseed'.spared houter, ?_⟩
    rw [hid.clusterAt?, houter.clusterAt?, hinner.clusterAt?]
    obtain hnone | ⟨c, c', ⟨hc, hcluster⟩, hc', hcinner, hcluster'⟩ := hclusters
    · exact .inl hnone
    · exact .inr ⟨c, c', ⟨hc, (hid.cluster c hc).trans hcluster⟩, hc', hcinner,
        (houter.cluster c' hc').trans hcluster'⟩
  | grown c c' start =>
    obtain ⟨hcluster, hcluster'⟩ := h
    have hg := h₁.grown _ (mem_grown_direct.2 ⟨c, c', start, hmem, rfl⟩)
    have hg' := h₂.grown _ (mem_grown_detour.2 ⟨c, c', start, hmem, rfl⟩)
    exact ⟨hg.trans hcluster, hg'.trans hcluster'⟩

namespace Paired

open Stage (direct detour)

/-- At the start of a match nothing is known. -/
theorem nil : Paired [] {} {} :=
  ⟨fun _ => .inl ⟨by simp [Memo.find?], by simp [Memo.find?]⟩, by simp [Memo.find?], by simp⟩

/-- Memos stay paired if what is known changes alike at one offset only, and all that stays or comes under
way tallies. -/
theorem change (h : Paired stages memo memo') {start : Nat} (h₁ : memo.SameElsewhere start memo₁)
    (h₂ : memo'.SameElsewhere start memo₂) (hhere : SameEntry stages' memo₁ memo₂ start)
    (hbehind : memo₂.find? 0 start = none → memo₂.find? 1 start = none)
    (hkept : ∀ id outer inner start', start' ≠ start → Stage.entered id outer inner start' ∈ stages →
      .entered id outer inner start' ∈ stages')
    (htallies : ∀ stage ∈ stages', stage.Tallies memo₁ memo₂) : Paired stages' memo₁ memo₂ where
  entries start' := by
    by_cases heq : start' = start
    · exact heq ▸ hhere
    · unfold SameEntry
      rw [h₁.entries 0 start' heq, h₂.entries 0 start' heq]
      obtain hnone | hdone | ⟨id, outer, inner, hmem⟩ := h.entries start'
      · exact .inl hnone
      · exact .inr (.inl hdone)
      · exact .inr (.inr ⟨id, outer, inner, hkept _ _ _ _ heq hmem⟩)
  behind start' := by
    by_cases heq : start' = start
    · exact heq ▸ hbehind
    · rw [h₂.entries 0 start' heq, h₂.entries 1 start' heq]
      exact h.behind start'
  tallies := htallies

/-- What a rule has come to may be remembered alike. -/
theorem sameEntry_remember (memo memo' : Memo) {start : Nat} {result result' : Except Cause Tree}
    (hagree : Agree Eq result result') (stop : Nat) :
    SameEntry stages (memo.remember 0 start (.done result) stop)
      (memo'.remember 0 start (.done result') stop) start :=
  .inr (.inl ⟨_, _, _, Memo.find?_remember_self .., Memo.find?_remember_self .., hagree⟩)

/-- The counts play no part. -/
theorem count (h : Paired stages memo memo') (f g : Statistics → Statistics) :
    Paired stages (memo.count f) (memo'.count g) :=
  ⟨h.entries, h.behind, fun stage hmem => (h.tallies stage hmem).spared hmem (.of_eq rfl rfl) (.of_eq rfl rfl)⟩

section Entering

variable {start : Nat} {cause cause' cause'' : Cause}

/-- The rule is entered on both sides, and the further rule right behind it. -/
theorem enter (h : Paired stages memo memo') (ha : Accounts rules text (direct stages) memo)
    (ha' : Accounts rules' text (detour stages) memo')
    (ha'' : Accounts rules' text ((detour stages).enter memo'.applications.size 0 start)
      (memo'.enter 0 start (.error cause'))) :
    Paired (.entered memo.applications.size memo'.applications.size
        (memo'.enter 0 start (.error cause')).applications.size start :: stages)
      (memo.enter 0 start (.error cause))
      ((memo'.enter 0 start (.error cause')).enter 1 start (.error cause'')) := by
  have hspares := Memo.Spares.enter ha 0 start (.error cause)
  have hspares' := (Memo.Spares.enter ha' 0 start (.error cause')).trans
    (Memo.Spares.enter ha'' 1 start (.error cause'')).of_enter
  have houter : (memo'.enter 0 start (.error cause')).applications[memo'.applications.size]?
      = some ⟨0, start, .error cause', none, memo'.top⟩ := Array.getElem?_push_size
  have hne : memo'.applications.size ≠ (memo'.enter 0 start (.error cause')).applications.size := by
    rw [Memo.applications_enter, Array.size_push]
    omega
  refine h.change (.enter ..) (.trans (.enter ..) (.enter ..))
    (.inr (.inr ⟨_, _, _, List.mem_cons_self⟩)) (fun hnone => ?_)
    (fun _ _ _ _ _ hmem => List.mem_cons_of_mem _ hmem) fun stage hmem => ?_
  · have hsome : ((memo'.enter 0 start (.error cause')).enter 1 start (.error cause'')).find? 0 start
        = some ⟨.inProgress memo'.applications.size, start⟩ :=
      (Memo.find?_remember_of_ne _ _ _ (by omega)).trans (Memo.find?_remember_self ..)
    rw [hsome] at hnone
    cases hnone
  · rcases List.mem_cons.1 hmem with rfl | hmem
    · refine ⟨⟨_, cause, Array.getElem?_push_size, rfl⟩, ⟨⟨0, start, .error cause', none, memo'.top⟩,
        cause', ?_, rfl⟩, .inl ⟨?_, ?_, ?_⟩⟩
      · exact (Array.getElem?_push.trans (if_neg hne)).trans houter
      · rw [Memo.clusterAt?_enter, Memo.clusterAt?_size]
      · rw [Memo.clusterAt?_enter, Memo.clusterAt?_enter, Memo.clusterAt?_size]
      · rw [Memo.clusterAt?_enter, Memo.clusterAt?_size]
    · exact (h.tallies stage hmem).spared hmem hspares hspares'

end Entering

section Leaving

variable {id outer inner start stop : Nat} {result result'' : Except Cause Tree} (result' : Except Cause Tree)
  (h : Paired (.entered id outer inner start :: stages) memo memo')
  (ha : Accounts rules text ((direct stages).enter id 0 start) memo)
  (ha' : Accounts rules' text (((detour stages).enter outer 0 start).enter inner 1 start) memo')

include h ha ha'

/-- The rule is left on both sides without having come back to itself. -/
theorem leave (hle : start ≤ stop) (hb : text.isBoundary stop = true) (hagree : Agree Eq result result'') :
    Paired stages (memo.leave id 0 start result stop)
      ((memo'.leave inner 1 start result' stop).leave outer 0 start result'' stop) := by
  have ha'' := ha'.leave result' hle hb
  have hspares := Memo.Spares.leave ha result stop
  have hspares' := (Memo.Spares.leave ha' result' stop).of_enter.trans
    (Memo.Spares.leave ha'' result'' stop)
  refine h.change (.leave ..) (.trans (.leave ..) (.leave ..)) (sameEntry_remember _ _ hagree stop) (fun hnone => ?_)
    (fun id' outer' inner' start' hne hmem => ?_) fun stage hmem => ?_
  · rw [Memo.leave, Memo.find?_remember_self] at hnone
    cases hnone
  · rcases List.mem_cons.1 hmem with heq | hmem
    · cases heq
      exact absurd rfl hne
    · exact hmem
  · exact (h.tallies stage (List.mem_cons_of_mem _ hmem)).spared hmem hspares hspares'

variable {c c' : Nat} (hle : start ≤ stop) (hb : text.isBoundary stop = true)
  (hc : memo.clusterAt? id = some c) (hcluster : memo.clusters[c]? = some ⟨0, [], []⟩)
  (hc' : memo'.clusterAt? outer = some c') (hcluster' : memo'.clusters[c']? = some ⟨0, [1], []⟩)

omit h ha'

include hc hcluster in
/-- Nothing else belongs to the cluster of the rule on the first side. -/
theorem apart_direct : (∀ w ∈ (direct stages).path, memo.clusterAt? w.id ≠ some c) ∧
    ∀ g ∈ (direct stages).grown, g.cluster ≠ c := by
  obtain ⟨hgrown, hapart⟩ := ha.apart_of_head List.mem_cons_self hc hcluster rfl
  exact ⟨fun w hw => hapart w (List.mem_cons_of_mem _ hw) (ha.lt_of_enter hw), hgrown⟩

omit ha

include ha' hc' hcluster' in
/-- Nor does anything on the second side, but for the further rule. -/
theorem apart_detour : (∀ w ∈ (detour stages).path, memo'.clusterAt? w.id ≠ some c') ∧
    ∀ g ∈ (detour stages).grown, g.cluster ≠ c' := by
  have hmem : ⟨outer, 0, start⟩ ∈ (((detour stages).enter outer 0 start).enter inner 1 start).path :=
    List.mem_cons_of_mem _ List.mem_cons_self
  obtain ⟨hgrown, hapart⟩ := ha'.apart_of_head hmem hc' hcluster' rfl
  exact ⟨fun w hw => hapart w (List.mem_cons_of_mem _ (List.mem_cons_of_mem _ hw)) (ha'.pop.lt_of_enter hw),
    hgrown⟩

include h ha ha' hle hb hc hcluster hc' hcluster'

/-- The head starts growing on both sides, and the further rule is applied again in the first round. -/
theorem grow (tree : Tree) : Paired (.grown c c' start :: stages)
    ((memo.leaveHead id 0 start tree stop).startGrowth start c)
    ((((memo'.leaveSeeded inner 1 start result' stop).leaveHead outer 0 start tree stop).startGrowth start
      c').redo c' 1) := by
  have ha'' := ha'.leaveSeeded result' hle hb
  have hleft : memo.Spares (direct stages)
      { memo.leaveHead id 0 start tree stop with growing := memo.growing.insert start c } :=
    (Memo.Spares.leaveSeeded ha (.ok tree) stop).trans (.of_eq rfl rfl)
  have hleft' : memo'.Spares (detour stages)
      { (memo'.leaveSeeded inner 1 start result' stop).leaveHead outer 0 start tree stop with
        growing := memo'.growing.insert start c' } :=
    ((Memo.Spares.leaveSeeded ha' result' stop).of_enter.trans
      (Memo.Spares.leaveSeeded ha'' (.ok tree) stop)).trans (.of_eq rfl rfl)
  obtain ⟨hpath, hgrown⟩ := apart_direct ha hc hcluster
  obtain ⟨hpath', hgrown'⟩ := apart_detour ha' hc' hcluster'
  have hspares := hleft.change hpath hgrown fun cluster => { cluster with pending := cluster.involved }
  have hspares' := (hleft'.change hpath' hgrown' fun cluster =>
    { cluster with pending := cluster.involved }).change hpath' hgrown' fun cluster =>
      { cluster with pending := cluster.pending.erase 1 }
  have hagree : Agree Eq (.ok tree) (.ok tree) := rfl
  refine h.change ((Memo.SameElsewhere.leaveHead memo id 0 start stop tree).of_eq rfl)
    (.of_eq (.trans (.leaveSeeded memo' inner 1 start stop result') (.leaveHead _ outer 0 start stop tree)) rfl)
    ?_ (fun hnone => ?_) (fun id' outer' inner' start' hne hmem => ?_)
    fun stage hmem => ?_
  · exact sameEntry_remember (memo.leaveSeeded id 0 start (.ok tree) stop)
      ((memo'.leaveSeeded inner 1 start result' stop).leaveSeeded outer 0 start (.ok tree) stop) hagree stop
  · exact absurd ((Memo.find?_remember_self ..).symm.trans hnone) (by simp)
  · rcases List.mem_cons.1 hmem with heq | hmem
    · cases heq
      exact absurd rfl hne
    · exact List.mem_cons_of_mem _ hmem
  · rcases List.mem_cons.1 hmem with rfl | hmem
    · refine ⟨?_, ?_⟩
      · rw [Memo.startGrowth, Memo.refill, Memo.clusters_modifyCluster]
        change (memo.clusters[c]?).map _ = _
        rw [hcluster]
        simp
      · rw [Memo.redo, Memo.clusters_modifyCluster, Memo.startGrowth, Memo.refill, Memo.clusters_modifyCluster]
        change ((memo'.clusters[c']?).map _).map _ = _
        rw [hcluster']
        simp
    · exact (h.tallies stage (List.mem_cons_of_mem _ hmem)).spared hmem hspares hspares'

/-- The head fails on both sides, and the further rule is forgotten. -/
theorem fail (cause cause' : Cause) : Paired stages
    ((memo.leaveSeeded id 0 start (.error cause) stop).failHead 0 start stop c [] cause)
    (((memo'.leaveSeeded inner 1 start result' stop).leaveSeeded outer 0 start (.error cause') stop).failHead
      0 start stop c' [1] cause') := by
  have ha'' := ha'.leaveSeeded result' hle hb
  have hleft := Memo.Spares.leaveSeeded ha (.error cause) stop
  have hleft' := (Memo.Spares.leaveSeeded ha' result' stop).of_enter.trans
    (Memo.Spares.leaveSeeded ha'' (.error cause') stop)
  obtain ⟨hpath, hgrown⟩ := apart_direct ha hc hcluster
  obtain ⟨hpath', hgrown'⟩ := apart_detour ha' hc' hcluster'
  have hspares := hleft.failHead hpath hgrown 0 start stop [] cause
  have hspares' := hleft'.failHead hpath' hgrown' 0 start stop [1] cause'
  have hout : 0 ∉ [1] := by decide
  refine h.change (.trans (.leaveSeeded ..) (.failHead ..))
    (.trans (.trans (.leaveSeeded ..) (.leaveSeeded ..)) (.failHead ..))
    (.inr (.inl ⟨_, _, _, Memo.find?_failHead _ _ _ _ List.not_mem_nil, Memo.find?_failHead _ _ _ _ hout,
      trivial⟩)) (fun hnone => ?_)
    (fun id' outer' inner' start' hne hmem => ?_) fun stage hmem => ?_
  · exact absurd ((Memo.find?_failHead _ _ _ _ hout).symm.trans hnone) (by simp)
  · rcases List.mem_cons.1 hmem with heq | hmem
    · cases heq
      exact absurd rfl hne
    · exact hmem
  · exact (h.tallies stage (List.mem_cons_of_mem _ hmem)).spared hmem hspares hspares'

end Leaving

section Growing

variable {start c c' : Nat} (h : Paired (.grown c c' start :: stages) memo memo')
  (ha : Accounts rules text ((direct stages).grow c 0 start) memo)
  (ha' : Accounts rules' text ((detour stages).grow c' 0 start) memo')
  (hfresh : ∀ g ∈ (direct stages).grown, g.cluster ≠ c)
  (hfresh' : ∀ g ∈ (detour stages).grown, g.cluster ≠ c')

include h ha ha' hfresh hfresh'

/-- The match has become longer on both sides, and the further rule is applied again in the next round. -/
theorem longer (tree : Tree) (reached : Nat) (result : Except Cause Tree) :
    Paired (.grown c c' start :: stages) ((memo.longer 0 start tree reached).refill c)
      ((((memo'.remember 1 start (.done result) reached).longer 0 start tree reached).refill c').redo c' 1) := by
  have hagree : Agree Eq (.ok tree) (.ok tree) := rfl
  obtain ⟨hcluster, hcluster'⟩ := h.tallies _ List.mem_cons_self
  have hlonger : memo.Spares (direct stages) (memo.longer 0 start tree reached) := .of_eq rfl rfl
  have hlonger' : memo'.Spares (detour stages)
      ((memo'.remember 1 start (.done result) reached).longer 0 start tree reached) := .of_eq rfl rfl
  have hspares := hlonger.change ha.apart_of_growth hfresh fun cluster =>
    { cluster with pending := cluster.involved }
  have hspares' := (hlonger'.change ha'.apart_of_growth hfresh' fun cluster =>
    { cluster with pending := cluster.involved }).change ha'.apart_of_growth hfresh' fun cluster =>
      { cluster with pending := cluster.pending.erase 1 }
  refine h.change ((Memo.SameElsewhere.remember memo 0 start reached (.done (.ok tree))).of_eq rfl)
    (.of_eq (.trans (.remember memo' 1 start reached (.done result))
      (.remember _ 0 start reached (.done (.ok tree)))) rfl) ?_ (fun hnone => ?_)
    (fun id' outer' inner' start' hne hmem => hmem) fun stage hmem => ?_
  · exact sameEntry_remember memo (memo'.remember 1 start (.done result) reached) hagree reached
  · exact absurd ((Memo.find?_remember_self ..).symm.trans hnone) (by simp)
  · rcases List.mem_cons.1 hmem with rfl | hmem
    · refine ⟨?_, ?_⟩
      · rw [Memo.refill, Memo.clusters_modifyCluster]
        change (memo.clusters[c]?).map _ = _
        rw [hcluster]
        simp
      · rw [Memo.redo, Memo.clusters_modifyCluster, Memo.refill, Memo.clusters_modifyCluster]
        change ((memo'.clusters[c']?).map _).map _ = _
        rw [hcluster']
        simp
    · exact (h.tallies stage (List.mem_cons_of_mem _ hmem)).spared hmem hspares hspares'

/-- Growing is over on both sides. -/
theorem endGrowth (stop : Nat) (result : Except Cause Tree) : Paired stages (memo.endGrowth start c none)
    ((memo'.remember 1 start (.done result) stop).endGrowth start c' none) := by
  obtain ⟨hcluster, hcluster'⟩ := h.tallies _ List.mem_cons_self
  have hremembered : (memo'.remember 1 start (.done result) stop).clusters[c']? = some ⟨0, [1], []⟩ := hcluster'
  rw [Memo.endGrowth_of_settled hcluster rfl, Memo.endGrowth_of_settled hremembered rfl]
  have hspares := (Memo.Spares.of_eq rfl rfl : memo.Spares (direct stages) memo).change ha.apart_of_growth
    hfresh fun cluster => { cluster with pending := [] }
  have hspares' := (Memo.Spares.of_eq rfl rfl : memo'.Spares (detour stages) memo').change
    ha'.apart_of_growth hfresh' fun cluster => { cluster with pending := [] }
  refine h.change (.of_eq (.refl start memo) rfl)
    (.of_eq (.remember memo' 1 start stop (.done result)) rfl) ?_ (fun hnone => ?_)
    (fun id' outer' inner' start' hne hmem => ?_) fun stage hmem => ?_
  · obtain ⟨hnone, hnone'⟩ | ⟨answer, answer', stop', hdone, hdone', hagree⟩ | ⟨id, outer, inner, hmem⟩ :=
      h.entries start
    · exact .inl ⟨hnone, (Memo.find?_remember_of_ne _ _ _ (by simp)).trans hnone'⟩
    · exact .inr (.inl ⟨answer, answer', stop', hdone,
        (Memo.find?_remember_of_ne _ _ _ (by simp)).trans hdone', hagree⟩)
    · refine .inr (.inr ⟨id, outer, inner, ?_⟩)
      simpa using hmem
  · obtain ⟨⟨answer, stop', hknown⟩, -⟩ := ha'.grown _ List.mem_cons_self
    exact absurd (((Memo.find?_remember_of_ne _ _ _ (by simp)).trans hknown).symm.trans hnone) (by simp)
  · simpa using hmem
  · exact (h.tallies stage (List.mem_cons_of_mem _ hmem)).spared hmem
      (hspares.trans (.of_eq rfl rfl)) (hspares'.trans (.of_eq rfl rfl))

end Growing

end Paired

section Marking

variable {u v : Underway} {w f : Waiting} {rest : List Waiting} {c : Nat}

/-- Marking a left recursion whose cluster the application on top belongs to changes nothing. -/
theorem Accounts.markLeftRecursion_of_joined (h : Accounts rules text u memo) (hpath : u.path = f :: rest)
    (hf : memo.clusterAt? f.id = some c) (hc : memo.clusterAt? w.id = some c) :
    memo.markLeftRecursion w.rule w.id = memo := by
  have habove : memo.above c = [] := by
    rw [Memo.above, Memo.callPath_eq h.linked, hpath, List.map_cons]
    exact List.takeWhile_cons_of_neg (by simpa [Memo.clusterAt?] using hf)
  rw [Memo.markLeftRecursion, Memo.clusterOf_of_some _ hc]
  dsimp only
  rw [habove]
  rfl

variable (h : Accounts rules text u memo) (hnone : memo.clusterAt? w.id = none)

include h hnone

/-- The application on top that its rule comes back to becomes the head of a new cluster. -/
theorem Accounts.markLeftRecursion_top (hpath : u.path = w :: rest) :
    memo.markLeftRecursion w.rule w.id = (memo.clusterOf w.rule w.id).2 := by
  have hw : w ∈ u.path := by simp [hpath]
  have hat := h.clusterAt?_clusterOf hw hnone w.id
  have habove : (memo.clusterOf w.rule w.id).2.above memo.clusters.size = [] := by
    rw [Memo.above, Memo.callPath_eq (h.found hw hnone).linked, hpath, List.map_cons]
    refine List.takeWhile_cons_of_neg ?_
    rw [if_pos rfl] at hat
    simpa [Memo.clusterAt?] using hat
  have hnew : (memo.clusterOf w.rule w.id).1 = memo.clusters.size := by
    rw [Memo.clusterOf_of_none _ hnone]
  rw [Memo.markLeftRecursion]
  dsimp only
  rw [hnew, habove]
  rfl

/-- If the application on top is another one, it joins the new cluster of the one below it. -/
theorem Accounts.markLeftRecursion_second (hpath : u.path = f :: w :: rest) (hne : f.id ≠ w.id)
    (hf : memo.clusterAt? f.id = none) :
    memo.markLeftRecursion w.rule w.id
      = (memo.clusterOf w.rule w.id).2.join memo.clusters.size f.id := by
  have hw : w ∈ u.path := by simp [hpath]
  have hat := h.clusterAt?_clusterOf hw hnone
  have habove : (memo.clusterOf w.rule w.id).2.above memo.clusters.size = [f.id] := by
    rw [Memo.above, Memo.callPath_eq (h.found hw hnone).linked, hpath, List.map_cons, List.map_cons]
    have hfat := hat f.id
    have hwat := hat w.id
    rw [if_neg hne, hf] at hfat
    rw [if_pos rfl] at hwat
    have hfout : ((memo.clusterOf w.rule w.id).2.application? f.id).bind (·.cluster) = none := hfat
    rw [List.takeWhile_cons_of_pos, List.takeWhile_cons_of_neg]
    · simpa [Memo.clusterAt?] using hwat
    · simp [hfout]
  have hnew : (memo.clusterOf w.rule w.id).1 = memo.clusters.size := by
    rw [Memo.clusterOf_of_none _ hnone]
  rw [Memo.markLeftRecursion]
  dsimp only
  rw [hnew, habove]
  rfl

/-- A new cluster has nothing to do with what else is under way. -/
theorem Memo.Spares.clusterOf (hpath : ∀ w' ∈ v.path, w' ∈ u.path ∧ w'.id ≠ w.id)
    (hgrown : ∀ g ∈ v.grown, g ∈ u.grown) : memo.Spares v (memo.clusterOf w.rule w.id).2 where
  records w' hw' := by
    obtain ⟨hmem, hne⟩ := hpath w' hw'
    refine ⟨?_, fun c hc => ?_⟩
    · rw [Memo.clusterOf_of_none _ hnone]
      exact Array.getElem?_modify.trans (if_neg (Ne.symm hne))
    · obtain ⟨-, cluster, hcluster, -⟩ := h.clustered w' hmem c hc
      rw [Accounts.clusters_clusterOf hnone, if_neg (Accounts.ne_size_of_cluster hcluster)]
  grown g hg := by
    obtain ⟨-, cluster, hcluster⟩ := h.grown g (hgrown g hg)
    rw [Accounts.clusters_clusterOf hnone, if_neg (Accounts.ne_size_of_cluster hcluster)]

omit hnone in
/-- An application that joins a cluster leaves alone what does not belong to it. -/
theorem Memo.Spares.join (hf : f ∈ u.path) (hpath : ∀ w' ∈ v.path, w'.id ≠ f.id ∧ memo.clusterAt? w'.id ≠ some c)
    (hgrown : ∀ g ∈ v.grown, g.cluster ≠ c) : memo.Spares v (memo.join c f.id) := by
  obtain ⟨a, ha, -⟩ := h.record hf
  rw [Memo.join_of_record ha]
  have hjoined : memo.Spares v (memo.modifyApplication f.id fun a => { a with cluster := some c }) :=
    ⟨fun w' hw' => ⟨Array.getElem?_modify.trans (if_neg (Ne.symm (hpath w' hw').1)), fun _ _ => rfl⟩,
      fun _ _ => rfl⟩
  exact hjoined.change (fun w' hw' => (hpath w' hw').2) hgrown _

end Marking

open Stage (direct detour)

/-- Either the rule does not wait, or it was entered last, and the further rule right behind it. -/
theorem Stage.top_cases (stages : List Stage) :
    (∀ id outer inner start, Stage.entered id outer inner start ∉ stages) ∨
      ∃ id outer inner start rest rest', .entered id outer inner start ∈ stages ∧
        (direct stages).path = ⟨id, 0, start⟩ :: rest ∧
          (detour stages).path = ⟨inner, 1, start⟩ :: ⟨outer, 0, start⟩ :: rest' := by
  induction stages with
  | nil => exact .inl fun _ _ _ _ => List.not_mem_nil
  | cons stage stages ih =>
    cases stage with
    | entered id outer inner start =>
      exact .inr ⟨id, outer, inner, start, _, _, List.mem_cons_self, rfl, rfl⟩
    | grown c c' start =>
      obtain hnone | ⟨id, outer, inner, start', rest, rest', hmem, hpath, hpath'⟩ := ih
      · refine .inl fun id outer inner start' hmem => ?_
        rcases List.mem_cons.1 hmem with heq | hmem
        · cases heq
        · exact hnone _ _ _ _ hmem
      · exact .inr ⟨id, outer, inner, start', rest, rest', List.mem_cons_of_mem _ hmem, hpath, hpath'⟩

/-- What is grown at one of the stages is grown at all of them together. -/
theorem Stage.mem_grown_alone {stage : Stage} (hstage : stage ∈ stages) :
    (∀ g ∈ (direct [stage]).grown, g ∈ (direct stages).grown) ∧
      ∀ g ∈ (detour [stage]).grown, g ∈ (detour stages).grown := by
  refine ⟨fun g hg => ?_, fun g hg => ?_⟩
  · obtain ⟨c, c', start, hmem, rfl⟩ := mem_grown_direct.1 hg
    exact mem_grown_direct.2 ⟨c, c', start, List.mem_singleton.1 hmem ▸ hstage, rfl⟩
  · obtain ⟨c, c', start, hmem, rfl⟩ := mem_grown_detour.1 hg
    exact mem_grown_detour.2 ⟨c, c', start, List.mem_singleton.1 hmem ▸ hstage, rfl⟩

section ComingBack

variable (ha : Accounts rules text (direct stages) memo) (ha' : Accounts rules' text (detour stages) memo')
  {id outer inner pos : Nat} (hmem : Stage.entered id outer inner pos ∈ stages)

include ha ha' hmem

/-- Different applications of the rule wait in different stages. -/
theorem Stage.eq_of_id_eq {id' outer' inner' start' : Nat}
    (hmem' : Stage.entered id' outer' inner' start' ∈ stages)
    (hsame : id' = id ∨ outer' = outer ∨ inner' = inner) :
    Stage.entered id' outer' inner' start' = .entered id outer inner pos := by
  have hw := mem_path_direct.2 ⟨id, outer, inner, pos, hmem, rfl⟩
  have hw' := mem_path_direct.2 ⟨id', outer', inner', start', hmem', rfl⟩
  have ho := mem_path_detour.2 ⟨id, outer, inner, pos, hmem, .inr rfl⟩
  have ho' := mem_path_detour.2 ⟨id', outer', inner', start', hmem', .inr rfl⟩
  have hi := mem_path_detour.2 ⟨id, outer, inner, pos, hmem, .inl rfl⟩
  have hi' := mem_path_detour.2 ⟨id', outer', inner', start', hmem', .inl rfl⟩
  have hstart : start' = pos := by
    rcases hsame with heq | heq | heq
    · exact (ha.spot_eq hw' hw heq).2
    · exact (ha'.spot_eq ho' ho heq).2
    · exact (ha'.spot_eq hi' hi heq).2
  have hid : id' = id := ha.id_eq hw' hw rfl hstart
  have houter : outer' = outer := ha'.id_eq ho' ho rfl hstart
  have hinner : inner' = inner := ha'.id_eq hi' hi rfl hstart
  rw [hid, houter, hinner, hstart]

/-- The rule that waits at the cursor was entered last. -/
theorem Stage.top_of_entered (ho : (direct stages).Orderly rules pos) : ∃ rest rest',
    (direct stages).path = ⟨id, 0, pos⟩ :: rest ∧
      (detour stages).path = ⟨inner, 1, pos⟩ :: ⟨outer, 0, pos⟩ :: rest' := by
  obtain hnone | ⟨id₀, outer₀, inner₀, start₀, rest, rest', hmem₀, hpath, hpath'⟩ := top_cases stages
  · exact absurd hmem (hnone _ _ _ _)
  have hw : ⟨id, 0, pos⟩ ∈ (direct stages).path := mem_path_direct.2 ⟨id, outer, inner, pos, hmem, rfl⟩
  have htop : ⟨id₀, 0, start₀⟩ ∈ (direct stages).path :=
    mem_path_direct.2 ⟨id₀, outer₀, inner₀, start₀, hmem₀, rfl⟩
  have hle : pos ≤ start₀ := by
    have hlater := hpath ▸ ho.later
    rw [hpath] at hw
    rcases List.mem_cons.1 hw with heq | hrest
    · cases heq
      exact Nat.le_refl _
    · exact ((List.pairwise_cons.1 hlater).1 _ hrest).2
  have hstart : start₀ = pos := Nat.le_antisymm (ho.waiting_le htop) hle
  have hid : id₀ = id := ha.id_eq htop hw rfl hstart
  cases eq_of_id_eq ha ha' hmem hmem₀ (.inl hid)
  exact ⟨rest, rest', hpath, hpath'⟩

/-- What waits in other stages is not of the stage. -/
theorem Stage.ne_of_other {stage : Stage} (hstage : stage ∈ stages) (hne : stage ≠ .entered id outer inner pos) :
    (∀ w ∈ (direct [stage]).path, w ∈ (direct stages).path ∧ w.id ≠ id) ∧
      ∀ w ∈ (detour [stage]).path, w ∈ (detour stages).path ∧ w.id ≠ outer ∧ w.id ≠ inner := by
  have hids {id' outer' inner' start' : Nat} (h : Stage.entered id' outer' inner' start' ∈ [stage]) :
      Stage.entered id' outer' inner' start' ∈ stages ∧ id' ≠ id ∧ outer' ≠ outer ∧ inner' ≠ inner := by
    have heq := List.mem_singleton.1 h
    have hmem' := heq ▸ hstage
    have hout (hsame : id' = id ∨ outer' = outer ∨ inner' = inner) : False :=
      hne (heq ▸ eq_of_id_eq ha ha' hmem hmem' hsame)
    exact ⟨hmem', fun h => hout (.inl h), fun h => hout (.inr (.inl h)), fun h => hout (.inr (.inr h))⟩
  have hi := mem_path_detour.2 ⟨id, outer, inner, pos, hmem, .inl rfl⟩
  have ho := mem_path_detour.2 ⟨id, outer, inner, pos, hmem, .inr rfl⟩
  refine ⟨fun w hw => ?_, fun w hw => ?_⟩
  · obtain ⟨id', outer', inner', start', h, rfl⟩ := mem_path_direct.1 hw
    obtain ⟨hmem', hid, -⟩ := hids h
    exact ⟨mem_path_direct.2 ⟨_, _, _, _, hmem', rfl⟩, hid⟩
  · obtain ⟨id', outer', inner', start', h, hw'⟩ := mem_path_detour.1 hw
    obtain ⟨hmem', -, houter, hinner⟩ := hids h
    have hpath := mem_path_detour.2 ⟨_, _, _, _, hmem', hw'⟩
    -- the two rules have different records, since they are different rules
    rcases hw' with rfl | rfl
    · exact ⟨hpath, fun heq => absurd (ha'.spot_eq hpath ho heq).1 Nat.one_ne_zero, hinner⟩
    · exact ⟨hpath, houter, fun heq => absurd (ha'.spot_eq hpath hi heq).1 Nat.zero_ne_one⟩

section New

variable (hnone : memo.clusterAt? id = none) (hnone' : memo'.clusterAt? outer = none)

include hnone hnone'

/-- The stage of the rule that comes back to itself tallies with a new cluster. -/
theorem Stage.Tallies.mark_self (hseed : memo.Barren id) (hseed' : memo'.Barren outer) :
    (Stage.entered id outer inner pos).Tallies (memo.clusterOf 0 id).2
      ((memo'.clusterOf 0 outer).2.join memo'.clusters.size inner) := by
  have hw := mem_path_direct.2 ⟨id, outer, inner, pos, hmem, rfl⟩
  have hi := mem_path_detour.2 ⟨id, outer, inner, pos, hmem, .inl rfl⟩
  have ho := mem_path_detour.2 ⟨id, outer, inner, pos, hmem, .inr rfl⟩
  have hne : outer ≠ inner := fun heq => absurd (ha'.spot_eq ho hi heq).1 Nat.zero_ne_one
  have hfound := ha'.found ho hnone'
  refine ⟨hseed.frame (.clusterOf memo 0 id),
    hseed'.frame ((Memo.Frame.clusterOf memo' 0 outer).trans (.join _ memo'.clusters.size inner)),
    .inr ⟨memo.clusters.size, memo'.clusters.size, ⟨?_, ?_⟩, ?_, ?_, ?_⟩⟩
  · exact (ha.clusterAt?_clusterOf hw hnone id).trans (if_pos rfl)
  · exact (Accounts.clusters_clusterOf (w := ⟨id, 0, pos⟩) hnone _).trans (if_pos rfl)
  · refine (hfound.clusterAt?_join hi _ outer).trans ((if_neg hne).trans ?_)
    exact (ha'.clusterAt?_clusterOf ho hnone' outer).trans (if_pos rfl)
  · exact (hfound.clusterAt?_join hi _ inner).trans (if_pos rfl)
  · refine (hfound.clusters_join hi _ _).trans ?_
    rw [Accounts.clusters_clusterOf (w := ⟨outer, 0, pos⟩) hnone', if_pos rfl, Option.map_some, if_pos rfl]
    rfl

/-- The other stages tally as before. -/
theorem Stage.Tallies.mark_other {stage : Stage} (h : stage.Tallies memo memo') (hstage : stage ∈ stages)
    (hne : stage ≠ .entered id outer inner pos) : stage.Tallies (memo.clusterOf 0 id).2
      ((memo'.clusterOf 0 outer).2.join memo'.clusters.size inner) := by
  have ho := mem_path_detour.2 ⟨id, outer, inner, pos, hmem, .inr rfl⟩
  have hi := mem_path_detour.2 ⟨id, outer, inner, pos, hmem, .inl rfl⟩
  obtain ⟨hother, hother'⟩ := ne_of_other ha ha' hmem hstage hne
  obtain ⟨hgrown, hgrown'⟩ := mem_grown_alone hstage
  have hat := ha'.clusterAt?_clusterOf ho hnone'
  have hspares : memo.Spares (direct [stage]) (memo.clusterOf 0 id).2 :=
    .clusterOf ha (w := ⟨id, 0, pos⟩) hnone hother hgrown
  have hspares' : memo'.Spares (detour [stage]) (memo'.clusterOf 0 outer).2 :=
    .clusterOf ha' (w := ⟨outer, 0, pos⟩) hnone' (fun w hw => ⟨(hother' w hw).1, (hother' w hw).2.1⟩) hgrown'
  refine h.spared (List.mem_singleton_self _) hspares (hspares'.trans ?_)
  refine .join (ha'.found ho hnone') hi (fun w hw => ?_) fun g hg => ?_
  · obtain ⟨hwaits, houter, hinner⟩ := hother' w hw
    refine ⟨hinner, fun hc => ?_⟩
    rw [hat, if_neg houter] at hc
    obtain ⟨-, cluster, hcluster, -⟩ := ha'.clustered w hwaits _ hc
    exact Accounts.ne_size_of_cluster hcluster rfl
  · obtain ⟨-, cluster, hcluster⟩ := ha'.grown g (hgrown' g hg)
    exact Accounts.ne_size_of_cluster hcluster

end New

/-- The rule comes back to itself on both sides. If that was not known before, both sides have a new cluster,
and the further rule joins the one on the second side. -/
theorem Paired.mark (h : Paired stages memo memo') (ho : (direct stages).Orderly rules pos) :
    Paired stages (memo.markLeftRecursion 0 id) (memo'.markLeftRecursion 0 outer) := by
  obtain ⟨rest, rest', hpath, hpath'⟩ := Stage.top_of_entered ha ha' hmem ho
  have hfind (rule start : Nat) : (memo.markLeftRecursion 0 id).find? rule start = memo.find? rule start := by
    rw [Memo.find?, Memo.entries_markLeftRecursion, Memo.find?]
  have hfind' (rule start : Nat) :
      (memo'.markLeftRecursion 0 outer).find? rule start = memo'.find? rule start := by
    rw [Memo.find?, Memo.entries_markLeftRecursion, Memo.find?]
  refine ⟨fun start => ?_, fun start => ?_, ?_⟩
  · unfold SameEntry
    rw [hfind, hfind']
    exact h.entries start
  · rw [hfind', hfind']
    exact h.behind start
  obtain ⟨hseed, hseed', ⟨hnone, hnone', hnone''⟩ | ⟨c, c', ⟨hc, -⟩, hc', hc'', -⟩⟩ := h.tallies _ hmem
  · have hi := Stage.mem_path_detour.2 ⟨id, outer, inner, pos, hmem, .inl rfl⟩
    have ho := Stage.mem_path_detour.2 ⟨id, outer, inner, pos, hmem, .inr rfl⟩
    have hne : inner ≠ outer := fun heq => absurd (ha'.spot_eq hi ho heq).1 Nat.one_ne_zero
    rw [ha.markLeftRecursion_top (w := ⟨id, 0, pos⟩) hnone hpath,
      ha'.markLeftRecursion_second (w := ⟨outer, 0, pos⟩) hnone' hpath' hne hnone'']
    intro stage hstage
    by_cases heq : stage = .entered id outer inner pos
    · exact heq ▸ .mark_self ha ha' hmem hnone hnone' hseed hseed'
    · exact (h.tallies stage hstage).mark_other ha ha' hmem hnone hnone' hstage heq
  · rw [ha.markLeftRecursion_of_joined (w := ⟨id, 0, pos⟩) hpath hc hc,
      ha'.markLeftRecursion_of_joined (w := ⟨outer, 0, pos⟩) hpath' hc'' hc']
    exact h.tallies

end ComingBack

section LookingUp

/-- On the first side, no rule is ever about to be applied again, and the first one is never refused. -/
theorem Paired.free_direct (h : Paired stages memo memo') (ha : Accounts rules text (direct stages) memo)
    (rule start : Nat) : memo.NotDue rule start ∧ ¬ memo.Refuses 0 start := by
  have hgrown (c : Nat) (cluster : Cluster) (hg : memo.growing[start]? = some c)
      (hcluster : memo.clusters[c]? = some cluster) : cluster = ⟨0, [], []⟩ := by
    obtain ⟨g, hmem, -, rfl⟩ := ha.exists_growth hg
    obtain ⟨c, c', start', hstage, rfl⟩ := Stage.mem_grown_direct.1 hmem
    obtain ⟨hdirect, -⟩ := h.tallies _ hstage
    rw [hdirect] at hcluster
    exact (Option.some.inj hcluster).symm
  refine ⟨fun c cluster hg hcluster => ?_, ?_⟩
  · rw [hgrown c cluster hg hcluster]
    exact List.not_mem_nil
  · rintro ⟨c, cluster, hgrowing, -, hhead, -⟩
    obtain ⟨hg, hcluster⟩ := Matcher.growing?_eq_some.1 hgrowing
    exact hhead (hgrown c cluster hg hcluster ▸ rfl)

/-- The same holds on the second side of both rules, unless a round has just begun. -/
theorem Paired.free_detour (h : Paired stages memo memo') (ha : Accounts rules text (detour stages) memo')
    (rule start : Nat) : memo'.NotDue rule start ∧ (rule = 0 ∨ rule = 1 → ¬ memo'.Refuses rule start) := by
  have hgrown (c : Nat) (cluster : Cluster) (hg : memo'.growing[start]? = some c)
      (hcluster : memo'.clusters[c]? = some cluster) : cluster = ⟨0, [1], []⟩ := by
    obtain ⟨g, hmem, -, rfl⟩ := ha.exists_growth hg
    obtain ⟨c, c', start', hstage, rfl⟩ := Stage.mem_grown_detour.1 hmem
    obtain ⟨-, hdetour⟩ := h.tallies _ hstage
    rw [hdetour] at hcluster
    exact (Option.some.inj hcluster).symm
  refine ⟨fun c cluster hg hcluster => ?_, ?_⟩
  · rw [hgrown c cluster hg hcluster]
    exact List.not_mem_nil
  · rintro hrule ⟨c, cluster, hgrowing, -, hhead, hmember⟩
    obtain ⟨hg, hcluster⟩ := Matcher.growing?_eq_some.1 hgrowing
    cases hgrown c cluster hg hcluster
    rcases hrule with rfl | rfl
    · exact hhead rfl
    · exact hmember List.mem_cons_self

/-- Where a cluster is grown whose only other member is the further rule, that is due at the start of a round. -/
theorem Paired.due {c c' start : Nat}
    (h : Paired (.grown c c' start :: stages) memo ((memo'.refill c').redo c' 1)) :
    (memo'.refill c').clusters[c']? = some ⟨0, [1], [1]⟩ := by
  obtain ⟨-, hcluster⟩ := h.tallies _ List.mem_cons_self
  rw [Memo.redo, Memo.clusters_modifyCluster, Memo.refill, Memo.clusters_modifyCluster] at hcluster
  rw [Memo.refill, Memo.clusters_modifyCluster]
  cases hfound : memo'.clusters[c']? with
  | none => simp [hfound] at hcluster
  | some cluster =>
    obtain ⟨head, involved, pending⟩ := cluster
    simp [hfound] at hcluster
    obtain ⟨rfl, rfl, -⟩ := hcluster
    simp

end LookingUp

end Packrat
