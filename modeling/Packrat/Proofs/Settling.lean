import Packrat.Proofs.Settled

/-!
# Settled answers stay

The regime under which settled answers stay, and under which a rule that is applied where nothing is under
way has its answer remembered. For the head of a cluster this takes that its match stays within every round
of growing, which is the same regime with the head pinned; so a body is matched under both.
-/

namespace Packrat

open Matcher Course

/-- The regime under which settled answers stay. A spot that is pinned is grown by something that is under
way. Without a pinned spot, what a rule comes to is remembered where nothing is under way. -/
def Regime.settling (table : RuleTable) (text : Text) (pin : Option Spot) : Regime table text where
  lenient := (· = .spent)
  slices := False
  Holds u memo := memo.Composed u ∧ ∀ spot, pin = some spot → ∃ g ∈ u.grown,
    g.head = spot.rule ∧ g.start = spot.start
  Leads u memo memo' := Memo.Persists pin u memo u memo'
  May _ _ _ _ := True
  Matches u _ _ memo _ _ memo' := pin = none → ∀ g ∈ u.grown,
    Memo.Persists (some ⟨g.start, g.head⟩) u memo u memo'
  Answers u rule start _ result stop memo' := pin = none → u.Quiet start →
    memo'.find? rule start = some ⟨.done result, stop⟩
  Grows u rule start c memo tree stop before := ¬ u.Busy rule start ∧
    before.find? rule start = some ⟨.done (.ok tree), stop⟩ ∧
      Memo.Persists pin u memo (u.grow c rule start) before
  refl u memo := .refl pin u memo
  trans h h' := h.trans h'

section Lawful

variable {table : RuleTable} {text : Text} {pin : Option Spot} {u : Underway} {memo memo' : Memo}
  {rule start c : Nat}

/-- Where a cluster is registered, something is under way. -/
theorem Accounts.not_quiet {rules : Nat} (ha : Accounts rules text u memo)
    (hg : memo.growing[start]? = some c) : ¬ u.Quiet start := by
  intro hquiet
  obtain ⟨g, hmem, hstart, -⟩ := ha.exists_growth hg
  exact hquiet.grown g hmem hstart

/-- A member that is applied again is not settled, neither before nor afterwards. -/
theorem Memo.unsettled_of_due {rules : Nat} (ha : Accounts rules text u memo) (hcomposed : memo.Composed u)
    {cluster : Cluster} (hg : memo.growing[start]? = some c) (hfound : memo.clusters[c]? = some cluster)
    (hdue : rule ∈ cluster.pending) (hshrinks : Shrinks u memo memo') :
    memo'.Unsettled pin u rule start := by
  obtain ⟨g, hmem, hstart, rfl⟩ := ha.exists_growth hg
  obtain ⟨cluster', hcluster', hinvolved, -⟩ := hshrinks g hmem cluster hfound
  obtain ⟨-, hmembers⟩ := hcomposed.grown g hmem cluster hfound
  exact .inr ⟨g, hmem, hstart, .inl ⟨cluster', hcluster', hinvolved ▸ hmembers rule hdue⟩⟩

/-- Where only its cluster is under way, the head that is grown is settled if it is pinned. -/
theorem Memo.settled_pinned (hcomposed : memo.Composed (u.grow c rule start)) (hquiet : u.Quiet start)
    {answer : Except Cause Tree} {stop : Nat}
    (hfind : memo.find? rule start = some ⟨.done answer, stop⟩) :
    memo.Settled (some ⟨start, rule⟩) (u.grow c rule start) rule start answer stop := by
  refine ⟨hfind, fun hunsettled => ?_⟩
  rcases hunsettled with ⟨w, hw, hstart, -⟩ | ⟨g, hg, hstart, hhow⟩
  · exact hquiet.path w hw hstart
  · rcases List.mem_cons.1 hg with rfl | hg
    · rcases hhow with ⟨cluster, hcluster, hmem⟩ | ⟨-, hpin⟩
      · have hhead := (hcomposed.grown _ List.mem_cons_self cluster hcluster).1
        have hapart := hcomposed.apart c cluster hcluster
        rw [hhead] at hapart
        exact hapart hmem
      · exact hpin rfl
    · exact hquiet.grown g hg hstart

/-- What is settled when a rule is entered still is when its body has been matched. -/
theorem Regime.Entered.persists_enter {cause : Cause} {result : Except Cause Tree} {stop : Nat}
    (h : (Regime.settling table text pin).Entered u rule start memo cause result stop memo') :
    Memo.Persists pin u memo (u.enter memo.applications.size rule start) memo' :=
  (Memo.Persists.enter h.entering.stale).trans h.goes.leads

/-- Every match goes on under the regime that keeps settled answers. -/
theorem Regime.lawful_settling (table : RuleTable) (text : Text) (pin : Option Spot) :
    (Regime.settling table text pin).Lawful where
  count _ h := ⟨⟨h.1.congr rfl fun _ hg => hg, h.2⟩, .of_eq rfl rfl rfl rfl fun _ _ hm => hm⟩
  may_count _ _ := trivial
  answers_count _ h := h
  hit _ _ hf _ _ := hf
  refused _ ha hrefuses _ hquiet := by
    obtain ⟨c, cluster, hgrowing, -⟩ := hrefuses
    obtain ⟨c', hg, -⟩ := Option.bind_eq_some_iff.1 hgrowing
    exact absurd hquiet (ha.fits.accounts.not_quiet hg)
  recurs := by
    rintro u rule start memo w a ha hw rfl rfl -
    obtain ⟨hcomposed, hpersists⟩ : (memo.markLeftRecursion w.rule w.id).Composed u ∧
        Memo.Persists pin u memo u (memo.markLeftRecursion w.rule w.id) :=
      Memo.marked ha.fits.holds.1 ha.fits.accounts ha.orderly hw rfl
    exact ⟨⟨hcomposed, ha.fits.holds.2⟩, hpersists, fun _ hquiet => absurd rfl (hquiet.path w hw)⟩
  redo h := ⟨(h.fits.holds.1.redo _ _).congr rfl fun _ hg => hg, h.fits.holds.2⟩
  redone := by
    intro u rule start c cluster memo result stop memo' h _ _ hgoes _
    have hshrinks : Shrinks u memo memo' := (Shrinks.erase c rule).trans hgoes.shrinks
    have hunsettled : memo'.Unsettled pin u rule start :=
      Memo.unsettled_of_due h.fits.accounts h.fits.holds.1 h.growing h.found h.due hshrinks
    have hkept : Memo.Persists pin u memo u (memo'.remember rule start (.done result) stop) :=
      (Memo.Persists.redo.trans hgoes.leads).trans (.redone hunsettled)
    exact ⟨⟨hgoes.fits.holds.1.congr rfl fun _ hg => hg, hgoes.fits.holds.2⟩, hkept,
      fun _ hquiet => absurd hquiet (h.fits.accounts.not_quiet h.growing)⟩
  enter _ h := ⟨h.fits.holds.1.congr rfl fun _ hg => hg, h.fits.holds.2⟩
  left := by
    intro u rule start memo cause result stop memo' h _
    have ha := h.goes.fits.accounts
    refine ⟨⟨h.goes.fits.holds.1.congr (Memo.clusters_release ..) fun _ hg => hg, h.goes.fits.holds.2⟩,
      h.persists_enter.trans (.leave ha result stop), fun _ _ => Memo.find?_remember_self ..⟩
  member := by
    intro u rule start memo cause result stop memo' c found h hc hfound hhead
    have ha := h.goes.fits.accounts
    refine ⟨⟨h.goes.fits.holds.1.congr rfl fun _ hg => hg, h.goes.fits.holds.2⟩,
      h.persists_enter.trans (.leaveSeeded ha result stop), fun _ hquiet => ?_⟩
    -- the head of the cluster waits at the offset, and is another rule
    obtain ⟨-, cluster, hcluster, head, hmem, -, -, hrule, hstart⟩ :=
      ha.clustered _ List.mem_cons_self c hc
    rw [hfound] at hcluster
    cases hcluster
    rcases List.mem_cons.1 hmem with rfl | hmem
    · exact absurd hrule.symm hhead
    · exact absurd hstart (hquiet.path head hmem)
  failed := by
    intro u rule start memo cause cause' stop memo' c found h hc hfound hhead
    have ha := h.goes.fits.accounts
    obtain ⟨hfresh, -⟩ := h.apart hc hfound
    have hseeded : (memo'.leaveSeeded memo.applications.size rule start (.error cause') stop).Composed u :=
      h.goes.fits.holds.1.congr rfl fun _ hg => hg
    refine ⟨⟨hseeded.failHead hfresh .., h.goes.fits.holds.2⟩,
      h.persists_enter.trans (.failHead ha hc hfound cause' stop), fun _ _ => ?_⟩
    have hout : rule ∉ found.involved := hhead ▸ h.goes.fits.holds.1.apart c found hfound
    exact Memo.find?_failHead _ stop c cause' hout
  grow := by
    intro u rule start memo cause tree stop memo' c found h hc hfound hhead grown hgrown
    subst hgrown
    have ha := h.goes.fits.accounts
    have hleft : (memo'.leaveHead memo.applications.size rule start tree stop).Composed u :=
      h.goes.fits.holds.1.congr rfl fun _ hg => hg
    have hfound' : (memo'.leaveHead memo.applications.size rule start tree stop).clusters[c]?
        = some found := hfound
    refine ⟨⟨hleft.grow hfound' hhead, fun spot hspot => ?_⟩, h.entering.free,
      Memo.find?_remember_self .., h.persists_enter.trans (.grow ha hc tree stop)⟩
    obtain ⟨g, hg, hat⟩ := h.goes.fits.holds.2 spot hspot
    exact ⟨g, List.mem_cons_of_mem _ hg, hat⟩
  grew := by
    intro u rule start c memo best stop before tree reached after h hlt refilled hrefilled
    subst hrefilled
    obtain ⟨hfree, -, hpersists⟩ := h.grows
    have hpin : pin ≠ some ⟨start, rule⟩ := fun hpin => by
      obtain ⟨g, hg, hat⟩ := h.applying.fits.holds.2 _ hpin
      exact hfree (.inr ⟨g, hg, hat⟩)
    have hround : Memo.Persists pin (u.grow c rule start) before (u.grow c rule start) after :=
      h.goes.leads
    have hleads := hround.trans (.grew hpin tree reached)
    have hcomposed : (after.longer rule start tree reached).Composed (u.grow c rule start) :=
      h.goes.fits.holds.1.congr rfl fun _ hg => hg
    exact ⟨⟨hcomposed.refill c, h.goes.fits.holds.2⟩, hleads, hfree, Memo.find?_remember_self ..,
      hpersists.trans hleads⟩
  settled := by
    intro u rule start c memo best stop before result reached after h hshort
    obtain ⟨hfree, hbest, hpersists⟩ := h.grows
    have hcomposed := h.goes.fits.holds.1
    refine ⟨⟨hcomposed.endGrowth _, h.applying.fits.holds.2⟩,
      (hpersists.trans h.goes.leads).trans (.endGrowth hcomposed _), fun hpin hquiet => ?_⟩
    -- the head is pinned for the last round
    have hpinned := h.body hpin ⟨c, rule, start⟩ List.mem_cons_self
    have hsettled := Memo.settled_pinned h.fits.holds.1 hquiet hbest
    exact (Memo.Persists.endGrowth hcomposed _ _ _ _ _ (hpinned _ _ _ _ hsettled)).known

end Lawful

end Packrat
