import Packrat.Proofs.Concord
import Packrat.Proofs.Settling
import Packrat.Proofs.Termination

/-!
# Answers within one parse

Whenever a rule is applied at an offset where nothing is under way, it gives the same answer, whatever was
matched in between.
-/

namespace Packrat

open Matcher Course

namespace Matcher

/-- What a step ensures in each of several ways it ensures in all of them at once. -/
theorem Ensures.all {ι : Sort _} {α : Type} {lenient : Stop → Prop} {step : Matcher α} {s : Session}
    {post : ι → Except Cause α → Session → Prop} (h : ∀ i, Ensures lenient step s (post i)) :
    Ensures anyhow step s fun r s' => ∀ i, post i r s' := by
  unfold Ensures at h ⊢
  cases hr : step s with
  | stopped reason => trivial
  | failed cause s' => simpa only [hr] using h
  | matched value s' => simpa only [hr] using h

end Matcher

section Settling

variable {table : RuleTable} {text : Text} {pin : Option Spot} {u : Underway} {depth : Nat}

/-- While it is watched what is settled, nothing is asked of slices and labels, and a spent
bound is put up with. -/
theorem Regime.lax_settling (u : Underway) (depth : Nat) :
    ((Regime.settling table text pin).course u depth).Lax := ⟨id, rfl, id⟩

/-- A match that can start with no spot pinned can start with a head pinned that is being grown. -/
theorem Regime.start_pinned {s : Session} {g : Growth} (hg : g ∈ u.grown)
    (hs : ((Regime.settling table text none).course u depth).Start s) :
    ((Regime.settling table text (some ⟨g.start, g.head⟩)).course u depth).Start s := by
  obtain ⟨ho, ⟨haccounts, hintact, hcomposed, -⟩, hroom⟩ := hs.memo
  refine ⟨⟨hs.text, hs.boundary, hs.bodies, hs.labels, ho, ⟨haccounts, hintact, hcomposed, ?_⟩, hroom⟩,
    hs.captures⟩
  intro spot hspot
  cases hspot
  exact ⟨g, hg, rfl, rfl⟩

/-- A body that ends whatever is pinned keeps answers settled, with each head that is grown pinned. -/
theorem Regime.bodies_settling {r : RuleBody}
    (h : ∀ pin u', ((Regime.settling table text pin).course u' depth).Ends r.body) :
    (Regime.settling table text pin).Bodies u depth r := by
  intro u' s _ hs
  have hends := h pin u' s hs
  cases pin with
  | some spot => exact hends.mono fun _ _ he => ⟨he, fun hpin => by cases hpin⟩
  | none =>
    have hpinned (g : { g // g ∈ u'.grown }) :=
      h (some ⟨g.1.start, g.1.head⟩) u' s (start_pinned g.2 hs)
    refine (hends.and (Ensures.all hpinned)).mono fun result s' he => ⟨he.1, fun _ g hg => ?_⟩
    exact ((he.2 ⟨g, hg⟩).passes.memo (start_pinned hg hs).memo.fits).leads

/-- References end, whatever is pinned. -/
theorem ends_settling (pin : Option Spot) (u : Underway) (depth : Nat) (ref : RuleRef) :
    ((Regime.settling table text pin).course u depth).Ends (table.applyRule depth ref) := by
  induction depth generalizing pin u ref with
  | zero => exact fun s hs => absurd hs.memo.room (Nat.not_lt_zero _)
  | succ depth ih =>
    intro s hs
    have hbody (index : Nat) (atom : Atom) :
        (Regime.settling table text pin).Bodies u depth ⟨index, ref.name, do
          flatten false (← atom.matcher (table.applyRule depth))⟩ :=
      Regime.bodies_settling fun pin u' =>
        (ends_matcher (Regime.lax_settling u' depth) (ih pin u') atom).andThen fun raw hr =>
          ends_flatten false hr
    have happlied := ensures_applyRef hs (fun _ _ _ => True)
      fun index atom bodies trace hatom hstart => (Regime.answers_memoized (Regime.lawful_settling ..)
        (hbody index atom) (RuleTable.index_lt_of_bodyAt? hatom) hstart trivial).mono
          fun _ _ h => ⟨h.1, trivial⟩
    rw [RuleTable.applyRule_succ]
    exact happlied.mono fun _ _ h => h.1

/-- The bodies of rules keep answers settled, whatever is pinned. -/
theorem Regime.bodies_rules (pin : Option Spot) (u : Underway) (depth rule : Nat) (name : String)
    (atom : Atom) : (Regime.settling table text pin).Bodies u depth
      ⟨rule, name, do flatten false (← atom.matcher (table.applyRule depth))⟩ :=
  Regime.bodies_settling fun pin u' => (ends_matcher (Regime.lax_settling u' depth)
    (ends_settling pin u' depth) atom).andThen fun _ hr => ends_flatten false hr

end Settling

section Families

variable {table : RuleTable} {text : Text} {u : Underway} {depth rule : Nat} {name : String}
  {asked : Spot} {bodies : Except Cause Tree × Nat → Matcher Tree} {body : Matcher Tree} {s : Session}

/-- The rule has the answer at the offset, for good. -/
def Memo.Tells (asked : Spot) (u : Underway) (answer : Except Cause Tree × Nat) (memo : Memo) : Prop :=
  memo.Settled none u asked.rule asked.start answer.1 answer.2

/-- The bodies concur in the rounds of growing a cluster, so growing does. -/
theorem concurs_growFrom {start c : Nat} (bound : Nat) {memo : Memo}
    (hconcord : ∀ u', ((Regime.settling table text none).course u' depth).Concord
      (Memo.Tells asked u') bodies body)
    (hbody : (Regime.settling table text none).Bodies u depth ⟨rule, name, body⟩)
    (happlying : (Regime.settling table text none).Applying u rule start memo)
    (hfresh : ∀ g ∈ u.grown, g.cluster ≠ c) {best : Tree} {stop : Nat}
    (hgrows : (Regime.settling table text none).Grows u rule start c memo best stop (s.memo.refill c))
    (hs : ((Regime.settling table text none).course (u.grow c rule start) depth).Start
      { s with source.pos := start, memo := s.memo.refill c }) :
    Concurs (Memo.Tells asked (u.grow c rule start) · (s.memo.refill c))
      (fun answer s' => Memo.Tells asked (u.grow c rule start) answer s'.memo)
      (fun answer => growFrom ⟨rule, name, bodies answer⟩ start c bound best stop)
      (growFrom ⟨rule, name, body⟩ start c bound best stop) s := by
  induction bound generalizing s best stop with
  | zero => exact .same fun _ _ => trivial
  | succ bound ih =>
    have hmove : moveTo start s = .matched () { s with source.pos := start } := by
      have hb : s.source.text.isBoundary start = true := hs.text ▸ hs.boundary
      simp [moveTo, Source.setPos?, hb]
    refine .after hmove (.after rfl ((hconcord _ _ hs).bind_attempt (hbody _ _ rfl hs) ?_))
    rintro result s₁ ⟨he, hmatches⟩
    have hgoes := he.passes.memo hs.memo.fits
    refine .after rfl ?_
    cases result with
    | error cause => exact .same fun _ hi => hi
    | ok tree =>
      dsimp only
      split
      · rename_i hlt
        have hround : (Regime.settling table text none).Round u rule start c memo best stop
            (s.memo.refill c) (.ok tree) s₁.source.pos s₁.memo :=
          ⟨happlying, hfresh, hgrows, hs.memo.fits, he.forward, he.boundary, hgoes, hmatches⟩
        obtain ⟨hnext, hgrows'⟩ := hround.next (Regime.lawful_settling ..) hlt hs he
          (.seedGrew name start s₁.source.pos :: s₁.trace)
        have hkept : Memo.Persists none (u.grow c rule start) s₁.memo (u.grow c rule start)
            ((s₁.memo.longer rule start tree s₁.source.pos).refill c) := .grew (by simp) _ _
        exact .after rfl (.after rfl (.after rfl ((ih hgrows' (hnext.start hs)).imp
          (fun _ hi => hkept _ _ _ _ hi) fun _ _ hi => hi)))
      · exact .same fun _ hi => hi

/-- None but members of a cluster are due to be applied again. -/
theorem Regime.Fits.involved_of_due {pin : Option Spot} {memo : Memo} {start c : Nat} {cluster : Cluster}
    (h : (Regime.settling table text pin).Fits u memo) (hg : memo.growing[start]? = some c)
    (hfound : memo.clusters[c]? = some cluster) (hdue : rule ∈ cluster.pending) :
    rule ∈ cluster.involved := by
  obtain ⟨g, hmem, -, rfl⟩ := h.accounts.exists_growth hg
  exact (h.holds.1.grown g hmem cluster hfound).2 rule hdue

section Left

variable {result : Except Cause Tree} {cause : Cause} {s₁ : Session} {c : Nat} {found : Cluster}
  (hconcord : ∀ u', ((Regime.settling table text none).course u' depth).Concord
    (Memo.Tells asked u') bodies body)
  (hbody : (Regime.settling table text none).Bodies u depth ⟨rule, name, body⟩)
  (hs : ((Regime.settling table text none).course u (depth + 1)).Start s)

include hconcord hbody hs

/-- Growing concurs, from when the body of the head has been matched. -/
theorem concurs_grow {tree : Tree}
    (h : (Regime.settling table text none).Matched u depth rule cause s (.ok tree) s₁)
    (hc : s₁.memo.clusterAt? s.memo.applications.size = some c)
    (hfound : s₁.memo.clusters[c]? = some found) (hhead : found.head = rule) :
    Concurs (Memo.Tells asked (u.enter s.memo.applications.size rule s.source.pos) · s₁.memo)
      (fun answer s' => Memo.Tells asked u answer s'.memo)
      (fun answer => grow ⟨rule, name, bodies answer⟩ s.source.pos c tree s₁.source.pos)
      (grow ⟨rule, name, body⟩ s.source.pos c tree s₁.source.pos)
      { s₁ with
        memo := s₁.memo.leaveHead s.memo.applications.size rule s.source.pos tree s₁.source.pos } := by
  have hlawful := Regime.lawful_settling table text none
  have hstart := h.start_grow hlawful hs hc hfound hhead
  obtain ⟨hentered, he⟩ := h
  obtain ⟨hfresh, -⟩ := hentered.apart hc hfound
  obtain ⟨-, hgrows⟩ := hlawful.grow hentered hc hfound hhead _ rfl
  have happlying := hentered.entering.toApplying
  have hkept : Memo.Persists none (u.enter s.memo.applications.size rule s.source.pos) s₁.memo
      (u.grow c rule s.source.pos)
      ((s₁.memo.leaveHead s.memo.applications.size rule s.source.pos tree s₁.source.pos).startGrowth
        s.source.pos c) := .grow hentered.goes.fits.accounts hc tree _
  let head := s₁.memo.leaveHead s.memo.applications.size rule s.source.pos tree s₁.source.pos
  let grown : Session :=
    { s₁ with memo := { head with growing := head.growing.insert s.source.pos c } }
  have hrounds := concurs_growFrom (s := grown) (s₁.source.text.size + 1) hconcord hbody happlying hfresh
    hgrows hstart
  have htext : s₁.source.text = text := he.passes.text.trans hs.text
  have hroom : text.size < s₁.source.pos + (s₁.source.text.size + 1) := by
    rw [htext]
    omega
  have hends := Regime.ensures_growFrom (s := grown) hlawful (hbody.body rfl) happlying hfresh he.forward he.boundary
    he.intact hroom hgrows hstart
  refine .after rfl (.after rfl (.after rfl ((hrounds.imp (fun _ hi => hkept _ _ _ _ hi)
    fun _ _ hi => hi).bind hends ?_ ?_)))
  · rintro value s₂ ⟨best, stop, before, last, heq, -, hended, hround, -⟩
    cases heq
    have hcomposed := hround.goes.fits.holds.1
    refine .same fun answer hi => ?_
    simp only [ensures_bind, ensures_memo, ensures_modifyMemo]
    have hleft : Memo.Tells asked u answer (s₂.memo.endGrowth s.source.pos c head.growing[s.source.pos]?) :=
      Memo.Persists.endGrowth hcomposed _ _ _ _ _ hi
    cases houter : head.growing[s.source.pos]? with
    | none =>
      simp only [houter] at hleft
      simp only [forget, ensures_bind, ensures_memo, ensures_modifyMemo, ensures_modify]
      exact ensures_moveTo_anyhow hleft
    | some id =>
      simp only [houter] at hleft
      simp only [ensures_bind, ensures_modifyMemo]
      exact ensures_moveTo_anyhow hleft
  · rintro cause s₂ ⟨best, stop, before, last, heq, -⟩
    cases heq

/-- What an application that belongs to a cluster does on leaving concurs. -/
theorem concurs_answerCluster
    (h : (Regime.settling table text none).Matched u depth rule cause s result s₁)
    (hc : s₁.memo.clusterAt? s.memo.applications.size = some c) :
    Concurs (Memo.Tells asked (u.enter s.memo.applications.size rule s.source.pos) · s₁.memo)
      (fun answer s' => Memo.Tells asked u answer s'.memo)
      (fun answer => answerCluster ⟨rule, name, bodies answer⟩ s.source.pos c result)
      (answerCluster ⟨rule, name, body⟩ s.source.pos c result)
      { s₁ with
        memo := s₁.memo.leaveSeeded s.memo.applications.size rule s.source.pos result s₁.source.pos } := by
  have ha := h.entered.goes.fits.accounts
  obtain ⟨-, found, hfound, -⟩ := ha.clustered _ List.mem_cons_self c hc
  have hmember : (s₁.memo.leaveSeeded s.memo.applications.size rule s.source.pos result
      s₁.source.pos).clusters[c]? = some found := hfound
  by_cases hhead : found.head = rule
  · cases result with
    | ok tree =>
      have hnot : (found.head != rule) = false := by simpa using hhead
      refine .after rfl ?_
      simp only [hmember, hnot, Bool.false_eq_true, if_false]
      exact .after rfl (.after rfl (concurs_grow hconcord hbody hs h hc hfound hhead))
    | error cause' =>
      refine .of_eq (fun _ => rfl) fun answer hi => ?_
      refine ensures_answerCluster_failed ?_ hhead fun trace => ?_
      · exact hmember
      · exact Memo.Persists.failHead ha hc hfound cause' s₁.source.pos _ _ _ _ hi
  · have hnot : (found.head != rule) = true := by simpa using hhead
    refine .after rfl ?_
    simp only [hmember, hnot, if_true]
    refine .same fun answer hi => (ensures_ofResult _ _).2 ?_
    exact Memo.Persists.leaveSeeded ha result s₁.source.pos _ _ _ _ hi

/-- Applying a rule afresh concurs. -/
theorem concurs_applyFresh
    (h : (Regime.settling table text none).Entering u rule s.source.pos s.memo) :
    Concurs (Memo.Tells asked u · s.memo) (fun answer s' => Memo.Tells asked u answer s'.memo)
      (fun answer => applyFresh ⟨rule, name, bodies answer⟩ s.source.pos)
      (applyFresh ⟨rule, name, body⟩ s.source.pos) s := by
  have hlawful := Regime.lawful_settling table text none
  let cause := (RuleBody.mk rule name body).failed s.source.pos
  have hstart : ((Regime.settling table text none).course
      (u.enter s.memo.applications.size rule s.source.pos) depth).Start
        { s with memo := s.memo.enter rule s.source.pos (.error cause) } :=
    Regime.start_enter hlawful ⟨rule, name, body⟩ hs h
  have hentered : Memo.Persists none u s.memo (u.enter s.memo.applications.size rule s.source.pos)
      (s.memo.enter rule s.source.pos (.error cause)) := .enter h.stale
  refine .after rfl (.after rfl ?_)
  simp only [Memo.push, RuleBody.failed]
  refine .after rfl (.after rfl ?_)
  refine ((hconcord _ _ hstart).imp (fun _ hi => hentered _ _ _ _ hi) fun _ _ hi => hi).bind_attempt
    (hbody _ _ rfl hstart) ?_
  rintro result s₁ ⟨he, hmatches⟩
  have hgoes := he.passes.memo hstart.memo.fits
  have hmatched : (Regime.settling table text none).Matched u depth rule cause s result s₁ :=
    ⟨⟨h, he.forward, he.boundary, hgoes, hmatches⟩, he⟩
  refine .after rfl (.after rfl (.after rfl ?_))
  split
  · rename_i c hc
    exact .after rfl (.after rfl (concurs_answerCluster hconcord hbody hs hmatched hc))
  · rename_i hnone
    refine .after rfl (.after rfl (.same fun answer hi => (ensures_ofResult _ _).2 ?_))
    exact Memo.Persists.leave hgoes.fits.accounts result s₁.source.pos _ _ _ _ hi

/-- Applying a member of a cluster again concurs. -/
theorem concurs_redo {cluster : Cluster}
    (h : (Regime.settling table text none).Redoing u rule s.source.pos c cluster s.memo) :
    Concurs (Memo.Tells asked u · s.memo) (fun answer s' => Memo.Tells asked u answer s'.memo)
      (fun answer => do
        let result ← attempt (bodies answer)
        let stop ← position
        remember rule s.source.pos (.done result) stop
        moveTo stop
        ofResult result)
      (do
        let result ← attempt body
        let stop ← position
        remember rule s.source.pos (.done result) stop
        moveTo stop
        ofResult result) { s with memo := s.memo.redo c rule } := by
  have hlawful := Regime.lawful_settling table text none
  have hstart := Regime.start_redo hlawful hs h
  have hredo : Memo.Persists none u s.memo (u.redo rule s.source.pos) (s.memo.redo c rule) := .redo
  refine ((hconcord _ _ hstart).imp (fun _ hi => hredo _ _ _ _ hi) fun _ _ hi => hi).bind_attempt
    (hbody _ _ rfl hstart) ?_
  rintro result s₁ ⟨he, -⟩
  have hgoes := he.passes.memo hstart.memo.fits
  have hunsettled : s₁.memo.Unsettled none u rule s.source.pos :=
    Memo.unsettled_of_due h.fits.accounts h.fits.holds.1 h.growing h.found h.due
      ((Shrinks.erase c rule).trans hgoes.shrinks)
  refine .after rfl (.after rfl (.same fun answer hi => ?_))
  simp only [ensures_bind]
  refine ensures_moveTo_anyhow ((ensures_ofResult _ _).2 ?_)
  exact Memo.Persists.redone hunsettled _ _ _ _ hi

/-- Applying a rule through the memo concurs. -/
theorem concurs_memoized (hrule : rule < table.definitions.length) :
    Concurs (Memo.Tells asked u · s.memo) (fun answer s' => Memo.Tells asked u answer s'.memo)
      (fun answer => memoized ⟨rule, name, bodies answer⟩) (memoized ⟨rule, name, body⟩) s := by
  have hlawful := Regime.lawful_settling table text none
  have hfits := hs.memo.fits
  have hb : s.source.text.isBoundary s.source.pos = true := hs.at_boundary
  have happlying : (Regime.settling table text none).Applying u rule s.source.pos s.memo :=
    ⟨hfits, hs.memo.orderly, hs.boundary, hrule, trivial⟩
  have hkept (answer : Except Cause Tree × Nat) (hi : Memo.Tells asked u answer s.memo) :
      Ensures anyhow (memoized ⟨rule, name, body⟩) s fun _ s' => Memo.Tells asked u answer s'.memo :=
    (Regime.answers_memoized hlawful hbody hrule hs trivial).imp (fun _ _ => trivial) fun _ _ he =>
      (he.1.passes.memo hfits).leads _ _ _ _ hi
  have hstop (entry : Entry) (hentry : s.memo.find? rule s.source.pos = some entry) :
      s.source.text.isBoundary entry.stop = true := by
    rw [hs.text]
    exact (hfits.accounts.stops _ _ _ hentry).2
  by_cases hdue : s.memo.NotDue rule s.source.pos
  · have hcounted (hallowed : ¬ s.memo.Refuses rule s.source.pos) (hopen : s.memo.Open rule s.source.pos) :
        Concurs (Memo.Tells asked u · s.memo) (fun answer s' => Memo.Tells asked u answer s'.memo)
          (fun answer => applyFresh ⟨rule, name, bodies answer⟩ s.source.pos)
          (applyFresh ⟨rule, name, body⟩ s.source.pos) { s with memo := s.memo.countHit } := by
      have hstart := (Regime.ended_count hlawful hs 1).start hs
      have hentering : (Regime.settling table text none).Entering u rule s.source.pos s.memo.countHit :=
        ⟨happlying.count hlawful 1, hstart.memo.fits.accounts.not_busy hopen, hdue, hallowed, hopen⟩
      have hsame : Memo.Persists none u s.memo u s.memo.countHit := .of_eq rfl rfl rfl rfl fun _ _ hm => hm
      exact (concurs_applyFresh hconcord hbody hstart hentering).imp (fun _ hi => hsame _ _ _ _ hi)
        fun _ _ hi => hi
    cases hentry : s.memo.find? rule s.source.pos with
    | none =>
      by_cases hrefuses : s.memo.Refuses rule s.source.pos
      · refine .of_eq (fun answer => ?_) hkept
        exact (memoized_of_refuses (r := ⟨rule, name, bodies answer⟩) hrefuses hb).trans
          (memoized_of_refuses (r := ⟨rule, name, body⟩) hrefuses hb).symm
      · have hopen : s.memo.Open rule s.source.pos := fun entry he => by
          rw [hentry] at he
          cases he
        have hentering : (Regime.settling table text none).Entering u rule s.source.pos s.memo :=
          ⟨happlying, hfits.accounts.not_busy hopen, hdue, hrefuses, hopen⟩
        exact (concurs_applyFresh hconcord hbody hs hentering).congr
          (fun answer => memoized_of_none (r := ⟨rule, name, bodies answer⟩) hentry hdue hrefuses)
          (memoized_of_none (r := ⟨rule, name, body⟩) hentry hdue hrefuses)
    | some entry =>
      rcases entry with ⟨result | id, stop⟩
      · refine .of_eq (fun answer => ?_) hkept
        exact (memoized_of_done (r := ⟨rule, name, bodies answer⟩) hentry hdue (hstop _ hentry)).trans
          (memoized_of_done (r := ⟨rule, name, body⟩) hentry hdue (hstop _ hentry)).symm
      · by_cases hactive : s.memo.isActive id = true
        · obtain ⟨a, ha, -⟩ := hfits.accounts.records _ _ _ _ hentry
          obtain ⟨trace, heq⟩ := memoized_of_active (r := ⟨rule, name, body⟩) hentry hdue hactive
            (hstop _ hentry) ha
          exact .of_eq (fun answer => (heq (bodies answer)).trans (heq body).symm) hkept
        · have hstale : s.memo.isActive id = false := Bool.eq_false_iff.2 hactive
          have hallowed : ¬ s.memo.Refuses rule s.source.pos := by
            rintro ⟨-, -, -, hnone, -⟩
            rw [hentry] at hnone
            cases hnone
          exact (hcounted hallowed fun entry he => by
            rw [hentry] at he
            cases he
            exact ⟨id, stop, rfl, hstale⟩).congr
            (fun answer => memoized_of_stale (r := ⟨rule, name, bodies answer⟩) hentry hdue hstale)
            (memoized_of_stale (r := ⟨rule, name, body⟩) hentry hdue hstale)
  · obtain ⟨c, cluster, hg, hfound, hpending⟩ : ∃ c cluster, s.memo.growing[s.source.pos]? = some c ∧
        s.memo.clusters[c]? = some cluster ∧ rule ∈ cluster.pending := by
      simpa [Memo.NotDue] using hdue
    have hredoing : (Regime.settling table text none).Redoing u rule s.source.pos c cluster s.memo :=
      ⟨happlying, hg, hfound, hpending⟩
    exact (concurs_redo hconcord hbody hs hredoing).congr
      (fun answer => memoized_of_due (r := ⟨rule, name, bodies answer⟩) hg hfound hpending
        (hfits.involved_of_due hg hfound hpending))
      (memoized_of_due (r := ⟨rule, name, body⟩) hg hfound hpending
        (hfits.involved_of_due hg hfound hpending))

end Left

end Families

end Packrat
