import Packrat.Proofs.PassingOn

/-!
# Growing alike

A rule that has come back to itself is grown in both matches. In each round the further rule, which has
been in the way since the rule was entered, is applied again before the rule goes on; so the bodies
see the same of the rule in both matches, and the rounds come to the same.
-/

namespace Packrat

open Matcher Course
open Stage (direct detour)

section Growing

variable {table table' : RuleTable} {home home' pass : RuleRef} {body : Atom} {text : Text}
  {stages : List Stage} {depth depth' : Nat} {s₁ s₂ : Session} {name name' : String}

variable (table table' text stages depth depth') in
/-- A round of growing is about to begin on both sides. -/
structure Stage.Rounds (start c c' : Nat) (best₁ : Tree) (stop₁ : Nat) (s₁ : Session) (best₂ : Tree)
    (stop₂ : Nat) (s₂ : Session) : Prop where
  best : best₂ = best₁
  stop : stop₂ = stop₁
  forward : start ≤ stop₁
  boundary : text.isBoundary stop₁ = true
  first : ((Regime.bare table text anyhow False).course ((direct stages).grow c 0 start) depth).Start
    (s₁.round start c)
  second : ((Regime.bare table' text anyhow False).course ((detour stages).grow c' 0 start)
    (depth' + 1)).Start (s₂.round start c')
  source : (s₂.round start c').source = (s₁.round start c).source
  captures : s₂.captures = s₁.captures
  paired : Paired (.grown c c' start :: stages) (s₁.memo.refill c) ((s₂.memo.refill c').redo c' 1)

/-- A round comes to the same on both sides. In the second match the further rule is applied again in it. -/
structure Stage.Rounded (rules rules' : Nat) (text : Text) (stages : List Stage) (start c c' : Nat)
    (result₁ : Except Cause Tree) (t₁ : Session) (result₂ : Except Cause Tree) (t₂ : Session) : Prop where
  agree : Agree Eq result₁ result₂
  source : t₂.source = t₁.source
  captures : t₂.captures = t₁.captures
  memo : ∃ memo', Paired (.grown c c' start :: stages) t₁.memo memo' ∧
    Accounts rules text ((direct stages).grow c 0 start) t₁.memo ∧
    Accounts rules' text ((detour stages).grow c' 0 start) memo' ∧
    t₂.memo = memo'.remember 1 start (.done result₂) t₂.source.pos

/-- From paired memos, a round comes to the same on both sides. -/
theorem abreast_round (hd : Detours table table' home home' pass body)
    (hbody : KeptTogether table table' home home' body text depth)
    {start c c' : Nat} {best₁ best₂ : Tree} {stop₁ stop₂ : Nat}
    (hs : Stage.Rounds table table' text stages depth depth' start c c' best₁ stop₁ s₁ best₂ stop₂ s₂)
    {r₁ r₂ : RuleBody} (hr₁ : r₁ = table.ruleBody depth name 0 (body.redirect home))
    (hr₂ : r₂ = table'.ruleBody (depth' + 1) name' 0 (.rule pass)) :
    Abreast r₁.body r₂.body (s₁.round start c) (s₂.round start c')
      (Stage.Rounded table.definitions.length table'.definitions.length text stages start c c') := by
  let r₃ := table'.ruleBody depth' pass.name 1 (body.redirect home')
  have hpasses : r₂.body = (table'.ruleBody (depth' + 1) name' 0 (.rule pass)).body := by rw [hr₂]
  rw [hpasses]
  refine abreast_passing hd hs.second.bodies depth' name' fun bodies trace hbodies => ?_
  have hgoes (stages : List Stage) :
      (Stage.pair table table' text stages depth depth').Goes Eq r₁.body r₃.body := by
    rw [hr₁]
    exact (hbody stages depth').ruleBody name pass.name 0 1
  have hbuilt := hs.second.built hbodies trace
  have hcluster := hs.paired.due
  have hgrowing : (s₂.memo.refill c').growing[start]? = some c' := by
    refine (hbuilt.memo.fits.accounts.growing start).trans ?_
    simp [Underway.grow]
  have hredoing : (Regime.bare table' text anyhow False).Redoing ((detour stages).grow c' 0 start) 1 start
      c' ⟨0, [1], [1]⟩ (s₂.memo.refill c') :=
    ⟨⟨hbuilt.memo.fits, hbuilt.memo.orderly, hbuilt.boundary, RuleTable.index_lt_of_bodyAt? hd.inner,
      trivial⟩, hgrowing, hcluster, List.mem_cons_self⟩
  have hredone := Regime.start_redo (Regime.lawful_bare ..) hbuilt hredoing
  have htogether : (Stage.pair table table' text (.grown c c' start :: stages) depth depth').Together
      (s₁.round start c) { s₂.round start c' with
        bodies
        trace
        memo := (s₂.memo.refill c').redo c' 1 } :=
    ⟨⟨hs.source, hs.captures, hs.paired⟩, hs.first, hredone⟩
  refine Abreast.congr ?_ rfl (memoized_of_due hgrowing hcluster List.mem_cons_self List.mem_cons_self)
  refine (((hgoes _).abreast htogether).and (ensures_anyhow _ _)
    (givesBack_ruleBody ..)).bind_attempt_second ?_
  rintro result₁ t₁ result₂ t₂ ⟨hmet, -, hback⟩
  have ha := (hmet.first.start htogether.first).memo.fits.accounts
  have hstart₂ := hmet.second.start htogether.second
  have ha' := Accounts.redo_iff.1 hstart₂.memo.fits.accounts
  have hbound : t₂.source.text.isBoundary start = true := by
    rw [hstart₂.text]
    exact hs.first.boundary
  simp only [ensures_bind, ensures_position, Matcher.remember, ensures_modifyMemo]
  refine (ensures_moveTo ?_ _).2 ((ensures_ofResult _ _).2 ?_)
  · exact hstart₂.at_boundary
  exact ⟨fun cause heq => ⟨hback cause heq, hbound⟩, fun _ _ _ =>
    ⟨hmet.agree, hmet.source, hmet.captures, t₂.memo, hmet.memo, ha, ha', rfl⟩⟩

/-- Nothing is grown where nothing is known of the rule. -/
theorem Pair.Together.start_ne
    (hs : (Stage.pair table table' text stages (depth + 1) (depth' + 2)).Together s₁ s₂)
    (hnone : s₁.memo.find? 0 s₁.source.pos = none) :
    (∀ g ∈ (direct stages).grown, g.start ≠ s₁.source.pos) ∧
      ∀ g ∈ (detour stages).grown, g.start ≠ s₁.source.pos := by
  have hout (c c' : Nat) : Stage.grown c c' s₁.source.pos ∉ stages := by
    intro hmem
    have hg := Stage.mem_grown_direct.2 ⟨c, c', _, hmem, rfl⟩
    obtain ⟨⟨result, stop, hknown⟩, -⟩ := hs.first.memo.fits.accounts.grown _ hg
    rw [hnone] at hknown
    cases hknown
  refine ⟨fun g hg heq => ?_, fun g hg heq => ?_⟩
  · obtain ⟨c, c', start, hmem, rfl⟩ := Stage.mem_grown_direct.1 hg
    exact hout c c' (heq ▸ hmem)
  · obtain ⟨c, c', start, hmem, rfl⟩ := Stage.mem_grown_detour.1 hg
    exact hout c c' (heq ▸ hmem)

variable (table table' text stages) in
/-- Clusters with these numbers may be grown at the offset. -/
structure Stage.MayGrow (start c c' : Nat) : Prop where
  first : ∃ memo, (Regime.bare table text anyhow False).Applying (direct stages) 0 start memo
  second : ∃ memo, (Regime.bare table' text anyhow False).Applying (detour stages) 0 start memo
  fresh : ∀ g ∈ (direct stages).grown, g.cluster ≠ c
  fresh' : ∀ g ∈ (detour stages).grown, g.cluster ≠ c'

/-- A round in which the match has become longer on both sides leads to another round on both sides. -/
theorem Stage.Rounds.next {start c c' : Nat} {best₁ best₂ tree : Tree} {stop₁ stop₂ : Nat} {t₁ t₂ : Session}
    (hs : Stage.Rounds table table' text stages depth depth' start c c' best₁ stop₁ s₁ best₂ stop₂ s₂)
    (hg : Stage.MayGrow table table' text stages start c c')
    (h : Stage.Rounded table.definitions.length table'.definitions.length text stages start c c' (.ok tree)
      t₁ (.ok tree) t₂)
    (he₁ : ((Regime.bare table text anyhow False).course ((direct stages).grow c 0 start) depth).Ended
      (s₁.round start c) (.ok tree) t₁)
    (he₂ : ((Regime.bare table' text anyhow False).course ((detour stages).grow c' 0 start)
      (depth' + 1)).Ended (s₂.round start c') (.ok tree) t₂)
    (hlt : stop₁ < t₁.source.pos) (trace₁ trace₂ : List Event) :
    Stage.Rounds table table' text stages depth depth' start c c' tree t₁.source.pos
      { t₁.grew 0 start tree with trace := trace₁ } tree t₂.source.pos
      { t₂.grew 0 start tree with trace := trace₂ } := by
  obtain ⟨-, hsource, hcaptures, memo', hpaired, ha, ha', hmemo⟩ := h
  obtain ⟨⟨memo₁, happlying₁⟩, ⟨memo₂, happlying₂⟩, hfresh₁, hfresh₂⟩ := hg
  have hlt₂ : stop₂ < t₂.source.pos := by
    rw [hs.stop, hsource]
    exact hlt
  have hround₁ : (Regime.bare table text anyhow False).Round (direct stages) 0 start c memo₁ best₁ stop₁
      (s₁.memo.refill c) (.ok tree) t₁.source.pos t₁.memo :=
    ⟨happlying₁, hfresh₁, trivial, hs.first.memo.fits, he₁.forward, he₁.boundary,
      he₁.passes.memo hs.first.memo.fits, trivial⟩
  have hround₂ : (Regime.bare table' text anyhow False).Round (detour stages) 0 start c' memo₂ best₂ stop₂
      (s₂.memo.refill c') (.ok tree) t₂.source.pos t₂.memo :=
    ⟨happlying₂, hfresh₂, trivial, hs.second.memo.fits, he₂.forward, he₂.boundary,
      he₂.passes.memo hs.second.memo.fits, trivial⟩
  obtain ⟨hended₁, -⟩ := hround₁.next (Regime.lawful_bare ..) hlt hs.first he₁ trace₁
  obtain ⟨hended₂, -⟩ := hround₂.next (Regime.lawful_bare ..) hlt₂ hs.second he₂ trace₂
  have hlonger := hpaired.longer ha ha' hfresh₁ hfresh₂ tree t₁.source.pos (.ok tree)
  have hsame : ({ t₂.grew 0 start tree with trace := trace₂ }.round start c').source
      = ({ t₁.grew 0 start tree with trace := trace₁ }.round start c).source := by
    change { t₂.source with pos := start } = { t₁.source with pos := start }
    rw [hsource]
  refine ⟨rfl, by rw [hsource], he₁.forward, he₁.boundary, hended₁.start hs.first, hended₂.start hs.second,
    hsame, hcaptures, ?_⟩
  change Paired _ ((t₁.memo.longer 0 start tree t₁.source.pos).refill c)
    (((t₂.memo.longer 0 start tree t₂.source.pos).refill c').redo c' 1)
  rw [hmemo, hsource]
  exact hlonger

/-- When growing is over, what was matched before the last round is answered on both sides. -/
theorem Stage.Rounds.over {start c c' : Nat} {best₁ best₂ : Tree} {stop₁ stop₂ : Nat} {t₁ t₂ : Session}
    {result₁ result₂ : Except Cause Tree} {depth₁ depth₂ : Nat}
    (hs : Stage.Rounds table table' text stages depth depth' start c c' best₁ stop₁ s₁ best₂ stop₂ s₂)
    (hg : Stage.MayGrow table table' text stages start c c')
    (h : Stage.Rounded table.definitions.length table'.definitions.length text stages start c c' result₁ t₁
      result₂ t₂) (trace₁ trace₂ : List Event) :
    (Stage.pair table table' text stages depth₁ depth₂).Meet Eq
      (.ok best₁) { t₁ with
        source.pos := stop₁
        memo := t₁.memo.endGrowth start c none
        trace := trace₁ }
      (.ok best₂) { t₂ with
        source.pos := stop₂
        memo := t₂.memo.endGrowth start c' none
        trace := trace₂ } := by
  obtain ⟨-, hsource, hcaptures, memo', hpaired, ha, ha', hmemo⟩ := h
  have hended := hpaired.endGrowth ha ha' hg.fresh hg.fresh' t₂.source.pos result₂
  refine ⟨⟨?_, hcaptures, ?_⟩, hs.best.symm⟩
  · change { t₂.source with pos := stop₂ } = { t₁.source with pos := stop₁ }
    rw [hs.stop, hsource]
  · change Paired stages (t₁.memo.endGrowth start c none) (t₂.memo.endGrowth start c' none)
    rw [hmemo]
    exact hended

/-- Rounds of growing come to the same on both sides. -/
theorem abreast_rounds (hd : Detours table table' home home' pass body)
    (hbody : KeptTogether table table' home home' body text depth)
    {start c c' : Nat} {best₁ best₂ : Tree} {stop₁ stop₂ : Nat} {depth₁ depth₂ : Nat}
    (hs : Stage.Rounds table table' text stages depth depth' start c c' best₁ stop₁ s₁ best₂ stop₂ s₂)
    (hg : Stage.MayGrow table table' text stages start c c')
    {r₁ r₂ : RuleBody} (hr₁ : r₁ = table.ruleBody depth name 0 (body.redirect home))
    (hr₂ : r₂ = table'.ruleBody (depth' + 1) name' 0 (.rule pass)) (bound : Nat) :
    Abreast (growFrom r₁ start c bound best₁ stop₁) (growFrom r₂ start c' bound best₂ stop₂) s₁ s₂
      fun result₁ t₁ result₂ t₂ => ∃ best₁ best₂ stop₁ stop₂, result₁ = .ok (best₁, stop₁) ∧
        result₂ = .ok (best₂, stop₂) ∧ t₁.source.text.isBoundary stop₁ = true ∧
          t₂.source.text.isBoundary stop₂ = true ∧ ∀ trace₁ trace₂,
            (Stage.pair table table' text stages depth₁ depth₂).Meet Eq
              (.ok best₁) { t₁ with
                source.pos := stop₁
                memo := t₁.memo.endGrowth start c none
                trace := trace₁ }
              (.ok best₂) { t₂ with
                source.pos := stop₂
                memo := t₂.memo.endGrowth start c' none
                trace := trace₂ } := by
  refine abreast_growFrom (Stage.Rounds table table' text stages depth depth' start c c')
    (fun best₁ stop₁ s₁ best₂ stop₂ s₂ hs => ⟨hs.first.at_boundary, hs.second.at_boundary, ?_⟩) bound hs
  have hends₁ := ends_ruleBody table text ((direct stages).grow c 0 start) depth name 0
    (body.redirect home) _ hs.first
  have hends₂ := ends_ruleBody table' text ((detour stages).grow c' 0 start) (depth' + 1) name' 0
    (.rule pass) _ hs.second
  rw [← hr₁] at hends₁
  rw [← hr₂] at hends₂
  refine ((abreast_round hd hbody hs hr₁ hr₂).and hends₁ hends₂).mono ?_
  rintro result₁ t₁ result₂ t₂ ⟨hrounded, he₁, he₂⟩
  have hrule₁ : r₁.rule = 0 := by rw [hr₁]; rfl
  have hrule₂ : r₂.rule = 0 := by rw [hr₂]; rfl
  have hagree := hrounded.agree
  have hsource := hrounded.source
  by_cases hlonger : stop₁ < t₁.source.pos ∧ ∃ tree, result₁ = .ok tree
  · obtain ⟨hlt, tree, rfl⟩ := hlonger
    obtain ⟨_, _, heq, rfl, rfl⟩ | ⟨_, _, heq, -⟩ := hagree.cases
    · cases heq
      refine .inl ⟨tree, tree, rfl, rfl, hlt, by rw [hs.stop, hsource]; exact hlt, fun trace₁ trace₂ => ?_⟩
      rw [hrule₁, hrule₂]
      exact hs.next hg hrounded he₁ he₂ hlt trace₁ trace₂
    · cases heq
  · refine .inr ⟨fun tree heq => ?_, fun tree heq => ?_, best₁, best₂, stop₁, stop₂, rfl, rfl, ?_, ?_,
      hs.over hg hrounded⟩
    · exact Nat.le_of_not_lt fun hlt => hlonger ⟨hlt, tree, heq⟩
    · rw [hs.stop, hsource]
      refine Nat.le_of_not_lt fun hlt => hlonger ⟨hlt, ?_⟩
      obtain ⟨tree, _, heq', -, -⟩ | ⟨_, _, -, heq'⟩ := hagree.cases
      · exact ⟨tree, heq'⟩
      · rw [heq] at heq'
        cases heq'
    · rw [he₁.passes.text, hs.first.text]
      exact hs.boundary
    · rw [hsource, he₁.passes.text, hs.first.text, hs.stop]
      exact hs.boundary

end Growing

end Packrat
