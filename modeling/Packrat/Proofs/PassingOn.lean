import Packrat.Proofs.Paired
import Packrat.Proofs.Termination

/-!
# Passing on and coming back

Two matches are compared, one with a rule that has a body and one in which the rule passes on to a further
one with the same body. Wherever the rule is entered in the first match, both rules are entered in the
second, and what the bodies come to then leaves the two memos paired: the further rule is left before the
rule is, and hands on what it has come to.
-/

namespace Packrat

open Matcher Course
open Stage (direct detour)

/-- In the first table, the first rule has the body. In the second one, it passes on to the second rule, and
that has the body. All references in the body lead to the first rule. -/
structure Detours (table table' : RuleTable) (home home' pass : RuleRef) (body : Atom) : Prop where
  direct : table.bodyAt? 0 = some (body.redirect home)
  back : table.resolve? home = some 0
  outer : table'.bodyAt? 0 = some (.rule pass)
  leads : table'.resolve? pass = some 1
  inner : table'.bodyAt? 1 = some (body.redirect home')
  back' : table'.resolve? home' = some 0

/-- The two matches while these stages are under way, with room for so many rules inside each other. -/
def Stage.pair (table table' : RuleTable) (text : Text) (stages : List Stage) (depth depth' : Nat) :
    Pair where
  first := (Regime.bare table text anyhow False).course (direct stages) depth
  second := (Regime.bare table' text anyhow False).course (detour stages) depth'
  Alike := Paired stages

section PassingOn

variable {table table' : RuleTable} {home home' pass : RuleRef} {body : Atom} {text : Text}
  {α : Type} {step : Matcher α} {s₁ s₂ : Session}
  {post : Except Cause α → Session → Except Cause Tree → Session → Prop}

/-- The body of a rule that passes on comes to what the further rule comes to, if the cursor is back when
that fails. -/
theorem abreast_passing (hd : Detours table table' home home' pass body) (hb : table'.Knows s₂.bodies)
    (depth : Nat) (name : String)
    (h : ∀ bodies trace, table'.Knows bodies →
      Abreast step (memoized (table'.ruleBody depth pass.name 1 (body.redirect home'))) s₁
        { s₂ with bodies, trace } fun result₁ t₁ result₂ t₂ =>
          (∀ cause, result₂ = .error cause →
            t₂.source.pos = s₂.source.pos ∧ t₂.source.text.isBoundary s₂.source.pos = true) ∧
          ∀ reporter overwritten trace, post result₁ t₁ result₂ { t₂ with reporter, overwritten, trace }) :
    Abreast step (table'.ruleBody (depth + 1) name 0 (.rule pass)).body s₁ s₂ post := by
  obtain ⟨bodies, trace, hbodies, hreply⟩ := RuleTable.exists_applyRule_eq hd.leads hd.inner hb
  have happlied : Abreast step (table'.applyRule (depth + 1) pass) s₁ s₂ fun result₁ t₁ raw t₂ =>
      ∃ result₂, raw = result₂.map Raw.leaf ∧
        (∀ cause, result₂ = .error cause →
          t₂.source.pos = s₂.source.pos ∧ t₂.source.text.isBoundary s₂.source.pos = true) ∧
        ∀ reporter overwritten trace, post result₁ t₁ result₂ { t₂ with reporter, overwritten, trace } := by
    refine Abreast.congr ?_ rfl (hreply depth)
    refine (h bodies trace hbodies).bind_second fun result₁ t₁ result₂ t₂ hends => ?_
    cases result₂ with
    | error cause => exact ⟨.error cause, rfl, hends⟩
    | ok tree => exact ⟨.ok tree, rfl, hends⟩
  have hguarded : Abreast step (guarded (table'.applyRule (depth + 1) pass)) s₁ s₂ fun result₁ t₁ raw t₂ =>
      ∃ result₂, raw = result₂.map Raw.leaf ∧ ∀ overwritten trace,
        post result₁ t₁ result₂ { t₂ with overwritten, trace } := by
    simp only [guarded, abreast_position_second]
    refine happlied.bind_attempt_second fun result₁ t₁ raw t₂ hends => ?_
    obtain ⟨result₂, rfl, hback, hpost⟩ := hends
    cases result₂ with
    | error cause =>
      obtain ⟨hpos, hbound⟩ := hback cause rfl
      simp only [Except.map, ensures_bind, ensures_moveTo hbound, ensures_fail]
      rw [← hpos]
      exact ⟨.error cause, rfl, hpost _⟩
    | ok tree =>
      simp only [Except.map, ensures_bind, ensures_position, ensures_tell, ensures_pure]
      exact ⟨.ok tree, rfl, hpost _⟩
  refine hguarded.bind_second fun result₁ t₁ raw t₂ hends => ?_
  obtain ⟨result₂, rfl, hends⟩ := hends
  cases result₂ with
  | error cause => exact hends _ _
  | ok tree => exact ensures_flatten _ _ _ hends

end PassingOn

/-- The flat values of two expressions are the same if the values are. -/
theorem Pair.Goes.ruleBody {table table' : RuleTable} {text : Text} {stages : List Stage}
    {depth depth' : Nat} {atom atom' : Atom}
    (h : (Stage.pair table table' text stages depth depth').Goes Eq (atom.matcher (table.applyRule depth))
      (atom'.matcher (table'.applyRule depth'))) (name name' : String) (index index' : Nat) :
    (Stage.pair table table' text stages depth depth').Goes Eq (table.ruleBody depth name index atom).body
      (table'.ruleBody depth' name' index' atom').body := by
  refine ⟨ends_ruleBody table text _ depth name index atom,
    ends_ruleBody table' text _ depth' name' index' atom', h.andThen fun raw _ heq => ?_⟩
  subst heq
  exact Pair.keeps_flatten false raw

/-- The body keeps the two matches together, whatever is under way and however much room there is for rules
in the second one. -/
def KeptTogether (table table' : RuleTable) (home home' : RuleRef) (body : Atom) (text : Text) (depth : Nat) :
    Prop :=
  ∀ stages depth', (Stage.pair table table' text stages depth depth').Goes Eq
    ((body.redirect home).matcher (table.applyRule depth))
    ((body.redirect home').matcher (table'.applyRule depth'))

/-- What the bodies of the rule have come to after the rule was entered on both sides, and the further rule
was left on the second side. -/
structure Stage.Passed (rules rules' : Nat) (text : Text) (stages : List Stage) (id outer inner start : Nat)
    (result₁ : Except Cause Tree) (t₁ : Session) (result₂ : Except Cause Tree) (t₂ : Session) : Prop where
  agree : Agree Eq result₁ result₂
  source : t₂.source = t₁.source
  captures : t₂.captures = t₁.captures
  memo : ∃ memo', Paired (.entered id outer inner start :: stages) t₁.memo memo' ∧
    Accounts rules text ((direct stages).enter id 0 start) t₁.memo ∧
    Accounts rules' text (((detour stages).enter outer 0 start).enter inner 1 start) memo' ∧
    ((memo'.clusterAt? inner = none ∧ t₂.memo = memo'.leave inner 1 start result₂ t₂.source.pos) ∨
      (∃ c, memo'.clusterAt? inner = some c) ∧
        t₂.memo = memo'.leaveSeeded inner 1 start result₂ t₂.source.pos)

/-- A rule that may be entered is. -/
theorem Regime.start_entered {table : RuleTable} {text : Text} {u : Underway} {depth : Nat} {s : Session}
    {r : RuleBody} (hs : ((Regime.bare table text anyhow False).course u (depth + 1)).Start s)
    (h : (Regime.bare table text anyhow False).Entering u r.rule s.source.pos s.memo) :
    ((Regime.bare table text anyhow False).course
      (u.enter s.memo.applications.size r.rule s.source.pos) depth).Start (s.enter r s.source.pos) :=
  Regime.start_enter (Regime.lawful_bare ..) r hs h

section Entering

variable {table table' : RuleTable} {home home' pass : RuleRef} {body : Atom} {text : Text}
  {stages : List Stage} {depth depth' : Nat} {s₁ s₂ : Session} {name name' : String}

/-- Both rules can be entered where nothing is known. -/
theorem Pair.Together.entered (hd : Detours table table' home home' pass body)
    (hs : (Stage.pair table table' text stages (depth + 1) (depth' + 1)).Together s₁ s₂)
    (hnone : s₁.memo.find? 0 s₁.source.pos = none) (hnone' : s₂.memo.find? 0 s₂.source.pos = none) :
    (Regime.bare table text anyhow False).Entering (direct stages) 0 s₁.source.pos s₁.memo ∧
      (Regime.bare table' text anyhow False).Entering (detour stages) 0 s₂.source.pos s₂.memo := by
  obtain ⟨hdue, hallowed⟩ := hs.memo.free_direct hs.first.memo.fits.accounts 0 s₁.source.pos
  obtain ⟨hdue', hallowed'⟩ := hs.memo.free_detour hs.second.memo.fits.accounts 0 s₂.source.pos
  exact ⟨Regime.entering_of_none hs.first (RuleTable.index_lt_of_bodyAt? hd.direct) hnone hdue hallowed,
    Regime.entering_of_none hs.second (RuleTable.index_lt_of_bodyAt? hd.outer) hnone' hdue'
      (hallowed' (.inl rfl))⟩

/-- The rule is entered on both sides, and the further rule behind it on the second one. -/
theorem Pair.Together.enter (hd : Detours table table' home home' pass body)
    (hs : (Stage.pair table table' text stages (depth + 1) (depth' + 2)).Together s₁ s₂)
    (hnone : s₁.memo.find? 0 s₁.source.pos = none) (hnone' : s₂.memo.find? 0 s₂.source.pos = none)
    (r₁ r₂ r₃ : RuleBody) (hr₁ : r₁.rule = 0) (hr₂ : r₂.rule = 0) (hr₃ : r₃.rule = 1)
    {bodies : List (Nat × Atom)} (hbodies : table'.Knows bodies) (trace : List Event) {s₃ : Session}
    (hs₃ : s₃ = { s₂.enter r₂ s₁.source.pos with bodies, trace }) :
    (s₃.memo.find? r₃.rule s₁.source.pos = none ∧ s₃.memo.NotDue r₃.rule s₁.source.pos ∧
      ¬ s₃.memo.Refuses r₃.rule s₁.source.pos) ∧
      (Stage.pair table table' text (.entered s₁.memo.applications.size s₂.memo.applications.size
        s₃.memo.applications.size s₁.source.pos :: stages) depth depth').Together
        (s₁.enter r₁ s₁.source.pos) (s₃.enter r₃ s₁.source.pos) := by
  obtain ⟨_, name₁, body₁⟩ := r₁
  obtain ⟨_, name₂, body₂⟩ := r₂
  obtain ⟨_, name₃, body₃⟩ := r₃
  cases hr₁
  cases hr₂
  cases hr₃
  have hpos : s₂.source.pos = s₁.source.pos := by rw [hs.source]
  obtain ⟨hentering, hentering'⟩ := hs.entered hd hnone hnone'
  obtain ⟨hdue, hallowed⟩ := hs.memo.free_detour hs.second.memo.fits.accounts 1 s₁.source.pos
  -- the further rule is known only where the rule is
  have hbehind : s₂.memo.find? 1 s₁.source.pos = none := hs.memo.behind _ (hpos ▸ hnone')
  have hnone₃ : s₃.memo.find? 1 s₁.source.pos = none := by
    rw [hs₃]
    exact (Memo.find?_remember_of_ne _ _ _ (by simp)).trans hbehind
  have hdue₃ : s₃.memo.NotDue 1 s₁.source.pos := by
    rw [hs₃]
    exact hdue
  have hallowed₃ : ¬ s₃.memo.Refuses 1 s₁.source.pos := by
    rintro ⟨c, cluster, hgrowing, -, hrefused⟩
    rw [hs₃] at hgrowing
    exact hallowed (.inr rfl) ⟨c, cluster, hgrowing, hbehind, hrefused⟩
  refine ⟨⟨hnone₃, hdue₃, hallowed₃⟩, ?_⟩
  have hstart := Regime.start_entered (r := ⟨0, name₁, body₁⟩) hs.first hentering
  have hstart₂ := Regime.start_entered (r := ⟨0, name₂, body₂⟩) hs.second hentering'
  rw [hpos] at hstart₂
  have hstart₃ := hstart₂.built hbodies trace
  rw [← hs₃] at hstart₃
  have hsource : s₃.source = s₁.source := by rw [hs₃]; exact hs.source
  have hpos₃ : s₃.source.pos = s₁.source.pos := by rw [hsource]
  have hlt := RuleTable.index_lt_of_bodyAt? hd.inner
  have hentering₃ := Regime.entering_of_none hstart₃ hlt (hpos₃ ▸ hnone₃) (hpos₃ ▸ hdue₃)
    (hpos₃ ▸ hallowed₃)
  have hinner := Regime.start_entered (r := ⟨1, name₃, body₃⟩) hstart₃ hentering₃
  rw [hpos₃] at hinner
  refine ⟨⟨hsource, ?_, ?_⟩, hstart, hinner⟩
  · change s₃.captures = s₁.captures
    rw [hs₃]
    exact hs.captures
  · have hpaired : Paired stages s₁.memo s₂.memo := hs.memo
    have hmemo : s₃.memo = s₂.memo.enter 0 s₁.source.pos
        (.error ((RuleBody.mk 0 name₂ body₂).failed s₁.source.pos)) := by
      rw [hs₃]
      rfl
    change Paired _ (s₁.memo.enter 0 s₁.source.pos _) (s₃.memo.enter 1 s₁.source.pos _)
    rw [hmemo]
    exact hpaired.enter hs.first.memo.fits.accounts hs.second.memo.fits.accounts
      hstart₂.memo.fits.accounts

/-- After the rule was entered, its bodies come to the same on both sides. -/
theorem abreast_entered (hd : Detours table table' home home' pass body)
    (hbody : KeptTogether table table' home home' body text depth)
    (hs : (Stage.pair table table' text stages (depth + 1) (depth' + 2)).Together s₁ s₂)
    (hnone : s₁.memo.find? 0 s₁.source.pos = none) (hnone' : s₂.memo.find? 0 s₂.source.pos = none)
    {r₁ r₂ : RuleBody} (hr₁ : r₁ = table.ruleBody depth name 0 (body.redirect home))
    (hr₂ : r₂ = table'.ruleBody (depth' + 1) name' 0 (.rule pass)) :
    Abreast r₁.body r₂.body (s₁.enter r₁ s₁.source.pos) (s₂.enter r₂ s₁.source.pos)
      (Stage.Passed table.definitions.length table'.definitions.length text stages
        s₁.memo.applications.size s₂.memo.applications.size
        (s₂.enter r₂ s₁.source.pos).memo.applications.size s₁.source.pos) := by
  have hknows : table'.Knows (s₂.enter r₂ s₁.source.pos).bodies := hs.second.bodies
  have hpos : (s₂.enter r₂ s₁.source.pos).source.pos = s₁.source.pos := congrArg Source.pos hs.source
  have hrule : r₂.rule = 0 := by rw [hr₂]; rfl
  let r₃ := table'.ruleBody depth' pass.name 1 (body.redirect home')
  have hpasses : r₂.body = (table'.ruleBody (depth' + 1) name' 0 (.rule pass)).body := by rw [hr₂]
  rw [hpasses]
  refine abreast_passing hd hknows depth' name' fun bodies trace hbodies => ?_
  obtain ⟨⟨hnone₃, hdue₃, hallowed₃⟩, htogether⟩ :=
    hs.enter hd hnone hnone' r₁ r₂ r₃ (hr₁ ▸ rfl) hrule rfl hbodies trace rfl
  have hgoes (stages : List Stage) :
      (Stage.pair table table' text stages depth depth').Goes Eq r₁.body r₃.body := by
    rw [hr₁]
    exact (hbody stages depth').ruleBody name pass.name 0 1
  have hposed : ({ s₂.enter r₂ s₁.source.pos with bodies, trace } : Session).source.pos = s₁.source.pos :=
    hpos
  refine Abreast.congr ?_ rfl
    (memoized_of_none (hposed ▸ hnone₃) (hposed ▸ hdue₃) (hposed ▸ hallowed₃))
  rw [hposed]
  refine abreast_applyFresh_second ((((hgoes _).abreast htogether).and (ensures_anyhow _ _)
    (givesBack_ruleBody ..)).mono ?_)
  rintro result₁ t₁ result₂ t₂ ⟨hmet, -, hback⟩
  have hpaired : Paired _ t₁.memo t₂.memo := hmet.memo
  have ha := (hmet.first.start htogether.first).memo.fits.accounts
  have hstart₂ := hmet.second.start htogether.second
  have ha' := hstart₂.memo.fits.accounts
  have hbound : t₂.source.text.isBoundary s₁.source.pos = true := by
    rw [hstart₂.text]
    exact hs.first.boundary
  have hbackwards (cause : Cause) (heq : result₂ = .error cause) :
      t₂.source.pos = s₁.source.pos ∧ t₂.source.text.isBoundary s₁.source.pos = true :=
    ⟨(hback cause heq).trans hposed, hbound⟩
  obtain ⟨-, -, ⟨-, -, hnone⟩ | ⟨c, c', -, -, hc', hcluster⟩⟩ := hpaired.tallies _ List.mem_cons_self
  · simp only [hnone]
    exact ⟨hbackwards, fun _ _ _ =>
      ⟨hmet.agree, hmet.source, hmet.captures, t₂.memo, hpaired, ha, ha', .inl ⟨hnone, rfl⟩⟩⟩
  · have hfound : (t₂.leaveSeeded (s₂.enter r₂ s₁.source.pos).memo.applications.size 1 s₁.source.pos
        result₂).memo.clusters[c']? = some ⟨0, [1], []⟩ := hcluster
    simp only [hc']
    refine (ensures_answerCluster_member hfound Nat.zero_ne_one _).2 ⟨hbackwards, fun _ _ _ => ?_⟩
    exact ⟨hmet.agree, hmet.source, hmet.captures, t₂.memo, hpaired, ha, ha', .inr ⟨⟨c', hc'⟩, rfl⟩⟩

/-- Rules that have not come back to themselves are left alike; heads that have matched nothing fail alike.
What is left is to grow the heads that have matched something. -/
theorem Stage.Passed.left {id outer inner start : Nat} {result₁ result₂ : Except Cause Tree}
    {t₁ t₂ : Session} {r₁ r₂ : RuleBody} {depth₁ depth₂ : Nat} (hr₁ : r₁.rule = 0) (hr₂ : r₂.rule = 0)
    (h : Stage.Passed table.definitions.length table'.definitions.length text stages id outer inner start
      result₁ t₁ result₂ t₂) (hle : start ≤ t₁.source.pos) (hb : text.isBoundary t₁.source.pos = true)
    (hgrow : ∀ tree c c', result₁ = .ok tree → result₂ = .ok tree →
      (t₁.memo.clusterAt? id = some c ∧ t₁.memo.clusters[c]? = some ⟨0, [], []⟩) →
      (t₂.memo.clusterAt? outer = some c' ∧ t₂.memo.clusters[c']? = some ⟨0, [1], []⟩) →
      Paired (.grown c c' start :: stages)
        ((t₁.memo.leaveHead id 0 start tree t₁.source.pos).startGrowth start c)
        (((t₂.memo.leaveHead outer 0 start tree t₂.source.pos).startGrowth start c').redo c' 1) →
      Abreast (answerCluster r₁ start c result₁) (answerCluster r₂ start c' result₂)
        (t₁.leaveSeeded id 0 start result₁) (t₂.leaveSeeded outer 0 start result₂)
        ((Stage.pair table table' text stages depth₁ depth₂).Meet Eq)) :
    LeftAbreast r₁ r₂ start start id outer ((Stage.pair table table' text stages depth₁ depth₂).Meet Eq)
      result₁ t₁ result₂ t₂ := by
  obtain ⟨hagree, hsource, hcaptures, memo', hpaired, ha, ha', hmemo⟩ := h
  have houter : ⟨outer, 0, start⟩ ∈ ((detour stages).enter outer 0 start).path := List.mem_cons_self
  unfold LeftAbreast
  obtain ⟨-, -, ⟨hnone, hnone', hnone''⟩ | ⟨c, c', ⟨hc, hcluster⟩, hc', hc'', hcluster'⟩⟩ :=
    hpaired.tallies _ List.mem_cons_self
  · obtain ⟨-, hmemo⟩ | ⟨⟨c, hc⟩, -⟩ := hmemo
    · have houter : t₂.memo.clusterAt? outer = none := by
        rw [hmemo]
        exact ((Memo.Spares.leave ha' result₂ t₂.source.pos).records _ houter).clusterAt?.trans hnone'
      simp only [hnone, houter, hr₁, hr₂]
      have hleft := hpaired.leave result₂ ha ha' hle hb hagree
      refine ⟨⟨hsource, hcaptures, ?_⟩, hagree⟩
      change Paired stages (t₁.memo.leave id 0 start result₁ _) (t₂.memo.leave outer 0 start result₂ _)
      rw [hmemo, hsource]
      exact hleft
    · rw [hnone''] at hc
      cases hc
  · obtain ⟨hnone, -⟩ | ⟨-, hmemo⟩ := hmemo
    · rw [hc''] at hnone
      cases hnone
    · have houter : t₂.memo.clusterAt? outer = some c' := by
        rw [hmemo]
        exact ((Memo.Spares.leaveSeeded ha' result₂ t₂.source.pos).records _ houter).clusterAt?.trans hc'
      have hfound : t₂.memo.clusters[c']? = some ⟨0, [1], []⟩ := by
        rw [hmemo]
        exact hcluster'
      simp only [hc, houter, hr₁, hr₂]
      obtain ⟨tree, _, rfl, rfl, rfl⟩ | ⟨cause₁, cause₂, rfl, rfl⟩ := hagree.cases
      · refine hgrow tree c c' rfl rfl ⟨hc, hcluster⟩ ⟨houter, hfound⟩ ?_
        rw [hmemo, hsource]
        exact hpaired.grow (.ok tree) ha ha' hle hb hc hcluster hc' hcluster' tree
      · have hfailed := hpaired.fail (.error cause₂) ha ha' hle hb hc hcluster hc' hcluster' cause₁ cause₂
        have hseeded : (t₁.leaveSeeded id 0 start (.error cause₁)).memo.clusters[c]? = some ⟨0, [], []⟩ :=
          hcluster
        have hseeded' : (t₂.leaveSeeded outer 0 start (.error cause₂)).memo.clusters[c']?
            = some ⟨0, [1], []⟩ := hfound
        refine abreast_answerCluster_failed hseeded hr₁.symm hseeded' hr₂.symm fun trace₁ trace₂ => ?_
        refine Pair.Meet.failed ⟨hsource, hcaptures, ?_⟩
        change Paired stages ((t₁.memo.leaveSeeded id 0 start (.error cause₁) t₁.source.pos).failHead
          r₁.rule start t₁.source.pos c [] cause₁) ((t₂.memo.leaveSeeded outer 0 start (.error cause₂)
            t₂.source.pos).failHead r₂.rule start t₂.source.pos c' [1] cause₂)
        rw [hmemo, hr₁, hr₂, hsource]
        exact hfailed

end Entering

end Packrat
