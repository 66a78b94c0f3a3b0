import Mathlib
import Packrat.Proofs.GrowingAlike

/-!
# Indirect recursion

A rule that comes back to itself through a further rule matches what it would match if it came back to
itself directly. The two grammars are matched side by side: as long as both know the same of the rule, each
reference to it comes to the same, whether it is answered from the memo, grown, or matched afresh at
another offset in the middle of that.
-/

namespace Packrat

open Matcher Course
open Stage (direct detour)

section Rule

variable {table table' : RuleTable} {home home' pass : RuleRef} {body : Atom} {text : Text}
  {stages : List Stage} {depth depth' : Nat} {s₁ s₂ : Session} {name name' : String}

/-- The body of a rule that was entered is matched to an end. -/
theorem Regime.ensures_matched {u : Underway} {r : RuleBody} {s : Session}
    (hs : ((Regime.bare table text anyhow False).course u (depth + 1)).Start s)
    (hentering : (Regime.bare table text anyhow False).Entering u r.rule s.source.pos s.memo)
    (hends : ∀ u, ((Regime.bare table text anyhow False).course u depth).Ends r.body) :
    Ensures anyhow r.body (s.enter r s.source.pos) fun result t =>
      (Regime.bare table text anyhow False).Matched u depth r.rule (r.failed s.source.pos) s result t := by
  have hstart := Regime.start_entered hs hentering
  exact (hends _ _ hstart).mono fun result t he =>
    ⟨⟨hentering, he.forward, he.boundary, he.passes.memo hstart.memo.fits, trivial⟩, he⟩

/-- Where nothing is known of the rule, it is applied alike on both sides. -/
theorem abreast_fresh (hd : Detours table table' home home' pass body)
    (hbody : KeptTogether table table' home home' body text depth)
    (hs : (Stage.pair table table' text stages (depth + 1) (depth' + 2)).Together s₁ s₂)
    (hnone : s₁.memo.find? 0 s₁.source.pos = none) (hnone' : s₂.memo.find? 0 s₂.source.pos = none)
    {r₁ r₂ : RuleBody} (hr₁ : r₁ = table.ruleBody depth name 0 (body.redirect home))
    (hr₂ : r₂ = table'.ruleBody (depth' + 1) name' 0 (.rule pass)) :
    Abreast (applyFresh r₁ s₁.source.pos) (applyFresh r₂ s₁.source.pos) s₁ s₂
      ((Stage.pair table table' text stages (depth + 1) (depth' + 2)).Meet Eq) := by
  have hrule₁ : r₁.rule = 0 := by rw [hr₁]; rfl
  have hrule₂ : r₂.rule = 0 := by rw [hr₂]; rfl
  have hpos : s₂.source.pos = s₁.source.pos := by rw [hs.source]
  obtain ⟨hentering₁, hentering₂⟩ := hs.entered hd hnone hnone'
  obtain ⟨hne₁, hne₂⟩ := hs.start_ne hnone
  have hmatched₁ := Regime.ensures_matched hs.first (hrule₁ ▸ hentering₁) fun u => by
    rw [hr₁]
    exact ends_ruleBody table text u depth name 0 (body.redirect home)
  have hmatched₂ := Regime.ensures_matched hs.second (hrule₂ ▸ hentering₂) fun u => by
    rw [hr₂]
    exact ends_ruleBody table' text u (depth' + 1) name' 0 (.rule pass)
  rw [hpos] at hmatched₂
  refine abreast_applyFresh (((abreast_entered hd hbody hs hnone hnone' hr₁ hr₂).and hmatched₁
    hmatched₂).mono ?_)
  rintro result₁ t₁ result₂ t₂ ⟨hpassed, hm₁, hm₂⟩
  refine hpassed.left hrule₁ hrule₂ hm₁.ended.forward hm₁.ended.boundary ?_
  rintro tree c c' rfl rfl ⟨hc, hcluster⟩ ⟨hc', hcluster'⟩ hpaired
  have hhead₁ : (⟨0, [], []⟩ : Cluster).head = r₁.rule := hrule₁.symm
  have hhead₂ : (⟨0, [1], []⟩ : Cluster).head = r₂.rule := hrule₂.symm
  refine (abreast_answerCluster_ok ?_ hhead₁ ?_ hhead₂).2 ?_
  · exact hcluster
  · exact hcluster'
  rw [hrule₁] at hm₁
  rw [hrule₂] at hm₂
  obtain ⟨hfresh₁, -⟩ := hm₁.entered.apart hc hcluster
  obtain ⟨hfresh₂, -⟩ := hm₂.entered.apart hc' hcluster'
  have hstart₁ := hm₁.start_grow (Regime.lawful_bare ..) hs.first hc hcluster rfl
  have hstart₂ := hm₂.start_grow (Regime.lawful_bare ..) hs.second hc' hcluster' rfl
  rw [hpos] at hstart₂ hentering₂
  have hgrow : Stage.MayGrow table table' text stages s₁.source.pos c c' :=
    ⟨⟨_, hentering₁.toApplying⟩, ⟨_, hentering₂.toApplying⟩, hfresh₁, hfresh₂⟩
  refine abreast_grow hpassed.source ?_ ?_ (abreast_rounds hd hbody ?_ hgrow hr₁ hr₂ _)
  · exact hm₁.entered.goes.fits.accounts.growing_eq_none hne₁
  · exact hm₂.entered.goes.fits.accounts.growing_eq_none hne₂
  · rw [hrule₁, hrule₂]
    refine ⟨rfl, ?_, hm₁.ended.forward, hm₁.ended.boundary, hstart₁, hstart₂, ?_, hpassed.captures, hpaired⟩
    · change t₂.source.pos = t₁.source.pos
      rw [hpassed.source]
    · change { t₂.source with pos := s₁.source.pos } = { t₁.source with pos := s₁.source.pos }
      rw [hpassed.source]

/-- Where the rule waits, it comes back to itself on both sides and fails. -/
theorem abreast_back (hs : (Stage.pair table table' text stages depth depth').Together s₁ s₂)
    {id outer inner : Nat} (hmem : Stage.entered id outer inner s₁.source.pos ∈ stages) {r₁ r₂ : RuleBody}
    (hr₁ : r₁.rule = 0) (hr₂ : r₂.rule = 0) :
    Abreast (memoized r₁) (memoized r₂) s₁ s₂
      ((Stage.pair table table' text stages depth depth').Meet Eq) := by
  have hpos : s₂.source.pos = s₁.source.pos := by rw [hs.source]
  have hpaired : Paired stages s₁.memo s₂.memo := hs.memo
  have ha := hs.first.memo.fits.accounts
  have ha' := hs.second.memo.fits.accounts
  have hw := Stage.mem_path_direct.2 ⟨id, outer, inner, _, hmem, rfl⟩
  have hw' := Stage.mem_path_detour.2 ⟨id, outer, inner, _, hmem, .inr rfl⟩
  have hentry : s₁.memo.find? r₁.rule s₁.source.pos = some ⟨.inProgress id, s₁.source.pos⟩ := by
    rw [hr₁]
    exact ha.waits _ hw
  have hentry' : s₂.memo.find? r₂.rule s₂.source.pos = some ⟨.inProgress outer, s₁.source.pos⟩ := by
    rw [hr₂, hpos]
    exact ha'.waits _ hw'
  have hdue := (hpaired.free_direct ha r₁.rule s₁.source.pos).1
  have hdue' := (hpaired.free_detour ha' r₂.rule s₂.source.pos).1
  obtain ⟨⟨a, cause, hrecord, hseed⟩, ⟨a', cause', hrecord', hseed'⟩, -⟩ := hpaired.tallies _ hmem
  obtain ⟨trace, hfirst⟩ := memoized_of_active hentry hdue (ha.isActive_iff.2 ⟨_, hw, rfl⟩)
    hs.first.at_boundary hrecord
  have hboundary : s₂.source.text.isBoundary s₁.source.pos = true := hpos ▸ hs.second.at_boundary
  obtain ⟨trace', hsecond⟩ := memoized_of_active hentry' hdue' (ha'.isActive_iff.2 ⟨_, hw', rfl⟩)
    hboundary hrecord'
  refine Abreast.congr ?_ (hfirst r₁.body) (hsecond r₂.body)
  rw [hseed, hseed', hr₁, hr₂, abreast_ofResult]
  refine .failed ⟨?_, hs.captures, ?_⟩
  · rw [hs.source]
  · exact (hpaired.count _ _).mark (ha.count _) (ha'.count _) hmem hs.first.memo.orderly

/-- Through the memo, the rule is applied alike on both sides. -/
theorem abreast_memoized (hd : Detours table table' home home' pass body)
    (hbody : KeptTogether table table' home home' body text depth)
    (hs : (Stage.pair table table' text stages (depth + 1) (depth' + 1)).Together s₁ s₂)
    {r₁ r₂ : RuleBody} (hr₁ : r₁ = table.ruleBody depth name 0 (body.redirect home))
    (hr₂ : r₂ = table'.ruleBody depth' name' 0 (.rule pass)) :
    Abreast (memoized r₁) (memoized r₂) s₁ s₂
      ((Stage.pair table table' text stages (depth + 1) (depth' + 1)).Meet Eq) := by
  have hrule₁ : r₁.rule = 0 := by rw [hr₁]; rfl
  have hrule₂ : r₂.rule = 0 := by rw [hr₂]; rfl
  have hpos : s₂.source.pos = s₁.source.pos := by rw [hs.source]
  have hpaired : Paired stages s₁.memo s₂.memo := hs.memo
  have ha := hs.first.memo.fits.accounts
  have ha' := hs.second.memo.fits.accounts
  obtain ⟨hnone, hnone'⟩ | ⟨result, result', stop, hdone, hdone', hagree⟩ | ⟨id, outer, inner, hmem⟩ :=
    hpaired.entries s₁.source.pos
  · obtain ⟨hdue, hallowed⟩ := hpaired.free_direct ha 0 s₁.source.pos
    obtain ⟨hdue', hallowed'⟩ := hpaired.free_detour ha' 0 s₁.source.pos
    have hallowed' := hallowed' (.inl rfl)
    rw [← hrule₁] at hnone hdue hallowed
    rw [← hrule₂, ← hpos] at hnone' hdue' hallowed'
    refine Abreast.congr ?_ (memoized_of_none hnone hdue hallowed) (memoized_of_none hnone' hdue' hallowed')
    rw [hrule₁] at hnone
    rw [hrule₂] at hnone'
    cases depth' with
    | zero =>
      -- there is room for the further rule
      obtain ⟨-, hentering⟩ := hs.entered hd hnone hnone'
      have hstart := Regime.start_entered hs.second (hrule₂ ▸ hentering)
      exact absurd hstart.memo.room (Nat.not_lt_zero _)
    | succ depth' =>
      rw [hpos]
      exact abreast_fresh hd hbody hs hnone hnone' hr₁ hr₂
  · have hdue := (hpaired.free_direct ha r₁.rule s₁.source.pos).1
    have hdue' := (hpaired.free_detour ha' r₂.rule s₂.source.pos).1
    rw [← hrule₁] at hdone
    rw [← hrule₂, ← hpos] at hdone'
    have hb : s₁.source.text.isBoundary stop = true := hs.first.text ▸ (ha.stops _ _ _ hdone).2
    have hb' : s₂.source.text.isBoundary stop = true := hs.source ▸ hb
    refine Abreast.congr ?_ (memoized_of_done hdone hdue hb) (memoized_of_done hdone' hdue' hb')
    rw [abreast_ofResult]
    have hcounted : Paired stages s₁.memo.countHit s₂.memo.countHit := hpaired.count _ _
    refine ⟨⟨?_, hs.captures, hcounted⟩, hagree⟩
    rw [hs.source]
  · exact abreast_back hs hmem hrule₁ hrule₂

end Rule

/-- References to the rule come to the same on both sides, with enough room for rules on either. -/
theorem goes_applyRule {table table' : RuleTable} {home home' pass : RuleRef} {body : Atom}
    (hd : Detours table table' home home' pass body) (text : Text) (stages : List Stage)
    (depth depth' : Nat) {ref ref' : RuleRef} (href : table.resolve? ref = some 0) (href' : table'.resolve? ref' = some 0) :
    (Stage.pair table table' text stages depth depth').Goes Eq (table.applyRule depth ref)
      (table'.applyRule depth' ref') := by
  refine ⟨ends_applyRule table text _ depth ref, ends_applyRule table' text _ depth' ref', ?_⟩
  induction depth generalizing stages depth' ref ref' with
  | zero => exact fun s₁ s₂ hs => absurd hs.first.memo.room (Nat.not_lt_zero _)
  | succ depth ih =>
    intro s₁ s₂ hs
    cases depth' with
    | zero => exact absurd hs.second.memo.room (Nat.not_lt_zero _)
    | succ depth' =>
      have hbody : KeptTogether table table' home home' body text depth := fun stages depth' =>
        Pair.goes_mapRefs Regime.lax_bare Regime.lax_bare (.of_forall (fun _ _ _ =>
          ⟨ends_applyRule table text _ depth home, ends_applyRule table' text _ depth' home',
            ih stages depth' hd.back hd.back'⟩) body)
      obtain ⟨bodies₁, trace₁, hbodies₁, hreply₁⟩ :=
        RuleTable.exists_applyRule_eq href hd.direct hs.first.bodies
      obtain ⟨bodies₂, trace₂, hbodies₂, hreply₂⟩ :=
        RuleTable.exists_applyRule_eq href' hd.outer hs.second.bodies
      refine Abreast.congr ?_ (hreply₁ depth) (hreply₂ depth')
      have hbuilt : (Stage.pair table table' text stages (depth + 1) (depth' + 1)).Together
          { s₁ with bodies := bodies₁, trace := trace₁ } { s₂ with bodies := bodies₂, trace := trace₂ } :=
        ⟨⟨hs.source, hs.captures, hs.memo⟩, hs.first.built hbodies₁ trace₁, hs.second.built hbodies₂ trace₂⟩
      refine (abreast_memoized hd hbody hbuilt rfl rfl).bind fun r₁ t₁ r₂ t₂ hmeet => ?_
      obtain ⟨tree, _, rfl, rfl, rfl⟩ | ⟨cause₁, cause₂, rfl, rfl⟩ := hmeet.agree.cases
      · exact .matched hmeet.toEven rfl
      · exact .failed hmeet.toEven

namespace Atom

/-- The first of the expressions that matches. -/
def alternatives : List Atom → Atom
  | [] => .choice []
  | first :: rest => rest.foldl orElse first

/-- References change in each part of a sequence. -/
theorem sequenceParts_mapRefs (f : RuleRef → RuleRef) (atom : Atom) :
    (atom.mapRefs f).sequenceParts = atom.sequenceParts.map (mapRefs f) := by
  cases atom <;> simp [mapRefs, sequenceParts, mapRefsAll_eq_map]

/-- References change in each branch of a choice. -/
theorem choiceBranches_mapRefs (f : RuleRef → RuleRef) (atom : Atom) :
    (atom.mapRefs f).choiceBranches = atom.choiceBranches.map (mapRefs f) := by
  cases atom <;> simp [mapRefs, choiceBranches, mapRefsAll_eq_map]

/-- References change on both sides of a sequence of two. -/
theorem mapRefs_andThen (f : RuleRef → RuleRef) (a b : Atom) :
    (a.andThen b).mapRefs f = (a.mapRefs f).andThen (b.mapRefs f) := by
  simp [andThen, mapRefs, mapRefsAll_eq_map, sequenceParts_mapRefs]

/-- References change on both sides of a choice of two. -/
theorem mapRefs_orElse (f : RuleRef → RuleRef) (a b : Atom) :
    (a.orElse b).mapRefs f = (a.mapRefs f).orElse (b.mapRefs f) := by
  simp [orElse, mapRefs, mapRefsAll_eq_map, choiceBranches_mapRefs]

/-- References change in each of several alternatives. -/
theorem mapRefs_alternatives (f : RuleRef → RuleRef) (atoms : List Atom) :
    (alternatives atoms).mapRefs f = alternatives (atoms.map (mapRefs f)) := by
  cases atoms with
  | nil => rfl
  | cons first rest =>
    rw [alternatives, List.map_cons, alternatives]
    induction rest generalizing first with
    | nil => rfl
    | cons second rest ih => rw [List.foldl_cons, ih, mapRefs_orElse, List.map_cons, List.foldl_cons]

end Atom

/-- The rule followed by one of the steps, or else one of the seeds, where all references in steps and seeds
lead to the rule. -/
def Rules.recursion (rules : Rules) (name : String) (steps seeds : List Atom) : Atom :=
  .alternatives (steps.map (fun step => (rules.rule name).andThen (step.redirect (rules.ref name))) ++
    seeds.map (Atom.redirect (rules.ref name)))

/-- A rule that refers to itself. -/
def directRules (rule : String) (steps seeds : List Atom) : List Definition :=
  [⟨rule, fun rules => rules.recursion rule steps seeds⟩]

/-- A rule that comes back to itself through a further one. -/
def indirectRules (rule further : String) (steps seeds : List Atom) : List Definition :=
  [⟨rule, fun rules => rules.rule further⟩, ⟨further, fun rules => rules.recursion rule steps seeds⟩]

/-- The recursion with a reference to be filled in. -/
def recursionTo (steps seeds : List Atom) : Atom :=
  .alternatives (steps.map (Atom.rule ⟨none, 0, ""⟩).andThen ++ seeds)

/-- The body of a recursive rule is the recursion with the reference to the rule filled in. -/
theorem Rules.recursion_eq (rules : Rules) (name : String) (steps seeds : List Atom) :
    rules.recursion name steps seeds = (recursionTo steps seeds).redirect (rules.ref name) := by
  rw [recursion, recursionTo, Atom.redirect, Atom.mapRefs_alternatives, List.map_append, List.map_map]
  simp only [Function.comp_def, Atom.mapRefs_andThen]
  rfl

/-- What a match has found: why it was broken off, or else the value, if there is one, and where the cursor
is. -/
def Reply.finding {α : Type} : Reply α → Except Stop (Option α × Nat)
  | .stopped reason => .error reason
  | .failed _ s => .ok (none, s.source.pos)
  | .matched value s => .ok (some value, s.source.pos)

/-- Matches that meet have found the same. -/
theorem finding_eq_of_meet {P : Pair} {α : Type} {step₁ step₂ : Matcher α} {s₁ s₂ : Session}
    (h : Abreast step₁ step₂ s₁ s₂ (P.Meet Eq)) : (step₁ s₁).finding = (step₂ s₂).finding := by
  cases hreply : step₁ s₁ with
  | stopped reason =>
    rw [Abreast, Ensures, hreply] at h
    rw [h]
  | failed cause t₁ =>
    obtain ⟨cause', t₂, hreply', hmeet⟩ | ⟨value, t₂, -, hmeet⟩ := (h.of_failed hreply).exists_reply
    · rw [hreply', Reply.finding, Reply.finding, hmeet.source]
    · exact hmeet.agree.elim
  | matched value t₁ =>
    obtain ⟨cause', t₂, -, hmeet⟩ | ⟨value', t₂, hreply', hmeet⟩ := (h.of_matched hreply).exists_reply
    · exact hmeet.agree.elim
    · have heq : value = value' := hmeet.agree
      rw [hreply', Reply.finding, Reply.finding, hmeet.source, heq]

section Built

variable {key key' : Nat} {rule further : String} {steps seeds : List Atom} {grammar : Grammar}

/-- A grammar that is built from the rule alone has it for its root. -/
theorem eq_of_build_directRules
    (h : Grammar.build key (directRules rule steps seeds) (some rule) = .ok grammar) :
    grammar = ⟨⟨key, directRules rule steps seeds⟩, 0⟩ := by
  simp [Grammar.build, RuleTable.names, directRules, Grammar.firstRepeat?] at h
  exact h.symm

/-- The further rule has another name. -/
theorem eq_of_build_indirectRules
    (h : Grammar.build key (indirectRules rule further steps seeds) (some rule) = .ok grammar) :
    further ≠ rule ∧ grammar = ⟨⟨key, indirectRules rule further steps seeds⟩, 0⟩ := by
  by_cases heq : further = rule
  · simp [Grammar.build, RuleTable.names, indirectRules, Grammar.firstRepeat?, heq] at h
  · simp [Grammar.build, RuleTable.names, indirectRules, Grammar.firstRepeat?, heq, List.idxOf?_cons] at h
    exact ⟨heq, h.symm⟩

/-- In the second grammar, the rule takes the detour. -/
theorem detours_of_ne (key key' : Nat) (steps seeds : List Atom) (hne : further ≠ rule) :
    Detours ⟨key, directRules rule steps seeds⟩ ⟨key', indirectRules rule further steps seeds⟩
      ⟨some 0, key, rule⟩ ⟨some 0, key', rule⟩ ⟨some 1, key', further⟩ (recursionTo steps seeds) where
  direct := by
    simp [RuleTable.bodyAt?, directRules, RuleTable.rules, RuleTable.names, Rules.recursion_eq, Rules.ref]
  back := by simp [RuleTable.resolve?, directRules]
  outer := by
    simp [RuleTable.bodyAt?, indirectRules, RuleTable.rules, RuleTable.names, Rules.rule, Rules.ref,
      List.idxOf?_cons, hne.symm]
  leads := by simp [RuleTable.resolve?, indirectRules]
  inner := by
    simp [RuleTable.bodyAt?, indirectRules, RuleTable.rules, RuleTable.names, Rules.recursion_eq, Rules.ref,
      List.idxOf?_cons]
  back' := by simp [RuleTable.resolve?, indirectRules]

/-- The root of the first grammar is the rule. -/
theorem rootAtom_directRules :
    (⟨⟨key, directRules rule steps seeds⟩, 0⟩ : Grammar).rootAtom = .rule ⟨some 0, key, rule⟩ := by
  simp [Grammar.rootAtom, Grammar.rootName, RuleTable.names, directRules, RuleTable.rules, Rules.rule,
    Rules.ref]

/-- The root of the second grammar is the rule, and not the further one. -/
theorem rootAtom_indirectRules :
    (⟨⟨key, indirectRules rule further steps seeds⟩, 0⟩ : Grammar).rootAtom
      = .rule ⟨some 0, key, rule⟩ := by
  simp [Grammar.rootAtom, Grammar.rootName, RuleTable.names, indirectRules, RuleTable.rules, Rules.rule,
    Rules.ref, List.idxOf?_cons]

end Built

/-- Indirect left recursion comes to what direct left recursion comes to. A rule that refers to itself and
one that comes back to itself through a further rule find the same at the start of every text: both are
broken off for the same reason, both fail, or both match with the same value up to the same offset. This
is so for whatever steps and seeds, wherever the references in these come back to the rule. -/
theorem indirect_recursion_equals_direct (key key' : Nat) (rule further : String) (steps seeds : List Atom)
    (direct indirect : Grammar)
    (hdirect : Grammar.build key (directRules rule steps seeds) (some rule) = .ok direct)
    (hindirect : Grammar.build key' (indirectRules rule further steps seeds) (some rule) = .ok indirect)
    (bodies bodies' : List (Nat × Atom)) (hbodies : direct.table.Knows bodies)
    (hbodies' : indirect.table.Knows bodies') (text : String) (options : Options) :
    (matchEntry direct.table bodies direct.rootAtom text options).finding
      = (matchEntry indirect.table bodies' indirect.rootAtom text options).finding := by
  obtain rfl := eq_of_build_directRules hdirect
  obtain ⟨hne, rfl⟩ := eq_of_build_indirectRules hindirect
  have hd := detours_of_ne key key' steps seeds hne
  let depth := (⟨key, directRules rule steps seeds⟩ : RuleTable).depthBound text.utf8ByteSize
  let depth' := (⟨key', indirectRules rule further steps seeds⟩ : RuleTable).depthBound text.utf8ByteSize
  have hgoes := Pair.goes_guarded (goes_applyRule hd (Text.ofString text) [] depth depth' hd.back hd.back')
  rw [rootAtom_directRules, rootAtom_indirectRules]
  exact finding_eq_of_meet (hgoes.keeps _ _ ⟨⟨rfl, rfl, .nil⟩,
    Regime.start_of_knows _ hbodies options trivial, Regime.start_of_knows _ hbodies' options trivial⟩)

/-- A digit, or a sum in brackets. -/
def bracketTerm : Atom :=
  .choice [.char (.predicate "digit" Char.isDigit),
    .sequence [.literal "(", .rule ⟨some 0, 1, "sum"⟩, .literal ")"]]

/-- What may follow a sum in a longer one. -/
def plusStep : Atom := .sequence [.literal "+", bracketTerm]

/-- The rules of a sum that is directly recursive. -/
def bracketTable : RuleTable := ⟨1, directRules "sum" [plusStep] [bracketTerm]⟩

/-- The rules of a sum that comes back to itself through its second rule. -/
def detourTable : RuleTable := ⟨2, indirectRules "sum" "plus" [plusStep] [bracketTerm]⟩

set_option maxRecDepth 8000 in
/-- A sum of a digit and of a sum in brackets is found alike by both grammars, up to its end. -/
theorem bracket_indirect_equals_direct :
    (Grammar.build 1 (directRules "sum" [plusStep] [bracketTerm]) (some "sum")
        = .ok ⟨bracketTable, 0⟩ ∧
      Grammar.build 2 (indirectRules "sum" "plus" [plusStep] [bracketTerm]) (some "sum")
        = .ok ⟨detourTable, 0⟩ ∧
      bracketTable.Knows [] ∧ detourTable.Knows []) ∧
    (matchEntry detourTable [] (⟨detourTable, 0⟩ : Grammar).rootAtom "1+(2+3)" {}).finding.toOption.map
      (·.2) = some 7 ∧
    (matchEntry bracketTable [] (⟨bracketTable, 0⟩ : Grammar).rootAtom "1+(2+3)" {}).finding
      = (matchEntry detourTable [] (⟨detourTable, 0⟩ : Grammar).rootAtom "1+(2+3)" {}).finding :=
  ⟨⟨rfl, rfl, bracketTable.knows_nil, detourTable.knows_nil⟩, by cbv,
    indirect_recursion_equals_direct 1 2 "sum" "plus" _ _ ⟨bracketTable, 0⟩ ⟨detourTable, 0⟩ rfl rfl [] []
      bracketTable.knows_nil detourTable.knows_nil "1+(2+3)" {}⟩

end Packrat
