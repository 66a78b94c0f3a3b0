import Mathlib
import Packrat.Proofs.Defining
import Packrat.Proofs.Settings
import Packrat.Proofs.Watching

/-!
# References that lead nowhere

A reference leads nowhere if another table made it, or if it has no place in the table. It fails like any
other expression, and the match goes on; but its name is remembered, and the first name that is remembered
decides what the parse comes to. Whatever happens later, be it another branch of a choice, a lookahead that
is to fail, an answer out of the memo or a further round of growing, the name stays. So a parse comes to such
a name exactly if it is the name of the first reference applied in the match that leads nowhere. Which one
that is, is told by a watch: it breaks the match off at every such reference, and up to the first of them the
watched match is the match itself.
-/

namespace Packrat

open Matcher

/-- The reference leads nowhere in the table: another table made it, or it carries no place because there
was no rule of its name, or the place lies behind the last rule. -/
def RuleTable.Stray (table : RuleTable) (ref : RuleRef) : Prop :=
  ref.table ≠ table.key ∨ ref.index = none ∨ ∃ index ∈ ref.index, table.definitions.length ≤ index

instance (table : RuleTable) (ref : RuleRef) : Decidable (table.Stray ref) :=
  inferInstanceAs (Decidable (_ ∨ _ ∨ _))

/-- A reference resolves to no place exactly if it leads nowhere. -/
theorem RuleTable.resolve?_eq_none_iff {table : RuleTable} {ref : RuleRef} :
    table.resolve? ref = none ↔ table.Stray ref := by
  obtain ⟨index, key, name⟩ := ref
  unfold resolve? Stray
  by_cases hkey : key = table.key
  · cases index with
    | none => simp [hkey]
    | some index => simp [hkey, Option.filter_eq_none_iff]
  · simp [hkey]

/-- A reference resolves to a place exactly if it leads somewhere. -/
theorem RuleTable.isSome_resolve?_iff {table : RuleTable} {ref : RuleRef} :
    (table.resolve? ref).isSome ↔ ¬ table.Stray ref := by
  rw [← resolve?_eq_none_iff, Option.isSome_iff_ne_none]

/-- A reference by name that the table itself makes leads nowhere exactly if no rule has the name. -/
theorem RuleTable.stray_ref_iff {table : RuleTable} {name : String} :
    table.Stray (table.rules.ref name) ↔ name ∉ table.names := by
  rw [← resolve?_eq_none_iff, resolve?_ref_eq_none_iff]

/-- The watch that breaks a match off where a reference that leads nowhere is applied, for a reason that
its name decides. -/
def strayWatch (table : RuleTable) (reason : String → Stop) : Watch := fun atom step =>
  match atom with
  | .rule ref => if table.Stray ref then stop (reason ref.name) else guarded step
  | _ => guarded step

/-- The first reference applied in the match that leads nowhere has the name: broken off at every such
reference, the match is broken off for the reason that this name decides. -/
def FirstStray (table : RuleTable) (bodies : List (Nat × Atom)) (entry : Atom) (text : String)
    (options : Options) (name : String) : Prop :=
  ∀ reason : String → Stop,
    matchWatched (strayWatch table reason) table bodies entry text options = .stopped (reason name)

/-- An expression that, if it is a reference, leads to a rule of the table. -/
def RuleTable.Defines (table : RuleTable) (atom : Atom) : Prop :=
  ∀ ref, atom = .rule ref → ¬ table.Stray ref

namespace Matcher

variable {α β : Type} {P : Session → Prop} {reason : String → Stop}

/-- Wherever the step ends, the bodies built so far and the name remembered are what they were. -/
def Bypasses (step : Matcher α) : Prop :=
  ∀ s, Ensures anyhow step s fun _ s' => s'.bodies = s.bodies ∧ s'.undefined = s.undefined

/-- Moving the cursor bypasses bodies and names. -/
theorem bypasses_moveTo (pos : Nat) : Bypasses (moveTo pos) := fun _ => ensures_moveTo_anyhow ⟨rfl, rfl⟩

/-- Consuming bypasses bodies and names. -/
theorem bypasses_consume (n : Nat) : Bypasses (consume n) := fun _ => ensures_consume_anyhow ⟨rfl, rfl⟩

/-- Flattening bypasses bodies and names. -/
theorem bypasses_flatten (named : Bool) (raw : Raw) : Bypasses (flatten named raw) :=
  fun _ => ensures_flatten _ _ _ fun _ _ => ⟨rfl, rfl⟩

/-- Forgetting entries bypasses bodies and names. -/
theorem bypasses_forget (rules : List Nat) (start : Nat) : Bypasses (forget rules start) :=
  fun _ => ⟨rfl, rfl⟩

/-- The step leads from sessions with the property to sessions with the property. -/
def Upholds (P : Session → Prop) (step : Matcher α) : Prop :=
  ∀ s, P s → Ensures anyhow step s fun _ s' => P s'

/-- The property is one of the bodies built so far and the name remembered. -/
def Modest (P : Session → Prop) : Prop :=
  ∀ s s', s'.bodies = s.bodies → s'.undefined = s.undefined → P s → P s'

/-- A step that bypasses bodies and names upholds every property of these. -/
theorem Bypasses.keeps {step : Matcher α} (h : Bypasses step) (hP : Modest P) : Upholds P step :=
  fun s hs => (h s).mono fun _ s' hs' => hP s s' hs'.1 hs'.2 hs

/-- Two steps in a row uphold what both of them do. -/
theorem Upholds.bind {step : Matcher α} {next : α → Matcher β} (h : Upholds P step)
    (hnext : ∀ value, Upholds P (next value)) : Upholds P (step >>= next) := by
  intro s hs
  rw [ensures_bind]
  refine (h s hs).mono fun result s₁ hs₁ => ?_
  cases result with
  | error cause => exact hs₁
  | ok value => exact hnext value s₁ hs₁

/-- A step whose failure is handed on as a value upholds what the step does. -/
theorem Upholds.attempt {step : Matcher α} (h : Upholds P step) : Upholds P (attempt step) :=
  fun s hs => (ensures_attempt _ _).2 (h s hs)

/-- To keep a property of the bodies and of the name is a bond, in which the first step plays no part. -/
def upholdingBond (P : Session → Prop) (hP : Modest P) : Bond where
  Has _ step' := Upholds P step'
  pure _ _ hs := hs
  fail _ _ hs := hs
  stop _ _ _ := trivial
  bind h hnext := h.bind hnext
  attempt h := h.attempt
  position _ hs := hs
  source _ hs := hs
  moveTo pos := (bypasses_moveTo pos).keeps hP
  consume n := (bypasses_consume n).keeps hP
  emit _ s hs := hP s _ rfl rfl hs
  tell _ s hs := hP s _ rfl rfl hs
  refuse _ _ _ s hs := hP s _ rfl rfl hs
  flatten named raw := (bypasses_flatten named raw).keeps hP
  modify _ _ s hs := hP s _ rfl rfl hs
  dynamic h s hs := h s.source s.captures s hs

/-- What applications of rules do to the memo upholds every property of bodies and names. -/
theorem upholdingBond_minds (hP : Modest P) : (upholdingBond P hP).Minds where
  memo _ hs := hs
  modifyMemo _ s hs := hP s _ rfl rfl hs
  forget rules start := (bypasses_forget rules start).keeps hP

/-- As long as no reference that leads nowhere was reached, the first step is the second; where one is
reached, the first is broken off and the second goes on and remembers its name from then on. -/
structure Trails (reason : String → Stop) (step step' : Matcher α) : Prop where
  keeps : ∀ name, Upholds (·.undefined = some name) step'
  tracks : ∀ s, s.undefined = none →
    (step s = step' s ∧ Ensures anyhow step' s fun _ s' => s'.undefined = none) ∨
      ∃ name, step s = .stopped (reason name) ∧
        Ensures anyhow step' s fun _ s' => s'.undefined = some name

/-- Which name is remembered is a property of bodies and names. -/
theorem modest_undefined (undefined : Option String) : Modest (·.undefined = undefined) :=
  fun _ _ _ hu hs => hu.trans hs

namespace Trails

variable {step step' : Matcher α}

/-- A step that never remembers another name trails itself. -/
theorem of_upholds (h : ∀ undefined, Upholds (·.undefined = undefined) step) : Trails reason step step :=
  ⟨fun name => h (some name), fun s hs => .inl ⟨rfl, h none s hs⟩⟩

/-- A step that bypasses names trails itself. -/
theorem of_bypasses (h : Bypasses step) : Trails reason step step :=
  of_upholds fun undefined => h.keeps (modest_undefined undefined)

/-- Two steps in a row trail two others if they do so one by one: once a stray reference was
reached, the second match keeps its name. -/
theorem bind {next next' : α → Matcher β} (h : Trails reason step step')
    (hnext : ∀ value, Trails reason (next value) (next' value)) :
    Trails reason (step >>= next) (step' >>= next') := by
  refine ⟨fun name => (h.keeps name).bind fun value => (hnext value).keeps name, fun s hs => ?_⟩
  rcases h.tracks s hs with ⟨heq, hnone⟩ | ⟨name, hstop, hsome⟩
  · have hbind : (step >>= next) s = (step' >>= next) s := bind_congr heq
    cases hr : step' s with
    | stopped reason' =>
      refine .inl ⟨hbind.trans ?_, (ensures_bind_stopped hr).2 trivial⟩
      change Matcher.bind step' next s = Matcher.bind step' next' s
      rw [Matcher.bind, Matcher.bind, hr]
    | failed cause s₁ =>
      refine .inl ⟨hbind.trans ?_, (ensures_bind_failed hr).2 (hnone.of_failed hr)⟩
      change Matcher.bind step' next s = Matcher.bind step' next' s
      rw [Matcher.bind, Matcher.bind, hr]
    | matched value s₁ =>
      rw [bind_of_matched hr] at hbind
      obtain ⟨heq', hnone'⟩ | ⟨name, hstop, hsome⟩ := (hnext value).tracks s₁ (hnone.of_matched hr)
      · exact .inl ⟨(hbind.trans heq').trans (bind_of_matched hr).symm,
          (ensures_bind_matched hr).2 hnone'⟩
      · exact .inr ⟨name, hbind.trans hstop, (ensures_bind_matched hr).2 hsome⟩
  · refine .inr ⟨name, ?_, ?_⟩
    · change Matcher.bind step next s = _
      rw [Matcher.bind, hstop]
    · rw [ensures_bind]
      refine hsome.mono fun result s₁ hs₁ => ?_
      cases result with
      | error cause => exact hs₁
      | ok value => exact (hnext value).keeps name s₁ hs₁

/-- A step whose failure is handed on as a value trails if the step does. -/
theorem attempt (h : Trails reason step step') : Trails reason (attempt step) (Matcher.attempt step') := by
  refine ⟨fun name => (h.keeps name).attempt, fun s hs => ?_⟩
  rcases h.tracks s hs with ⟨heq, hnone⟩ | ⟨name, hstop, hsome⟩
  · refine .inl ⟨?_, (ensures_attempt _ _).2 hnone⟩
    rw [Matcher.attempt, Matcher.attempt, heq]
  · refine .inr ⟨name, ?_, (ensures_attempt _ _).2 hsome⟩
    rw [Matcher.attempt, hstop]

/-- To be the same up to the first reference that leads nowhere is a bond. -/
def bond (reason : String → Stop) : Bond where
  Has := Trails reason
  pure _ := of_bypasses fun _ => ⟨rfl, rfl⟩
  fail _ := of_bypasses fun _ => ⟨rfl, rfl⟩
  stop _ := of_bypasses fun _ => trivial
  bind := bind
  attempt := attempt
  position := of_bypasses fun _ => ⟨rfl, rfl⟩
  source := of_bypasses fun _ => ⟨rfl, rfl⟩
  moveTo pos := of_bypasses (bypasses_moveTo pos)
  consume n := of_bypasses (bypasses_consume n)
  emit _ := of_bypasses fun _ => ⟨rfl, rfl⟩
  tell _ := of_bypasses fun _ => ⟨rfl, rfl⟩
  refuse _ _ _ := of_bypasses fun _ => ⟨rfl, rfl⟩
  flatten named raw := of_bypasses (bypasses_flatten named raw)
  modify _ _ := of_bypasses fun _ => ⟨rfl, rfl⟩
  dynamic h := ⟨fun name s hs => (h s.source s.captures).keeps name s hs,
    fun s hs => (h s.source s.captures).tracks s hs⟩

/-- What applications of rules do to the memo trails itself, as it reaches no reference. -/
theorem minds (reason : String → Stop) : (bond reason).Minds where
  memo := of_bypasses fun _ => ⟨rfl, rfl⟩
  modifyMemo _ := of_bypasses fun _ => ⟨rfl, rfl⟩
  forget rules start := of_bypasses (bypasses_forget rules start)

end Trails

/-- A guard ensures every property of bodies and names that the guarded step ensures. -/
theorem Ensures.guarded {step : Matcher Raw} {s : Session} (h : Ensures anyhow step s fun _ s' => P s')
    (hP : Modest P) : Ensures anyhow (guarded step) s fun _ s' => P s' := by
  simp only [Matcher.guarded, ensures_bind, ensures_position, ensures_attempt]
  refine h.mono fun result s₁ hs₁ => ?_
  cases result with
  | ok raw =>
    simp only [ensures_bind, ensures_position, ensures_tell, ensures_pure]
    exact hP s₁ _ rfl rfl hs₁
  | error cause =>
    simp only [ensures_bind]
    exact ensures_moveTo_anyhow (hP s₁ _ rfl rfl hs₁)

/-- What a step ensures that is not broken off holds of some session. -/
theorem Ensures.exists_end {lenient : Stop → Prop} {step : Matcher α} {s : Session}
    (h : Ensures lenient step s fun _ s' => P s') (hends : ∀ reason, step s ≠ .stopped reason) :
    ∃ s', P s' := by
  unfold Ensures at h
  cases hr : step s with
  | stopped reason => exact absurd hr (hends reason)
  | failed cause s' => exact ⟨s', by rwa [hr] at h⟩
  | matched value s' => exact ⟨s', by rwa [hr] at h⟩

/-- Resolving a reference remembers nothing. -/
theorem resolve_upholds (table : RuleTable) (ref : RuleRef) (undefined : Option String) :
    Upholds (·.undefined = undefined) (table.resolve ref) := by
  intro s hs
  unfold RuleTable.resolve Ensures
  dsimp only
  cases (table.resolve? ref).bind fun index => (table.body? index s.bodies).map (index, ·) with
  | none => exact hs
  | some found => exact hs

/-- A reference that leads nowhere is refused, and its name is remembered unless another one is. -/
theorem ensures_applyRule_stray {table : RuleTable} {ref : RuleRef} (h : table.Stray ref)
    (depth : Nat) (s : Session) :
    Ensures anyhow (table.applyRule depth ref) s fun _ s' =>
      s'.undefined = some (s.undefined.getD ref.name) := by
  cases depth with
  | zero => trivial
  | succ depth =>
    have hresolve : table.resolve ref s = .matched none s := by
      unfold RuleTable.resolve
      rw [RuleTable.resolve?_eq_none_iff.2 h]
      rfl
    rw [RuleTable.applyRule_succ, RuleTable.applyWith, ensures_bind_matched hresolve]
    simp only [RuleTable.refuseUndefined, ensures_bind, ensures_session]
    cases hu : s.undefined with
    | none => rfl
    | some name => exact hu

/-- The body of the rule that a reference leads to is there or is built. -/
theorem resolve_of_leads {table : RuleTable} {ref : RuleRef} (h : ¬ table.Stray ref)
    (s : Session) : ∃ found s', table.resolve ref s = .matched (some found) s' := by
  obtain ⟨index, hr⟩ := Option.isSome_iff_exists.1 (RuleTable.isSome_resolve?_iff.2 h)
  obtain ⟨body, hbody⟩ := RuleTable.bodyAt?_isSome hr
  obtain ⟨definition, hdef, -⟩ := Option.map_eq_some_iff.1 hbody
  unfold RuleTable.resolve
  cases hl : s.bodies.lookup index with
  | some atom => simp [hr, RuleTable.body?, hl]
  | none => simp [hr, RuleTable.body?, hl, hdef]

/-- A reference that leads to a rule is never refused. -/
theorem applyWith_of_leads {table : RuleTable} {ref : RuleRef} (h : ¬ table.Stray ref)
    (body : Nat → Atom → Matcher Raw) : table.applyWith body ref = do
      match ← table.resolve ref with
      | none => stop .spent
      | some (index, atom) =>
        return .leaf (← memoized ⟨index, ref.name, do flatten false (← body index atom)⟩) := by
  funext s
  obtain ⟨found, s', hr⟩ := resolve_of_leads h s
  rw [RuleTable.applyWith, bind_of_matched hr, bind_of_matched hr]

/-- A reference that leads nowhere is where the watched match is broken off and the other goes on, with its
name remembered. -/
theorem trails_stray {table : RuleTable} {ref : RuleRef} (h : table.Stray ref) (step : Matcher Raw)
    (depth : Nat) :
    Trails reason (strayWatch table reason (.rule ref) step) (guarded (table.applyRule depth ref)) := by
  have hrefused (s : Session) := (ensures_applyRule_stray h depth s).guarded (modest_undefined _)
  refine ⟨fun name s hs => ?_, fun s hs => .inr ⟨ref.name, ?_, ?_⟩⟩
  · simpa only [hs, Option.getD_some] using hrefused s
  · simp only [strayWatch, h, if_true]
    rfl
  · simpa only [hs, Option.getD_none] using hrefused s

/-- Only references are watched for where they lead. -/
theorem strayWatch_of_ne {table : RuleTable} {atom : Atom} (h : ∀ ref, atom ≠ .rule ref)
    (step : Matcher Raw) : strayWatch table reason atom step = guarded step := by
  cases atom with
  | rule ref => exact absurd rfl (h ref)
  | _ => rfl

variable (reason) in
/-- An expression is the same up to the first reference that leads nowhere if those that lead to rules
are. -/
theorem trails_watched {table : RuleTable} {apply : RuleRef → Matcher Raw} {depth : Nat}
    (h : ∀ ref, ¬ table.Stray ref → Trails reason (apply ref) (table.applyRule depth ref))
    (atom : Atom) :
    Trails reason (atom.watched (strayWatch table reason) apply) (atom.matcher (table.applyRule depth)) := by
  rw [← Atom.watched_guarded]
  refine (Trails.bond reason).watched_of_refs (fun atom step step' hne hstep => ?_)
    (.of_forall (fun _ ref _ => ?_) atom)
  · rw [strayWatch_of_ne hne]
    exact (Trails.bond reason).guarded hstep
  · by_cases hstray : table.Stray ref
    · exact trails_stray hstray _ depth
    · have hwatch : strayWatch table reason (.rule ref) (apply ref) = guarded (apply ref) := by
        simp only [strayWatch, hstray, if_false]
      rw [hwatch]
      exact (Trails.bond reason).guarded (h ref hstray)

/-- A reference that leads to a rule is the same up to the first reference that leads nowhere. -/
theorem trails_applyRule (table : RuleTable) (depth : Nat) {ref : RuleRef}
    (href : ¬ table.Stray ref) :
    Trails reason (table.applyWatched (strayWatch table reason) depth ref) (table.applyRule depth ref) := by
  induction depth generalizing ref with
  | zero => exact (Trails.bond reason).stop _
  | succ depth ih =>
    rw [RuleTable.applyRule_succ, RuleTable.applyWatched, applyWith_of_leads href, applyWith_of_leads href]
    refine (Trails.of_upholds (resolve_upholds table ref)).bind fun found => ?_
    rcases found with _ | ⟨index, atom⟩
    · exact (Trails.bond reason).stop _
    · have hbody := (trails_watched reason (fun _ => ih) atom).bind fun raw =>
        (Trails.bond reason).flatten false raw
      exact (Trails.bond reason).map ((Trails.minds reason).memoized hbody) _

/-- Where all references in an expression and in the bodies of rules lead to rules, no name is ever
remembered. -/
theorem upholds_of_defines {table : RuleTable} (htable : table.Every table.Defines) (depth : Nat)
    {atom : Atom} (hatom : atom.Every table.Defines) :
    Upholds (fun s => table.Knows s.bodies ∧ s.undefined = none)
      (atom.matcher (table.applyRule depth)) := by
  have hmodest : Modest fun s => table.Knows s.bodies ∧ s.undefined = none :=
    fun s s' hb hu hs => ⟨hb ▸ hs.1, hu.trans hs.2⟩
  let B := upholdingBond _ hmodest
  have hmatcher {apply : RuleRef → Matcher Raw} (happly : ∀ ref, ¬ table.Stray ref →
      B.Has (apply ref) (apply ref)) {atom : Atom} (hatom : atom.Every table.Defines) :
      B.Has (atom.matcher apply) (atom.matcher apply) := by
    rw [← Atom.watched_guarded]
    exact B.watched_of_refs (fun _ _ _ _ h => B.guarded h)
      (hatom.mono fun part hpart ref heq => B.guarded (happly ref (hpart ref heq)))
  refine hmatcher (fun ref href => ?_) hatom
  induction depth generalizing ref with
  | zero => exact B.stop _
  | succ depth ih =>
    rintro s ⟨hb, hu⟩
    refine ensures_applyRule hb (fun _ _ _ hr => ?_) fun index atom bodies trace hr hbody hbodies => ?_
    · exact absurd (RuleTable.resolve?_eq_none_iff.1 hr) href
    · have hflat := B.bind (hmatcher ih (htable index atom hbody)) fun raw => B.flatten false raw
      exact (upholdingBond_minds hmodest).memoized hflat _ ⟨hbodies, hu⟩

end Matcher

section Parse

variable {table : RuleTable} {bodies : List (Nat × Atom)} {entry : Atom} {text : String} {options : Options}
  {name : String}

/-- A match is settled as one that reached an undefined rule if a name was remembered. -/
theorem settle_undefined_iff (options : Options) (outcome : Except Cause Raw) (s : Session) (name : String) :
    (settle options outcome s).outcome = .rejected (.grammar (.undefinedRule name)) ↔
      s.undefined = some name := by
  rw [settle_outcome_eq]
  have hend := (ensures_conclude_undefined options.allowRest outcome s.withStatistics).exists_reply
  have hs : s.withStatistics.undefined = s.undefined := rfl
  obtain ⟨root, s', hc, hs'⟩ | ⟨tree, s', hc, hs'⟩ := hend
  · rw [hc, Reply.outcome, Session.judge, hs', hs]
    cases s.undefined <;> simp
  · rw [hc, Reply.outcome, Session.judge, hs', hs]
    cases s.undefined <;> simp

/-- Up to the first reference that leads nowhere, the watched match is the match itself. Where one is applied
the watched match is broken off, and the match comes to an end, if it does, with the name remembered. -/
theorem trails_matchEntry (table : RuleTable) (bodies : List (Nat × Atom)) (entry : Atom) (text : String)
    (options : Options) (reason : String → Stop) :
    (matchWatched (strayWatch table reason) table bodies entry text options
        = matchEntry table bodies entry text options ∧
      Ensures anyhow (table.matcher text.utf8ByteSize entry) (Session.start text options bodies)
        fun _ s' => s'.undefined = none) ∨
    ∃ name, matchWatched (strayWatch table reason) table bodies entry text options
        = .stopped (reason name) ∧
      Ensures anyhow (table.matcher text.utf8ByteSize entry) (Session.start text options bodies)
        fun _ s' => s'.undefined = some name :=
  (trails_watched reason (fun _ => trails_applyRule table _) entry).tracks
    (Session.start text options bodies) rfl

/-- A parse comes to an undefined rule if its match comes to an end with the name remembered. -/
theorem run_undefined_iff : (run table bodies entry text options).outcome
      = .rejected (.grammar (.undefinedRule name)) ↔
    (∀ reason, matchEntry table bodies entry text options ≠ .stopped reason) ∧
      Ensures anyhow (table.matcher text.utf8ByteSize entry) (Session.start text options bodies)
        fun _ s' => s'.undefined = some name := by
  have hmatch : matchEntry table bodies entry text options
      = table.matcher text.utf8ByteSize entry (Session.start text options bodies) := rfl
  rw [run, Ensures, hmatch]
  cases table.matcher text.utf8ByteSize entry (Session.start text options bodies) with
  | stopped reason => simp
  | failed cause s => simp [settle_undefined_iff]
  | matched raw s => simp [settle_undefined_iff]

/-- A parse comes to an undefined rule exactly if its match comes to an end and applies a reference that
leads nowhere, and then it is the rule that the first such reference asks for. If all references in the
expression and in the bodies of the rules lead to rules, whatever dynamic expressions choose, no parse with
the table comes to an undefined rule. -/
theorem undefined_rule_iff_first_stray (table : RuleTable) (bodies : List (Nat × Atom)) (entry : Atom)
    (text : String) (options : Options) :
    (∀ name, (run table bodies entry text options).outcome = .rejected (.grammar (.undefinedRule name)) ↔
      (∀ reason, matchEntry table bodies entry text options ≠ .stopped reason) ∧
        FirstStray table bodies entry text options name) ∧
    (table.Knows bodies → table.Every table.Defines → entry.Every table.Defines → ∀ name,
      (run table bodies entry text options).outcome ≠ .rejected (.grammar (.undefinedRule name))) := by
  refine ⟨fun name => ?_, fun hbodies htable hentry name hrun => ?_⟩
  · rw [run_undefined_iff]
    refine and_congr_right fun hends => ⟨fun hsome reason => ?_, fun hfirst => ?_⟩
    · obtain ⟨-, hnone⟩ | ⟨stray, hstop, hstray⟩ :=
        trails_matchEntry table bodies entry text options reason
      · obtain ⟨s', hs', hs''⟩ := (hsome.and hnone).exists_end hends
        simp [hs'] at hs''
      · obtain ⟨s', hs', hs''⟩ := (hsome.and hstray).exists_end hends
        rw [hs', Option.some.injEq] at hs''
        rw [hs'', hstop]
    · obtain ⟨heq, -⟩ | ⟨stray, hstop, hstray⟩ := trails_matchEntry table bodies entry text options
        fun stray => if stray = name then .misplaced else .spent
      · exact absurd (heq.symm.trans (hfirst _)) (hends _)
      · -- the reason tells the name asked for from all others
        have hreason := hstop.symm.trans (hfirst _)
        by_cases hname : stray = name
        · rwa [hname] at hstray
        · simp [hname] at hreason
  · obtain ⟨hends, hsome⟩ := run_undefined_iff.1 hrun
    have hnone := upholds_of_defines htable (table.depthBound text.utf8ByteSize) hentry
      (Session.start text options bodies) ⟨hbodies, rfl⟩
    obtain ⟨s', hs', -, hs''⟩ := (hsome.and hnone).exists_end hends
    simp [hs'] at hs''

/-- Two rules, both of which refer to defined rules alone. -/
def lettersTable : RuleTable :=
  ⟨1, [⟨"letters", fun rules => .sequence [rules.rule "letter", (rules.rule "letters").maybe]⟩,
    ⟨"letter", fun _ => .any⟩]⟩

/-- References of the table to rules that it has lead to them. -/
theorem lettersTable_defines : lettersTable.Every lettersTable.Defines := by
  have hletter : ¬ lettersTable.Stray (lettersTable.rules.ref "letter") := by
    simp [RuleTable.stray_ref_iff, RuleTable.names, lettersTable]
  have hletters : ¬ lettersTable.Stray (lettersTable.rules.ref "letters") := by
    simp [RuleTable.stray_ref_iff, RuleTable.names, lettersTable]
  intro index body h
  rcases index with _ | _ | index
  · cases h
    simp [Rules.rule, Atom.maybe, RuleTable.Defines, hletter, hletters]
  · cases h
    simp [Atom.any, RuleTable.Defines]
  · cases h

/-- A table of its own with the same rules. -/
def otherLettersTable : RuleTable := ⟨2, lettersTable.definitions⟩

/-- An expression that matches letters where a reference fails to match. -/
def strayEntry (ref : RuleRef) : Atom :=
  .sequence [.lookahead (.rule ref) false, lettersTable.rules.rule "letters"]

/-- Although the lookahead asks for the failure and the text is letters, a parse of it comes to the reference
that leads nowhere, be it to a rule that there is not or one that another table made to a rule of a name
that there is. No parse of letters alone does. -/
theorem letters_first_stray :
    ((run lettersTable [] (strayEntry (lettersTable.rules.ref "nowhere")) "ab" {}).outcome
        = .rejected (.grammar (.undefinedRule "nowhere")) ∧
      FirstStray lettersTable [] (strayEntry (lettersTable.rules.ref "nowhere")) "ab" {} "nowhere") ∧
    ((run lettersTable [] (strayEntry (otherLettersTable.rules.ref "letters")) "ab" {}).outcome
        = .rejected (.grammar (.undefinedRule "letters")) ∧
      FirstStray lettersTable [] (strayEntry (otherLettersTable.rules.ref "letters")) "ab" {} "letters") ∧
    ∀ name, (run lettersTable [] (lettersTable.rules.rule "letters") "ab" {}).outcome
      ≠ .rejected (.grammar (.undefinedRule name)) := by
  obtain ⟨hmissing, hforeign⟩ :
      (run lettersTable [] (strayEntry (lettersTable.rules.ref "nowhere")) "ab" {}).outcome
          = .rejected (.grammar (.undefinedRule "nowhere")) ∧
        (run lettersTable [] (strayEntry (otherLettersTable.rules.ref "letters")) "ab" {}).outcome
          = .rejected (.grammar (.undefinedRule "letters")) := ⟨by cbv, by cbv⟩
  have hfirst (ref : RuleRef) (name : String) (hrun : (run lettersTable [] (strayEntry ref) "ab" {}).outcome
      = .rejected (.grammar (.undefinedRule name))) :
      FirstStray lettersTable [] (strayEntry ref) "ab" {} name :=
    (((undefined_rule_iff_first_stray lettersTable [] (strayEntry ref) "ab" {}).1 name).1 hrun).2
  refine ⟨⟨hmissing, hfirst _ _ hmissing⟩, ⟨hforeign, hfirst _ _ hforeign⟩, ?_⟩
  refine (undefined_rule_iff_first_stray lettersTable [] (lettersTable.rules.rule "letters") "ab" {}).2
    lettersTable.knows_nil lettersTable_defines ?_
  simp only [Rules.rule, RuleTable.Defines, Atom.Every.rule_iff, Atom.rule.injEq]
  rintro _ rfl
  simp [RuleTable.stray_ref_iff, RuleTable.names, lettersTable]

end Parse

end Packrat
