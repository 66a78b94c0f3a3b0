import Packrat.Proofs.Abreast
import Packrat.Proofs.Habits

/-!
# Steady steps

An expression without references, captures and dynamic parts depends on nothing but the place where it
is matched, and leaves behind nothing but the place where its match ends. Within one match it comes to
the same whenever it is tried from the same offset. What steps come to, apart from the session that they
leave behind, is the gist of their replies; steps that are put together from steady ones are steady.
-/

namespace Packrat

/-- An expression that neither looks at what happened before it in a match nor leaves anything behind:
no reference, no capture and no choice made during the match. -/
def Atom.isDetached : Atom → Bool
  | .rule _ => false
  | .capture _ _ => false
  | .dynamic _ => false
  | _ => true

/-- What a reply says about the text: why the step was broken off, or, unless it failed, the value and
the offset behind the match. -/
def Reply.gist {α : Type} : Reply α → Except Stop (Option (α × Nat))
  | .stopped reason => .error reason
  | .failed _ _ => .ok none
  | .matched value s => .ok (some (value, s.source.pos))

namespace Matcher

variable {α β : Type} {s s' : Session}

/-- The second session differs from the first one in the place of the cursor and in what is told and
noted, at most. -/
structure Beside (s s' : Session) : Prop where
  text : s'.source.text = s.source.text
  lines : s'.source.lines = s.source.lines
  bodies : s'.bodies = s.bodies
  memo : s'.memo = s.memo
  captures : s'.captures = s.captures
  labels : s'.labels = s.labels

namespace Beside

/-- A session is beside itself. -/
theorem refl (s : Session) : Beside s s := ⟨rfl, rfl, rfl, rfl, rfl, rfl⟩

/-- Sessions stay beside the first one step by step. -/
theorem trans {s'' : Session} (h : Beside s s') (h' : Beside s' s'') : Beside s s'' where
  text := h'.text.trans h.text
  lines := h'.lines.trans h.lines
  bodies := h'.bodies.trans h.bodies
  memo := h'.memo.trans h.memo
  captures := h'.captures.trans h.captures
  labels := h'.labels.trans h.labels

end Beside

/-- To stay beside the first session is a limit that all basic steps keep within. -/
theorem latitude_beside : Latitude Beside where
  refl := .refl
  trans h h' := h.trans h'
  moved _ _ _ := ⟨rfl, rfl, rfl, rfl, rfl, rfl⟩
  noted _ _ _ := ⟨rfl, rfl, rfl, rfl, rfl, rfl⟩
  recorded _ _ := ⟨rfl, rfl, rfl, rfl, rfl, rfl⟩
  announced _ _ := ⟨rfl, rfl, rfl, rfl, rfl, rfl⟩
  chosen _ h := ⟨h.text, h.lines, h.bodies, h.memo, h.captures, h.labels⟩
  inScope h :=
    ⟨h.text, h.lines, h.bodies, h.memo, by rw [h.captures, Captures.closeScope_openScope], h.labels⟩
  labelled _ h := ⟨h.text, h.lines, h.bodies, h.memo, h.captures, congrArg List.tail h.labels⟩

/-- Wherever the step ends, the session is beside the one that it started from. -/
def Calm (step : Matcher α) : Prop := ∀ s, Ensures anyhow step s fun _ s' => Beside s s'

/-- To be calm is a habit. -/
abbrev calm : Habit := .within latitude_beside

/-- A detached expression leaves nothing behind. -/
theorem calm_matcher {apply : RuleRef → Matcher Raw} {atom : Atom}
    (hatom : atom.Every (·.isDetached)) : Calm (atom.matcher apply) := by
  refine calm.has_matcher (hatom.mono fun a ha => ⟨?_, ?_, ?_⟩)
  · rintro ref rfl
    simp [Atom.isDetached] at ha
  · rintro body name rfl
    simp [Atom.isDetached] at ha
  · rintro pick rfl
    simp [Atom.isDetached] at ha

/-- Nor do operators and operands that are detached. -/
theorem calm_operators {apply : RuleRef → Matcher Raw} {operand : Atom} {table : List (Fixity × Atom)}
    (hoperand : operand.Every (·.isDetached)) (htable : ∀ op ∈ table, op.2.Every (·.isDetached))
    (combine : Option (Tree → Tree → Tree → Tree)) :
    Calm (operators operand (operand.matcher apply) (Atom.operatorMatchers apply table) combine) := by
  refine calm.operators (calm_matcher hoperand) operand (fun op hop => ?_) combine
  rw [Atom.operatorMatchers_eq_map] at hop
  obtain ⟨op, hmem, rfl⟩ := List.mem_map.1 hop
  exact calm_matcher (htable op hmem)

end Matcher

/-- The course of a match about which nothing is known but its text. -/
def Course.free (table : RuleTable) (text : Text) : Course where
  table := table
  text := text
  strict := False
  lenient := Matcher.anyhow
  slices := False
  Fit _ _ := True
  Leads _ _ := True
  refl _ := trivial
  trans _ _ := trivial
  later _ _ := trivial
  kept _ _ := trivial

/-- A course that nothing is known about asks for nothing. -/
theorem Course.lax_free (table : RuleTable) (text : Text) : (free table text).Lax := ⟨id, trivial, id⟩

/-- Two matches of one text, with whatever memos. -/
def Pair.free (table : RuleTable) (text : Text) : Pair := ⟨.free table text, .free table text, fun _ _ => True⟩

/-- A detached expression comes to the same in any two matches, from sessions that agree on the place. -/
theorem Pair.goes_detached (table : RuleTable) (text : Text) {apply : RuleRef → Matcher Raw} {atom : Atom}
    (hatom : atom.Every (·.isDetached)) :
    (Pair.free table text).Goes Eq (atom.matcher apply) (atom.matcher apply) := by
  refine goes_matcher (Course.lax_free table text) (Course.lax_free table text) ?_
  refine hatom.mono fun a ha ref heq => ?_
  rw [heq] at ha
  cases ha

namespace Matcher

variable {α β : Type} {origin s s' : Session}

/-- The session belongs to a match of the text of the first session, in which nothing but the place has
changed since. -/
structure Reached (origin s : Session) : Prop extends Beside origin s where
  boundary : s.source.text.isBoundary s.source.pos = true

/-- The step goes forward, and from the same offset it comes to the same, whatever happened before. -/
structure Steady (origin : Session) (step : Matcher α) : Prop where
  forward : ∀ s, Reached origin s → Ensures anyhow step s fun _ s' =>
    Reached origin s' ∧ s.source.pos ≤ s'.source.pos
  same : ∀ s s', Reached origin s → Reached origin s' → s.source.pos = s'.source.pos →
    (step s).gist = (step s').gist

/-- Replies with one gist are of one kind. -/
theorem gist_cases {r r' : Reply α} (h : r.gist = r'.gist) :
    (∃ reason, r = .stopped reason ∧ r' = .stopped reason) ∨
      (∃ cause s cause' s', r = .failed cause s ∧ r' = .failed cause' s') ∨
      ∃ value s s', r = .matched value s ∧ r' = .matched value s' ∧ s.source.pos = s'.source.pos := by
  cases r with
  | stopped reason =>
    cases r' with
    | stopped reason' => exact .inl ⟨reason, rfl, congrArg _ (Except.error.inj h).symm⟩
    | failed cause' s' => cases h
    | matched value' s' => cases h
  | failed cause s =>
    cases r' with
    | stopped reason' => cases h
    | failed cause' s' => exact .inr (.inl ⟨cause, s, cause', s', rfl, rfl⟩)
    | matched value' s' => cases h
  | matched value s =>
    cases r' with
    | stopped reason' => cases h
    | failed cause' s' => cases h
    | matched value' s' =>
      obtain ⟨rfl, hpos⟩ := Prod.mk.inj (Option.some.inj (Except.ok.inj h))
      exact .inr (.inr ⟨value, s, s', rfl, rfl, hpos⟩)

/-- The gist of a step is that of another one if they come to the same at the same offset, but for what is done to
the value. -/
theorem Abreast.gist_eq {step : Matcher α} {step' : Matcher β} (f : β → α)
    (h : Abreast step step' s s' fun r t r' t' =>
      Agree (fun value value' => value = f value') r r' ∧ t'.source.pos = t.source.pos) :
    (step s).gist = (step' s').gist.map (Option.map fun found => (f found.1, found.2)) := by
  unfold Abreast Ensures at h
  cases hr : step s with
  | stopped reason =>
    rw [hr] at h
    rw [h]
    rfl
  | failed cause t =>
    rw [hr] at h
    cases hr' : step' s' with
    | stopped reason => simp [hr', unbroken] at h
    | failed cause' t' => rfl
    | matched value' t' =>
      simp only [hr'] at h
      exact h.1.elim
  | matched value t =>
    rw [hr] at h
    cases hr' : step' s' with
    | stopped reason => simp [hr', unbroken] at h
    | failed cause' t' =>
      simp only [hr'] at h
      exact h.1.elim
    | matched value' t' =>
      simp only [hr'] at h
      obtain ⟨heq, hpos⟩ := h
      have heq : value = f value' := heq
      simp only [Reply.gist, Except.map, Option.map_some, heq, hpos]

/-- A reply says that a match was broken off only if it was. -/
theorem eq_stopped_of_gist {r : Reply α} {reason : Stop} (h : r.gist = .error reason) :
    r = .stopped reason := by
  cases r <;> simp_all [Reply.gist]

/-- A reply says that a match has failed only if it has. -/
theorem eq_failed_of_gist {r : Reply α} (h : r.gist = .ok none) : ∃ cause s, r = .failed cause s := by
  cases r <;> simp_all [Reply.gist]

/-- A reply says what was matched only if it was. -/
theorem eq_matched_of_gist {r : Reply α} {value : α} {pos : Nat} (h : r.gist = .ok (some (value, pos))) :
    ∃ s, r = .matched value s ∧ s.source.pos = pos := by
  cases r <;> simp_all [Reply.gist]

/-- A value at hand comes to the same beside any session. -/
theorem steady_pure (origin : Session) (value : α) : Steady origin (pure value : Matcher α) where
  forward _ hs := ⟨hs, Nat.le_refl _⟩
  same _ _ _ _ hpos := by simp [pure, Matcher.pure, Reply.gist, hpos]

/-- Breaking off comes to the same beside any session. -/
theorem steady_stop (origin : Session) (reason : Stop) : Steady origin (stop reason : Matcher α) where
  forward _ _ := trivial
  same _ _ _ _ _ := rfl

/-- One steady step after the other is steady. -/
theorem Steady.bind {step : Matcher α} {next : α → Matcher β} (h : Steady origin step)
    (hnext : ∀ value, Steady origin (next value)) : Steady origin (step >>= next) where
  forward s hs := by
    rw [ensures_bind]
    refine (h.forward s hs).mono fun result s₁ hs₁ => ?_
    cases result with
    | error cause => exact hs₁
    | ok value =>
      refine ((hnext value).forward s₁ hs₁.1).mono fun _ s₂ hs₂ => ⟨hs₂.1, ?_⟩
      exact Nat.le_trans hs₁.2 hs₂.2
  same s s' hs hs' hpos := by
    have hbind (s : Session) : (step >>= next) s = Matcher.bind step next s := rfl
    rw [hbind, hbind, Matcher.bind, Matcher.bind]
    rcases gist_cases (h.same s s' hs hs' hpos) with
      ⟨reason, hr, hr'⟩ | ⟨cause, t, cause', t', hr, hr'⟩ | ⟨value, t, t', hr, hr', heq⟩
    · rw [hr, hr']
    · rw [hr, hr']
      rfl
    · rw [hr, hr']
      exact (hnext value).same t t' ((h.forward s hs).of_matched hr).1
        ((h.forward s' hs').of_matched hr').1 heq

/-- Where nothing is known but the text, matching can start from every boundary. -/
theorem Reached.start {table : RuleTable} (h : Reached origin s) (hb : table.Knows origin.bodies) :
    (Course.free table origin.source.text).Start s where
  text := h.text
  boundary := h.text ▸ h.boundary
  bodies := h.bodies.symm ▸ hb
  labels hst := hst.elim
  memo := trivial
  captures hst := hst.elim

/-- Two sessions of the match at one offset are together. -/
theorem Reached.together {table : RuleTable} (h : Reached origin s) (h' : Reached origin s')
    (hb : table.Knows origin.bodies) (hpos : s.source.pos = s'.source.pos) :
    (Pair.free table origin.source.text).Together s s' where
  source := by
    have htext := h'.text.trans h.text.symm
    have hlines := h'.lines.trans h.lines.symm
    cases hs : s.source
    cases hs' : s'.source
    simp_all
  captures := h'.captures.trans h.captures.symm
  memo := trivial
  first := h.start hb
  second := h'.start hb

/-- A calm step that comes to the same in any two matches is steady. -/
theorem steady_of_goes [Sliced α] {step : Matcher α} (hcalm : Calm step)
    (h : ∀ table text, (Pair.free table text).Goes Eq step step) : Steady origin step where
  forward s hs := by
    obtain ⟨table, hb⟩ := RuleTable.exists_knows origin.bodies
    have hends := (h table origin.source.text).first s (hs.start hb)
    refine (Ensures.and hends (hcalm s)).mono fun result s' hs' => ?_
    obtain ⟨hended, hbeside⟩ := hs'
    have hreach := hs.toBeside.trans hbeside
    exact ⟨⟨hreach, hreach.text ▸ hended.boundary⟩, hended.forward⟩
  same s s' hs hs' hpos := by
    obtain ⟨table, hb⟩ := RuleTable.exists_knows origin.bodies
    have hmeet := (h table origin.source.text).keeps s s' (hs.together hs' hb hpos)
    have hgist := (hmeet.mono fun _ _ _ _ hm => ⟨hm.agree, congrArg Source.pos hm.source⟩).gist_eq id
    simpa using hgist

/-- A detached expression is steady. -/
theorem steady_matcher {apply : RuleRef → Matcher Raw} {atom : Atom} (hatom : atom.Every (·.isDetached)) :
    Steady origin (atom.matcher apply) :=
  steady_of_goes (calm_matcher hatom) fun table text => Pair.goes_detached table text hatom

end Matcher

end Packrat
