import Packrat.Matcher.Apply

/-!
# Reasoning about matchers

A matcher ensures a condition from a session if every way in which it can end there meets the
condition. Being broken off is no such end: for which reasons it is put up with is a parameter, so that
one set of rules serves statements about what a step comes to and statements about its coming to an end
at all. There is one rule for each step that matchers are made of, and a combinator is opened by
rewriting with these rules.
-/

namespace Packrat

namespace Atom

/-- The matchers of a list of expressions are those of the expressions, one by one. -/
theorem matchers_eq_map (apply : RuleRef → Matcher Raw) (atoms : List Atom) :
    matchers apply atoms = atoms.map (·.matcher apply) := by
  induction atoms with
  | nil => rfl
  | cons atom rest ih => rw [matchers, ih, List.map_cons]

/-- The matchers of a table of operators keep the fixities. -/
theorem operatorMatchers_eq_map (apply : RuleRef → Matcher Raw) (table : List (Fixity × Atom)) :
    operatorMatchers apply table = table.map fun op => (op.1, op.2.matcher apply) := by
  induction table with
  | nil => rfl
  | cons op rest ih => rw [operatorMatchers, ih, List.map_cons]

end Atom

namespace Matcher

variable {α β : Type} {lenient : Stop → Prop} {s : Session}

/-- No reason to break a match off is good enough. -/
def unbroken (_ : Stop) : Prop := False

/-- Every reason to break a match off will do. -/
def anyhow (_ : Stop) : Prop := True

/-- Every end of the step from `s` meets the condition; that the step is broken off is allowed only
for the reasons that `lenient` names. -/
def Ensures (lenient : Stop → Prop) (step : Matcher α) (s : Session)
    (post : Except Cause α → Session → Prop) : Prop :=
  match step s with
  | .stopped reason => lenient reason
  | .failed cause s' => post (.error cause) s'
  | .matched value s' => post (.ok value) s'

/-- A condition can be weakened. -/
theorem Ensures.mono {step : Matcher α} {post post' : Except Cause α → Session → Prop}
    (h : Ensures lenient step s post) (weaker : ∀ r s', post r s' → post' r s') :
    Ensures lenient step s post' := by
  unfold Ensures at h ⊢
  cases hr : step s with
  | stopped _ => rwa [hr] at h
  | failed cause s' => rw [hr] at h; exact weaker _ _ h
  | matched value s' => rw [hr] at h; exact weaker _ _ h

/-- A condition can be weakened, and more reasons to break off can be put up with. -/
theorem Ensures.imp {lenient' : Stop → Prop} {step : Matcher α}
    {post post' : Except Cause α → Session → Prop} (h : Ensures lenient step s post)
    (laxer : ∀ reason, lenient reason → lenient' reason)
    (weaker : ∀ r s', post r s' → post' r s') : Ensures lenient' step s post' := by
  unfold Ensures at h ⊢
  cases hr : step s with
  | stopped reason => rw [hr] at h; exact laxer _ h
  | failed cause s' => rw [hr] at h; exact weaker _ _ h
  | matched value s' => rw [hr] at h; exact weaker _ _ h

/-- What a step ensures in two ways it ensures at once. -/
theorem Ensures.and {lenient' : Stop → Prop} {step : Matcher α}
    {post post' : Except Cause α → Session → Prop} (h : Ensures lenient step s post)
    (h' : Ensures lenient' step s post') :
    Ensures lenient step s fun r s' => post r s' ∧ post' r s' := by
  unfold Ensures at h h' ⊢
  cases hr : step s with
  | stopped reason => rwa [hr] at h
  | failed cause s' => rw [hr] at h h'; exact ⟨h, h'⟩
  | matched value s' => rw [hr] at h h'; exact ⟨h, h'⟩

/-- A step that ensures anything without leniency is not broken off. -/
theorem Ensures.exists_reply {step : Matcher α} {post : Except Cause α → Session → Prop}
    (h : Ensures unbroken step s post) :
    (∃ cause s', step s = .failed cause s' ∧ post (.error cause) s') ∨
      ∃ value s', step s = .matched value s' ∧ post (.ok value) s' := by
  unfold Ensures at h
  cases hr : step s with
  | stopped _ => rw [hr] at h; exact h.elim
  | failed cause s' => rw [hr] at h; exact .inl ⟨cause, s', rfl, h⟩
  | matched value s' => rw [hr] at h; exact .inr ⟨value, s', rfl, h⟩

/-- A step that can end in no way is broken off. -/
theorem Ensures.exists_stop {step : Matcher α} (h : Ensures lenient step s fun _ _ => False) :
    ∃ reason, lenient reason ∧ step s = .stopped reason := by
  unfold Ensures at h
  cases hr : step s with
  | stopped reason => rw [hr] at h; exact ⟨reason, h, rfl⟩
  | failed cause s' => rw [hr] at h; exact h.elim
  | matched value s' => rw [hr] at h; exact h.elim

/-- What a step ensures holds of a match it has come to. -/
theorem Ensures.of_matched {step : Matcher α} {post : Except Cause α → Session → Prop} {value : α}
    {s' : Session} (h : Ensures lenient step s post) (hr : step s = .matched value s') :
    post (.ok value) s' := by
  unfold Ensures at h
  rwa [hr] at h

/-- What a step ensures holds of a failure that it has come to. -/
theorem Ensures.of_failed {step : Matcher α} {post : Except Cause α → Session → Prop} {cause : Cause}
    {s' : Session} (h : Ensures lenient step s post) (hr : step s = .failed cause s') :
    post (.error cause) s' := by
  unfold Ensures at h
  rwa [hr] at h

/-- A step that is broken off is so for a reason that is put up with. -/
theorem Ensures.of_stopped {step : Matcher α} {post : Except Cause α → Session → Prop} {reason : Stop}
    (h : Ensures lenient step s post) (hr : step s = .stopped reason) : lenient reason := by
  unfold Ensures at h
  rwa [hr] at h

/-- What a step is ensured to come to holds of what it has come to. -/
theorem Ensures.of_ends {step : Matcher α} {post : Except Cause α → Session → Prop}
    {result : Except Cause α} {s' : Session} (h : Ensures lenient step s post)
    (hends : step s = ofResult result s') : post result s' := by
  unfold Ensures at h
  rw [hends] at h
  cases result <;> exact h

/-- What a step ensures is ensured by every step that comes to the same. -/
theorem ensures_congr {step step' : Matcher α} {s s' : Session}
    {post : Except Cause α → Session → Prop} (h : step s = step' s') :
    Ensures lenient step s post ↔ Ensures lenient step' s' post := by
  rw [Ensures, Ensures, h]

/-- A value at hand ensures what goes for it here and now. -/
@[simp] theorem ensures_pure (value : α) (post : Except Cause α → Session → Prop) :
    Ensures lenient (pure value) s post ↔ post (.ok value) s := Iff.rfl

/-- A value at hand ensures what goes for it here and now. -/
@[simp] theorem ensures_matcher_pure (value : α) (post : Except Cause α → Session → Prop) :
    Ensures lenient (Matcher.pure value) s post ↔ post (.ok value) s := Iff.rfl

/-- Two steps in a row ensure what the second one does from where the first one matched, and
what is asked of a failure where the first one failed. -/
@[simp] theorem ensures_bind (step : Matcher α) (next : α → Matcher β)
    (post : Except Cause β → Session → Prop) :
    Ensures lenient (step >>= next) s post ↔
      Ensures lenient step s fun r s' =>
        match r with
        | .ok value => Ensures lenient (next value) s' post
        | .error cause => post (.error cause) s' := by
  have hbind : (step >>= next) s = Matcher.bind step next s := rfl
  unfold Ensures
  rw [hbind, Matcher.bind]
  cases step s <;> rfl

/-- A step that matches is done with. -/
theorem bind_of_matched {step : Matcher α} {next : α → Matcher β} {s t : Session} {value : α}
    (h : step s = .matched value t) : (step >>= next) s = next value t := by
  change Matcher.bind step next s = _
  rw [Matcher.bind, h]

/-- What follows a step depends on nothing but what the step comes to. -/
theorem bind_congr {step step' : Matcher α} {next : α → Matcher β} {s s' : Session}
    (h : step s = step' s') : (step >>= next) s = (step' >>= next) s' := by
  change Matcher.bind step next s = Matcher.bind step' next s'
  rw [Matcher.bind, Matcher.bind, h]

/-- A step that is broken off breaks off what it is part of. -/
theorem ensures_bind_stopped {step : Matcher α} {next : α → Matcher β}
    {post : Except Cause β → Session → Prop} {reason : Stop} (h : step s = .stopped reason) :
    Ensures lenient (step >>= next) s post ↔ lenient reason := by
  rw [ensures_bind, Ensures, h]

/-- A step that fails lets what it is part of fail. -/
theorem ensures_bind_failed {step : Matcher α} {next : α → Matcher β}
    {post : Except Cause β → Session → Prop} {cause : Cause} {s' : Session}
    (h : step s = .failed cause s') :
    Ensures lenient (step >>= next) s post ↔ post (.error cause) s' := by
  rw [ensures_bind, Ensures, h]

/-- A step that matches is done with. -/
theorem ensures_bind_matched {step : Matcher α} {next : α → Matcher β}
    {post : Except Cause β → Session → Prop} {value : α} {s' : Session}
    (h : step s = .matched value s') :
    Ensures lenient (step >>= next) s post ↔ Ensures lenient (next value) s' post := by
  rw [ensures_bind, Ensures, h]

/-- A step whose result is handed on ensures what goes for that result. -/
@[simp] theorem ensures_attempt (step : Matcher α)
    (post : Except Cause (Except Cause α) → Session → Prop) :
    Ensures lenient (attempt step) s post ↔ Ensures lenient step s fun r s' => post (.ok r) s' := by
  unfold Ensures attempt
  cases step s <;> rfl

/-- Breaking off ensures anything if its reason is put up with. -/
@[simp] theorem ensures_stop (reason : Stop) (post : Except Cause α → Session → Prop) :
    Ensures lenient (stop reason) s post ↔ lenient reason := Iff.rfl

/-- A failure ensures what goes for its cause here and now. -/
@[simp] theorem ensures_fail (cause : Cause) (post : Except Cause α → Session → Prop) :
    Ensures lenient (fail cause) s post ↔ post (.error cause) s := Iff.rfl

/-- A result at hand ensures what goes for it here and now. -/
@[simp] theorem ensures_ofResult (result : Except Cause α)
    (post : Except Cause α → Session → Prop) :
    Ensures lenient (ofResult result) s post ↔ post result s := by
  cases result <;> rfl

/-- Asking for the session changes nothing. -/
@[simp] theorem ensures_session (post : Except Cause Session → Session → Prop) :
    Ensures lenient session s post ↔ post (.ok s) s := Iff.rfl

/-- Asking for the source changes nothing. -/
@[simp] theorem ensures_source (post : Except Cause Source → Session → Prop) :
    Ensures lenient source s post ↔ post (.ok s.source) s := Iff.rfl

/-- Asking for the offset changes nothing. -/
@[simp] theorem ensures_position (post : Except Cause Nat → Session → Prop) :
    Ensures lenient position s post ↔ post (.ok s.source.pos) s := Iff.rfl

/-- Asking for the memo changes nothing. -/
@[simp] theorem ensures_memo (post : Except Cause Memo → Session → Prop) :
    Ensures lenient memo s post ↔ post (.ok s.memo) s := Iff.rfl

/-- A change of the session ensures what goes for the changed one. -/
@[simp] theorem ensures_modify (f : Session → Session) (post : Except Cause Unit → Session → Prop) :
    Ensures lenient (modify f) s post ↔ post (.ok ()) (f s) := Iff.rfl

/-- A change of the memo ensures what goes for the session with the changed one. -/
@[simp] theorem ensures_modifyMemo (f : Memo → Memo) (post : Except Cause Unit → Session → Prop) :
    Ensures lenient (modifyMemo f) s post ↔ post (.ok ()) { s with memo := f s.memo } := Iff.rfl

/-- An event is added to the trace. -/
@[simp] theorem ensures_emit (event : Event) (post : Except Cause Unit → Session → Prop) :
    Ensures lenient (emit event) s post ↔
      post (.ok ()) { s with trace := event :: s.trace } := Iff.rfl

/-- A report is heard by the reporter. -/
@[simp] theorem ensures_tell (report : Report) (post : Except Cause Unit → Session → Prop) :
    Ensures lenient (tell report) s post ↔
      post (.ok ()) { s with reporter := s.reporter.observe report } := Iff.rfl

/-- A cause is built with the innermost label. -/
@[simp] theorem ensures_cause (message : Message) (offset : Nat) (children : List Cause)
    (post : Except Cause Cause → Session → Prop) :
    Ensures lenient (cause message offset children) s post ↔
      post (.ok ⟨message, offset, none, s.labels.head?, children⟩) s := Iff.rfl

/-- A refusal fails with a cause that carries the innermost label, and the reporter is told. -/
@[simp] theorem ensures_refuse (message : Message) (offset : Nat) (children : List Cause)
    (post : Except Cause α → Session → Prop) :
    Ensures lenient (refuse message offset children) s post ↔
      post (.error ⟨message, offset, none, s.labels.head?, children⟩)
        { s with reporter :=
          (s.reporter.observe (.recorded ⟨message, offset, none, s.labels.head?, children⟩)) } :=
  Iff.rfl

/-- The cursor can be moved to a boundary. -/
theorem ensures_moveTo {pos : Nat} (h : s.source.text.isBoundary pos = true)
    (post : Except Cause Unit → Session → Prop) :
    Ensures lenient (moveTo pos) s post ↔ post (.ok ()) { s with source.pos := pos } := by
  simp [Ensures, moveTo, Source.setPos?, h]

/-- As many bytes can be consumed as there are left. -/
theorem ensures_consume {n : Nat} (h : n ≤ s.source.remaining)
    (post : Except Cause Slice → Session → Prop) :
    Ensures lenient (consume n) s post ↔
      post (.ok (s.source.slice s.source.pos n)) { s with source.pos := s.source.pos + n } := by
  simp [Ensures, consume, Source.consume?, h]

/-- Every step ensures what asks for nothing. -/
theorem ensures_anyhow (step : Matcher α) (s : Session) : Ensures anyhow step s fun _ _ => True := by
  unfold Ensures
  split <;> trivial

/-- If breaking off is put up with, it does not matter whether the cursor can be moved there. -/
theorem ensures_moveTo_anyhow {pos : Nat} {post : Except Cause Unit → Session → Prop}
    (h : post (.ok ()) { s with source.pos := pos }) : Ensures anyhow (moveTo pos) s post := by
  by_cases hb : s.source.text.isBoundary pos = true
  · exact (ensures_moveTo hb post).2 h
  · simp [Ensures, moveTo, Source.setPos?, hb, anyhow]

/-- If breaking off is put up with, it does not matter whether there are as many bytes. -/
theorem ensures_consume_anyhow {n : Nat} {post : Except Cause Slice → Session → Prop}
    (h : post (.ok (s.source.slice s.source.pos n)) { s with source.pos := s.source.pos + n }) :
    Ensures anyhow (consume n) s post := by
  by_cases hfit : n ≤ s.source.remaining
  · exact (ensures_consume hfit post).2 h
  · simp [Ensures, consume, Source.consume?, hfit, anyhow]

/-- Noting overwritten keys changes only the notes and the trace. -/
theorem ensures_noteAllOverwritten (keys : List String) (post : Except Cause Unit → Session → Prop)
    (h : ∀ overwritten trace, post (.ok ()) { s with overwritten, trace }) :
    Ensures lenient (noteAllOverwritten keys) s post := by
  induction keys generalizing s with
  | nil => exact h s.overwritten s.trace
  | cons key rest ih =>
    simp only [noteAllOverwritten, ensures_bind, ensures_session]
    split
    · simp only [ensures_bind]
      exact ih fun overwritten trace => h overwritten trace
    · exact ih h

/-- Flattening yields the flat value and changes only the notes and the trace. -/
theorem ensures_flatten (named : Bool) (raw : Raw) (post : Except Cause Tree → Session → Prop)
    (h : ∀ overwritten trace,
      post (.ok (raw.flatten named).tree) { s with overwritten, trace }) :
    Ensures lenient (flatten named raw) s post := by
  simp only [flatten, ensures_bind, ensures_pure]
  exact ensures_noteAllOverwritten _ _ h

/-- The cursor is back where the step started, if that fails. -/
def GivesBack (step : Matcher Raw) : Prop :=
  ∀ s, Ensures anyhow step s fun result s' => ∀ cause, result = .error cause → s'.source.pos = s.source.pos

/-- A guarded body puts the cursor back after a failure, whatever the body did. -/
theorem givesBack_guarded (body : Matcher Raw) : GivesBack (guarded body) := by
  intro s
  simp only [guarded, ensures_bind, ensures_position, ensures_attempt]
  refine (ensures_anyhow body s).mono fun result s' _ => ?_
  cases result with
  | error cause =>
    simp only [ensures_bind]
    exact ensures_moveTo_anyhow fun _ _ => rfl
  | ok raw => exact fun _ h => by cases h

/-- Every matcher puts the cursor back after a failure. -/
theorem givesBack_matcher (apply : RuleRef → Matcher Raw) (atom : Atom) : GivesBack (atom.matcher apply) := by
  cases atom <;> exact givesBack_guarded _

end Matcher

end Packrat
