import Packrat.Proofs.Ending

/-!
# Two matches abreast

Two steps go abreast from a pair of sessions if they are broken off for the same reason, or both come to
an end and the two ends meet a condition together. With that, two matches are compared that go through
different states: what is said about them is that they come to the same and stay alike.
-/

namespace Packrat

namespace Matcher

variable {α β γ δ : Type} {step₁ : Matcher α} {step₂ : Matcher β} {s₁ s₂ t₁ t₂ : Session}
  {mid post post' : Except Cause α → Session → Except Cause β → Session → Prop}

/-- From these sessions both steps are broken off for one reason, or both come to an end, and these ends
meet the condition. -/
def Abreast (step₁ : Matcher α) (step₂ : Matcher β) (s₁ s₂ : Session)
    (post : Except Cause α → Session → Except Cause β → Session → Prop) : Prop :=
  Ensures (fun reason => step₂ s₂ = .stopped reason) step₁ s₁ fun r₁ t₁ =>
    Ensures unbroken step₂ s₂ fun r₂ t₂ => post r₁ t₁ r₂ t₂

namespace Abreast

/-- The condition on the two ends may be weakened. -/
theorem mono (h : Abreast step₁ step₂ s₁ s₂ post)
    (weaker : ∀ r₁ t₁ r₂ t₂, post r₁ t₁ r₂ t₂ → post' r₁ t₁ r₂ t₂) :
    Abreast step₁ step₂ s₁ s₂ post' :=
  Ensures.mono h fun r₁ t₁ h' => h'.mono fun r₂ t₂ => weaker r₁ t₁ r₂ t₂

/-- What each of the steps ensures by itself holds as well. -/
theorem and {lenient lenient' : Stop → Prop} {post₁ : Except Cause α → Session → Prop}
    {post₂ : Except Cause β → Session → Prop} (h : Abreast step₁ step₂ s₁ s₂ post)
    (h₁ : Ensures lenient step₁ s₁ post₁) (h₂ : Ensures lenient' step₂ s₂ post₂) :
    Abreast step₁ step₂ s₁ s₂ fun r₁ t₁ r₂ t₂ => post r₁ t₁ r₂ t₂ ∧ post₁ r₁ t₁ ∧ post₂ r₂ t₂ := by
  unfold Abreast Ensures at *
  cases hr₁ : step₁ s₁ with
  | stopped reason => simpa [hr₁] using h
  | failed cause t₁ =>
    rw [hr₁] at h h₁
    cases hr₂ : step₂ s₂ with
    | stopped reason => simp [hr₂, unbroken] at h
    | failed cause' t₂ | matched value' t₂ =>
      rw [hr₂] at h h₂
      exact ⟨h, h₁, h₂⟩
  | matched value t₁ =>
    rw [hr₁] at h h₁
    cases hr₂ : step₂ s₂ with
    | stopped reason => simp [hr₂, unbroken] at h
    | failed cause' t₂ | matched value' t₂ =>
      rw [hr₂] at h h₂
      exact ⟨h, h₁, h₂⟩

/-- Where the first step comes to an end, so does the second one. -/
theorem of_ends (h : Abreast step₁ step₂ s₁ s₂ post) {r₁ : Except Cause α}
    (hends : step₁ s₁ = ofResult r₁ t₁) : ∃ r₂ t₂, step₂ s₂ = ofResult r₂ t₂ ∧ post r₁ t₁ r₂ t₂ := by
  unfold Abreast Ensures at h
  rw [hends] at h
  cases hr₂ : step₂ s₂ with
  | stopped reason => cases r₁ <;> simp [ofResult, Matcher.pure, fail, hr₂, unbroken] at h
  | failed cause t₂ =>
    refine ⟨.error cause, t₂, rfl, ?_⟩
    cases r₁ <;> simpa [ofResult, Matcher.pure, fail, Ensures, hr₂] using h
  | matched value t₂ =>
    refine ⟨.ok value, t₂, rfl, ?_⟩
    cases r₁ <;> simpa [ofResult, Matcher.pure, fail, Ensures, hr₂] using h

/-- The steps may change sides. -/
theorem symm (h : Abreast step₁ step₂ s₁ s₂ post) :
    Abreast step₂ step₁ s₂ s₁ fun r₂ t₂ r₁ t₁ => post r₁ t₁ r₂ t₂ := by
  unfold Abreast Ensures at *
  cases hr₁ : step₁ s₁ with
  | stopped reason =>
    rw [hr₁] at h
    rw [h]
  | failed cause t₁ | matched value t₁ =>
    rw [hr₁] at h
    cases hr₂ : step₂ s₂ with
    | stopped reason => simp [hr₂, unbroken] at h
    | failed cause' t₂ | matched value' t₂ =>
      rw [hr₂] at h
      exact h

/-- One step follows the other on both sides. -/
theorem bind {next₁ : α → Matcher γ} {next₂ : β → Matcher δ}
    {post : Except Cause γ → Session → Except Cause δ → Session → Prop}
    (h : Abreast step₁ step₂ s₁ s₂ mid)
    (hnext : ∀ r₁ t₁ r₂ t₂, mid r₁ t₁ r₂ t₂ →
      match r₁, r₂ with
      | .ok value₁, .ok value₂ => Abreast (next₁ value₁) (next₂ value₂) t₁ t₂ post
      | .error cause₁, .error cause₂ => post (.error cause₁) t₁ (.error cause₂) t₂
      | _, _ => False) :
    Abreast (step₁ >>= next₁) (step₂ >>= next₂) s₁ s₂ post := by
  have hbind₁ : (step₁ >>= next₁) s₁ = Matcher.bind step₁ next₁ s₁ := rfl
  have hbind₂ : (step₂ >>= next₂) s₂ = Matcher.bind step₂ next₂ s₂ := rfl
  unfold Abreast Ensures at *
  rw [hbind₁, hbind₂, Matcher.bind, Matcher.bind]
  cases hr₁ : step₁ s₁ with
  | stopped reason =>
    rw [hr₁] at h
    rw [h]
  | failed cause t₁ =>
    rw [hr₁] at h
    cases hr₂ : step₂ s₂ with
    | stopped reason => simp [hr₂, unbroken] at h
    | failed cause' t₂ =>
      rw [hr₂] at h
      exact hnext _ _ _ _ h
    | matched value' t₂ =>
      rw [hr₂] at h
      exact (hnext _ _ _ _ h).elim
  | matched value t₁ =>
    rw [hr₁] at h
    cases hr₂ : step₂ s₂ with
    | stopped reason => simp [hr₂, unbroken] at h
    | failed cause' t₂ =>
      rw [hr₂] at h
      exact (hnext _ _ _ _ h).elim
    | matched value' t₂ =>
      rw [hr₂] at h
      exact hnext _ _ _ _ h

/-- A failure that is handed on as a value is one on both sides. -/
theorem attempt (h : Abreast step₁ step₂ s₁ s₂ fun r₁ t₁ r₂ t₂ => mid r₁ t₁ r₂ t₂) :
    Abreast (attempt step₁) (Matcher.attempt step₂) s₁ s₂ fun r₁ t₁ r₂ t₂ =>
      ∃ r₁' r₂', r₁ = .ok r₁' ∧ r₂ = .ok r₂' ∧ mid r₁' t₁ r₂' t₂ := by
  unfold Abreast Ensures at *
  unfold Matcher.attempt
  cases hr₁ : step₁ s₁ with
  | stopped reason =>
    rw [hr₁] at h
    simp [h]
  | failed cause t₁ | matched value t₁ =>
    rw [hr₁] at h
    cases hr₂ : step₂ s₂ with
    | stopped reason => simp [hr₂, unbroken] at h
    | failed cause' t₂ | matched value' t₂ =>
      rw [hr₂] at h
      exact ⟨_, _, rfl, rfl, h⟩

/-- Steps that come to the same may take the places of two. -/
theorem congr {step₁' : Matcher α} {step₂' : Matcher β} {s₁' s₂' : Session}
    (h : Abreast step₁ step₂ s₁ s₂ post) (h₁ : step₁' s₁' = step₁ s₁) (h₂ : step₂' s₂' = step₂ s₂) :
    Abreast step₁' step₂' s₁' s₂' post := by
  unfold Abreast Ensures at *
  rw [h₁, h₂]
  exact h

/-- On the second side more may follow a match, as long as that ends. -/
theorem bind_second {next₂ : β → Matcher δ}
    {post : Except Cause α → Session → Except Cause δ → Session → Prop}
    (h : Abreast step₁ step₂ s₁ s₂ mid)
    (hnext : ∀ r₁ t₁ r₂ t₂, mid r₁ t₁ r₂ t₂ →
      match r₂ with
      | .ok value₂ => Ensures unbroken (next₂ value₂) t₂ (post r₁ t₁)
      | .error cause₂ => post r₁ t₁ (.error cause₂) t₂) :
    Abreast step₁ (step₂ >>= next₂) s₁ s₂ post := by
  refine Ensures.imp h (fun reason hstopped => ?_) fun r₁ t₁ hends => ?_
  · change Matcher.bind step₂ next₂ s₂ = _
    rw [Matcher.bind, hstopped]
  · rw [ensures_bind]
    exact hends.mono fun r₂ t₂ hmid => hnext _ _ _ _ hmid

/-- On the second side more may follow, whether there is a match or not, as long as that ends. -/
theorem bind_attempt_second {next₂ : Except Cause β → Matcher δ}
    {post : Except Cause α → Session → Except Cause δ → Session → Prop}
    (h : Abreast step₁ step₂ s₁ s₂ mid)
    (hnext : ∀ r₁ t₁ r₂ t₂, mid r₁ t₁ r₂ t₂ → Ensures unbroken (next₂ r₂) t₂ (post r₁ t₁)) :
    Abreast step₁ (Matcher.attempt step₂ >>= next₂) s₁ s₂ post := by
  refine Ensures.imp h (fun reason hstopped => ?_) fun r₁ t₁ hends => ?_
  · change Matcher.bind (Matcher.attempt step₂) next₂ s₂ = _
    rw [Matcher.bind, Matcher.attempt, hstopped]
  · rw [ensures_bind, ensures_attempt]
    exact hends.mono fun r₂ t₂ hmid => hnext _ _ _ _ hmid

/-- What two steps come to is gone on with, whether they match or fail. -/
theorem bind_attempt {next₁ : Except Cause α → Matcher γ} {next₂ : Except Cause β → Matcher δ}
    {post : Except Cause γ → Session → Except Cause δ → Session → Prop}
    (h : Abreast step₁ step₂ s₁ s₂ mid)
    (hnext : ∀ r₁ t₁ r₂ t₂, mid r₁ t₁ r₂ t₂ → Abreast (next₁ r₁) (next₂ r₂) t₁ t₂ post) :
    Abreast (Matcher.attempt step₁ >>= next₁) (Matcher.attempt step₂ >>= next₂) s₁ s₂ post := by
  refine h.attempt.bind fun r₁ t₁ r₂ t₂ hmid => ?_
  obtain ⟨r₁', r₂', rfl, rfl, hmid⟩ := hmid
  exact hnext _ _ _ _ hmid

/-- On the first side a failure may be gone on with, as long as that ends, where the second side is at its end. -/
theorem bind_attempt_first {next₁ : Except Cause α → Matcher γ} {next₂ : β → Matcher δ}
    {post : Except Cause γ → Session → Except Cause δ → Session → Prop}
    (h : Abreast step₁ step₂ s₁ s₂ mid)
    (hnext : ∀ r₁ t₁ r₂ t₂, mid r₁ t₁ r₂ t₂ →
      match r₂ with
      | .ok value₂ => Abreast (next₁ r₁) (next₂ value₂) t₁ t₂ post
      | .error cause₂ => Ensures unbroken (next₁ r₁) t₁ fun r t => post r t (.error cause₂) t₂) :
    Abreast (Matcher.attempt step₁ >>= next₁) (step₂ >>= next₂) s₁ s₂ post := by
  have hbind₂ : (step₂ >>= next₂) s₂ = Matcher.bind step₂ next₂ s₂ := rfl
  unfold Abreast at h ⊢
  rw [ensures_bind, ensures_attempt]
  refine Ensures.imp h (fun reason hstopped => by rw [hbind₂, Matcher.bind, hstopped]) fun r₁ t₁ hends => ?_
  obtain ⟨cause, t₂, hstep, hmid⟩ | ⟨value, t₂, hstep, hmid⟩ := hends.exists_reply
  · refine (hnext _ _ _ _ hmid).imp (fun _ => False.elim) fun r t hpost => ?_
    exact (ensures_bind_failed hstep).2 hpost
  · refine Ensures.imp (hnext _ _ _ _ hmid) (fun reason hstopped => ?_) fun r t hpost => ?_
    · rw [bind_of_matched hstep]
      exact hstopped
    · exact (ensures_bind_matched hstep).2 hpost

/-- On the first side, the contract of expressions may be kept around a step that starts at a boundary. -/
theorem guarded {body : Matcher Raw} {post : Except Cause Raw → Session → Except Cause β → Session → Prop}
    (hpos : s₁.source.text.isBoundary s₁.source.pos = true)
    (htext : Ensures anyhow body s₁ fun _ t₁ => t₁.source.text = s₁.source.text)
    (h : Abreast body step₂ s₁ s₂ fun r₁ t₁ r₂ t₂ =>
      match r₁ with
      | .ok raw => ∀ reporter, post (.ok raw) { t₁ with reporter } r₂ t₂
      | .error cause => post (.error cause) { t₁ with source.pos := s₁.source.pos } r₂ t₂) :
    Abreast (guarded body) step₂ s₁ s₂ post := by
  unfold Abreast at h ⊢
  simp only [Matcher.guarded, ensures_bind, ensures_position, ensures_attempt]
  refine (Ensures.and h htext).mono fun r₁ t₁ hends => ?_
  obtain ⟨hpost, ht⟩ := hends
  cases r₁ with
  | ok raw =>
    simp only [ensures_bind, ensures_position, ensures_tell, ensures_pure]
    exact hpost.mono fun r₂ t₂ htold => htold _
  | error cause =>
    have hb : t₁.source.text.isBoundary s₁.source.pos = true := by rw [ht, hpos]
    simp only [ensures_bind, ensures_moveTo hb, ensures_fail]
    exact hpost

end Abreast

section Steps

variable {first₁ : Matcher γ} {first₂ : Matcher δ} {next₁ : γ → Matcher α} {next₂ : δ → Matcher β}

/-- Steps that match are done with. -/
theorem abreast_matched {value₁ : γ} {value₂ : δ} (h₁ : first₁ s₁ = .matched value₁ t₁)
    (h₂ : first₂ s₂ = .matched value₂ t₂) :
    Abreast (first₁ >>= next₁) (first₂ >>= next₂) s₁ s₂ post ↔
      Abreast (next₁ value₁) (next₂ value₂) t₁ t₂ post := by
  have hbind₁ : (first₁ >>= next₁) s₁ = next₁ value₁ t₁ := by
    change Matcher.bind first₁ next₁ s₁ = _
    rw [Matcher.bind, h₁]
  have hbind₂ : (first₂ >>= next₂) s₂ = next₂ value₂ t₂ := by
    change Matcher.bind first₂ next₂ s₂ = _
    rw [Matcher.bind, h₂]
  unfold Abreast Ensures
  rw [hbind₁, hbind₂]

/-- Two values at hand meet the condition just where they are. -/
@[simp] theorem abreast_pure (value₁ : α) (value₂ : β) :
    Abreast (pure value₁) (pure value₂) s₁ s₂ post ↔ post (.ok value₁) s₁ (.ok value₂) s₂ := Iff.rfl

/-- Two failures meet the condition just where they are. -/
@[simp] theorem abreast_fail (cause₁ cause₂ : Cause) :
    Abreast (fail cause₁) (fail cause₂) s₁ s₂ post ↔ post (.error cause₁) s₁ (.error cause₂) s₂ :=
  Iff.rfl

/-- Two results at hand meet the condition just where they are. -/
@[simp] theorem abreast_ofResult (r₁ : Except Cause α) (r₂ : Except Cause β) :
    Abreast (ofResult r₁) (ofResult r₂) s₁ s₂ post ↔ post r₁ s₁ r₂ s₂ := by
  cases r₁ <;> cases r₂ <;> rfl

/-- Steps that break off for the same reason go abreast, whatever the condition. -/
@[simp] theorem abreast_stop (reason : Stop) : Abreast (stop reason) (stop reason) s₁ s₂ post := rfl

/-- Two refusals go abreast if the failures meet the condition, each with the label on top of
its own session and told to its own reporter. -/
@[simp] theorem abreast_refuse (message₁ message₂ : Message) (offset₁ offset₂ : Nat)
    (children₁ children₂ : List Cause) :
    Abreast (refuse message₁ offset₁ children₁) (refuse message₂ offset₂ children₂) s₁ s₂ post ↔
      post (.error ⟨message₁, offset₁, none, s₁.labels.head?, children₁⟩)
        { s₁ with reporter :=
          s₁.reporter.observe (.recorded ⟨message₁, offset₁, none, s₁.labels.head?, children₁⟩) }
        (.error ⟨message₂, offset₂, none, s₂.labels.head?, children₂⟩)
        { s₂ with reporter :=
          s₂.reporter.observe (.recorded ⟨message₂, offset₂, none, s₂.labels.head?, children₂⟩) } :=
  Iff.rfl

/-- Each side goes on with its own offset. -/
@[simp] theorem abreast_position {next₁ : Nat → Matcher α} {next₂ : Nat → Matcher β} :
    Abreast (position >>= next₁) (position >>= next₂) s₁ s₂ post ↔
      Abreast (next₁ s₁.source.pos) (next₂ s₂.source.pos) s₁ s₂ post := abreast_matched rfl rfl

/-- The second side may look where it stands. -/
theorem abreast_position_second {next : Nat → Matcher β} :
    Abreast step₁ (position >>= next) s₁ s₂ post ↔ Abreast step₁ (next s₂.source.pos) s₁ s₂ post :=
  Iff.rfl

/-- Each side goes on with its own text. -/
@[simp] theorem abreast_source {next₁ : Source → Matcher α} {next₂ : Source → Matcher β} :
    Abreast (source >>= next₁) (source >>= next₂) s₁ s₂ post ↔
      Abreast (next₁ s₁.source) (next₂ s₂.source) s₁ s₂ post := abreast_matched rfl rfl

/-- Each side goes on with its own memo. -/
@[simp] theorem abreast_memo {next₁ : Memo → Matcher α} {next₂ : Memo → Matcher β} :
    Abreast (memo >>= next₁) (memo >>= next₂) s₁ s₂ post ↔
      Abreast (next₁ s₁.memo) (next₂ s₂.memo) s₁ s₂ post := abreast_matched rfl rfl

/-- Each side goes on after its own change to the session. -/
@[simp] theorem abreast_modify {f g : Session → Session} {next₁ : Unit → Matcher α}
    {next₂ : Unit → Matcher β} :
    Abreast (modify f >>= next₁) (modify g >>= next₂) s₁ s₂ post ↔
      Abreast (next₁ ()) (next₂ ()) (f s₁) (g s₂) post := abreast_matched rfl rfl

/-- Each side goes on after its own change to the memo. -/
@[simp] theorem abreast_modifyMemo {f g : Memo → Memo} {next₁ : Unit → Matcher α}
    {next₂ : Unit → Matcher β} :
    Abreast (modifyMemo f >>= next₁) (modifyMemo g >>= next₂) s₁ s₂ post ↔
      Abreast (next₁ ()) (next₂ ()) { s₁ with memo := f s₁.memo } { s₂ with memo := g s₂.memo } post :=
  abreast_matched rfl rfl

/-- Each side goes on after noting its own event. -/
@[simp] theorem abreast_emit {event₁ event₂ : Event} {next₁ : Unit → Matcher α}
    {next₂ : Unit → Matcher β} :
    Abreast (emit event₁ >>= next₁) (emit event₂ >>= next₂) s₁ s₂ post ↔
      Abreast (next₁ ()) (next₂ ()) { s₁ with trace := event₁ :: s₁.trace }
        { s₂ with trace := event₂ :: s₂.trace } post := abreast_matched rfl rfl

/-- Each side goes on after its own reporter has heard its own report. -/
@[simp] theorem abreast_tell {report₁ report₂ : Report} {next₁ : Unit → Matcher α}
    {next₂ : Unit → Matcher β} :
    Abreast (tell report₁ >>= next₁) (tell report₂ >>= next₂) s₁ s₂ post ↔
      Abreast (next₁ ()) (next₂ ()) { s₁ with reporter := s₁.reporter.observe report₁ }
        { s₂ with reporter := s₂.reporter.observe report₂ } post := abreast_matched rfl rfl

/-- Both cursors can be moved to boundaries. -/
theorem abreast_moveTo {pos₁ pos₂ : Nat} (h₁ : s₁.source.text.isBoundary pos₁ = true)
    (h₂ : s₂.source.text.isBoundary pos₂ = true) {next₁ : Unit → Matcher α} {next₂ : Unit → Matcher β} :
    Abreast (moveTo pos₁ >>= next₁) (moveTo pos₂ >>= next₂) s₁ s₂ post ↔
      Abreast (next₁ ()) (next₂ ()) { s₁ with source.pos := pos₁ } { s₂ with source.pos := pos₂ } post :=
  abreast_matched (by simp [moveTo, Source.setPos?, h₁]) (by simp [moveTo, Source.setPos?, h₂])

/-- As many bytes can be consumed as there are left on both sides. -/
theorem abreast_consume {n : Nat} (h₁ : n ≤ s₁.source.remaining) (h₂ : n ≤ s₂.source.remaining)
    {next₁ : Slice → Matcher α} {next₂ : Slice → Matcher β} :
    Abreast (consume n >>= next₁) (consume n >>= next₂) s₁ s₂ post ↔
      Abreast (next₁ (s₁.source.slice s₁.source.pos n)) (next₂ (s₂.source.slice s₂.source.pos n))
        { s₁ with source.pos := s₁.source.pos + n } { s₂ with source.pos := s₂.source.pos + n } post :=
  abreast_matched (by simp [consume, Source.consume?, h₁]) (by simp [consume, Source.consume?, h₂])

end Steps

end Matcher

/-- Both results are matches with values so related, or both are failures. -/
def Agree {α β : Type} (same : α → β → Prop) : Except Cause α → Except Cause β → Prop
  | .ok value₁, .ok value₂ => same value₁ value₂
  | .error _, .error _ => True
  | _, _ => False

/-- Outcomes that agree are two matches with alike values or two failures. -/
theorem Agree.cases {α β : Type} {same : α → β → Prop} {r₁ : Except Cause α} {r₂ : Except Cause β}
    (h : Agree same r₁ r₂) :
    (∃ value₁ value₂, r₁ = .ok value₁ ∧ r₂ = .ok value₂ ∧ same value₁ value₂) ∨
      ∃ cause₁ cause₂, r₁ = .error cause₁ ∧ r₂ = .error cause₂ := by
  cases r₁ <;> cases r₂
  · exact .inr ⟨_, _, rfl, rfl⟩
  · exact h.elim
  · exact h.elim
  · exact .inl ⟨_, _, rfl, rfl, h⟩

/-- Two matches of one text, each on its course, and which memos of theirs are alike. -/
structure Pair where
  /-- The course of the first match. -/
  first : Course
  /-- The course of the second match. -/
  second : Course
  /-- With these memos, the matches have come equally far. -/
  Alike : Memo → Memo → Prop

namespace Pair

open Matcher Course

variable {P : Pair} {α β : Type} [Sliced α] [Sliced β] {s₁ s₂ t₁ t₂ : Session} {same : α → α → Prop}

variable (P) in
/-- The sessions differ in nothing but their memos and in what is told and noted. -/
structure Even (s₁ s₂ : Session) : Prop where
  source : s₂.source = s₁.source
  captures : s₂.captures = s₁.captures
  memo : P.Alike s₁.memo s₂.memo

variable (P) in
/-- Both matches can go on from the sessions, which are even. -/
structure Together (s₁ s₂ : Session) : Prop extends P.Even s₁ s₂ where
  first : P.first.Start s₁
  second : P.second.Start s₂

variable (P) in
/-- Both steps have come to the same, and the sessions behind them are even. -/
structure Meet (same : α → β → Prop) (r₁ : Except Cause α) (t₁ : Session) (r₂ : Except Cause β)
    (t₂ : Session) : Prop extends P.Even t₁ t₂ where
  agree : Agree same r₁ r₂

variable (P) in
/-- From sessions that are together both steps come to the same, and the sessions stay even. -/
def Keeps (same : α → β → Prop) (step₁ : Matcher α) (step₂ : Matcher β) : Prop :=
  ∀ s₁ s₂, P.Together s₁ s₂ → Abreast step₁ step₂ s₁ s₂ (P.Meet same)

variable (P) in
/-- Both steps end, and they keep together. -/
structure Goes (same : α → β → Prop) (step₁ : Matcher α) (step₂ : Matcher β) : Prop where
  first : P.first.Ends step₁
  second : P.second.Ends step₂
  keeps : P.Keeps same step₁ step₂

variable (P) in
/-- The steps have come to the same, and what they started from has led to sessions that are together. -/
structure Met (same : α → β → Prop) (s₁ s₂ : Session) (r₁ : Except Cause α) (t₁ : Session)
    (r₂ : Except Cause β) (t₂ : Session) : Prop extends P.Meet same r₁ t₁ r₂ t₂ where
  first : P.first.Ended s₁ r₁ t₁
  second : P.second.Ended s₂ r₂ t₂

/-- Steps that go together go abreast from any two sessions that are together. -/
theorem Goes.abreast {same : α → β → Prop} {step₁ : Matcher α} {step₂ : Matcher β}
    (h : P.Goes same step₁ step₂) (hs : P.Together s₁ s₂) :
    Abreast step₁ step₂ s₁ s₂ (P.Met same s₁ s₂) := by
  refine ((h.keeps s₁ s₂ hs).and (h.first s₁ hs.first) (h.second s₂ hs.second)).mono ?_
  intro r₁ t₁ r₂ t₂ hends
  obtain ⟨hmeet, hfirst, hsecond⟩ := hends
  exact ⟨hmeet, hfirst, hsecond⟩

/-- The next steps start together where two steps have met. -/
theorem Met.together {same : α → β → Prop} {r₁ : Except Cause α} {r₂ : Except Cause β}
    (h : P.Met same s₁ s₂ r₁ t₁ r₂ t₂) (hs : P.Together s₁ s₂) : P.Together t₁ t₂ :=
  ⟨h.toEven, h.first.start hs.first, h.second.start hs.second⟩

/-- Sessions that differ in nothing that counts are as even. -/
theorem Even.of_eq {s₁' s₂' : Session} (h : P.Even s₁ s₂) (hs₁ : s₁'.source = s₁.source)
    (hc₁ : s₁'.captures = s₁.captures) (hm₁ : s₁'.memo = s₁.memo) (hs₂ : s₂'.source = s₂.source)
    (hc₂ : s₂'.captures = s₂.captures) (hm₂ : s₂'.memo = s₂.memo) : P.Even s₁' s₂' where
  source := by rw [hs₁, hs₂, h.source]
  captures := by rw [hc₁, hc₂, h.captures]
  memo := by
    rw [hm₁, hm₂]
    exact h.memo

/-- Both cursors may be moved to the same offset. -/
theorem Even.moveTo (h : P.Even s₁ s₂) (pos : Nat) :
    P.Even { s₁ with source.pos := pos } { s₂ with source.pos := pos } where
  source := by rw [h.source]
  captures := h.captures
  memo := h.memo

omit [Sliced α] [Sliced β] in
/-- Steps that match alike have met. -/
theorem Meet.matched {same : α → β → Prop} {value₁ : α} {value₂ : β} (h : P.Even t₁ t₂)
    (hv : same value₁ value₂) : P.Meet same (.ok value₁) t₁ (.ok value₂) t₂ := ⟨h, hv⟩

omit [Sliced α] [Sliced β] in
/-- Steps that fail have met, whatever the causes. -/
theorem Meet.failed {same : α → β → Prop} {cause₁ cause₂ : Cause} (h : P.Even t₁ t₂) :
    P.Meet same (.error cause₁) t₁ (.error cause₂) t₂ := ⟨h, trivial⟩

/-- What follows steps that keep together may keep together. -/
theorem Goes.andThen {γ δ : Type} {same : α → β → Prop} {same' : γ → δ → Prop} {first₁ : Matcher α}
    {first₂ : Matcher β} {next₁ : α → Matcher γ} {next₂ : β → Matcher δ}
    (h : P.Goes same first₁ first₂)
    (hnext : ∀ value₁ value₂, same value₁ value₂ → P.Keeps same' (next₁ value₁) (next₂ value₂)) :
    P.Keeps same' (first₁ >>= next₁) (first₂ >>= next₂) := by
  intro s₁ s₂ hs
  refine (h.abreast hs).bind fun r₁ t₁ r₂ t₂ hmet => ?_
  obtain ⟨value₁, value₂, rfl, rfl, hv⟩ | ⟨cause₁, cause₂, rfl, rfl⟩ := hmet.agree.cases
  · exact hnext _ _ hv _ _ (hmet.together hs)
  · exact .failed hmet.toEven

omit [Sliced α] [Sliced β] in
/-- Values may be changed alike. -/
theorem Keeps.map {γ δ : Type} {same : α → β → Prop} {same' : γ → δ → Prop} {step₁ : Matcher α}
    {step₂ : Matcher β} {f : α → γ} {g : β → δ} (h : P.Keeps same step₁ step₂)
    (hf : ∀ value₁ value₂, same value₁ value₂ → same' (f value₁) (g value₂)) :
    P.Keeps same' (do return f (← step₁)) (do return g (← step₂)) := by
  intro s₁ s₂ hs
  refine (h s₁ s₂ hs).bind fun r₁ t₁ r₂ t₂ hmeet => ?_
  obtain ⟨value₁, value₂, rfl, rfl, hv⟩ | ⟨cause₁, cause₂, rfl, rfl⟩ := hmeet.agree.cases
  · exact .matched hmeet.toEven (hf _ _ hv)
  · exact .failed hmeet.toEven

/-- Flattening by itself goes together: the raw parts are equal and nothing moves. -/
theorem keeps_flatten (named : Bool) (raw : Raw) :
    P.Keeps Eq (flatten named raw) (flatten named raw) := by
  intro s₁ s₂ hs
  refine ensures_flatten _ _ _ fun _ _ => ensures_flatten _ _ _ fun _ _ => ?_
  exact .matched (hs.toEven.of_eq rfl rfl rfl rfl rfl rfl) rfl

section Combinators

variable {body₁ body₂ : Matcher Raw}

/-- A guarded body goes together if the body does, as each side goes back to its own start. -/
theorem goes_guarded (h : P.Goes Eq body₁ body₂) : P.Goes Eq (guarded body₁) (guarded body₂) := by
  refine ⟨h.first.guarded, h.second.guarded, fun s₁ s₂ hs => ?_⟩
  simp only [guarded, abreast_position]
  refine (h.abreast hs).bind_attempt fun r₁ t₁ r₂ t₂ hmet => ?_
  have ht := hmet.toEven
  obtain ⟨raw, _, rfl, rfl, rfl⟩ | ⟨cause₁, cause₂, rfl, rfl⟩ := hmet.agree.cases
  · simp only [abreast_position, abreast_tell, abreast_pure]
    exact .matched (ht.of_eq rfl rfl rfl rfl rfl rfl) rfl
  · have hb₁ := hs.first.boundary_after hmet.first.toMoves
    have hb₂ := hs.second.boundary_after hmet.second.toMoves
    rw [abreast_moveTo hb₁ hb₂, abreast_fail, hs.source]
    exact .failed (ht.moveTo _)

/-- A literal goes together: both sides have the same text before them. -/
theorem goes_literal (word : String) : P.Goes Eq (Matcher.literal word) (Matcher.literal word) := by
  refine ⟨(takes_literal word).ends, (takes_literal word).ends, fun s₁ s₂ hs => ?_⟩
  simp only [Matcher.literal, abreast_source, hs.source]
  split
  · rw [abreast_refuse]
    exact .failed (hs.toEven.of_eq rfl rfl rfl rfl rfl rfl)
  · split
    · rename_i hw
      obtain ⟨hfit₁, -⟩ := Source.isBoundary_of_startsWith hs.first.at_boundary hw
      have hfit₂ : word.utf8ByteSize ≤ s₂.source.remaining := by
        rw [hs.source]
        exact hfit₁
      rw [abreast_consume hfit₁ hfit₂, abreast_pure]
      exact .matched ⟨by rw [hs.source], hs.captures, hs.memo⟩ (by rw [hs.source])
    · rw [abreast_refuse]
      exact .failed (hs.toEven.of_eq rfl rfl rfl rfl rfl rfl)

/-- A class of characters goes together, also where the sides name different atoms in their
causes. -/
theorem goes_character (whole₁ whole₂ : Atom) (test : Char → Bool) :
    P.Goes Eq (character whole₁ test) (character whole₂ test) := by
  refine ⟨(takes_character whole₁ test).ends, (takes_character whole₂ test).ends, fun s₁ s₂ hs => ?_⟩
  simp only [character, abreast_source, hs.source]
  split
  · rw [abreast_refuse]
    exact .failed (hs.toEven.of_eq rfl rfl rfl rfl rfl rfl)
  · rename_i c hc
    split
    · obtain ⟨hfit₁, -⟩ := Source.isBoundary_of_nextChar? hs.first.at_boundary hc
      have hfit₂ : c.utf8Size ≤ s₂.source.remaining := by
        rw [hs.source]
        exact hfit₁
      rw [abreast_consume hfit₁ hfit₂, abreast_pure]
      exact .matched ⟨by rw [hs.source], hs.captures, hs.memo⟩ (by rw [hs.source])
    · rw [abreast_refuse]
      exact .failed (hs.toEven.of_eq rfl rfl rfl rfl rfl rfl)

/-- The parts of a sequence go together one after another. -/
theorem keeps_inOrder (whole₁ whole₂ : Atom) {ι : Type} {items : List ι} {part₁ part₂ : ι → Matcher Raw}
    (h : ∀ i ∈ items, P.Goes Eq (part₁ i) (part₂ i)) :
    P.Keeps Eq (inOrder whole₁ (items.map part₁)) (inOrder whole₂ (items.map part₂)) := by
  induction items with
  | nil => exact fun s₁ s₂ hs => .matched hs.toEven rfl
  | cons i rest ih =>
    intro s₁ s₂ hs
    have hrest := ih fun j hj => h j (List.mem_cons_of_mem _ hj)
    refine ((h i (by simp)).abreast hs).bind_attempt fun r₁ t₁ r₂ t₂ hmet => ?_
    obtain ⟨raw, _, rfl, rfl, rfl⟩ | ⟨cause₁, cause₂, rfl, rfl⟩ := hmet.agree.cases
    · exact hrest.map (fun _ _ heq => by rw [heq]) _ _ (hmet.together hs)
    · simp only [abreast_position, abreast_refuse]
      exact .failed (hmet.toEven.of_eq rfl rfl rfl rfl rfl rfl)

/-- A sequence goes together if its parts do. -/
theorem goes_sequence (whole₁ whole₂ : Atom) {ι : Type} {items : List ι} {part₁ part₂ : ι → Matcher Raw}
    (h : ∀ i ∈ items, P.Goes Eq (part₁ i) (part₂ i)) :
    P.Goes Eq (do return Raw.sequence (← inOrder whole₁ (items.map part₁)))
      (do return Raw.sequence (← inOrder whole₂ (items.map part₂))) := by
  have hends₁ : ∀ part ∈ items.map part₁, P.first.Ends part := by
    simpa using fun i hi => (h i hi).first
  have hends₂ : ∀ part ∈ items.map part₂, P.second.Ends part := by
    simpa using fun i hi => (h i hi).second
  exact ⟨(ends_inOrder whole₁ hends₁).andThen fun _ hv =>
      ends_pure fun hst => (Raw.intact_sequence _).2 (hv hst),
    (ends_inOrder whole₂ hends₂).andThen fun _ hv =>
      ends_pure fun hst => (Raw.intact_sequence _).2 (hv hst),
    (keeps_inOrder whole₁ whole₂ h).map fun _ _ heq => by rw [heq]⟩

/-- Ordered branches go together, whatever causes each side has gathered so far. -/
theorem keeps_firstOf (whole₁ whole₂ : Atom) (start : Nat) {ι : Type} {items : List ι}
    {branch₁ branch₂ : ι → Matcher Raw} (h : ∀ i ∈ items, P.Goes Eq (branch₁ i) (branch₂ i))
    (causes₁ causes₂ : List Cause) :
    P.Keeps Eq (firstOf whole₁ start (items.map branch₁) causes₁)
      (firstOf whole₂ start (items.map branch₂) causes₂) := by
  induction items generalizing causes₁ causes₂ with
  | nil =>
    intro s₁ s₂ hs
    simp only [List.map_nil, firstOf, abreast_tell, abreast_refuse]
    exact .failed (hs.toEven.of_eq rfl rfl rfl rfl rfl rfl)
  | cons i rest ih =>
    intro s₁ s₂ hs
    refine ((h i (by simp)).abreast hs).bind_attempt fun r₁ t₁ r₂ t₂ hmet => ?_
    obtain ⟨raw, _, rfl, rfl, rfl⟩ | ⟨cause₁, cause₂, rfl, rfl⟩ := hmet.agree.cases
    · simp only [abreast_tell, abreast_pure]
      exact .matched (hmet.toEven.of_eq rfl rfl rfl rfl rfl rfl) rfl
    · exact ih (fun j hj => h j (List.mem_cons_of_mem _ hj)) _ _ _ _ (hmet.together hs)

/-- A choice goes together if its branches do. -/
theorem goes_choice (whole₁ whole₂ : Atom) {ι : Type} {items : List ι} {branch₁ branch₂ : ι → Matcher Raw}
    (h : ∀ i ∈ items, P.Goes Eq (branch₁ i) (branch₂ i)) :
    P.Goes Eq (choice whole₁ (items.map branch₁)) (choice whole₂ (items.map branch₂)) := by
  refine ⟨ends_choice whole₁ ?_, ends_choice whole₂ ?_, fun s₁ s₂ hs => ?_⟩
  · simpa using fun i hi => (h i hi).first
  · simpa using fun i hi => (h i hi).second
  have htold : P.Together { s₁ with reporter := s₁.reporter.observe .choiceStarted }
      { s₂ with reporter := s₂.reporter.observe .choiceStarted } :=
    ⟨hs.toEven.of_eq rfl rfl rfl rfl rfl rfl,
      ⟨⟨hs.first.text, hs.first.boundary, hs.first.bodies, hs.first.labels, hs.first.memo⟩,
        hs.first.captures⟩,
      ⟨⟨hs.second.text, hs.second.boundary, hs.second.bodies, hs.second.labels, hs.second.memo⟩,
        hs.second.captures⟩⟩
  have hpos : s₂.source.pos = s₁.source.pos := by rw [hs.source]
  simp only [choice, abreast_position, abreast_tell, hpos]
  exact keeps_firstOf whole₁ whole₂ _ h [] [] _ _ htold

/-- The rounds that matched have the same values; what ended them may have another cause. -/
theorem keeps_roundsFrom (h : P.Goes Eq body₁ body₂) (max : Option Nat) (bound count : Nat) :
    P.Keeps (fun rounds₁ rounds₂ => rounds₁.1 = rounds₂.1) (roundsFrom body₁ max bound count)
      (roundsFrom body₂ max bound count) := by
  induction bound generalizing count with
  | zero => exact fun s₁ s₂ _ => abreast_stop _
  | succ bound ih =>
    intro s₁ s₂ hs
    rw [roundsFrom, roundsFrom]
    split
    · exact .matched hs.toEven rfl
    · simp only [abreast_position]
      refine (h.abreast hs).bind_attempt fun r₁ t₁ r₂ t₂ hmet => ?_
      obtain ⟨raw, _, rfl, rfl, rfl⟩ | ⟨cause₁, cause₂, rfl, rfl⟩ := hmet.agree.cases
      · simp only [abreast_position, hs.source, hmet.source]
        split
        · exact .matched hmet.toEven rfl
        · exact (ih (count + 1)).map (fun _ _ heq => by simp [heq]) _ _ (hmet.together hs)
      · exact .matched hmet.toEven rfl

/-- A repetition goes together if its body does, as both sides make the same number of rounds.
-/
theorem goes_repetition (part₁ part₂ : Atom) (h : P.Goes Eq body₁ body₂) (min : Nat) (max : Option Nat)
    (optional : Bool) : P.Goes Eq (repetition part₁ body₁ min max optional)
      (repetition part₂ body₂ min max optional) := by
  refine ⟨ends_repetition part₁ h.first min max optional, ends_repetition part₂ h.second min max optional,
    fun s₁ s₂ hs => ?_⟩
  simp only [repetition, abreast_position, abreast_source, hs.source]
  refine (keeps_roundsFrom h max _ 0 s₁ s₂ hs).bind fun r₁ t₁ r₂ t₂ hmeet => ?_
  obtain ⟨⟨values, ended₁⟩, ⟨_, ended₂⟩, rfl, rfl, rfl⟩ | ⟨cause₁, cause₂, rfl, rfl⟩ := hmeet.agree.cases
  · dsimp only
    split
    · rw [abreast_refuse]
      exact .failed (hmeet.toEven.of_eq rfl rfl rfl rfl rfl rfl)
    · simp only [abreast_position, abreast_emit]
      split
      · exact .matched (hmeet.toEven.of_eq rfl rfl rfl rfl rfl rfl) rfl
      · exact .matched (hmeet.toEven.of_eq rfl rfl rfl rfl rfl rfl) rfl
  · exact .failed hmeet.toEven

/-- A lookahead goes together if its part does, and takes both sides back to where they were. -/
theorem goes_lookahead (part₁ part₂ : Atom) (h : P.Goes Eq body₁ body₂) (positive : Bool) :
    P.Goes Eq (lookahead part₁ body₁ positive) (lookahead part₂ body₂ positive) := by
  refine ⟨ends_lookahead part₁ h.first positive, ends_lookahead part₂ h.second positive,
    fun s₁ s₂ hs => ?_⟩
  simp only [lookahead, abreast_position]
  refine (h.abreast hs).bind_attempt fun r₁ t₁ r₂ t₂ hmet => ?_
  have hb₁ := hs.first.boundary_after hmet.first.toMoves
  have hb₂ := hs.second.boundary_after hmet.second.toMoves
  rw [abreast_moveTo hb₁ hb₂, hs.source]
  have hback := hmet.toEven.moveTo s₁.source.pos
  obtain ⟨raw, _, rfl, rfl, rfl⟩ | ⟨cause₁, cause₂, rfl, rfl⟩ := hmet.agree.cases
  · cases positive
    · exact .failed (hback.of_eq rfl rfl rfl rfl rfl rfl)
    · exact .matched hback rfl
  · cases positive
    · exact .matched hback rfl
    · exact .failed (hback.of_eq rfl rfl rfl rfl rfl rfl)

/-- A named part goes together if the part does. -/
theorem goes_named (h : P.Goes Eq body₁ body₂) (name : String) :
    P.Goes Eq (named body₁ name) (named body₂ name) := by
  refine ⟨ends_named h.first name, ends_named h.second name, h.andThen fun raw _ heq => ?_⟩
  subst heq
  exact (keeps_flatten true raw).map fun _ _ heq => by rw [heq]

/-- A part whose value is dropped goes together if the part does. -/
theorem goes_ignore (h : P.Goes Eq body₁ body₂) :
    P.Goes Eq (do let _ ← body₁; return Raw.unit) (do let _ ← body₂; return Raw.unit) :=
  ⟨h.first.andThen fun _ _ => ends_pure fun _ => Raw.intact_unit,
    h.second.andThen fun _ _ => ends_pure fun _ => Raw.intact_unit, h.keeps.map fun _ _ _ => rfl⟩

/-- A transformed part goes together if the part does, as long as neither course asks for intact
values: a transformation may make others. -/
theorem goes_mapped (hfirst : P.first.Lax) (hsecond : P.second.Lax) (h : P.Goes Eq body₁ body₂)
    (transform : Tree → Tree) : P.Goes Eq (mapped body₁ transform) (mapped body₂ transform) := by
  refine ⟨ends_mapped h.first fun hst => absurd hst hfirst.slices,
    ends_mapped h.second fun hst => absurd hst hsecond.slices, h.andThen fun raw _ heq => ?_⟩
  subst heq
  exact (keeps_flatten false raw).map fun _ _ heq => by rw [heq]

/-- A marked part goes together if the part does. -/
theorem goes_marked (h : P.Goes Eq body₁ body₂) : P.Goes Eq (marked body₁) (marked body₂) := by
  refine ⟨ends_marked h.first, ends_marked h.second, fun s₁ s₂ hs => ?_⟩
  simp only [marked, abreast_position]
  refine (h.abreast hs).bind fun r₁ t₁ r₂ t₂ hmet => ?_
  obtain ⟨raw, _, rfl, rfl, rfl⟩ | ⟨cause₁, cause₂, rfl, rfl⟩ := hmet.agree.cases
  · have hb₁ := hs.first.boundary_after hmet.first.toMoves
    have hb₂ := hs.second.boundary_after hmet.second.toMoves
    dsimp only
    rw [abreast_moveTo hb₁ hb₂, abreast_pure, hs.source]
    exact .matched (hmet.toEven.moveTo _) rfl
  · exact .failed hmet.toEven

/-- A captured part goes together if the part does, as both sides capture the same text. -/
theorem goes_captured (h : P.Goes Eq body₁ body₂) (name : String) :
    P.Goes Eq (captured body₁ name) (captured body₂ name) := by
  refine ⟨ends_captured h.first name, ends_captured h.second name,
    h.andThen fun raw _ heq s₁ s₂ hs => ?_⟩
  subst heq
  refine (keeps_flatten false raw s₁ s₂ hs).bind fun r₁ t₁ r₂ t₂ hmeet => ?_
  obtain ⟨tree, _, rfl, rfl, rfl⟩ | ⟨cause₁, cause₂, rfl, rfl⟩ := hmeet.agree.cases
  · simp only [abreast_modify, abreast_pure]
    refine .matched ⟨hmeet.source, ?_, hmeet.memo⟩ rfl
    rw [hmeet.captures]
  · exact .failed hmeet.toEven

/-- What is chosen is chosen alike, since the sources and the captures are the same. -/
theorem goes_dynamic {chosen₁ chosen₂ : Source → Captures → Matcher Raw}
    (h : ∀ source captures, P.Goes Eq (chosen₁ source captures) (chosen₂ source captures)) :
    P.Goes Eq (fun s => chosen₁ s.source s.captures s) fun s => chosen₂ s.source s.captures s := by
  refine ⟨fun s hs => (h s.source s.captures).first s hs,
    fun s hs => (h s.source s.captures).second s hs, fun s₁ s₂ hs => ?_⟩
  have hchosen := (h s₁.source s₁.captures).keeps s₁ s₂ hs
  have hsecond : (fun s : Session => chosen₂ s.source s.captures s) s₂
      = chosen₂ s₁.source s₁.captures s₂ := by
    simp only [hs.source, hs.captures]
  unfold Abreast Ensures at hchosen ⊢
  rw [hsecond]
  exact hchosen

/-- A scope goes together if its body does, as both sides go back to their own captures. -/
theorem goes_inScope (h : P.Goes Eq body₁ body₂) : P.Goes Eq (inScope body₁) (inScope body₂) := by
  refine ⟨ends_inScope h.first, ends_inScope h.second, fun s₁ s₂ hs => ?_⟩
  have hopen : P.Together { s₁ with captures := s₁.captures.openScope }
      { s₂ with captures := s₂.captures.openScope } :=
    ⟨⟨hs.source, by rw [hs.captures], hs.memo⟩, hs.first.openScope, hs.second.openScope⟩
  simp only [inScope, abreast_modify]
  refine (h.abreast hopen).bind_attempt fun r₁ t₁ r₂ t₂ hmet => ?_
  simp only [abreast_modify]
  have hclose : P.Even { t₁ with captures := t₁.captures.closeScope }
      { t₂ with captures := t₂.captures.closeScope } :=
    ⟨hmet.source, by rw [hmet.captures], hmet.memo⟩
  obtain ⟨raw, _, rfl, rfl, rfl⟩ | ⟨cause₁, cause₂, rfl, rfl⟩ := hmet.agree.cases
  · exact .matched hclose rfl
  · exact .failed hclose

/-- A labelled part goes together if the part does, as long as neither course asks for equal
causes, which a label would tell apart. -/
theorem goes_labelled (hfirst : P.first.Lax) (hsecond : P.second.Lax) (h : P.Goes Eq body₁ body₂)
    (label : String) : P.Goes Eq (labelled body₁ label) (labelled body₂ label) := by
  refine ⟨ends_labelled h.first hfirst.strict label, ends_labelled h.second hsecond.strict label,
    fun s₁ s₂ hs => ?_⟩
  have hlabel : P.Together { s₁ with labels := label :: s₁.labels }
      { s₂ with labels := label :: s₂.labels } :=
    ⟨hs.toEven.of_eq rfl rfl rfl rfl rfl rfl, hs.first.withLabels hfirst.strict _,
      hs.second.withLabels hsecond.strict _⟩
  simp only [labelled, abreast_modify]
  refine (h.abreast hlabel).bind_attempt fun r₁ t₁ r₂ t₂ hmet => ?_
  simp only [abreast_modify]
  obtain ⟨raw, _, rfl, rfl, rfl⟩ | ⟨cause₁, cause₂, rfl, rfl⟩ := hmet.agree.cases
  · exact .matched (hmet.toEven.of_eq rfl rfl rfl rfl rfl rfl) rfl
  · exact .failed (hmet.toEven.of_eq rfl rfl rfl rfl rfl rfl)

/-- Taking in the rest of the text goes together. -/
theorem goes_halt : P.Goes Eq Matcher.halt Matcher.halt := by
  refine ⟨ends_halt, ends_halt, fun s₁ s₂ hs => ?_⟩
  simp only [Matcher.halt, abreast_source]
  have hleft : s₂.source.remaining = s₁.source.remaining := by rw [hs.source]
  rw [hleft, abreast_consume (Nat.le_refl _) (Nat.le_of_eq hleft.symm), abreast_pure]
  exact .matched ⟨by rw [hs.source], hs.captures, hs.memo⟩ rfl

end Combinators

section Operators

variable {body₁ body₂ : Matcher Raw}

/-- An operand goes together if the expression for it does. -/
theorem goes_operand (part₁ part₂ : Atom) (h : P.Goes Eq body₁ body₂) :
    P.Goes Eq (operand part₁ body₁) (operand part₂ body₂) := by
  refine ⟨ends_operand part₁ h.first, ends_operand part₂ h.second, fun s₁ s₂ hs => ?_⟩
  refine (h.abreast hs).bind_attempt fun r₁ t₁ r₂ t₂ hmet => ?_
  obtain ⟨raw, _, rfl, rfl, rfl⟩ | ⟨cause₁, cause₂, rfl, rfl⟩ := hmet.agree.cases
  · exact keeps_flatten true raw _ _ (hmet.together hs)
  · simp only [abreast_position, abreast_refuse]
    exact .failed (hmet.toEven.of_eq rfl rfl rfl rfl rfl rfl)

/-- The scan for an operator goes together if the operators do, with the same precedences. -/
theorem keeps_operator {ι : Type} (fixity : ι → Fixity) {items : List ι} {op₁ op₂ : ι → Matcher Raw}
    (h : ∀ i ∈ items, P.Goes Eq (op₁ i) (op₂ i)) :
    P.Keeps Eq (operator (items.map fun i => (fixity i, op₁ i)))
      (operator (items.map fun i => (fixity i, op₂ i))) := by
  induction items with
  | nil => exact fun s₁ s₂ hs => .matched hs.toEven rfl
  | cons i rest ih =>
    intro s₁ s₂ hs
    refine ((h i (by simp)).abreast hs).bind_attempt fun r₁ t₁ r₂ t₂ hmet => ?_
    obtain ⟨raw, _, rfl, rfl, rfl⟩ | ⟨cause₁, cause₂, rfl, rfl⟩ := hmet.agree.cases
    · exact (keeps_flatten true raw).map (fun _ _ heq => by rw [heq]) _ _ (hmet.together hs)
    · exact ih (fun j hj => h j (List.mem_cons_of_mem _ hj)) _ _ (hmet.together hs)

variable {element₁ element₂ : Matcher Tree} {next₁ next₂ : Matcher (Option (Tree × Fixity))}

/-- Climbing goes together if operand and scan do, at every depth and every floor. -/
theorem goes_climbFrom (hfirst : P.first.Lax) (hsecond : P.second.Lax)
    (he : P.Goes Eq element₁ element₂) (hn : P.Goes Eq next₁ next₂)
    (combine : Tree → Tree → Tree → Tree) (bound : Nat) (floor : UInt32) (left : Tree) :
    P.Goes Eq (climbFrom element₁ next₁ combine bound floor left)
      (climbFrom element₂ next₂ combine bound floor left) := by
  refine ⟨ends_climbFrom hfirst he.first hn.first combine bound floor left,
    ends_climbFrom hsecond he.second hn.second combine bound floor left, ?_⟩
  induction bound generalizing floor left with
  | zero => exact fun s₁ s₂ _ => abreast_stop _
  | succ bound ih =>
    have hclimb (floor : UInt32) (left : Tree) :
        P.Goes Eq (climbFrom element₁ next₁ combine bound floor left)
        (climbFrom element₂ next₂ combine bound floor left) :=
      ⟨ends_climbFrom hfirst he.first hn.first combine bound floor left,
        ends_climbFrom hsecond he.second hn.second combine bound floor left, ih floor left⟩
    intro s₁ s₂ hs
    simp only [climbFrom, abreast_position]
    refine (hn.abreast hs).bind fun r₁ t₁ r₂ t₂ hmet => ?_
    obtain ⟨found, _, rfl, rfl, rfl⟩ | ⟨cause₁, cause₂, rfl, rfl⟩ := hmet.agree.cases
    · rcases found with _ | ⟨symbol, fixity⟩
      · exact .matched hmet.toEven rfl
      · dsimp only
        split
        · have hb₁ := hs.first.boundary_after hmet.first.toMoves
          have hb₂ := hs.second.boundary_after hmet.second.toMoves
          rw [abreast_moveTo hb₁ hb₂, abreast_pure, hs.source]
          exact .matched (hmet.toEven.moveTo _) rfl
        · refine he.andThen (fun first _ heq => ?_) _ _ (hmet.together hs)
          subst heq
          refine (hclimb _ first).andThen fun right _ heq => ?_
          subst heq
          exact ih floor _
    · exact .failed hmet.toEven

/-- An operator expression goes together if its operand and its operators do. -/
theorem goes_operators (hfirst : P.first.Lax) (hsecond : P.second.Lax) (part₁ part₂ : Atom)
    (h : P.Goes Eq body₁ body₂) {ι : Type} (fixity : ι → Fixity) {items : List ι}
    {op₁ op₂ : ι → Matcher Raw} (hop : ∀ i ∈ items, P.Goes Eq (op₁ i) (op₂ i))
    (combine : Option (Tree → Tree → Tree → Tree)) :
    P.Goes Eq (operators part₁ body₁ (items.map fun i => (fixity i, op₁ i)) combine)
      (operators part₂ body₂ (items.map fun i => (fixity i, op₂ i)) combine) := by
  have hoperand := goes_operand part₁ part₂ h
  have hends₁ : ∀ op ∈ items.map fun i => (fixity i, op₁ i), P.first.Ends op.2 := by
    simpa using fun i hi => (hop i hi).first
  have hends₂ : ∀ op ∈ items.map fun i => (fixity i, op₂ i), P.second.Ends op.2 := by
    simpa using fun i hi => (hop i hi).second
  have hoperator : P.Goes Eq (operator (items.map fun i => (fixity i, op₁ i)))
      (operator (items.map fun i => (fixity i, op₂ i))) :=
    ⟨ends_operator hends₁, ends_operator hends₂, keeps_operator fixity hop⟩
  have hclimb (bound : Nat) : P.Keeps Eq
      (operand part₁ body₁ >>= fun first => climbFrom (operand part₁ body₁)
        (operator (items.map fun i => (fixity i, op₁ i))) (combine.getD Tree.operation) bound 0 first)
      (operand part₂ body₂ >>= fun first => climbFrom (operand part₂ body₂)
        (operator (items.map fun i => (fixity i, op₂ i))) (combine.getD Tree.operation) bound 0 first) := by
    refine hoperand.andThen fun first _ heq => ?_
    subst heq
    exact (goes_climbFrom hfirst hsecond hoperand hoperator _ bound 0 first).keeps
  refine ⟨ends_operators part₁ h.first 0 (fun op hmem => takes_zero_iff.2 (hends₁ op hmem))
      (.inl hfirst.spent) fun hst => absurd hst hfirst.slices,
    ends_operators part₂ h.second 0 (fun op hmem => takes_zero_iff.2 (hends₂ op hmem))
      (.inl hsecond.spent) fun hst => absurd hst hsecond.slices, fun s₁ s₂ hs => ?_⟩
  have hleft : s₂.source.remaining = s₁.source.remaining := by rw [hs.source]
  refine abreast_source.2 ?_
  rw [hleft]
  exact (hclimb _).map (fun _ _ heq => congrArg Raw.leaf heq) s₁ s₂ hs

end Operators

/-- The same expression with different references on the two sides keeps two matches together if the
references do. -/
theorem goes_mapRefs (hfirst : P.first.Lax) (hsecond : P.second.Lax)
    {apply₁ apply₂ : RuleRef → Matcher Raw} {f₁ f₂ : RuleRef → RuleRef} {atom : Atom}
    (h : atom.Every fun a => ∀ ref, a = .rule ref → P.Goes Eq (apply₁ (f₁ ref)) (apply₂ (f₂ ref))) :
    P.Goes Eq ((atom.mapRefs f₁).matcher apply₁) ((atom.mapRefs f₂).matcher apply₂) := by
  induction h with
  | @intro atom here _ ih =>
  cases atom with
  | literal word => exact goes_guarded (goes_literal word)
  | char test => exact goes_guarded (goes_character _ _ test.accepts)
  | sequence parts =>
    simp only [Atom.mapRefs, Atom.mapRefsAll_eq_map, Atom.matcher, Atom.matchers_eq_map, List.map_map]
    exact goes_guarded (goes_sequence _ _ fun part hp => ih part (.sequence hp))
  | choice branches =>
    simp only [Atom.mapRefs, Atom.mapRefsAll_eq_map, Atom.matcher, Atom.matchers_eq_map, List.map_map]
    exact goes_guarded (goes_choice _ _ fun branch hb => ih branch (.choice hb))
  | repetition body min max optional =>
    exact goes_guarded (goes_repetition _ _ (ih body (.repetition ..)) min max optional)
  | lookahead body positive => exact goes_guarded (goes_lookahead _ _ (ih body (.lookahead ..)) positive)
  | named body name => exact goes_guarded (goes_named (ih body (.named ..)) name)
  | rule ref => exact goes_guarded (here ref rfl)
  | ignore body => exact goes_guarded (goes_ignore (ih body (.ignore _)))
  | map body transform =>
    exact goes_guarded (goes_mapped hfirst hsecond (ih body (.map ..)) transform)
  | mark body => exact goes_guarded (goes_marked (ih body (.mark _)))
  | capture body name => exact goes_guarded (goes_captured (ih body (.capture ..)) name)
  | scope body => exact goes_guarded (goes_inScope (ih body (.scope _)))
  | dynamic pick =>
    exact goes_guarded (goes_dynamic fun source captures => ih _ (.dynamic pick source captures))
  | operators operand table combine =>
    simp only [Atom.mapRefs, Atom.mapRefsTable_eq_map, Atom.matcher, Atom.operatorMatchers_eq_map, List.map_map]
    exact goes_guarded (goes_operators hfirst hsecond _ _ (ih operand (.operand ..))
      (fun op : Fixity × Atom => op.1) (fun op hop => ih op.2 (.operator _ _ hop)) combine)
  | label body label =>
    exact goes_guarded (goes_labelled hfirst hsecond (ih body (.label ..)) label)
  | halt => exact goes_guarded goes_halt

/-- An expression keeps two matches together if references do. -/
theorem goes_matcher (hfirst : P.first.Lax) (hsecond : P.second.Lax)
    {apply₁ apply₂ : RuleRef → Matcher Raw} {atom : Atom}
    (h : atom.Every fun a => ∀ ref, a = .rule ref → P.Goes Eq (apply₁ ref) (apply₂ ref)) :
    P.Goes Eq (atom.matcher apply₁) (atom.matcher apply₂) := by
  have hsame : P.Goes Eq ((atom.mapRefs id).matcher apply₁) ((atom.mapRefs id).matcher apply₂) :=
    goes_mapRefs hfirst hsecond h
  rwa [Atom.mapRefs_id] at hsame

end Pair

end Packrat
