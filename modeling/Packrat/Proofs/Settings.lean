import Packrat.Parse
import Packrat.Proofs.Indifference

/-!
# What the settings of a parse decide

A parse is one step, the match with what is concluded from it, and then a look at the session it ends in.
Which cause is reported and which keys are noted is a matter of that look; the step itself comes to the
same under all settings, but for whether input may be left behind.
-/

namespace Packrat

open Matcher

/-- What a parse comes to, whatever its reporter picks and whatever keys it notes. -/
inductive Upshot where
  /-- The parse was broken off. -/
  | stopped (reason : Stop)
  /-- The parse failed, because the grammar cannot be used if there is an error. -/
  | rejected (error : Option GrammarError)
  /-- The parse succeeded. -/
  | accepted (tree : Tree)

/-- The error, if the grammar cannot be used. -/
def Failure.grammar? : Failure → Option GrammarError
  | .grammar error => some error
  | _ => none

/-- What a parse comes to, without what its settings decide. -/
def Outcome.upshot : Outcome → Upshot
  | .stopped reason => .stopped reason
  | .rejected failure => .rejected failure.grammar?
  | .accepted tree _ => .accepted tree

/-- The step that a parse takes: the match, and what is concluded from it. -/
def RuleTable.parseStep (table : RuleTable) (bytes : Nat) (entry : Atom) (allowRest : Bool) :
    Matcher Tree := do
  let outcome ← attempt (table.matcher bytes entry)
  modify Session.withStatistics
  conclude allowRest outcome

/-- What a parse comes to that ends in the session, unless a reference that leads nowhere was reached. -/
def Session.judge (s : Session) (outcome : Outcome) : Outcome :=
  match s.undefined with
  | some name => .rejected (.grammar (.undefinedRule name))
  | none => outcome

/-- What is made of the end of a parse. A failure is reported with the cause that the reporter picks in view
of the root cause. -/
def Reply.outcome : Reply Tree → Outcome
  | .stopped reason => .stopped reason
  | .failed root s => s.judge (.rejected (.parse ((s.reporter.pick root).locate s.source).1))
  | .matched tree s => s.judge (.accepted tree s.overwritten.reverse)

variable {table : RuleTable} {bodies : List (Nat × Atom)} {entry : Atom} {text : String}

/-- Concluding a parse reaches no reference. -/
theorem ensures_conclude_undefined (allowRest : Bool) (outcome : Except Cause Raw) (s : Session) :
    Ensures unbroken (conclude allowRest outcome) s fun _ s' => s'.undefined = s.undefined := by
  cases outcome with
  | error cause => exact rfl
  | ok raw =>
    simp only [conclude, ensures_bind, ensures_ofResult, ensures_source]
    split
    · simp only [ensures_bind]
      exact ensures_flatten _ _ _ fun _ _ => rfl
    · exact rfl

/-- What a match is settled as is made of what is concluded from it. -/
theorem settle_outcome_eq (options : Options) (outcome : Except Cause Raw) (s : Session) :
    (settle options outcome s).outcome
      = (conclude options.allowRest outcome s.withStatistics).outcome := by
  have hend := (ensures_conclude_undefined options.allowRest outcome s.withStatistics).exists_reply
  unfold settle
  dsimp only
  obtain ⟨root, s', hc, hs'⟩ | ⟨tree, s', hc, hs'⟩ := hend
  · rw [hc, Reply.outcome, Session.judge, hs']
    cases s.withStatistics.undefined <;> rfl
  · rw [hc, Reply.outcome, Session.judge, hs']
    cases s.withStatistics.undefined <;> rfl

/-- A parse comes to what is made of the end of its step. -/
theorem run_outcome (options : Options) : (run table bodies entry text options).outcome
    = (table.parseStep text.utf8ByteSize entry options.allowRest
        (Session.start text options bodies)).outcome := by
  have hstep (reply : Reply Raw) (hreply : matchEntry table bodies entry text options = reply) :
      table.parseStep text.utf8ByteSize entry options.allowRest (Session.start text options bodies)
        = Matcher.bind (attempt fun _ => reply)
          (fun outcome s => conclude options.allowRest outcome s.withStatistics)
          (Session.start text options bodies) := by
    rw [← hreply]
    rfl
  rw [hstep _ rfl]
  unfold run
  cases matchEntry table bodies entry text options with
  | stopped reason => rfl
  | failed cause s => exact settle_outcome_eq options _ s
  | matched raw s => exact settle_outcome_eq options _ s

/-- What is concluded from a match: its flat value, unless input is left behind that may not be. -/
theorem ensures_conclude_ok (allowRest : Bool) (raw : Raw) (s : Session) :
    Ensures unbroken (conclude allowRest (.ok raw)) s fun result _ =>
      if allowRest = true ∨ s.source.atEnd = true then result = .ok (raw.flatten false).tree
      else ∃ cause, result = .error cause := by
  simp only [conclude, ensures_bind, ensures_ofResult, ensures_source, Bool.or_eq_true]
  split
  · simp only [ensures_bind]
    exact ensures_flatten _ _ _ fun _ _ => rfl
  · exact ⟨_, rfl⟩

/-- A match is accepted if it has come to the tree, reached no reference that leads nowhere, and left behind
only what it may. -/
theorem conclude_matches_iff (allowRest : Bool) (raw : Raw) (s : Session) (tree : Tree) :
    (∃ s', conclude allowRest (.ok raw) s = .matched tree s' ∧ s'.undefined = none) ↔
      s.undefined = none ∧ (allowRest = true ∨ s.source.atEnd = true) ∧ (raw.flatten false).tree = tree := by
  have hend := ((ensures_conclude_ok allowRest raw s).and
    (ensures_conclude_undefined allowRest (.ok raw) s)).exists_reply
  by_cases hrest : allowRest = true ∨ s.source.atEnd = true
  · simp only [if_pos hrest] at hend
    obtain ⟨cause, s', -, hresult, -⟩ | ⟨value, s', hc, hresult, hu⟩ := hend
    · cases hresult
    · cases hresult
      simp only [hc, Reply.matched.injEq, hrest, true_and]
      constructor
      · rintro ⟨_, ⟨htree, rfl⟩, hnone⟩
        exact ⟨hu ▸ hnone, htree⟩
      · rintro ⟨hnone, htree⟩
        exact ⟨s', ⟨htree, rfl⟩, hu.trans hnone⟩
  · simp only [if_neg hrest] at hend
    obtain ⟨cause, s', hc, -, -⟩ | ⟨value, s', -, hresult, -⟩ := hend
    · simp [hc, hrest]
    · obtain ⟨cause, hcause⟩ := hresult
      cases hcause

/-- A reply is accepted if it is a match that has reached no undefined name, with the keys it
has noted as warnings. -/
theorem Reply.outcome_eq_accepted {reply : Reply Tree} {tree : Tree} {keys : List String} :
    reply.outcome = .accepted tree keys ↔
      ∃ s, reply = .matched tree s ∧ s.undefined = none ∧ s.overwritten.reverse = keys := by
  cases reply with
  | stopped reason => simp [Reply.outcome]
  | failed root s => cases hu : s.undefined <;> simp [Reply.outcome, Session.judge, hu]
  | matched value s =>
    cases hu : s.undefined with
    | some name =>
      simp only [Reply.outcome, Session.judge, hu, reduceCtorEq, Reply.matched.injEq, false_iff]
      rintro ⟨_, ⟨-, rfl⟩, hnone, -⟩
      simp [hu] at hnone
    | none =>
      simp only [Reply.outcome, Session.judge, hu, Outcome.accepted.injEq, Reply.matched.injEq]
      constructor
      · rintro ⟨htree, hkeys⟩
        exact ⟨s, ⟨htree, rfl⟩, hu, hkeys⟩
      · rintro ⟨_, ⟨htree, rfl⟩, -, hkeys⟩
        exact ⟨htree, hkeys⟩

/-- A parse is rejected with the cause that the reporter picks in view of the root cause. -/
theorem Reply.outcome_eq_parse {reply : Reply Tree} {cause : Cause}
    (h : reply.outcome = .rejected (.parse cause)) :
    ∃ root s, reply = .failed root s ∧ ((s.reporter.pick root).locate s.source).1 = cause := by
  cases reply with
  | stopped reason => cases h
  | failed root s =>
    refine ⟨root, s, rfl, ?_⟩
    rw [outcome, Session.judge] at h
    cases hu : s.undefined with
    | some name => simp [hu] at h
    | none => simpa [hu] using h
  | matched tree s =>
    rw [outcome, Session.judge] at h
    cases hu : s.undefined <;> simp [hu] at h

/-- A reply is accepted with some warnings if it is a match that has reached no undefined name.
-/
theorem Reply.outcome_accepted_iff {reply : Reply Tree} {tree : Tree} :
    (∃ keys, reply.outcome = .accepted tree keys) ↔ ∃ s, reply = .matched tree s ∧ s.undefined = none := by
  simp only [outcome_eq_accepted]
  constructor
  · rintro ⟨keys, s, hreply, hnone, -⟩
    exact ⟨s, hreply, hnone⟩
  · rintro ⟨s, hreply, hnone⟩
    exact ⟨_, s, hreply, hnone, rfl⟩

/-- A parse is accepted if the match comes to its tree, reaches no reference that leads nowhere, and leaves
behind only what it may. -/
theorem run_accepted_iff (options : Options) (tree : Tree) :
    (∃ keys, (run table bodies entry text options).outcome = .accepted tree keys) ↔
      ∃ raw s, matchEntry table bodies entry text options = .matched raw s ∧ s.undefined = none ∧
        (options.allowRest = true ∨ s.source.atEnd = true) ∧ (raw.flatten false).tree = tree := by
  unfold run
  cases matchEntry table bodies entry text options with
  | stopped reason => simp
  | failed cause s =>
    rw [settle_outcome_eq, Reply.outcome_accepted_iff]
    simp [conclude, Matcher.ofResult, Matcher.fail, Bind.bind, Matcher.bind]
  | matched raw s =>
    rw [settle_outcome_eq, Reply.outcome_accepted_iff, conclude_matches_iff]
    simp [Session.withStatistics, and_assoc]

/-- Sessions that start a parse of one text under two settings are twins. -/
theorem Session.twins_start (text : String) (bodies : List (Nat × Atom)) (options options' : Options) :
    Twins .captures (Session.start text options bodies) (Session.start text options' bodies) :=
  ⟨rfl, rfl, rfl, rfl, rfl, rfl, trivial⟩

/-- Concluding a parse has every habit. -/
theorem Habit.conclude (K : Habit) (allowRest : Bool) (outcome : Except Cause Raw) :
    K.Has (conclude allowRest outcome) := by
  refine K.bind (K.ofResult outcome) fun raw => K.bind K.source fun source => ?_
  split
  · exact K.bind (K.flatten false raw) fun tree => K.bind (K.emit _) fun _ => K.pure tree
  · exact K.refuse _ _ _

/-- A parse is blind to whatever its match is blind to, and no more is noted in concluding it.
-/
theorem blind_parseStep {L : Likeness}
    (hL : ∀ captures captures', L.Captures captures captures' → captures' = captures)
    (table : RuleTable) (bytes : Nat) (entry : Atom) (allowRest : Bool) :
    Blind L (table.parseStep bytes entry allowRest) := by
  refine (blind L).bind ((blind L).attempt (table.blind_matcher hL _ entry)) fun outcome =>
    (blind L).bind (fun s s' h => ⟨rfl, ?_⟩) fun _ => (blind L).conclude allowRest outcome
  exact ⟨h.source, h.bodies, h.memo, h.captures, h.labels, h.undefined, h.notes⟩

/-- A step that comes to the same from twins leads to the same upshot. -/
theorem upshot_outcome {step : Matcher Tree} {s s' : Session} (hstep : Blind .captures step)
    (h : Twins .captures s s') : (step s').outcome.upshot = (step s).outcome.upshot := by
  have hends := hstep s s' h
  unfold Abreast Ensures at hends
  cases hs : step s with
  | stopped reason =>
    rw [hs] at hends
    rw [hends]
  | failed root t =>
    rw [hs] at hends
    cases hs' : step s' with
    | stopped reason => simp [hs', unbroken] at hends
    | failed root' t' =>
      rw [hs'] at hends
      rw [Reply.outcome, Reply.outcome, Session.judge, Session.judge, hends.2.undefined]
      cases t.undefined <;> rfl
    | matched tree' t' => simp [hs'] at hends
  | matched tree t =>
    rw [hs] at hends
    cases hs' : step s' with
    | stopped reason => simp [hs', unbroken] at hends
    | failed root' t' => simp [hs'] at hends
    | matched tree' t' =>
      rw [hs'] at hends
      obtain ⟨heq, ht⟩ := hends
      cases heq
      rw [Reply.outcome, Reply.outcome, Session.judge, Session.judge, ht.undefined]
      cases t.undefined <;> rfl

/-- A match of a text comes to the same under all settings. -/
theorem matchEntry_matched {options : Options} (options' : Options) {raw : Raw} {s : Session}
    (h : matchEntry table bodies entry text options = .matched raw s) :
    ∃ s', matchEntry table bodies entry text options' = .matched raw s' ∧ Twins .captures s s' := by
  have hends := table.blind_matcher (fun _ _ h => h) (table.depthBound text.utf8ByteSize) entry _ _
    (Session.twins_start text bodies options options')
  obtain ⟨cause, s', -, heq, -⟩ | ⟨value, s', hs', heq, ht⟩ := (hends.of_matched h).exists_reply
  · cases heq
  · cases heq
    exact ⟨s', hs', ht⟩

/-- The settings of a parse decide nothing but what is made of the end of its step. Whichever cause is to be
reported and whether keys are noted or not, the step is broken off for the same reason, or it comes to the
same tree or the same root cause, at the same offset and with the same memo; the upshot is the same. And a
parse of all of a text is a parse of its start that happens to end where the text does. -/
theorem settings_never_influence_match (table : RuleTable) (bodies : List (Nat × Atom)) (entry : Atom)
    (text : String) (allowRest : Bool) (kind kind' : ReporterKind) (warn warn' : Bool) :
    (∀ options : Options, (run table bodies entry text options).outcome
      = (table.parseStep text.utf8ByteSize entry options.allowRest
          (Session.start text options bodies)).outcome) ∧
    (Abreast (table.parseStep text.utf8ByteSize entry allowRest)
      (table.parseStep text.utf8ByteSize entry allowRest)
      (Session.start text ⟨allowRest, kind, warn⟩ bodies) (Session.start text ⟨allowRest, kind', warn'⟩ bodies)
      fun result s result' s' => result' = result ∧ s'.source = s.source ∧ s'.memo = s.memo ∧
        s'.undefined = s.undefined) ∧
    (run table bodies entry text ⟨allowRest, kind', warn'⟩).outcome.upshot
      = (run table bodies entry text ⟨allowRest, kind, warn⟩).outcome.upshot ∧
    ∀ tree, (∃ keys, (run table bodies entry text ⟨false, kind, warn⟩).outcome = .accepted tree keys) ↔
      (∃ keys, (run table bodies entry text ⟨true, kind', warn'⟩).outcome = .accepted tree keys) ∧
        ∃ raw s, matchEntry table bodies entry text ⟨true, kind', warn'⟩ = .matched raw s ∧
          s.source.atEnd = true := by
  have hstep := blind_parseStep (L := .captures) (fun _ _ h => h) table text.utf8ByteSize entry allowRest
  have hstart := Session.twins_start text bodies ⟨allowRest, kind, warn⟩ ⟨allowRest, kind', warn'⟩
  refine ⟨run_outcome, ?_, ?_, fun tree => ?_⟩
  · refine (hstep _ _ hstart).mono fun result s result' s' h => ?_
    obtain ⟨hresult, ht⟩ := h
    exact ⟨hresult, ht.source, ht.memo, ht.undefined⟩
  · rw [run_outcome, run_outcome]
    exact upshot_outcome hstep hstart
  · simp only [run_accepted_iff, Bool.false_eq_true, false_or, true_or, true_and]
    constructor
    · rintro ⟨raw, s, hmatch, hnone, hend, htree⟩
      obtain ⟨s', hmatch', ht⟩ := matchEntry_matched ⟨true, kind', warn'⟩ hmatch
      have hend' : s'.source.atEnd = true := by rw [ht.source, hend]
      exact ⟨⟨raw, s', hmatch', ht.undefined.trans hnone, htree⟩, raw, s', hmatch', hend'⟩
    · rintro ⟨⟨raw, s, hmatch, hnone, htree⟩, _, _, hmatch₁, hend⟩
      rw [hmatch] at hmatch₁
      cases hmatch₁
      obtain ⟨s', hmatch', ht⟩ := matchEntry_matched ⟨false, kind, warn⟩ hmatch
      exact ⟨raw, s', hmatch', ht.undefined.trans hnone, by rw [ht.source, hend], htree⟩

end Packrat
