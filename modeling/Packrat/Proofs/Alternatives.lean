import Mathlib
import Packrat.Atom.Choice
import Packrat.Proofs.Settings

/-!
# What a failed alternative leaves behind

A failure puts the cursor back, and nothing else: what was captured on the way stays captured, and the keys
that were overwritten stay noted. So a choice whose first alternative has failed goes on with the second one
in a session that differs from the first one in the captures and the notes, and, without references, in
nothing else that a match reads.
-/

namespace Packrat

open Matcher

/-- An expression that is not a reference. -/
def Atom.isLocal : Atom → Bool
  | .rule _ => false
  | _ => true

/-- The second session differs from the first one in the place of the cursor, in what was captured, and in
what is told and noted, at most. -/
structure Session.Aside (s s' : Session) : Prop where
  text : s'.source.text = s.source.text
  lines : s'.source.lines = s.source.lines
  bodies : s'.bodies = s.bodies
  memo : s'.memo = s.memo
  labels : s'.labels = s.labels
  undefined : s'.undefined = s.undefined
  warn : s'.warn = s.warn

namespace Session

/-- A session differs from itself in nothing. -/
theorem Aside.refl (s : Session) : Aside s s := ⟨rfl, rfl, rfl, rfl, rfl, rfl, rfl⟩

/-- Sessions differ from the first one no further step by step. -/
theorem Aside.trans {s s' s'' : Session} (h : Aside s s') (h' : Aside s' s'') : Aside s s'' where
  text := h'.text.trans h.text
  lines := h'.lines.trans h.lines
  bodies := h'.bodies.trans h.bodies
  memo := h'.memo.trans h.memo
  labels := h'.labels.trans h.labels
  undefined := h'.undefined.trans h.undefined
  warn := h'.warn.trans h.warn

/-- To differ no further is a limit that all basic steps keep within. -/
theorem latitude_aside : Latitude Aside where
  refl := .refl
  trans := .trans
  moved _ _ _ := ⟨rfl, rfl, rfl, rfl, rfl, rfl, rfl⟩
  noted _ _ _ := ⟨rfl, rfl, rfl, rfl, rfl, rfl, rfl⟩
  recorded _ _ := ⟨rfl, rfl, rfl, rfl, rfl, rfl, rfl⟩
  announced _ _ := ⟨rfl, rfl, rfl, rfl, rfl, rfl, rfl⟩
  chosen _ h := ⟨h.text, h.lines, h.bodies, h.memo, h.labels, h.undefined, h.warn⟩
  inScope h := ⟨h.text, h.lines, h.bodies, h.memo, h.labels, h.undefined, h.warn⟩
  labelled _ h := ⟨h.text, h.lines, h.bodies, h.memo, congrArg List.tail h.labels, h.undefined, h.warn⟩

/-- The sources are the same if the cursors are in the same place. -/
theorem Aside.source {s s' : Session} (h : Aside s s') (hpos : s'.source.pos = s.source.pos) :
    s'.source = s.source := by
  have heta (source : Source) : source = ⟨source.text, source.pos, source.lines⟩ := rfl
  rw [heta s'.source, h.text, hpos, h.lines]

end Session

namespace Matcher

/-- Matching an expression without references leaves the session aside. -/
theorem within_aside (apply : RuleRef → Matcher Raw) {atom : Atom} (h : atom.Every (·.isLocal)) :
    Within Session.Aside (atom.matcher apply) := by
  let K := Habit.within Session.latitude_aside
  refine K.has_matcher (h.mono fun a ha => ⟨?_, ?_, fun _ _ _ hchosen s => hchosen s.source s.captures s⟩)
  · rintro ref rfl
    simp [Atom.isLocal] at ha
  · intro _ name _ step hstep
    exact K.bind hstep fun raw => K.bind (K.flatten false raw) fun value =>
      K.bind (fun _ => ⟨rfl, rfl, rfl, rfl, rfl, rfl, rfl⟩) fun _ => K.pure _

/-- From twins, an expression without references comes to the same, if the captures are the same or if it
never reads them. -/
theorem blind_local {L : Likeness} (apply : RuleRef → Matcher Raw) {atom : Atom}
    (h : atom.Every (·.isLocal)) (hreads : (∀ captures captures', L.Captures captures captures' →
      captures' = captures) ∨ atom.Every (·.isStatic)) : Blind L (atom.matcher apply) := by
  have hpasses : ∀ a : Atom, a.isLocal = true → ((∀ captures captures', L.Captures captures captures' →
      captures' = captures) ∨ a.isStatic = true) → (blind L).Passes apply a := by
    refine fun a ha hreads => ⟨?_, fun _ name _ _ hstep => blind_captured hstep name, ?_⟩
    · rintro ref rfl
      simp [Atom.isLocal] at ha
    · rintro pick rfl chosen hchosen
      exact blind_dynamic (hreads.resolve_right (by simp [Atom.isStatic])) hchosen
  rcases hreads with hsame | hstatic
  · exact (blind L).has_matcher (h.mono fun a ha => hpasses a ha (.inl hsame))
  · exact (blind L).has_matcher ((h.and hstatic).mono fun a ha => hpasses a ha.1 (.inr ha.2))

/-- What is done after a branch was tried. -/
theorem firstOf_cons (whole : Atom) (start : Nat) (branch : Matcher Raw) (rest : List (Matcher Raw))
    (causes : List Cause) (s : Session) : firstOf whole start (branch :: rest) causes s
      = match branch s with
        | .stopped reason => .stopped reason
        | .failed cause s' => firstOf whole start rest (cause :: causes) s'
        | .matched value s' =>
          .matched value { s' with reporter := s'.reporter.observe (.choiceFinished true) } := by
  change Matcher.bind (attempt branch) _ s = _
  unfold Matcher.bind attempt
  cases branch s <;> rfl

/-- Where no branch of a choice matches, all of them have been tried, and more branches would have been tried
after them. -/
theorem firstOf_append {whole : Atom} {start : Nat} {branches : List (Matcher Raw)} {causes : List Cause}
    {s s' : Session} {cause : Cause} (h : firstOf whole start branches causes s = .failed cause s') :
    ∃ causes' s₁ reporter, s' = { s₁ with reporter } ∧ ∀ whole' rest,
      firstOf whole' start (branches ++ rest) causes s = firstOf whole' start rest causes' s₁ := by
  induction branches generalizing causes s with
  | nil =>
    cases h
    exact ⟨causes, s, _, rfl, fun _ _ => rfl⟩
  | cons branch tail ih =>
    rw [firstOf_cons] at h
    cases hb : branch s with
    | stopped reason => simp [hb] at h
    | matched value s₂ => simp [hb] at h
    | failed cause₂ s₂ =>
      simp only [hb] at h
      obtain ⟨causes', s₁, reporter, hs', hrest⟩ := ih h
      refine ⟨causes', s₁, reporter, hs', fun whole' rest => ?_⟩
      rw [List.cons_append, firstOf_cons, hb]
      exact hrest whole' rest

section Abreast

variable {L : Likeness} {apply : RuleRef → Matcher Raw} {s s' : Session}

/-- Both ends are matches with the same value or both are failures, and the sessions are twins. -/
def Agreed {α : Type} (L : Likeness) (r : Except Cause α) (t : Session) (r' : Except Cause α) (t' : Session) :
    Prop := Agree Eq r r' ∧ Twins L t t'

/-- Twins with the same result agree. -/
theorem agreed_of_eq {α : Type} {r r' : Except Cause α} (h : r' = r) (hs : Twins L s s') :
    Agreed L r s r' s' := by
  refine ⟨?_, hs⟩
  rw [h]
  cases r <;> trivial

/-- Twins try the same branches to the same end, whatever the failures are said to be about. -/
theorem abreast_firstOf {branches : List (Matcher Raw)} (h : ∀ branch ∈ branches, Blind L branch)
    (whole whole' : Atom) (start start' : Nat) (causes causes' : List Cause) (hs : Twins L s s') :
    Abreast (firstOf whole start branches causes) (firstOf whole' start' branches causes') s s' (Agreed L) := by
  induction branches generalizing s s' causes causes' with
  | nil =>
    simp only [firstOf, abreast_tell, abreast_refuse]
    exact ⟨trivial, hs.told _ _ _ _⟩
  | cons branch rest ih =>
    refine (h branch (by simp) s s' hs).bind_attempt fun r t r' t' hends => ?_
    obtain ⟨rfl, ht⟩ := hends
    cases r' with
    | ok value =>
      simp only [abreast_tell, abreast_pure]
      exact ⟨rfl, ht.told _ _ _ _⟩
    | error cause => exact ih (fun branch hb => h branch (List.mem_cons_of_mem _ hb)) _ _ ht

/-- What is done around a step to keep the contract of expressions makes no difference, if it does not matter
what the reporter is told. -/
theorem abreast_guarded {α : Type} {R : Session → Session → Prop} {body : Matcher Raw} {step : Matcher α}
    {post : Except Cause Raw → Session → Except Cause α → Session → Prop} (hback : GivesBack body)
    (htext : ∀ {s t}, R s t → t.source.text = s.source.text) (hwithin : Within R body)
    (hpos : s.source.text.isBoundary s.source.pos = true)
    (htold : ∀ r t reporter r' t', post r t r' t' → post r { t with reporter } r' t')
    (h : Abreast body step s s' post) : Abreast (guarded body) step s s' post := by
  refine .guarded hpos ((hwithin s).mono fun _ _ => htext) ?_
  unfold Abreast at h ⊢
  refine (Ensures.and h (hback s)).mono fun r t hends => ?_
  obtain ⟨hpost, hgiven⟩ := hends
  cases r with
  | ok raw => exact hpost.mono fun r' t' hr' reporter => htold _ t reporter r' t' hr'
  | error cause =>
    have ht : { t with source.pos := s.source.pos } = t := by rw [← hgiven cause rfl]
    simp only [ht]
    exact hpost

/-- Ordered branches put the cursor back after a failure if each of them does. -/
theorem givesBack_firstOf (whole : Atom) (start : Nat) {branches : List (Matcher Raw)}
    (h : ∀ branch ∈ branches, GivesBack branch) (causes : List Cause) :
    GivesBack (firstOf whole start branches causes) := by
  induction branches generalizing causes with
  | nil => exact fun s cause _ => rfl
  | cons branch rest ih =>
    intro s
    simp only [firstOf, ensures_bind, ensures_attempt]
    refine (h branch (by simp) s).mono fun result t ht => ?_
    cases result with
    | ok value => exact fun _ heq => by cases heq
    | error cause =>
      refine (ih (fun branch hb => h branch (List.mem_cons_of_mem _ hb)) _ t).mono fun _ _ hrest cause' heq => ?_
      rw [hrest cause' heq, ht cause rfl]

/-- A choice puts the cursor back after a failure. -/
theorem givesBack_choice (apply : RuleRef → Matcher Raw) (whole : Atom) (branches : List Atom) :
    GivesBack (choice whole (branches.map (·.matcher apply))) := by
  refine fun s => givesBack_firstOf whole s.source.pos (fun branch hb => ?_) [] _
  obtain ⟨a, -, rfl⟩ := List.mem_map.1 hb
  exact givesBack_matcher apply a

/-- A choice keeps within the limits that its branches keep within. -/
theorem within_choice {R : Session → Session → Prop} (hR : Latitude R) (whole : Atom) {branches : List Atom}
    (h : ∀ a ∈ branches, Within R (a.matcher apply)) :
    Within R (choice whole (branches.map (·.matcher apply))) := by
  refine (Habit.within hR).choice fun branch hb => ?_
  obtain ⟨a, ha, rfl⟩ := List.mem_map.1 hb
  exact h a ha

/-- An expression comes to the same as its branches do when they are tried as part of a larger choice, if these
keep to the text. -/
theorem abreast_branches {R : Session → Session → Prop} (hR : Latitude R)
    (htext : ∀ {s t}, R s t → t.source.text = s.source.text) {atom : Atom}
    (hblind : ∀ branch ∈ atom.choiceBranches, Blind L (branch.matcher apply))
    (hwithin : ∀ branch ∈ atom.choiceBranches, Within R (branch.matcher apply)) (whole : Atom) (start : Nat)
    (causes : List Cause) (hs : Twins L s s') (hpos : s.source.text.isBoundary s.source.pos = true) :
    Abreast (atom.matcher apply)
      (firstOf whole start (atom.choiceBranches.map (·.matcher apply)) causes) s s' (Agreed L) := by
  by_cases hchoice : ∃ branches, atom = .choice branches
  · obtain ⟨branches, rfl⟩ := hchoice
    simp only [Atom.matcher, Atom.matchers_eq_map]
    refine abreast_guarded (givesBack_choice apply _ _) htext (within_choice hR _ hwithin) hpos
      (fun _ _ _ _ _ h => ⟨h.1, h.2.told _ _ _ _⟩) ?_
    refine abreast_firstOf (fun branch hb => ?_) _ _ _ _ _ _ (hs.told _ _ _ _)
    obtain ⟨a, ha, rfl⟩ := List.mem_map.1 hb
    exact hblind a ha
  · have hbranch := Atom.choiceBranches_eq_self hchoice
    rw [hbranch]
    refine (hblind atom (by simp [hbranch]) s s' hs).bind_attempt_second fun r t r' t' hends => ?_
    obtain ⟨rfl, ht⟩ := hends
    cases r' with
    | ok value => exact agreed_of_eq rfl (ht.told _ _ _ _)
    | error cause => exact ⟨trivial, ht.told _ _ _ _⟩

/-- A local expression comes to the same as its branches do when they are tried as part of a
larger choice, given twins with the same captures. -/
theorem abreast_branches_local (apply : RuleRef → Matcher Raw) {atom : Atom} (hlocal : atom.Every (·.isLocal))
    (hL : ∀ captures captures', L.Captures captures captures' → captures' = captures) (whole : Atom)
    (causes : List Cause) (hs : Twins L s s') (hpos : s.source.text.isBoundary s.source.pos = true) :
    Abreast (atom.matcher apply)
      (firstOf whole s.source.pos (atom.choiceBranches.map (·.matcher apply)) causes) s s' (Agreed L) :=
  abreast_branches Session.latitude_aside Session.Aside.text
    (fun branch hb => blind_local apply (hlocal.choiceBranches branch hb) (.inl hL))
    (fun branch hb => within_aside apply (hlocal.choiceBranches branch hb)) whole _ causes hs hpos

/-- Where the first alternative fails, the choice comes to the same as the second alternative does with the
captures that the failure has left behind, and has noted the keys that were overwritten before. -/
theorem abreast_orElse {a b : Atom} (ha : a.Every (·.isLocal)) (hb : b.Every (·.isLocal)) {cause : Cause}
    {s₁ : Session} (hpos : s.source.text.isBoundary s.source.pos = true) (hnone : s.overwritten = [])
    (hfail : a.matcher apply s = .failed cause s₁) :
    Abreast (b.matcher apply) ((a.orElse b).matcher apply) { s with captures := s₁.captures } s
      (Agreed (.notesAfter s₁.overwritten)) := by
  have htwins : Twins (.notesAfter []) s { s with reporter := s.reporter.observe .choiceStarted } :=
    ⟨rfl, rfl, rfl, rfl, rfl, rfl, rfl, (List.append_nil _).symm⟩
  have htried := abreast_branches_local apply ha (fun _ _ h => h) (a.orElse b) [] htwins hpos
  have haside := (within_aside apply ha s).of_failed hfail
  have hgiven := (givesBack_matcher apply a s).of_failed hfail cause rfl
  obtain ⟨cause', s', hfirst, -, hs'⟩ | ⟨value, s', -, hagree, -⟩ := (htried.of_failed hfail).exists_reply
  · obtain ⟨causes, s₂, reporter, rfl, hrest⟩ := firstOf_append hfirst
    have hb₂ : Twins (.notesAfter s₁.overwritten) { s with captures := s₁.captures } s₂ := by
      refine ⟨hs'.source.trans (haside.source hgiven), hs'.bodies.trans haside.bodies,
        hs'.memo.trans haside.memo, hs'.captures, hs'.labels.trans haside.labels,
        hs'.undefined.trans haside.undefined, hs'.notes.1.trans haside.warn, ?_⟩
      have hnoted : s₂.overwritten = s₁.overwritten := hs'.notes.2.trans (List.append_nil _)
      simp [hnoted, hnone]
    have hsecond := abreast_branches_local apply hb (fun _ _ h => h) (a.orElse b) causes hb₂ hpos
    simp only [Atom.orElse, Atom.matcher, Atom.matchers_eq_map]
    have hparts : ∀ branch ∈ a.choiceBranches ++ b.choiceBranches, branch.Every (·.isLocal) := by
      intro branch hbranch
      rcases List.mem_append.1 hbranch with hmem | hmem
      · exact ha.choiceBranches branch hmem
      · exact hb.choiceBranches branch hmem
    have hwithin := within_choice Session.latitude_aside (.choice (a.choiceBranches ++ b.choiceBranches))
      fun branch hbranch => within_aside apply (hparts branch hbranch)
    refine (abreast_guarded (givesBack_choice apply _ _) Session.Aside.text hwithin hpos
      (fun _ _ _ _ _ h => ⟨h.1, h.2.told _ _ _ _⟩) ?_).symm
    refine (hsecond.congr rfl ?_).symm
    rw [List.map_append, ← hrest]
    rfl
  · exact hagree.elim

end Abreast

end Matcher

/-- What a parse of an expression outside of any grammar comes to, if values were captured before. -/
def Atom.parseWith (atom : Atom) (captures : Captures) (text : String) (options : Options) : Outcome :=
  (RuleTable.empty.parseStep text.utf8ByteSize atom options.allowRest
    { Session.start text options [] with captures }).outcome

/-- Where nothing was captured before, a parse is the usual one. -/
theorem Atom.parseWith_nothing (atom : Atom) (text : String) (options : Options) :
    atom.parseWith {} text options = (atom.parse text options).outcome :=
  (run_outcome options).symm

section Parsing

variable {L : Likeness} {table : RuleTable} {bytes : Nat} {entry entry' : Atom} {s s' : Session}

/-- Matches that have agreed lead to parses that agree. -/
theorem abreast_parseStep (allowRest : Bool)
    (h : Abreast (table.matcher bytes entry) (table.matcher bytes entry') s s' (Agreed L)) :
    Abreast (table.parseStep bytes entry allowRest) (table.parseStep bytes entry' allowRest) s s'
      (Agreed L) := by
  refine h.bind_attempt fun r t r' t' hends => ?_
  obtain ⟨hagree, ht⟩ := hends
  have hcounted : Twins L t.withStatistics t'.withStatistics :=
    ⟨ht.source, ht.bodies, ht.memo, ht.captures, ht.labels, ht.undefined, ht.notes⟩
  simp only [abreast_modify]
  obtain ⟨raw, _, rfl, rfl, rfl⟩ | ⟨cause, cause', rfl, rfl⟩ := hagree.cases
  · refine ((blind _).conclude allowRest (.ok raw) _ _ hcounted).mono fun r t r' t' hends => ?_
    obtain ⟨rfl, ht⟩ := hends
    exact agreed_of_eq rfl ht
  · exact ⟨trivial, hcounted⟩

/-- Parses that agree accept the same tree; the second one has noted some keys before. -/
theorem accepted_iff_of_agreed {step step' : Matcher Tree} (before : List String)
    (hL : ∀ warn noted warn' noted', L.Notes warn noted warn' noted' → noted' = noted ++ before)
    (h : Abreast step step' s s' (Agreed L)) (tree : Tree) (keys : List String) :
    (step' s').outcome = .accepted tree keys ↔
      ∃ keys', (step s).outcome = .accepted tree keys' ∧ keys = before.reverse ++ keys' := by
  simp only [Reply.outcome_eq_accepted]
  constructor
  · rintro ⟨t', ht', hnone, rfl⟩
    obtain ⟨cause, t, -, hagree, -⟩ | ⟨value, t, ht, hagree, htwins⟩ := (h.symm.of_matched ht').exists_reply
    · exact hagree.elim
    · cases hagree
      refine ⟨_, ⟨t, ht, htwins.undefined.symm.trans hnone, rfl⟩, ?_⟩
      rw [hL _ _ _ _ htwins.notes, List.reverse_append]
  · rintro ⟨_, ⟨t, ht, hnone, rfl⟩, rfl⟩
    obtain ⟨cause, t', -, hagree, -⟩ | ⟨value, t', ht', hagree, htwins⟩ := (h.of_matched ht).exists_reply
    · exact hagree.elim
    · cases hagree
      refine ⟨t', ht', htwins.undefined.trans hnone, ?_⟩
      rw [hL _ _ _ _ htwins.notes, List.reverse_append]

end Parsing

/-- Where the first alternative fails at the start of a text, the choice is accepted just when the second one
is with the captures that the failed attempt has left behind. It has the same tree, and the keys noted are
those of the failed attempt and then those of the second alternative. The captures make no difference if
there are none, or if the second alternative never reads any. -/
theorem orElse_after_failure (a b : Atom) (ha : a.Every (·.isLocal)) (hb : b.Every (·.isLocal))
    (text : String) (options : Options) (cause : Cause) (s : Session)
    (hfail : matchEntry .empty [] a text options = .failed cause s) :
    (∀ tree keys, ((a.orElse b).parse text options).outcome = .accepted tree keys ↔
      ∃ keys', b.parseWith s.captures text options = .accepted tree keys' ∧
        keys = s.overwritten.reverse ++ keys') ∧
    (s.captures = {} ∨ b.Every (·.isStatic) → ∀ tree keys,
      b.parseWith s.captures text options = .accepted tree keys ↔
        (b.parse text options).outcome = .accepted tree keys) := by
  constructor
  · intro tree keys
    have hpos : (Session.start text options []).source.text.isBoundary 0 = true := Text.isBoundary_zero _
    have horElse := abreast_parseStep options.allowRest (abreast_orElse ha hb hpos rfl hfail)
    unfold Atom.parse
    rw [run_outcome]
    exact accepted_iff_of_agreed (L := .notesAfter s.overwritten) _ (fun _ _ _ _ h => h.2) horElse tree keys
  · intro hcaptures tree keys
    rcases hcaptures with hnone | hstatic
    · rw [hnone, b.parseWith_nothing]
    · have htwins : Twins .notes (Session.start text options [])
          { Session.start text options [] with captures := s.captures } :=
        ⟨rfl, rfl, rfl, trivial, rfl, rfl, rfl, rfl⟩
      have hmatch := blind_local (L := .notes) (RuleTable.empty.applyRule
        (RuleTable.empty.depthBound text.utf8ByteSize)) hb (.inr hstatic) _ _ htwins
      have hagreed := hmatch.mono fun r t r' t' hends => agreed_of_eq hends.1 hends.2
      have hparse := accepted_iff_of_agreed (L := .notes) [] (fun _ _ _ _ h => by rw [h.2, List.append_nil])
        (abreast_parseStep options.allowRest hagreed) tree keys
      refine hparse.trans ?_
      rw [← b.parseWith_nothing]
      simp only [List.reverse_nil, List.nil_append, exists_eq_right']
      rfl

/-- Captures an `a` before it asks for a `b`. -/
def captureAThenB : Atom := .sequence [.capture (.literal "a") "q", .literal "b"]

/-- An `a`, and behind it the text that was captured, or a question mark if none was. -/
def aThenCaptured : Atom := .sequence [.literal "a", .captured "q" (.literal "?")]

/-- There is no reference in it. -/
theorem captureAThenB_isLocal : captureAThenB.Every (·.isLocal) := by
  refine (Atom.Every.sequence_iff _ _).2 ⟨rfl, List.forall_mem_cons.2 ⟨.intro rfl fun _ hp => ?_, ?_⟩⟩
  · cases hp
    exact (Atom.Every.literal_iff _ _).2 rfl
  · simpa using (Atom.Every.literal_iff (·.isLocal) "b").2 rfl

/-- There is no reference in it, whatever was captured. -/
theorem aThenCaptured_isLocal : aThenCaptured.Every (·.isLocal) := by
  refine (Atom.Every.sequence_iff _ _).2 ⟨rfl, List.forall_mem_cons.2
    ⟨(Atom.Every.literal_iff _ _).2 rfl, List.forall_mem_cons.2 ⟨.intro rfl fun _ hp => ?_, by simp⟩⟩⟩
  cases hp
  dsimp only
  split <;> exact (Atom.Every.literal_iff _ _).2 rfl

/-- A failed alternative can decide what the next one comes to: `a?` is read by the second expression, but not
by the choice between the two. -/
theorem failed_alternative_leaves_captures :
    captureAThenB.Every (·.isLocal) ∧ aThenCaptured.Every (·.isLocal) ∧
      (∃ cause s, matchEntry .empty [] captureAThenB "a?" {} = .failed cause s) ∧
      (∃ tree, (aThenCaptured.parse "a?" {}).outcome = .accepted tree []) ∧
      ∃ failure, ((captureAThenB.orElse aThenCaptured).parse "a?" {}).outcome = .rejected failure :=
  ⟨captureAThenB_isLocal, aThenCaptured_isLocal, ⟨_, _, by cbv⟩, ⟨_, by cbv⟩, ⟨_, by cbv⟩⟩

/-- The first expression fails at the start of `aa`, so that the choice comes to what is said above. -/
theorem captureAThenB_orElse_aThenCaptured : ∃ cause s,
    matchEntry .empty [] captureAThenB "aa" {} = .failed cause s ∧
    captureAThenB.Every (·.isLocal) ∧ aThenCaptured.Every (·.isLocal) ∧
    ∀ tree keys, ((captureAThenB.orElse aThenCaptured).parse "aa" {}).outcome = .accepted tree keys ↔
      ∃ keys', aThenCaptured.parseWith s.captures "aa" {} = .accepted tree keys' ∧
        keys = s.overwritten.reverse ++ keys' := by
  obtain ⟨cause, s, hfail⟩ : ∃ cause s, matchEntry .empty [] captureAThenB "aa" {} = .failed cause s :=
    ⟨_, _, by cbv⟩
  exact ⟨cause, s, hfail, captureAThenB_isLocal, aThenCaptured_isLocal,
    (orElse_after_failure captureAThenB aThenCaptured captureAThenB_isLocal aThenCaptured_isLocal "aa" {}
      cause s hfail).1⟩

end Packrat
