import Mathlib.Data.List.Induction
import Packrat.Reporter

/-!
# Which cause a reporter picks

Two reporters look for a deep cause. Both track the first of the deepest causes that count, and in the end
weigh it against the cause of the whole match. They differ in which causes count, and in what comes of a tie.

For the deepest reporter, a cause counts unless a choice that was open when it was recorded is decided by a
match later on. What the reporter then goes back to is what it tracked when that choice started, however much
was recorded and however many choices were decided in between.

For the contextual reporter, a cause counts unless there was a reset since: a success that got at least as
far as all the successes before it. Choices make no difference.
-/

namespace Packrat

section Picking

/-- The cause is one of the deepest, and the first of them. -/
def FirstDeepest (cause : Cause) (causes : List Cause) : Prop :=
  ∃ earlier later, causes = earlier ++ cause :: later ∧
    (∀ other ∈ earlier, other.offset < cause.offset) ∧ ∀ other ∈ later, other.offset ≤ cause.offset

/-- What is picked is the first of the deepest causes if it prevails over the root, and else the root. -/
def Picks (prevails : Cause → Prop) (root : Cause) (causes : List Cause) (picked : Cause) : Prop :=
  (FirstDeepest picked causes ∧ prevails picked) ∨ ((∀ cause ∈ causes, ¬ prevails cause) ∧ picked = root)

/-- What is tracked once a cause was recorded. -/
def deeper (tracked : Option Cause) (cause : Cause) : Option Cause :=
  if tracked.all (·.offset < cause.offset) then some cause else tracked

variable {cause next : Cause} {causes : List Cause}

/-- No cause lies deeper than the deepest. -/
theorem FirstDeepest.le (h : FirstDeepest cause causes) : ∀ other ∈ causes, other.offset ≤ cause.offset := by
  obtain ⟨earlier, later, rfl, hearlier, hlater⟩ := h
  intro other hother
  rcases List.mem_append.1 hother with hmem | hmem
  · exact Nat.le_of_lt (hearlier other hmem)
  · rcases List.mem_cons.1 hmem with rfl | hmem
    · exact Nat.le_refl _
    · exact hlater other hmem

/-- A cause that lies deeper than all before it is the first of the deepest. -/
theorem firstDeepest_concat (h : ∀ other ∈ causes, other.offset < cause.offset) :
    FirstDeepest cause (causes ++ [cause]) := ⟨causes, [], rfl, h, by simp⟩

/-- A cause behind it that lies no deeper changes nothing. -/
theorem FirstDeepest.concat (h : FirstDeepest cause causes) (hnext : next.offset ≤ cause.offset) :
    FirstDeepest cause (causes ++ [next]) := by
  obtain ⟨earlier, later, rfl, hearlier, hlater⟩ := h
  refine ⟨earlier, later ++ [next], by simp, hearlier, ?_⟩
  exact List.forall_mem_append.2 ⟨hlater, List.forall_mem_singleton.2 hnext⟩

/-- If nothing was tracked before, the first of the deepest causes is tracked after all of them. -/
theorem foldl_deeper (causes : List Cause) : (causes = [] ∧ causes.foldl deeper none = none) ∨
    ∃ cause, causes.foldl deeper none = some cause ∧ FirstDeepest cause causes := by
  induction causes using List.reverseRecOn with
  | nil => exact .inl ⟨rfl, rfl⟩
  | append_singleton causes next ih =>
    rw [List.foldl_append, List.foldl_cons, List.foldl_nil]
    obtain ⟨rfl, hnone⟩ | ⟨cause, hsome, hfirst⟩ := ih
    · exact .inr ⟨next, rfl, firstDeepest_concat (by simp)⟩
    · rw [hsome, deeper]
      by_cases hlt : cause.offset < next.offset
      · refine .inr ⟨next, by simp [hlt], firstDeepest_concat fun other hother => ?_⟩
        exact Nat.lt_of_le_of_lt (hfirst.le other hother) hlt
      · exact .inr ⟨cause, by simp [hlt], hfirst.concat (Nat.le_of_not_lt hlt)⟩

/-- A look at what is tracked in the end shows what is picked. -/
theorem picks_of_tracked {prevails : Cause → Prop} {root picked : Cause}
    (hmono : ∀ cause other : Cause, cause.offset ≤ other.offset → prevails cause → prevails other)
    (hsome : ∀ cause, causes.foldl deeper none = some cause →
      (prevails cause ∧ picked = cause) ∨ (¬ prevails cause ∧ picked = root))
    (hnone : causes.foldl deeper none = none → picked = root) : Picks prevails root causes picked := by
  obtain ⟨rfl, htracked⟩ | ⟨cause, htracked, hfirst⟩ := foldl_deeper causes
  · exact .inr ⟨by simp, hnone htracked⟩
  · obtain ⟨hprevails, rfl⟩ | ⟨hnot, rfl⟩ := hsome cause htracked
    · exact .inl ⟨hfirst, hprevails⟩
    · exact .inr ⟨fun other hother hother' => hnot (hmono other cause (hfirst.le other hother) hother'), rfl⟩

end Picking

section Choices

/-- Whether no choice is decided that was not started. At first, `opened` choices are open; choices may be left
open in the end. -/
def isWellNested : (opened : Nat) → List Report → Bool
  | _, [] => true
  | opened, .recorded _ :: rest => isWellNested opened rest
  | opened, .succeeded _ :: rest => isWellNested opened rest
  | opened, .choiceStarted :: rest => isWellNested (opened + 1) rest
  | 0, .choiceFinished _ :: _ => false
  | opened + 1, .choiceFinished _ :: rest => isWellNested opened rest

/-- Whether what was recorded in front of the reports survives them: no choice that was open then is decided by
a match. Of the choices that were started since then, `since` are open; these are decided first. -/
def survives : (since : Nat) → List Report → Bool
  | _, [] => true
  | since, .recorded _ :: rest => survives since rest
  | since, .succeeded _ :: rest => survives since rest
  | since, .choiceStarted :: rest => survives (since + 1) rest
  | 0, .choiceFinished matched :: rest => !matched && survives 0 rest
  | since + 1, .choiceFinished _ :: rest => survives since rest

/-- The causes that survive what is reported behind them, in the order in which they were recorded. -/
def survivors : List Report → List Cause
  | [] => []
  | .recorded cause :: rest => if survives 0 rest then cause :: survivors rest else survivors rest
  | .succeeded _ :: rest => survivors rest
  | .choiceStarted :: rest => survivors rest
  | .choiceFinished _ :: rest => survivors rest

namespace Deepest

/-- What is tracked behind the reports, apart from the causes that are recorded in them. -/
def kept (d : Deepest) : List Report → Option Cause
  | [] => d.tracked
  | .recorded _ :: rest => d.kept rest
  | .succeeded _ :: rest => d.kept rest
  | .choiceStarted :: rest => d.startChoice.kept rest
  | .choiceFinished matched :: rest => (d.finishChoice matched).kept rest

/-- Recording a cause changes what is tracked only if it lies deeper. -/
theorem record_eq (d : Deepest) (cause : Cause) :
    d.record cause = { d with tracked := deeper d.tracked cause } := by
  unfold record deeper
  split <;> rfl

/-- The reporter when `tracked` is tracked, and was when the innermost choices started, so many as `since`. -/
def within (tracked : Option Cause) (since : Nat) (outer : List (Option Cause)) : Deepest :=
  ⟨tracked, List.replicate since tracked ++ outer⟩

variable (tracked tracked' : Option Cause) {since : Nat} (outer : List (Option Cause))

/-- As long as no choice is decided by a match that was open before, what was tracked stays. -/
theorem kept_of_survives {reports : List Report} (h : survives since reports = true) :
    (within tracked since outer).kept reports = tracked := by
  induction reports generalizing since outer with
  | nil => rfl
  | cons report rest ih =>
    cases report with
    | recorded cause => exact ih outer h
    | succeeded offset => exact ih outer h
    | choiceStarted => exact @ih (since + 1) outer h
    | choiceFinished matched =>
      cases since with
      | zero =>
        obtain ⟨hmatched, hrest⟩ := Bool.and_eq_true_iff.1 h
        obtain rfl : matched = false := by simpa using hmatched
        cases outer with
        | nil => exact @ih 0 [] hrest
        | cons before outer => exact @ih 0 outer hrest
      | succ since =>
        have hsame : (within tracked (since + 1) outer).finishChoice matched = within tracked since outer := by
          cases matched <;> rfl
        rw [kept, hsame]
        exact ih outer h

/-- If a choice that was open before is decided by a match, it makes no difference what was tracked. -/
theorem kept_of_not_survives {reports : List Report} (h : survives since reports = false)
    (hnested : isWellNested (since + outer.length) reports = true) :
    (within tracked since outer).kept reports = (within tracked' since outer).kept reports := by
  induction reports generalizing since outer with
  | nil => cases h
  | cons report rest ih =>
    cases report with
    | recorded cause => exact ih outer h hnested
    | succeeded offset => exact ih outer h hnested
    | choiceStarted => exact @ih (since + 1) outer h (by rwa [Nat.add_right_comm])
    | choiceFinished matched =>
      cases since with
      | zero =>
        rw [Nat.zero_add] at hnested
        cases outer with
        | nil => cases hnested
        | cons before outer =>
          cases matched with
          | true => rfl
          | false => exact @ih 0 outer h (by rwa [Nat.zero_add])
      | succ since =>
        rw [Nat.add_right_comm] at hnested
        have hsame (tracked : Option Cause) :
            (within tracked (since + 1) outer).finishChoice matched = within tracked since outer := by
          cases matched <;> rfl
        rw [kept, kept, hsame, hsame]
        exact ih outer h hnested

/-- The survivors are what is tracked among, apart from what was tracked before. -/
theorem tracked_foldl_observe {reports : List Report} {d : Deepest}
    (h : isWellNested d.choices.length reports = true) :
    (reports.foldl observe d).tracked = (survivors reports).foldl deeper (d.kept reports) := by
  induction reports generalizing d with
  | nil => rfl
  | cons report rest ih =>
    rw [List.foldl_cons]
    cases report with
    | recorded cause =>
      have hrest : ((rest.foldl observe (d.record cause)).tracked)
          = (survivors rest).foldl deeper ((within (deeper d.tracked cause) 0 d.choices).kept rest) := by
        rw [record_eq]
        exact ih h
      refine hrest.trans ?_
      rw [survivors, kept]
      by_cases hs : survives 0 rest = true
      · rw [if_pos hs, List.foldl_cons, kept_of_survives _ _ hs]
        exact congrArg (fun tracked => (survivors rest).foldl deeper (deeper tracked cause))
          (kept_of_survives d.tracked d.choices hs).symm
      · rw [if_neg hs, kept_of_not_survives _ d.tracked _ (Bool.not_eq_true _ ▸ hs) (by rwa [Nat.zero_add])]
        rfl
    | succeeded offset => exact ih h
    | choiceStarted => exact ih (d := d.startChoice) h
    | choiceFinished matched =>
      refine ih (d := d.finishChoice matched) ?_
      obtain ⟨tracked, choices⟩ := d
      cases choices with
      | nil => cases h
      | cons before choices => exact h

/-- A reporter that was told nothing has nothing to go back to. -/
theorem kept_nothing {d : Deepest} (htracked : d.tracked = none) (hchoices : ∀ before ∈ d.choices, before = none)
    (reports : List Report) : d.kept reports = none := by
  induction reports generalizing d with
  | nil => exact htracked
  | cons report rest ih =>
    cases report with
    | recorded cause => exact ih htracked hchoices
    | succeeded offset => exact ih htracked hchoices
    | choiceStarted => exact ih htracked (List.forall_mem_cons.2 ⟨htracked, hchoices⟩)
    | choiceFinished matched =>
      obtain ⟨tracked, choices⟩ := d
      cases choices with
      | nil => exact ih htracked hchoices
      | cons before choices =>
        obtain ⟨hbefore, hchoices⟩ := List.forall_mem_cons.1 hchoices
        refine ih ?_ hchoices
        cases matched with
        | true => exact hbefore
        | false => exact htracked

end Deepest

end Choices

section Resets

/-- A success at the offset has got at least as far as all the successes before it. -/
def Resets (before : List Report) (offset : Nat) : Prop :=
  ∀ earlier, .succeeded earlier ∈ before → earlier ≤ offset

/-- The causes that are recorded in the reports, in order. -/
def recordedCauses (reports : List Report) : List Cause :=
  reports.filterMap fun
    | .recorded cause => some cause
    | _ => none

/-- The reports up to and with the last reset, if there was one, and the reports since. -/
structure SplitsAtReset (reports before since : List Report) : Prop where
  split : reports = before ++ since
  reset : before = [] ∨ ∃ earlier offset, before = earlier ++ [.succeeded offset] ∧ Resets earlier offset
  last : ∀ earlier offset, earlier ++ [.succeeded offset] <+: since → ¬ Resets (before ++ earlier) offset

variable {reports before since : List Report} {report : Report}

/-- A report that is no reset is one more since the last. -/
theorem SplitsAtReset.concat (h : SplitsAtReset reports before since)
    (hreport : ∀ offset, report = .succeeded offset → ¬ Resets reports offset) :
    SplitsAtReset (reports ++ [report]) before (since ++ [report]) where
  split := by rw [h.split, List.append_assoc]
  reset := h.reset
  last earlier offset hprefix := by
    rcases List.prefix_concat_iff.1 hprefix with heq | hprefix
    · obtain ⟨rfl, hlast⟩ := List.append_inj' heq rfl
      rw [← h.split]
      exact hreport offset (List.cons.inj hlast).1.symm
    · exact h.last earlier offset hprefix

/-- No reset is behind the last. -/
theorem SplitsAtReset.nothing_between {before' since' between : List Report}
    (h : SplitsAtReset reports before since) (h' : SplitsAtReset reports before' since')
    (hbefore : before' = before ++ between) (hsince : since = between ++ since') : before = before' ∧ since = since' := by
  subst hbefore hsince
  cases between using List.reverseRecOn with
  | nil => exact ⟨(List.append_nil _).symm, rfl⟩
  | append_singleton between report =>
    obtain hnil | ⟨earlier, offset, hends, hresets⟩ := h'.reset
    · simp at hnil
    · rw [← List.append_assoc] at hends
      obtain ⟨rfl, hreport⟩ := List.append_inj' hends rfl
      obtain rfl := (List.cons.inj hreport).1
      exact absurd hresets (h.last between offset (List.prefix_append _ _))

/-- There is but one way to split the reports. -/
theorem SplitsAtReset.unique {before' since' : List Report} (h : SplitsAtReset reports before since)
    (h' : SplitsAtReset reports before' since') : before = before' ∧ since = since' := by
  obtain ⟨between, hbefore, hsince⟩ | ⟨between, hbefore, hsince⟩ :=
    List.append_eq_append_iff.1 (h.split.symm.trans h'.split)
  · exact h.nothing_between h' hbefore hsince
  · obtain ⟨heq, heq'⟩ := h'.nothing_between h hbefore hsince
    exact ⟨heq.symm, heq'.symm⟩

/-- Where the last report is a reset, nothing comes since. -/
theorem splitsAtReset_of_resets {offset : Nat} (h : Resets reports offset) :
    SplitsAtReset (reports ++ [.succeeded offset]) (reports ++ [.succeeded offset]) [] where
  split := (List.append_nil _).symm
  reset := .inr ⟨reports, offset, rfl, h⟩
  last earlier offset hprefix := by simp at hprefix

/-- A match resets if no match before it was announced further on. -/
theorem resets_concat {offset : Nat} : Resets (reports ++ [report]) offset ↔
    Resets reports offset ∧ ∀ last, report = .succeeded last → last ≤ offset := by
  simp only [Resets, List.mem_append, List.mem_singleton]
  exact ⟨fun h => ⟨fun earlier hmem => h earlier (.inl hmem), fun last hlast => h last (.inr hlast.symm)⟩,
    fun h earlier hmem => hmem.elim (h.1 earlier) fun hlast => h.2 earlier hlast.symm⟩

/-- The causes among the reports are found from front to back. -/
theorem recordedCauses_concat (reports : List Report) (report : Report) :
    recordedCauses (reports ++ [report]) = recordedCauses reports ++ recordedCauses [report] :=
  List.filterMap_append ..

namespace Contextual

/-- A report that is no reset matters only if it is that of a cause. -/
theorem observe_eq {c : Contextual} (h : ∀ offset, report = .succeeded offset → offset < c.lastReset) :
    c.observe report = { c with tracked := (recordedCauses [report]).foldl deeper c.tracked } := by
  cases report with
  | recorded cause =>
    change (if _ then _ else _) = Contextual.mk (deeper c.tracked cause) c.lastReset
    unfold deeper
    split <;> rfl
  | succeeded offset => exact if_pos (h offset rfl)
  | choiceStarted => rfl
  | choiceFinished matched => rfl

/-- After the reports, the first of the deepest causes since the last reset is tracked, and it is known how far the
successes got. -/
theorem tracked_since_reset (reports : List Report) : ∃ before since, SplitsAtReset reports before since ∧
    (reports.foldl observe {}).tracked = (recordedCauses since).foldl deeper none ∧
    ∀ offset, (reports.foldl observe {}).lastReset ≤ offset ↔ Resets reports offset := by
  induction reports using List.reverseRecOn with
  | nil => exact ⟨[], [], ⟨rfl, .inl rfl, by simp⟩, rfl, by simp [Resets]⟩
  | append_singleton reports report ih =>
    obtain ⟨before, since, hsplit, htracked, hfar⟩ := ih
    simp only [List.foldl_append, List.foldl_cons, List.foldl_nil, resets_concat]
    by_cases hreset : ∃ offset, report = .succeeded offset ∧ Resets reports offset
    · obtain ⟨offset, rfl, hreset⟩ := hreset
      have hobserve : (reports.foldl observe {}).observe (.succeeded offset) = ⟨none, offset⟩ :=
        if_neg (Nat.not_lt.2 ((hfar offset).2 hreset))
      rw [hobserve]
      refine ⟨_, _, splitsAtReset_of_resets hreset, rfl, fun other => ⟨fun hle => ⟨?_, ?_⟩, fun h => h.2 _ rfl⟩⟩
      · exact fun earlier hmem => Nat.le_trans (hreset earlier hmem) hle
      · rintro _ ⟨⟩
        exact hle
    · have hbehind : ∀ offset, report = .succeeded offset → offset < (reports.foldl observe {}).lastReset :=
        fun offset heq => Nat.lt_of_not_le fun hle => hreset ⟨offset, heq, (hfar offset).1 hle⟩
      rw [observe_eq hbehind]
      refine ⟨_, _, hsplit.concat fun offset heq hresets => hreset ⟨offset, heq, hresets⟩, ?_, fun other => ?_⟩
      · rw [recordedCauses_concat, List.foldl_append, ← htracked]
      · rw [hfar]
        refine ⟨fun h => ⟨h, fun last heq => ?_⟩, And.left⟩
        exact Nat.le_trans (Nat.le_of_lt (hbehind last heq)) ((hfar other).2 h)

end Contextual

end Resets

namespace Reporter

/-- Reports that a deepest reporter hears are heard by its state. -/
theorem foldl_observe_deepest (reports : List Report) (state : Deepest) :
    reports.foldl observe (.deepest state) = .deepest (reports.foldl Deepest.observe state) := by
  induction reports generalizing state with
  | nil => rfl
  | cons report rest ih => exact ih (state.observe report)

/-- Reports that a contextual reporter hears are heard by its state. -/
theorem foldl_observe_contextual (reports : List Report) (state : Contextual) :
    reports.foldl observe (.contextual state) = .contextual (reports.foldl Contextual.observe state) := by
  induction reports generalizing state with
  | nil => rfl
  | cons report rest ih => exact ih (state.observe report)

/-- The deepest reporter picks the first of the deepest causes that were recorded in no choice that was decided by
a match, if that lies deeper than the root. -/
theorem deepest_picks_survivor (reports : List Report) (hnested : isWellNested 0 reports = true) (root : Cause) :
    Picks (root.offset < ·.offset) root (survivors reports)
      ((reports.foldl observe ReporterKind.deepest.start).pick root) := by
  have htracked : (reports.foldl Deepest.observe {}).tracked = (survivors reports).foldl deeper none := by
    rw [Deepest.tracked_foldl_observe (d := {}) hnested, Deepest.kept_nothing rfl (by simp)]
  rw [ReporterKind.start, foldl_observe_deepest, pick, Deepest.pick, htracked]
  refine picks_of_tracked (fun cause other hle hlt => Nat.lt_of_lt_of_le hlt hle) (fun cause hsome => ?_)
    fun hnone => by rw [hnone]
  rw [hsome]
  by_cases hlt : root.offset < cause.offset
  · exact .inl ⟨hlt, if_pos hlt⟩
  · exact .inr ⟨hlt, if_neg hlt⟩

/-- A failure at an offset, told from others by a word. -/
def failureAt (offset : Nat) (word : String) : Cause := .leaf (.custom word) offset

/-- Two choices, the first of which is decided by a match although one in it is not. -/
def twoChoices : List Report :=
  [.recorded (failureAt 1 "before"), .choiceStarted, .recorded (failureAt 5 "outer"), .choiceStarted,
    .recorded (failureAt 7 "inner"), .choiceFinished false, .succeeded 9, .choiceFinished true,
    .recorded (failureAt 4 "between"), .choiceStarted, .recorded (failureAt 4 "later"), .choiceFinished false]

/-- Of two choices, the failures outside and those in the choice that failed survive, and the
first of the deepest among them is picked. -/
theorem twoChoices_picks_between : isWellNested 0 twoChoices = true ∧
    Picks (2 < ·.offset) (failureAt 2 "root") [failureAt 1 "before", failureAt 4 "between", failureAt 4 "later"]
      (failureAt 4 "between") :=
  ⟨rfl, deepest_picks_survivor twoChoices rfl (failureAt 2 "root")⟩

/-- The contextual reporter picks the first of the deepest causes since the last reset, if that lies at least as
deep as the root. There is but one way to split the reports at the last reset. -/
theorem contextual_picks_since_reset (reports : List Report) (root : Cause) :
    ∃ before since, (∀ before' since', SplitsAtReset reports before' since' ↔ before = before' ∧ since = since') ∧
      Picks (root.offset ≤ ·.offset) root (recordedCauses since)
        ((reports.foldl observe ReporterKind.contextual.start).pick root) := by
  obtain ⟨before, since, hsplit, htracked, -⟩ := Contextual.tracked_since_reset reports
  refine ⟨before, since, fun before' since' => ⟨hsplit.unique, ?_⟩, ?_⟩
  · rintro ⟨rfl, rfl⟩
    exact hsplit
  rw [ReporterKind.start, foldl_observe_contextual, pick, Contextual.pick, htracked]
  refine picks_of_tracked (fun cause other hle hroot => Nat.le_trans hroot hle) (fun cause hsome => ?_)
    fun hnone => by rw [hnone]
  rw [hsome]
  by_cases hle : root.offset ≤ cause.offset
  · exact .inl ⟨hle, if_pos hle⟩
  · exact .inr ⟨hle, if_neg hle⟩

end Reporter

end Packrat
