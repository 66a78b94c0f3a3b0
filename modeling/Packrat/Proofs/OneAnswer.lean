import Packrat.Proofs.Stability

/-!
# One answer within one parse

Whenever a rule is applied at an offset at which nothing is under way, it comes to the same, whatever was
matched in between: there is one outcome and one end for the rule at that offset in the whole parse. What
they are is not known before the first such application, so the parse is watched for all outcomes and ends
at once; the first application tells which of the watches are right, and those are never objected to again.
-/

namespace Packrat

open Matcher Course

/-- No application is in progress at the offset, and no cluster is being grown there. -/
def Memo.isQuiet (memo : Memo) (start : Nat) : Bool :=
  memo.growing[start]?.isNone &&
    memo.callPath.all fun id => (memo.application? id).all (·.start != start)

/-- Nothing is under way at the start of a match. -/
example : ({} : Memo).isQuiet 0 = true := rfl

/-- The expression is a reference to the rule. -/
def Atom.asksFor (table : RuleTable) (rule : Nat) : Atom → Bool
  | .rule ref => table.resolve? ref == some rule
  | _ => false

open Classical in
/-- The step, broken off unless it comes to the outcome and stops at the offset, if it is taken at the asked
offset while nothing is under way there. -/
noncomputable def Matcher.expecting (start : Nat) (outcome : Except Cause Raw) (stop : Nat)
    (step : Matcher Raw) : Matcher Raw := do
  let pos ← position
  if pos = start ∧ (← memo).isQuiet start then do
    let result ← attempt step
    if result = outcome ∧ (← position) = stop then ofResult result else Matcher.stop .misplaced
  else step

/-- The watch that breaks a match off as soon as the rule, applied at the offset while nothing is under way
there, comes to another outcome or stops elsewhere. -/
noncomputable def answerWatch (table : RuleTable) (asked : Spot) (outcome : Except Cause Raw)
    (stop : Nat) : Watch := fun atom step =>
  if atom.asksFor table asked.rule then guarded (expecting asked.start outcome stop step)
  else guarded step

section Quiet

variable {rules : Nat} {text : Text} {u : Underway} {memo : Memo} {start : Nat}

/-- What the memo says about what is under way is so. -/
theorem Accounts.quiet (ha : Accounts rules text u memo) (h : memo.isQuiet start = true) :
    u.Quiet start := by
  obtain ⟨hgrowing, hpath⟩ := Bool.and_eq_true_iff.1 h
  refine ⟨fun w hw hstart => ?_, ha.start_ne (Option.isNone_iff_eq_none.1 hgrowing)⟩
  obtain ⟨a, hrecord, -, hat⟩ := ha.record hw
  have hmem : w.id ∈ memo.callPath := by
    rw [Memo.callPath_eq ha.linked]
    exact List.mem_map_of_mem hw
  have hne := List.all_eq_true.1 hpath w.id hmem
  simp [Memo.application?, hrecord, hat, hstart] at hne

end Quiet

section Rules

variable {table : RuleTable} {text : Text} {u : Underway} {depth : Nat} {asked : Spot} {s : Session}

/-- A rule that is applied where nothing is under way leaves its answer in the memo. -/
theorem ensures_asked {ref : RuleRef} (hs : ((Regime.settling table text none).course u depth).Start s)
    (href : table.resolve? ref = some asked.rule) (hstart : s.source.pos = asked.start)
    (hquiet : u.Quiet asked.start) :
    Ensures anyhow (table.applyRule depth ref) s fun result s' =>
      ∃ answer : Except Cause Tree × Nat, (result = answer.1.map .leaf ∧ s'.source.pos = answer.2) ∧
        Memo.Tells asked u answer s'.memo := by
  cases depth with
  | zero => exact absurd hs.memo.room (Nat.not_lt_zero _)
  | succ depth =>
    refine ensures_applyRule hs.bodies (fun _ _ _ hnone => ?_) fun index atom bodies trace hr hatom hb => ?_
    · rw [href] at hnone
      cases hnone
    rw [href] at hr
    cases hr
    have hanswers := Regime.answers_memoized (Regime.lawful_settling table text none)
      (Regime.bodies_rules none u depth asked.rule ref.name atom) (RuleTable.index_lt_of_bodyAt? hatom)
      (hs.built hb trace) trivial
    refine hanswers.imp (fun _ _ => trivial) fun result s' h => ⟨(result, s'.source.pos), ⟨rfl, rfl⟩, ?_⟩
    have hfind := h.2 rfl (by rw [hstart]; exact hquiet)
    exact Memo.settled_of_quiet hquiet (hstart ▸ hfind)

/-- If the step does what it is expected to do, nothing is objected to. -/
theorem expecting_eq {start : Nat} {outcome : Except Cause Raw} {stop : Nat} {step step' : Matcher Raw}
    (heq : step s = step' s)
    (hmeets : Ensures anyhow step' s fun result s' => result = outcome ∧ s'.source.pos = stop) :
    expecting start outcome stop step s = step' s := by
  rw [expecting, position_bind, memo_bind]
  split
  · have hattempt : attempt step s = attempt step' s := by rw [attempt, attempt, heq]
    rw [bind_congr hattempt]
    cases hreply : step' s with
    | stopped reason =>
      change Matcher.bind (attempt step') _ s = _
      rw [Matcher.bind, attempt, hreply]
    | failed cause s' =>
      have hfailed : attempt step' s = .matched (.error cause) s' := by rw [attempt, hreply]
      rw [bind_of_matched hfailed, position_bind, if_pos (hmeets.of_failed hreply)]
      rfl
    | matched value s' =>
      have hmatched : attempt step' s = .matched (.ok value) s' := by rw [attempt, hreply]
      rw [bind_of_matched hmatched, position_bind, if_pos (hmeets.of_matched hreply)]
      rfl
  · exact heq

/-- What is so for some answer where a step ends is so for one, if the step ends at all. -/
theorem exists_of_ensures {α ι : Type} {step : Matcher α} {post : ι → Except Cause α → Session → Prop}
    (h : Ensures anyhow step s fun result s' => ∃ i, post i result s') :
    (∃ reason, step s = .stopped reason) ∨ ∃ i, Ensures anyhow step s (post i) := by
  cases hreply : step s with
  | stopped reason => exact .inl ⟨reason, rfl⟩
  | failed cause s' =>
    obtain ⟨i, hi⟩ := h.of_failed hreply
    exact .inr ⟨i, by simpa only [Ensures, hreply] using hi⟩
  | matched value s' =>
    obtain ⟨i, hi⟩ := h.of_matched hreply
    exact .inr ⟨i, by simpa only [Ensures, hreply] using hi⟩

/-- References that are watched for all answers concur, if what they lead to does. -/
theorem concord_answerWatch {family : Except Cause Tree × Nat → Matcher Raw} {ref : RuleRef}
    (h : ((Regime.settling table text none).course u depth).Concord (Memo.Tells asked u) family
      (table.applyRule depth ref)) :
    ((Regime.settling table text none).course u depth).Concord (Memo.Tells asked u)
      (fun answer => answerWatch table asked (answer.1.map .leaf) answer.2 (.rule ref) (family answer))
      (guarded (table.applyRule depth ref)) := by
  by_cases hasks : (Atom.rule ref).asksFor table asked.rule = true
  swap
  · simp only [answerWatch, hasks, Bool.false_eq_true, if_false]
    exact h.guarded
  simp only [answerWatch, hasks, if_true]
  refine Concord.guarded fun s hs => ?_
  have hconcurs := h s hs
  by_cases hcond : s.source.pos = asked.start ∧ s.memo.isQuiet asked.start = true
  swap
  · have hexpecting (answer : Except Cause Tree × Nat) :
        expecting asked.start (answer.1.map .leaf) answer.2 (family answer) s = family answer s := by
      rw [expecting, position_bind, memo_bind, if_neg hcond]
    exact hconcurs.congr hexpecting rfl
  obtain ⟨hstart, hquiet⟩ := hcond
  have href : table.resolve? ref = some asked.rule := by simpa [Atom.asksFor] using hasks
  have hu := hs.memo.fits.accounts.quiet hquiet
  have hasked := ensures_asked hs href hstart hu
  -- an answer that is known afterwards is the one that was given
  have hmember {answer : Except Cause Tree × Nat} (heq : family answer s = table.applyRule depth ref s)
      (hafter : Ensures anyhow (table.applyRule depth ref) s fun _ s' =>
        Memo.Tells asked u answer s'.memo) :
      expecting asked.start (answer.1.map .leaf) answer.2 (family answer) s
        = table.applyRule depth ref s := by
    refine expecting_eq heq ((hafter.and hasked).mono ?_)
    rintro result s' ⟨hi, answer', ⟨hresult, hstop⟩, hi'⟩
    have hsame := hi.known.symm.trans hi'.known
    simp only [Option.some.injEq, Entry.mk.injEq, Answer.done.injEq] at hsame
    rw [hsame.1, hsame.2]
    exact ⟨hresult, hstop⟩
  refine ⟨fun answer hi => ?_, ?_⟩
  · obtain ⟨heq, hafter⟩ := hconcurs.held answer hi
    exact ⟨hmember heq hafter, hafter⟩
  · rcases hconcurs.found with hall | ⟨answer, heq, hafter⟩
    · rcases exists_of_ensures hasked with ⟨reason, hstopped⟩ | ⟨answer, hanswer⟩
      · refine .inl fun answer => expecting_eq (hall answer) ?_
        simp only [Ensures, hstopped, anyhow]
      · have hafter := hanswer.mono fun _ _ h => h.2
        exact .inr ⟨answer, hmember (hall answer) hafter, hafter⟩
    · exact .inr ⟨answer, hmember heq hafter, hafter⟩

/-- Only references are watched. -/
theorem answerWatch_of_ne {outcome : Except Cause Raw} {stop : Nat} {atom : Atom} (step : Matcher Raw)
    (hne : ∀ ref, atom ≠ .rule ref) : answerWatch table asked outcome stop atom step = guarded step := by
  have hasks : atom.asksFor table asked.rule = false := by
    cases atom with
    | rule ref => exact absurd rfl (hne ref)
    | _ => rfl
  simp only [answerWatch, hasks, Bool.false_eq_true, if_false]

/-- A reference that leads nowhere leaves the memo alone. -/
theorem spares_refuseUndefined (name : String) : Spares (RuleTable.refuseUndefined name) := by
  intro s
  simp only [RuleTable.refuseUndefined, ensures_bind, ensures_session]
  split <;> rfl

/-- Applying the rule that a reference leads to concurs if matching its body does. -/
theorem concord_applyWith {ref : RuleRef} {family : Except Cause Tree × Nat → Nat → Atom → Matcher Raw}
    (h : ∀ u' index atom, ((Regime.settling table text none).course u' depth).Concord
      (Memo.Tells asked u') (family · index atom) (atom.matcher (table.applyRule depth))) :
    ((Regime.settling table text none).course u (depth + 1)).Concord (Memo.Tells asked u)
      (fun answer => table.applyWith (family answer) ref) (table.applyRule (depth + 1) ref) := by
  intro s hs
  have hresolve : Ensures anyhow (table.resolve ref) s fun result s' => result = .ok none ∨
      ∃ index atom bodies trace, result = .ok (some (index, atom)) ∧ s' = { s with bodies, trace } ∧
        table.bodyAt? index = some atom ∧ table.Knows bodies :=
    ensures_resolve hs.bodies (fun _ => .inl rfl) fun index atom bodies trace _ hatom hb =>
      .inr ⟨index, atom, bodies, trace, rfl, rfl, hatom, hb⟩
  have hresolved : Concurs (Memo.Tells asked u · s.memo) (fun answer s' => Memo.Tells asked u answer s'.memo)
      (fun _ => table.resolve ref) (table.resolve ref) s :=
    .same fun _ hi => ensures_resolve hs.bodies (fun _ => hi) fun _ _ _ _ _ _ _ => hi
  refine hresolved.bind hresolve ?_ fun _ _ _ _ hi => hi
  rintro found s' (hnone | ⟨index, atom, bodies, trace, heq, rfl, hatom, hb⟩)
  · cases hnone
    exact .spared (spares_refuseUndefined ref.name) s'
  · cases heq
    have hconcord (u' : Underway) : ((Regime.settling table text none).course u' depth).Concord
        (Memo.Tells asked u') (fun answer => do flatten false (← family answer index atom))
        (do flatten false (← atom.matcher (table.applyRule depth))) :=
      (h u' index atom).before fun raw => sparing.flatten false raw
    have hmemoized := concurs_memoized hconcord (Regime.bodies_rules none u depth index ref.name atom)
      (hs.built hb trace) (RuleTable.index_lt_of_bodyAt? hatom)
    exact hmemoized.before fun tree => sparing.pure _

/-- Rules that are watched for all answers concur with the rules. -/
theorem concord_applyWatched (u : Underway) (depth : Nat) (ref : RuleRef) :
    ((Regime.settling table text none).course u depth).Concord (Memo.Tells asked u)
      (fun answer => table.applyWatched (answerWatch table asked (answer.1.map .leaf) answer.2) depth ref)
      (table.applyRule depth ref) := by
  induction depth generalizing u ref with
  | zero => exact fun s hs => absurd hs.memo.room (Nat.not_lt_zero _)
  | succ depth ih =>
    refine concord_applyWith fun u' index atom => ?_
    exact concord_watched (Regime.lax_settling u' depth) (fun _ _ step hne => answerWatch_of_ne step hne)
      (ends_settling none u' depth) (fun ref => concord_answerWatch (ih u' ref)) atom

end Rules

/-- Within one parse, a rule comes to the same whenever it is applied at the same offset at a moment when
no application at that offset is in progress and no cluster is being grown there: for every table of rules,
left-recursive ones included, every text and all options, there are one outcome and one offset behind it
such that watching every application of the rule at the offset for these changes nothing about the match
that the parse is made of, and that match is never broken off as the watch would. -/
theorem rule_answers_once (table : RuleTable) (bodies : List (Nat × Atom)) (hbodies : table.Knows bodies)
    (entry : Atom) (text : String) (options : Options) (rule start : Nat) :
    ∃ outcome stop,
      matchWatched (answerWatch table ⟨start, rule⟩ outcome stop) table bodies entry text options
          = matchEntry table bodies entry text options ∧
        matchEntry table bodies entry text options ≠ .stopped .misplaced := by
  let K := Regime.settling table (Text.ofString text) none
  let depth := table.depthBound text.utf8ByteSize
  have hstart : (K.course {} depth).Start (Session.start text options bodies) :=
    Regime.start_of_knows _ hbodies options ⟨⟨by simp, by simp⟩, by simp⟩
  have hends := ends_matcher (Regime.lax_settling {} depth) (ends_settling none {} depth) entry _ hstart
  have hsound : matchEntry table bodies entry text options ≠ .stopped .misplaced := fun hstopped => by
    cases hends.of_stopped hstopped
  have hreference (ref : RuleRef) : (K.course {} depth).Concord (Memo.Tells ⟨start, rule⟩ {})
      (fun answer => answerWatch table ⟨start, rule⟩ (answer.1.map .leaf) answer.2 (.rule ref)
        (table.applyWatched (answerWatch table ⟨start, rule⟩ (answer.1.map .leaf) answer.2) depth ref))
      (guarded (table.applyRule depth ref)) :=
    concord_answerWatch (concord_applyWatched {} depth ref)
  have hconcord := concord_watched (Regime.lax_settling {} depth)
    (fun _ _ step hne => answerWatch_of_ne step hne) (ends_settling none {} depth) hreference entry _ hstart
  rcases hconcord.found with hall | ⟨answer, heq, -⟩
  · exact ⟨_, _, hall (.error (.leaf .prematureEnd start), start), hsound⟩
  · exact ⟨_, _, heq, hsound⟩

/-- A left-recursive sum that is tried twice at the start of a text, in two branches of a choice, comes to
the same both times. -/
theorem sum_answers_once :
    sumTable.Knows [] ∧ ∃ outcome stop,
      matchWatched (answerWatch sumTable ⟨0, 0⟩ outcome stop) sumTable []
          (.choice [.sequence [sumTable.rules.rule "sum", .literal "!"],
            .sequence [sumTable.rules.rule "sum", .literal "?"]]) "n+n?" {}
          = matchEntry sumTable []
            (.choice [.sequence [sumTable.rules.rule "sum", .literal "!"],
              .sequence [sumTable.rules.rule "sum", .literal "?"]]) "n+n?" {} ∧
        matchEntry sumTable []
            (.choice [.sequence [sumTable.rules.rule "sum", .literal "!"],
              .sequence [sumTable.rules.rule "sum", .literal "?"]]) "n+n?" {} ≠ .stopped .misplaced :=
  ⟨sumTable.knows_nil, rule_answers_once sumTable [] sumTable.knows_nil _ "n+n?" {} 0 0⟩

end Packrat
