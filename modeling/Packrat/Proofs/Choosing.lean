import Mathlib
import Packrat.Proofs.Alternatives
import Packrat.Proofs.Lookup
import Packrat.Proofs.Steady

/-!
# Choices made during a match

What a dynamic expression matches is chosen in view of what was captured so far. If it is the body of a rule,
what the choice comes to is remembered like the answer of any other rule: the first time that the rule is
applied at an offset decides, and the choice is not made again there, whatever is captured by then.
-/

namespace Packrat

open Matcher

/-- Nothing is known about the rule at the offset, and nothing is being grown there. -/
structure Memo.Unknown (memo : Memo) (rule start : Nat) : Prop where
  unknown : memo.find? rule start = none
  quiet : memo.growing? start = none

/-- Where nothing is being grown, no rule is to be applied again. -/
theorem Memo.notDue_of_quiet {memo : Memo} {rule start : Nat} (h : memo.growing? start = none) :
    memo.NotDue rule start := by
  intro c cluster hg hcluster
  rw [growing?_eq_some.2 ⟨hg, hcluster⟩] at h
  cases h

namespace Matcher

variable {lenient : Stop → Prop} {s : Session} {r : RuleBody}

/-- A rule that is applied where nothing is known about it comes to what its body comes to, and that is
remembered, if there are no references in the body. -/
theorem ensures_memoized_of_unknown {post : Except Cause Tree → Session → Prop}
    (hunknown : s.memo.Unknown r.rule s.source.pos) (haside : Within Session.Aside r.body)
    (h : Ensures lenient r.body
      { s with memo := s.memo.enter r.rule s.source.pos (.error (r.failed s.source.pos)) } fun result s' =>
        post result { s' with
          memo := s'.memo.leave s.memo.applications.size r.rule s.source.pos result s'.source.pos }) :
    Ensures lenient (memoized r) s post := by
  have hallowed : ¬ s.memo.Refuses r.rule s.source.pos := by
    rintro ⟨c, cluster, hgrowing, -⟩
    rw [hunknown.quiet] at hgrowing
    cases hgrowing
  rw [ensures_congr (memoized_of_none hunknown.unknown (Memo.notDue_of_quiet hunknown.quiet) hallowed),
    ensures_applyFresh]
  refine (h.and (haside _)).mono ?_
  rintro result s' ⟨hpost, hs'⟩
  have hapart : (s'.memo.application? s.memo.applications.size).bind (·.cluster) = none := by
    rw [hs'.memo]
    refine (Memo.clusterAt?_enter ..).trans ?_
    simp [Memo.clusterAt?, Memo.application?]
  simp only [hapart]
  exact hpost

/-- Guarding a step changes nothing about its gist. -/
theorem gist_guarded {step : Matcher Raw} (hback : Ensures anyhow step s fun _ s' =>
    s'.source.text.isBoundary s.source.pos = true) : (guarded step s).gist = (step s).gist := by
  rw [guarded, position_bind]
  change (Matcher.bind (attempt step) _ s).gist = _
  unfold Matcher.bind attempt
  cases hr : step s with
  | stopped reason => rfl
  | failed cause s' =>
    have hb := hback.of_failed hr
    dsimp only
    rw [moveTo_bind hb]
    rfl
  | matched raw s' => rfl

end Matcher

/-- A dynamic expression without references comes to what the expression comes to that is chosen. -/
theorem Atom.gist_dynamic (apply : RuleRef → Matcher Raw) {pick : Source → Captures → Atom}
    (hpick : ∀ source captures, (pick source captures).Every (·.isLocal)) {s : Session}
    (hb : s.source.text.isBoundary s.source.pos = true) :
    ((Atom.dynamic pick).matcher apply s).gist = ((pick s.source s.captures).matcher apply s).gist := by
  let step : Matcher Raw := fun s => (pick s.source s.captures).matcher apply s
  have haside : Ensures anyhow step s fun _ s' => s.Aside s' := within_aside apply (hpick s.source s.captures) s
  have hback : Ensures anyhow step s fun _ s' => s'.source.text.isBoundary s.source.pos = true :=
    haside.mono fun _ _ hs' => by rwa [hs'.text]
  exact gist_guarded hback

/-- An expression without references comes to the same in any two matches, from sessions with the same
captures. -/
theorem Pair.goes_local (table : RuleTable) (text : Text) (apply : RuleRef → Matcher Raw) {atom : Atom}
    (hatom : atom.Every (·.isLocal)) :
    (Pair.free table text).Goes Eq (atom.matcher apply) (atom.matcher apply) := by
  refine goes_matcher (Course.lax_free table text) (Course.lax_free table text) (hatom.mono fun a ha ref heq => ?_)
  rw [heq] at ha
  cases ha

/-- A body without references comes to the same from a session with another memo and other known bodies. -/
theorem abreast_body_local {table : RuleTable} (apply : RuleRef → Matcher Raw) {body : Atom}
    (hlocal : body.Every (·.isLocal)) {s s' : Session} (hsource : s'.source = s.source)
    (hcaptures : s'.captures = s.captures) (hb : s.source.text.isBoundary s.source.pos = true)
    (hknows : table.Knows s.bodies) (hknows' : table.Knows s'.bodies) :
    Abreast (do flatten false (← body.matcher apply)) (body.matcher apply) s' s fun r t r' t' =>
      Agree (fun tree raw => tree = (raw.flatten false).tree) r r' ∧ t'.source.pos = t.source.pos ∧
        s.source.text.isBoundary t.source.pos = true := by
  have hstart : (Course.free table s.source.text).Start s := ⟨⟨rfl, hb, hknows, False.elim, trivial⟩, False.elim⟩
  have hstart' : (Course.free table s.source.text).Start s' :=
    ⟨⟨congrArg Source.text hsource, by rwa [hsource], hknows', False.elim, trivial⟩, False.elim⟩
  have htogether : (Pair.free table s.source.text).Together s' s :=
    ⟨⟨hsource.symm, hcaptures.symm, trivial⟩, hstart', hstart⟩
  have hmet := (Pair.goes_local table s.source.text apply hlocal).abreast htogether
  unfold Abreast
  rw [ensures_bind]
  refine Ensures.mono hmet fun r t hends => ?_
  cases r with
  | error cause =>
    refine hends.mono fun r' t' hm => ⟨?_, congrArg Source.pos hm.source, hm.first.boundary⟩
    obtain ⟨raw, raw', heq, -⟩ | ⟨_, cause', -, rfl⟩ := hm.agree.cases
    · cases heq
    · exact trivial
  | ok raw =>
    refine ensures_flatten _ _ _ fun overwritten trace => hends.mono fun r' t' hm =>
      ⟨?_, congrArg Source.pos hm.source, hm.first.boundary⟩
    obtain ⟨_, raw', heq, rfl, rfl⟩ | ⟨cause, cause', heq, -⟩ := hm.agree.cases
    · cases heq
      exact rfl
    · cases heq

/-- A rule without references in its body, applied where nothing is known about it, comes to what the body comes
to at that moment, and remembers it. -/
theorem abreast_applyRule_local {table : RuleTable} (depth : Nat) {ref : RuleRef} {index : Nat} {body : Atom}
    (href : table.resolve? ref = some index) (hbody : table.bodyAt? index = some body)
    (hlocal : body.Every (·.isLocal)) {s : Session} (hknows : table.Knows s.bodies)
    (hb : s.source.text.isBoundary s.source.pos = true) (hunknown : s.memo.Unknown index s.source.pos) :
    Abreast (table.applyRule (depth + 1) ref) (body.matcher (table.applyRule depth)) s s fun r t r' t' =>
      Agree (fun raw raw' => raw = .leaf (raw'.flatten false).tree) r r' ∧ t'.source.pos = t.source.pos ∧
        s.source.text.isBoundary t.source.pos = true ∧ ∃ answer, r = answer.map .leaf ∧
          t.memo.find? index s.source.pos = some ⟨.done answer, t.source.pos⟩ := by
  refine ensures_applyRule hknows (fun _ _ _ hnone => by simp [hnone] at href)
    fun index' atom bodies trace href' hatom hbodies => ?_
  cases href.symm.trans href'
  cases hbody.symm.trans hatom
  have haside : Within Session.Aside (do flatten false (← body.matcher (table.applyRule depth))) :=
    (Habit.within Session.latitude_aside).bind (within_aside _ hlocal) fun raw =>
      (Habit.within Session.latitude_aside).flatten false raw
  refine ensures_memoized_of_unknown (s := { s with bodies, trace }) hunknown haside ?_
  -- the body is matched with another memo than it would be here, but it does not look at it
  refine Ensures.mono (abreast_body_local _ hlocal rfl rfl hb hknows hbodies) fun answer t hends => ?_
  refine hends.mono fun r' t' hm => ⟨?_, hm.2.1, hm.2.2, answer, rfl, Memo.find?_remember_self ..⟩
  obtain ⟨tree, raw, rfl, rfl, rfl⟩ | ⟨cause, cause', rfl, rfl⟩ := hm.1.cases
  · exact rfl
  · exact trivial

/-- A rule that is remembered comes to what is remembered, whatever its body is. -/
theorem gist_applyRule_of_done {table : RuleTable} (depth : Nat) {ref : RuleRef} {index stop : Nat}
    {answer : Except Cause Tree} (href : table.resolve? ref = some index) {s : Session}
    (hknows : table.Knows s.bodies) (hentry : s.memo.find? index s.source.pos = some ⟨.done answer, stop⟩)
    (hquiet : s.memo.growing? s.source.pos = none) (hb : s.source.text.isBoundary stop = true) :
    (table.applyRule (depth + 1) ref s).gist
      = (ofResult (answer.map Raw.leaf) { s with source.pos := stop }).gist := by
  have happlied : Ensures unbroken (table.applyRule (depth + 1) ref) s fun result s' =>
      result = answer.map .leaf ∧ s'.source.pos = stop := by
    refine ensures_applyRule hknows (fun _ _ _ hnone => by simp [hnone] at href)
      fun index' atom bodies trace href' _ _ => ?_
    cases href.symm.trans href'
    rw [ensures_congr (memoized_of_done (s := { s with bodies, trace }) hentry (Memo.notDue_of_quiet hquiet) hb),
      ensures_ofResult]
    exact ⟨rfl, rfl⟩
  obtain ⟨cause, s', hreply, hresult, -⟩ | ⟨raw, s', hreply, hresult, hpos⟩ := happlied.exists_reply
  · rw [hreply, ← hresult]
    rfl
  · rw [hreply, ← hresult]
    simp [Reply.gist, ofResult, Matcher.pure, hpos]

/-- A choice behind a rule is made for the captures of the moment at which the rule is first applied at an
offset. From then on the rule comes to the same there as long as that is remembered, whatever was captured since,
unless something is being grown there. -/
theorem dynamic_rule_chooses_once (table : RuleTable) (depth : Nat) {ref : RuleRef} {index : Nat}
    {pick : Source → Captures → Atom} (href : table.resolve? ref = some index)
    (hbody : table.bodyAt? index = some (.dynamic pick))
    (hpick : ∀ source captures, (pick source captures).Every (·.isLocal)) {s : Session}
    (hknows : table.Knows s.bodies) (hb : s.source.text.isBoundary s.source.pos = true)
    (hunknown : s.memo.Unknown index s.source.pos) :
    let chosen := ((pick s.source s.captures).matcher (table.applyRule depth) s).gist.map
      (Option.map fun found => (Raw.leaf (found.1.flatten false).tree, found.2))
    (table.applyRule (depth + 1) ref s).gist = chosen ∧
      ∀ result t, table.applyRule (depth + 1) ref s = ofResult result t →
        ∀ u depth', table.Knows u.bodies → u.source.text = s.source.text → u.source.pos = s.source.pos →
          u.memo.find? index s.source.pos = t.memo.find? index s.source.pos →
          u.memo.growing? s.source.pos = none →
            (table.applyRule (depth' + 1) ref u).gist = chosen := by
  have hlocal : (Atom.dynamic pick).Every (·.isLocal) := .intro rfl fun part hpart => by
    cases hpart with
    | dynamic _ source captures => exact hpick source captures
  have hmet := abreast_applyRule_local depth href hbody hlocal hknows hb hunknown
  have hgist := Abreast.gist_eq (fun raw : Raw => Raw.leaf (raw.flatten false).tree)
    (hmet.mono fun _ _ _ _ h => ⟨h.1, h.2.1⟩)
  rw [Atom.gist_dynamic _ hpick hb] at hgist
  refine ⟨hgist, fun result t hends u depth' hbodies htext hpos hentry hquiet => ?_⟩
  obtain ⟨r', t', -, -, -, hstop, answer, rfl, hdone⟩ := hmet.of_ends hends
  rw [← hgist, hends]
  rw [← hpos] at hquiet
  rw [gist_applyRule_of_done depth' href hbodies (by rw [hpos, hentry, hdone]) hquiet (by rwa [htext])]
  cases answer <;> rfl

/-- A rule that matches a letter once it was captured, and a question mark before that. -/
def quotedTable : RuleTable :=
  ⟨2, [⟨"start", fun rules => .choice [rules.rule "quote",
    .sequence [.lookahead (.capture (.literal "a") "quoted") true, rules.rule "quote"]]⟩,
    ⟨"quote", fun _ => .dynamic fun _ captures =>
      .literal (if (captures.get? "quoted").isSome then "a" else "?")⟩]⟩

/-- The question mark is chosen before the letter is captured, and nothing else after that. -/
example : ∃ cause s, matchEntry quotedTable [] (quotedTable.rules.rule "start") "a" {} = .failed cause s :=
  ⟨_, _, by cbv⟩

end Packrat
