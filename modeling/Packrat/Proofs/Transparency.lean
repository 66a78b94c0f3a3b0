import Mathlib
import Packrat.Proofs.Remembering

/-!
# The memo is transparent

Matching through the memo comes to what plain reading comes to. The argument is by induction on how
many rules may be entered inside each other: for a rule that is being applied, the least depth at
which it can be read is larger than for anything that is read inside of it, so that no entry of an
application under way is ever met.

A rule that is read as a loop may be applied in a different way. What has to be shown for it is a
parameter here.
-/

namespace Packrat

open Matcher Course Setting

/-- The rules, as far as they are known at an offset. -/
noncomputable def Reading.onlyAt (known : Nat → Nat → Prop) (read : Nat → Reading Tree) (index : Nat) :
    Reading Tree := fun start =>
  open Classical in if known index start then read index start else none

section Rules

variable (table : RuleTable) (text : Text) (loop : Option Loop) (strict : Prop)

/-- References, applied with at most `room` rules inside each other, follow their readings. -/
def RulesTrack (room : Nat) : Prop :=
  ∀ depth ref, (readingSetting table text loop strict depth room).Tracks (table.applyRule room ref)
    ((table.readRef (table.readRule text loop depth) ref).map .leaf)
    (fun known =>
      (table.readRef (Reading.onlyAt known (table.readRule text loop depth)) ref).map .leaf)

/-- What is to hold after a rule was applied, which reads `verdict`: it came to that, and what it came
to is remembered. -/
structure Applies (depth room rule : Nat) (verdict : Verdict Tree) (s : Session)
    (result : Except Cause Tree) (s' : Session) : Prop where
  agrees : (readingSetting table text loop strict depth room).Agrees result s'.source.pos verdict
  passes : (readingSetting table text loop strict depth room).Passes s s'
  knows : s'.memo.Knows rule s.source.pos
  back : ∀ cause, result = .error cause → s'.source.pos = s.source.pos

/-- Where nothing is remembered of it, the rule is applied as it is read. -/
def AppliesAfresh (r : RuleBody) (room : Nat) : Prop :=
  ∀ depth s verdict, (readingSetting table text loop strict depth room).Ready s →
    s.memo.find? r.rule s.source.pos = none →
      table.readRule text loop depth r.rule s.source.pos = some verdict →
        Ensures unbroken (applyFresh r s.source.pos) s
          (Applies table text loop strict depth room r.rule verdict s)

variable {table text loop strict}

/-- What agrees with the reading of a rule may be remembered. -/
theorem Faithful.of_agrees {S : Setting} (hstrict : strict → S.strict) {depth index start stop : Nat}
    {result : Except Cause Tree} {verdict : Verdict Tree}
    (hv : table.readRule text loop depth index start = some verdict)
    (hagree : S.Agrees result stop verdict)
    (hback : ∀ cause, result = .error cause → stop = start) :
    Faithful table text loop strict index start result stop := by
  refine ⟨depth, ?_⟩
  cases verdict with
  | matched tree stop' =>
    obtain ⟨rfl, rfl⟩ := hagree
    exact hv
  | failed cause =>
    obtain ⟨cause', rfl, hcause⟩ := hagree
    exact ⟨hback cause' rfl, cause, hv, hcause ∘ hstrict⟩

/-- What is remembered agrees with every reading of the rule, and the cursor can go there. -/
theorem Faithful.agrees {S : Setting} (hstrict : S.strict → strict) {depth index start stop : Nat}
    {result : Except Cause Tree} {verdict : Verdict Tree}
    (h : Faithful table text loop strict index start result stop)
    (hb : text.isBoundary start = true)
    (hv : table.readRule text loop depth index start = some verdict) :
    S.Agrees result stop verdict ∧ text.isBoundary stop = true := by
  obtain ⟨depth', h⟩ := h
  cases result with
  | ok tree =>
    cases table.readRule_unique h hv
    exact ⟨⟨rfl, rfl⟩, (table.forward_readRule _ _ _ _ _ hb h).2⟩
  | error cause =>
    obtain ⟨rfl, cause', h, hcause⟩ := h
    cases table.readRule_unique h hv
    exact ⟨⟨cause, rfl, hcause ∘ hstrict⟩, hb⟩

/-- What stays behind of a rule that is not left-recursive is its answer. -/
theorem Memo.Extends.leave {faithful : Nat → Nat → Except Cause Tree → Nat → Prop}
    {memo memo' : Memo} {rule start stop : Nat} {seed result : Except Cause Tree}
    (h : Extends faithful (memo.enter rule start seed) memo')
    (hnone : memo.find? rule start = none) (hf : faithful rule start result stop) :
    Extends faithful memo (memo'.leave memo.applications.size rule start result stop) := by
  have hrecord := h.applications _ _ (memo.application?_enter rule start seed)
  have hapart : ExtendsApart faithful rule start memo
      (memo'.leave memo.applications.size rule start result stop) := by
    refine ((ExtendsApart.enter memo seed).extend h).change (fun index pos hne => ?_)
      (fun pos _ => ?_) (fun id hid => ?_) (fun id _ => ?_)
    · rw [Memo.leave, find?_remember_of_ne _ _ _ hne, find?_release, find?_pop]
    · simp only [Memo.leave, Memo.remember, growing_release, Memo.pop]
    · simp only [Memo.leave, Memo.remember, applications_release _ (Nat.ne_of_lt hid), Memo.pop]
    · simp only [Memo.leave, Memo.remember, clusters_release, Memo.pop]
  refine hapart.close ?_ ?_ hnone (Memo.find?_remember_self ..) hf
  · simp only [Memo.leave, Memo.remember, top_release, Memo.pop, Memo.application?, hrecord,
      Option.bind_some]
  · simp only [Memo.leave, Memo.remember, growing_release, Memo.pop]
    exact h.growing start

/-- A rule that is read by its body is applied as it is read. -/
theorem appliesAfresh_plain {room : Nat} (ih : RulesTrack table text loop strict room)
    {r : RuleBody} {body : Atom} (hbody : table.bodyAt? r.rule = some body)
    (hr : r.body = do flatten false (← body.matcher (table.applyRule room)))
    (hplain : loop.filter (·.rule = r.rule) = none) (hstatic : body.Every (·.isStatic))
    (hlabel : strict → body.Every (·.isUnlabelled)) :
    AppliesAfresh table text loop strict r (room + 1) := by
  intro depth s verdict hs hnone hv
  obtain ⟨depth', hlt, hleast, hv'⟩ := table.exists_least_depth hv
  have hread : table.readRule text loop (depth' + 1) r.rule
      = (body.reading text (table.readRef (table.readRule text loop depth')) depth').flat false := by
    simp only [RuleTable.readRule, hplain, hbody]
  have htracks := (tracks_atom (fun ref => (ih depth' ref).follows)
    (table.forward_readRef (table.forward_readRule depth')) depth' body hstatic hlabel).flat false
  have hfit := hs.memo.enter (Nat.le_of_lt hlt) hnone (RuleTable.index_lt_of_bodyAt? hbody)
    (Text.le_size_of_isBoundary hs.boundary) hleast (.error (r.failed s.source.pos))
  rw [ensures_applyFresh, hr]
  have hentered : (readingSetting table text loop strict depth' room).Ready
      { s with memo := s.memo.enter r.rule s.source.pos (.error (r.failed s.source.pos)) } :=
    ⟨hs.text, hs.boundary, hs.bodies, hs.labels, hfit⟩
  rw [hread] at hv'
  refine (htracks _ verdict hentered hv').mono ?_
  rintro result s' ⟨⟨hagree, hpass, -⟩, hback⟩
  have hrecord := hpass.memo.applications _ _ (Memo.application?_enter ..)
  simp only [Memo.application?, hrecord, Option.bind_some]
  rw [← hread] at hv'
  have hf := Faithful.of_agrees id hv' hagree hback
  exact ⟨hagree, ⟨hpass.text, hpass.bodies, hpass.labels, hpass.memo.leave hnone hf⟩,
    ⟨result, _, Memo.find?_remember_self ..⟩, hback⟩

/-- Through the memo, a rule comes to what it reads if it does so where nothing is remembered. -/
theorem ensures_memoized {r : RuleBody} {room : Nat} (hfresh : AppliesAfresh table text loop strict r room)
    {depth : Nat} {s : Session} {verdict : Verdict Tree}
    (hs : (readingSetting table text loop strict depth room).Ready s)
    (hv : table.readRule text loop depth r.rule s.source.pos = some verdict) :
    Ensures unbroken (memoized r) s (Applies table text loop strict depth room r.rule verdict s) := by
  have hquiet := Memo.growing?_of_none (hs.memo.quiet _ (Nat.le_refl _))
  simp only [memoized, remembered, ensures_bind, ensures_position, ensures_memo, hquiet]
  cases he : s.memo.find? r.rule s.source.pos with
  | none => exact hfresh depth s verdict hs he hv
  | some entry =>
    obtain ⟨answer, stop⟩ := entry
    cases answer with
    | inProgress id =>
      -- an application under way cannot be read
      have hnone := hs.memo.waiting _ _ (Nat.le_refl _) ⟨id, stop, he⟩
      rw [hnone] at hv
      cases hv
    | done result =>
      have hf := hs.memo.right _ _ _ _ (Nat.le_refl _) he
      obtain ⟨hagree, hb⟩ := Faithful.agrees (S := readingSetting table text loop strict depth room)
        id hf hs.boundary hv
      have hb' : s.source.text.isBoundary stop = true := hs.text.symm ▸ hb
      simp only [Option.isSome_some, if_true, ensures_bind, ensures_modifyMemo, ensures_pure,
        ensures_moveTo (s := { s with memo := s.memo.countHit }) hb', ensures_ofResult]
      refine ⟨hagree, ⟨rfl, id, rfl, ?_⟩, ⟨result, stop, he⟩, ?_⟩
      · exact ⟨rfl, fun _ => rfl, fun _ _ h => h, fun _ _ h => h, fun _ _ _ _ => Iff.rfl,
          fun _ _ _ _ h => h, fun _ _ _ _ h => .inl h⟩
      · rintro cause rfl
        obtain ⟨_, hstop, _⟩ := hf
        exact hstop

/-- If the rule of the loop is applied as it is read, all references follow their readings. -/
theorem rulesTrack (hstatic : table.Every (·.isStatic))
    (hlabel : strict → table.Every (·.isUnlabelled))
    (hloop : ∀ l body (r : RuleBody) room, loop = some l → l.rule = r.rule →
      table.bodyAt? r.rule = some body →
        (r.body = do flatten false (← body.matcher (table.applyRule room))) →
          RulesTrack table text loop strict room →
            AppliesAfresh table text loop strict r (room + 1))
    (room : Nat) : RulesTrack table text loop strict room := by
  induction room with
  | zero =>
    intro depth ref s verdict hs _
    exact absurd hs.memo.room (Nat.not_lt_zero _)
  | succ room ih =>
    intro depth ref s verdict hs hv
    refine ensures_applyRule hs.bodies (fun undefined trace reporter hr => ?_)
      fun index body bodies trace hr hbody hbodies => ?_
    · simp only [RuleTable.readRef, hr] at hv
      cases hv
      refine ⟨⟨agrees_refuse _ _ hs.labels (fun _ => rfl) _, passes_of_eq rfl rfl rfl rfl,
        fun known _ => ?_⟩, fun _ _ => rfl⟩
      simp only [RuleTable.readRef, hr]
      rfl
    · have hfresh : AppliesAfresh table text loop strict ⟨index, ref.name, do
          flatten false (← body.matcher (table.applyRule room))⟩ (room + 1) := by
        cases hl : loop.filter (·.rule = index) with
        | none =>
          exact appliesAfresh_plain ih hbody rfl hl (hstatic index body hbody)
            fun hst => hlabel hst index body hbody
        | some l =>
          obtain ⟨hsome, hrule⟩ := Option.filter_eq_some_iff.1 hl
          have hrule : l.rule = index := by simpa using hrule
          exact hloop l body _ room hsome hrule hbody rfl ih
      have hs' : (readingSetting table text loop strict depth (room + 1)).Ready
          { s with bodies, trace } := ⟨hs.text, hs.boundary, hbodies, hs.labels, hs.memo⟩
      have hbuilt : (readingSetting table text loop strict depth (room + 1)).Passes s
          { s with bodies, trace } := ⟨rfl, fun _ => hbodies, rfl, Memo.Extends.refl _⟩
      simp only [RuleTable.readRef, hr] at hv
      rcases Reading.resume_eq_some.1 hv with ⟨cause, hread, hv⟩ | ⟨tree, stop, hread, hv⟩
      · refine (ensures_memoized hfresh hs' hread).mono ?_
        rintro result s' ⟨⟨cause', rfl, hcause⟩, hpass, hknows, hback⟩
        cases hv
        refine ⟨⟨⟨cause', rfl, hcause⟩, hbuilt.trans hpass, fun known hk => ?_⟩,
          fun _ _ => hback cause' rfl⟩
        simp only [RuleTable.readRef, hr, Reading.map, Reading.andThen, Reading.onlyAt,
          if_pos (hk _ _ hknows), hread, Reading.resume_failed]
      · refine (ensures_memoized hfresh hs' hread).mono ?_
        rintro result s' ⟨⟨rfl, rfl⟩, hpass, hknows, -⟩
        cases hv
        refine ⟨⟨⟨rfl, rfl⟩, hbuilt.trans hpass, fun known hk => ?_⟩, fun _ h => by cases h⟩
        simp only [RuleTable.readRef, hr, Reading.map, Reading.andThen, Reading.onlyAt,
          if_pos (hk _ _ hknows), hread, Reading.resume_matched]

end Rules

/-- The reply to applying a rule at an offset is the verdict. -/
inductive Reply.Confirms (strict : Prop) (start : Nat) : Reply Raw → Verdict Tree → Prop where
  /-- The match has the same value and goes equally far. -/
  | matched (tree : Tree) (s : Session) :
    Confirms strict start (.matched (.leaf tree) s) (.matched tree s.source.pos)
  /-- The failure leaves the cursor where it was and, if `strict` says so, has the same cause. -/
  | failed {cause cause' : Cause} {s : Session} (back : s.source.pos = start)
    (same : strict → cause = cause') : Confirms strict start (.failed cause s) (.failed cause')

/-- An empty memo is fit for whatever can be read, if the depth allows for all rules and offsets. -/
theorem fitToRead_start (table : RuleTable) (text : String) (loop : Option Loop) (strict : Prop)
    (depth pos : Nat) :
    FitToRead table (Text.ofString text) loop strict depth (table.depthBound text.utf8ByteSize) pos
      {} where
  right index start result stop _ he := by cases he
  waiting index start _ ha := by
    obtain ⟨id, stop, he⟩ := ha
    cases he
  quiet _ _ := rfl
  room := by
    refine (Memo.free_le _ _ _ _).trans_lt (Nat.lt_succ_of_le ?_)
    have hsize : (Text.ofString text).size = text.utf8ByteSize := rfl
    rw [hsize, Nat.mul_comm]
    refine Nat.mul_le_mul_left _ ?_
    exact (Nat.le_succ _).trans (Nat.le_mul_self _)

/-- References that follow their readings reply as they are read. -/
theorem confirms_of_rulesTrack {table : RuleTable} {text : String} {loop : Option Loop}
    {strict : Prop} (htrack : RulesTrack table (Text.ofString text) loop strict
      (table.depthBound text.utf8ByteSize)) {bodies : List (Nat × Atom)}
    (hbodies : table.Knows bodies) (options : Options) {pos : Nat}
    (hpos : (Text.ofString text).isBoundary pos = true) {depth : Nat} {ref : RuleRef}
    {verdict : Verdict Tree}
    (hv : table.readRef (table.readRule (Text.ofString text) loop depth) ref pos = some verdict) :
    (table.applyRule (table.depthBound text.utf8ByteSize) ref
      (Session.startAt text options bodies pos)).Confirms strict pos verdict := by
  have hready : (readingSetting table (Text.ofString text) loop strict depth
      (table.depthBound text.utf8ByteSize)).Ready (Session.startAt text options bodies pos) :=
    ⟨rfl, hpos, hbodies, fun _ => rfl, fitToRead_start ..⟩
  cases verdict with
  | failed cause =>
    have hread : ((table.readRef (table.readRule (Text.ofString text) loop depth) ref).map
        Raw.leaf) pos = some (.failed cause) := by
      simp only [Reading.map, Reading.andThen, hv, Reading.resume_failed]
    rcases (htrack depth ref _ _ hready hread).exists_reply with
      ⟨cause', s', hr, hm, hback⟩ | ⟨raw, s', hr, hm, -⟩
    · obtain ⟨_, heq, hcause⟩ := hm.agrees
      cases heq
      rw [hr]
      exact .failed (hback _ rfl) hcause
    · obtain ⟨_, heq, _⟩ := hm.agrees
      cases heq
  | matched tree stop =>
    have hread : ((table.readRef (table.readRule (Text.ofString text) loop depth) ref).map
        Raw.leaf) pos = some (.matched (.leaf tree) stop) := by
      simp only [Reading.map, Reading.andThen, hv, Reading.resume_matched]
    rcases (htrack depth ref _ _ hready hread).exists_reply with
      ⟨cause', s', hr, hm, -⟩ | ⟨raw, s', hr, hm, -⟩
    · cases hm.agrees.1
    · obtain ⟨heq, hstop⟩ := hm.agrees
      cases heq
      rw [hr, ← hstop]
      exact .matched tree s'

/-- Packrat matching is transparent: without dynamic expressions, a rule that reads something by plain
recursion comes to the same through an empty memo, from every offset of every text. Without labels a
failure has the same cause as well. -/
theorem applyRule_confirms_reading (table : RuleTable) (hstatic : table.Every (·.isStatic))
    (bodies : List (Nat × Atom)) (hbodies : table.Knows bodies) (ref : RuleRef) (text : String)
    (options : Options) (pos : Nat) (hpos : (Text.ofString text).isBoundary pos = true)
    (verdict : Verdict Tree) (hv : table.ReadsPlainly (Text.ofString text) ref pos verdict) :
    (table.applyRule (table.depthBound text.utf8ByteSize) ref
      (Session.startAt text options bodies pos)).Confirms (table.Every (·.isUnlabelled)) pos
        verdict := by
  obtain ⟨depth, hv⟩ := hv
  have htrack : RulesTrack table (Text.ofString text) none (table.Every (·.isUnlabelled))
      (table.depthBound text.utf8ByteSize) :=
    rulesTrack hstatic id (fun _ _ _ _ h => by cases h) _
  exact confirms_of_rulesTrack htrack hbodies options hpos hv

/-- One rule, which reads a run of one letter and leaves out the rest of the text. -/
def runTable : RuleTable :=
  ⟨1, [⟨"run", fun rules => .choice [.sequence [.literal "a", rules.rule "run"], .halt]⟩]⟩

/-- The grammar of runs chooses nothing at match time. -/
theorem runTable_isStatic : runTable.Every (·.isStatic) := by
  intro index body h
  match index with
  | 0 =>
    cases h
    simp [Rules.rule, Atom.isStatic]
  | index + 1 => cases h

/-- The run is read up to the end of the text, and matched as it is read. -/
theorem run_confirms_reading :
    (runTable.applyRule (runTable.depthBound "aab".utf8ByteSize) (runTable.rules.ref "run")
      (Session.startAt "aab" {} [] 0)).Confirms (runTable.Every (·.isUnlabelled)) 0
        (.matched (.str ⟨Text.ofString "aab", 0, 2, 0⟩) 3) :=
  applyRule_confirms_reading runTable runTable_isStatic [] runTable.knows_nil
    (runTable.rules.ref "run") "aab" {} 0 (Text.isBoundary_zero _) _ ⟨5, by cbv⟩

end Packrat
