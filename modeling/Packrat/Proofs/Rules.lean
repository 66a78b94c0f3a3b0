import Packrat.Parse
import Packrat.Proofs.Ensures
import Packrat.Proofs.Parts
import Packrat.Proofs.Telling

/-!
# Applying rules

How a rule is applied, told as what each step ensures. Applying a rule afresh enters it, matches its
body and leaves it again; what is done on leaving depends on whether the rule was found to be
left-recursive in the meantime.
-/

namespace Packrat

open Matcher

/-- The memo after a rule was entered at an offset: its record is on top of the call path, and its
entry says that it is being applied. -/
def Memo.enter (memo : Memo) (rule start : Nat) (seed : Except Cause Tree) : Memo :=
  (memo.countMiss.push rule start seed).2.remember rule start
    (.inProgress memo.applications.size) start

/-- The rule that is entered gets the next record, linked to what was on top. -/
theorem Memo.applications_enter (memo : Memo) (rule start : Nat) (seed : Except Cause Tree) :
    (memo.enter rule start seed).applications
      = memo.applications.push ⟨rule, start, seed, none, memo.top⟩ := rfl

/-- The memo after a rule was left that is not left-recursive: its record is given back and what it
came to is remembered. -/
def Memo.leave (memo : Memo) (id rule start : Nat) (result : Except Cause Tree) (stop : Nat) : Memo :=
  ((memo.pop id).release id).remember rule start (.done result) stop

/-- The memo after the body of a left-recursive rule was matched: what it came to is the seed. -/
def Memo.leaveSeeded (memo : Memo) (id rule start : Nat) (seed : Except Cause Tree) (stop : Nat) :
    Memo :=
  ((memo.pop id).modifyApplication id fun a => { a with seed }).remember rule start
    (.inProgress id) stop

/-- The memo after the head of a cluster was left that is about to be grown: its match is remembered. -/
def Memo.leaveHead (memo : Memo) (id rule start : Nat) (tree : Tree) (stop : Nat) : Memo :=
  (memo.leaveSeeded id rule start (.ok tree) stop).remember rule start (.done (.ok tree)) stop

/-- The memo at the start of a round of growing: all members of the cluster are to be applied again. -/
def Memo.refill (memo : Memo) (c : Nat) : Memo :=
  memo.modifyCluster c fun cluster => { cluster with pending := cluster.involved }

/-- The memo after a member of a cluster was taken from those to be applied again. -/
def Memo.redo (memo : Memo) (c rule : Nat) : Memo :=
  memo.modifyCluster c fun cluster => { cluster with pending := cluster.pending.erase rule }

/-- The memo at the start of the first round of growing a cluster at an offset. -/
def Memo.startGrowth (memo : Memo) (start c : Nat) : Memo :=
  ({ memo with growing := memo.growing.insert start c } : Memo).refill c

/-- The memo after a round in which the match has become longer. -/
def Memo.longer (memo : Memo) (rule start : Nat) (tree : Tree) (reached : Nat) : Memo :=
  memo.countGrowth.remember rule start (.done (.ok tree)) reached

/-- The members of a cluster that the last round of growing did not apply again. -/
def Memo.stale (memo : Memo) (c : Nat) : List Nat := (memo.clusters[c]?.map (·.pending)).getD []

/-- The memo after no member of a cluster is to be applied again any more. -/
def Memo.clearDue (memo : Memo) (c : Nat) : Memo :=
  memo.modifyCluster c fun cluster => { cluster with pending := [] }

/-- The memo after the last round of growing a cluster at an offset, where `outer` was grown before. -/
def Memo.endGrowth (memo : Memo) (start c : Nat) : (outer : Option Nat) → Memo
  | some id => { memo.clearDue c with growing := memo.growing.insert start id }
  | none =>
    let settled : Memo := { memo.clearDue c with growing := memo.growing.erase start }
    settled.forget (settled.known (memo.stale c) start) start

/-- The memo after the head of a cluster has matched nothing. -/
def Memo.failHead (memo : Memo) (rule start stop c : Nat) (involved : List Nat) (cause : Cause) : Memo :=
  let failed := (memo.remember rule start (.done (.error cause)) stop).modifyCluster c fun cluster =>
    { cluster with involved := [] }
  if memo.growing.contains start then failed else failed.forget (failed.known involved start) start

/-- Applies the rule that a reference leads to, given how rules are applied. -/
def RuleTable.applyBy (table : RuleTable) (step : Nat → Atom → Matcher Tree) (ref : RuleRef) :
    Matcher Raw := do
  match ← table.resolve ref with
  | none => RuleTable.refuseUndefined ref.name
  | some (index, atom) => return .leaf (← step index atom)

/-- Applies the rule that a reference leads to, given how the bodies of rules are matched. -/
def RuleTable.applyWith (table : RuleTable) (body : Nat → Atom → Matcher Raw) (ref : RuleRef) :
    Matcher Raw := do
  match ← table.resolve ref with
  | none => RuleTable.refuseUndefined ref.name
  | some (index, atom) => return .leaf (← memoized ⟨index, ref.name, do flatten false (← body index atom)⟩)

/-- A rule is applied by matching its body with one level less to go. -/
theorem RuleTable.applyRule_succ (table : RuleTable) (depth : Nat) (ref : RuleRef) :
    table.applyRule (depth + 1) ref
      = table.applyWith (fun _ atom => atom.matcher (table.applyRule depth)) ref := rfl

namespace Matcher

variable {lenient : Stop → Prop} {s : Session}

/-- A reference leads to the body of a rule, which may be built for it, or leads nowhere. -/
theorem ensures_resolve {table : RuleTable} {ref : RuleRef}
    {post : Except Cause (Option (Nat × Atom)) → Session → Prop} (hb : table.Knows s.bodies)
    (hnone : table.resolve? ref = none → post (.ok none) s)
    (hsome : ∀ index atom bodies trace, table.resolve? ref = some index →
      table.bodyAt? index = some atom → table.Knows bodies →
        post (.ok (some (index, atom))) { s with bodies, trace }) :
    Ensures lenient (table.resolve ref) s post := by
  unfold RuleTable.resolve Ensures
  cases hr : table.resolve? ref with
  | none => exact hnone hr
  | some index =>
    obtain ⟨body, hbody⟩ := RuleTable.bodyAt?_isSome hr
    obtain ⟨definition, hdef, hbuild⟩ := Option.map_eq_some_iff.1 hbody
    cases hl : s.bodies.lookup index with
    | some atom =>
      simp only [Option.bind_some, RuleTable.body?, hl, Option.map_some]
      exact hsome index atom s.bodies s.trace hr (hb index atom hl) hb
    | none =>
      simp only [Option.bind_some, RuleTable.body?, hl, hdef, Option.map_some, hbuild]
      exact hsome index body _ _ hr hbody (hb.cons hbody)

/-- Applying a reference comes to refusing it or to applying a rule, however that is done. -/
theorem ensures_applyBy {table : RuleTable} {ref : RuleRef} {step : Nat → Atom → Matcher Tree}
    {post : Except Cause Raw → Session → Prop} (hb : table.Knows s.bodies)
    (hnone : ∀ undefined trace reporter, table.resolve? ref = none →
      post (.error ⟨.undefinedRule ref.name, s.source.pos, none, s.labels.head?, []⟩)
        { s with undefined, trace, reporter })
    (hsome : ∀ index atom bodies trace, table.resolve? ref = some index →
      table.bodyAt? index = some atom → table.Knows bodies →
        Ensures lenient (step index atom) { s with bodies, trace } fun result s' => post (result.map .leaf) s') :
    Ensures lenient (table.applyBy step ref) s post := by
  simp only [RuleTable.applyBy, ensures_bind]
  refine ensures_resolve hb (fun hr => ?_) fun index atom bodies trace hr hbody hbodies => ?_
  · simp only [RuleTable.refuseUndefined, ensures_bind, ensures_session]
    split <;> exact hnone _ _ _ hr
  · simp only [ensures_bind, ensures_pure]
    refine (hsome index atom bodies trace hr hbody hbodies).mono fun result s' h => ?_
    cases result <;> exact h

/-- Applying a reference comes to refusing it or to applying a rule through the memo, however bodies are
matched. -/
theorem ensures_applyWith {table : RuleTable} {ref : RuleRef} {body : Nat → Atom → Matcher Raw}
    {post : Except Cause Raw → Session → Prop} (hb : table.Knows s.bodies)
    (hnone : ∀ undefined trace reporter, table.resolve? ref = none →
      post (.error ⟨.undefinedRule ref.name, s.source.pos, none, s.labels.head?, []⟩)
        { s with undefined, trace, reporter })
    (hsome : ∀ index atom bodies trace, table.resolve? ref = some index →
      table.bodyAt? index = some atom → table.Knows bodies →
        Ensures lenient (memoized ⟨index, ref.name, do flatten false (← body index atom)⟩)
          { s with bodies, trace } fun result s' => post (result.map .leaf) s') :
    Ensures lenient (table.applyWith body ref) s post :=
  ensures_applyBy hb hnone hsome

/-- The same with bodies matched in the usual way. -/
theorem ensures_applyRule {table : RuleTable} {ref : RuleRef} {depth : Nat}
    {post : Except Cause Raw → Session → Prop} (hb : table.Knows s.bodies)
    (hnone : ∀ undefined trace reporter, table.resolve? ref = none →
      post (.error ⟨.undefinedRule ref.name, s.source.pos, none, s.labels.head?, []⟩)
        { s with undefined, trace, reporter })
    (hsome : ∀ index atom bodies trace, table.resolve? ref = some index →
      table.bodyAt? index = some atom → table.Knows bodies →
        Ensures lenient (memoized ⟨index, ref.name, do
          flatten false (← atom.matcher (table.applyRule depth))⟩) { s with bodies, trace }
            fun result s' => post (result.map .leaf) s') :
    Ensures lenient (table.applyRule (depth + 1) ref) s post := by
  rw [RuleTable.applyRule_succ]
  exact ensures_applyWith hb hnone hsome

/-- What a fresh application ensures, in terms of the body and of what is done on leaving. -/
theorem ensures_applyFreshWith (r : RuleBody) (first round : Nat → Matcher Tree) (start : Nat)
    (post : Except Cause Tree → Session → Prop) :
    Ensures lenient (applyFreshWith .none r first round start) s post ↔
      Ensures lenient (first s.memo.applications.size)
        { s with memo := s.memo.enter r.rule start (.error (r.failed start)) } fun result s' =>
          let id := s.memo.applications.size
          match (s'.memo.application? id).bind (·.cluster) with
          | some cluster =>
            Ensures lenient (answerCluster { r with body := round id } start cluster result)
              { s' with memo := s'.memo.leaveSeeded id r.rule start result s'.source.pos } post
          | none =>
            post result { s' with memo := s'.memo.leave id r.rule start result s'.source.pos } := by
  simp only [applyFreshWith, answerWith_none, remember, ensures_bind, ensures_modifyMemo, ensures_memo,
    ensures_attempt, ensures_position]
  refine Iff.of_eq (congrArg _ ?_)
  funext result s'
  change Ensures lenient (match (s'.memo.application? s.memo.applications.size).bind (·.cluster) with
    | some cluster => _ | none => _) _ post = _
  split
  · simp only [ensures_bind, ensures_modifyMemo]
    rfl
  · simp only [ensures_bind, ensures_modifyMemo, ensures_ofResult]
    rfl

/-- The same with one body. -/
theorem ensures_applyFresh (r : RuleBody) (start : Nat)
    (post : Except Cause Tree → Session → Prop) :
    Ensures lenient (applyFresh r start) s post ↔
      Ensures lenient r.body
        { s with memo := s.memo.enter r.rule start (.error (r.failed start)) } fun result s' =>
          let id := s.memo.applications.size
          match (s'.memo.application? id).bind (·.cluster) with
          | some cluster =>
            Ensures lenient (answerCluster r start cluster result)
              { s' with memo := s'.memo.leaveSeeded id r.rule start result s'.source.pos } post
          | none =>
            post result { s' with memo := s'.memo.leave id r.rule start result s'.source.pos } :=
  ensures_applyFreshWith r (fun _ => r.body) (fun _ => r.body) start post

/-- A member of a cluster other than the head hands on what it has come to. -/
theorem ensures_answerCluster_member {r : RuleBody} {start c : Nat} {found : Cluster}
    {result : Except Cause Tree} (hfound : s.memo.clusters[c]? = some found) (hhead : found.head ≠ r.rule)
    (post : Except Cause Tree → Session → Prop) :
    Ensures lenient (answerCluster r start c result) s post ↔ post result s := by
  simp only [answerCluster, ensures_bind, ensures_memo, hfound]
  rw [if_pos (by simpa using hhead), ensures_ofResult]

/-- The head of a cluster grows what it has matched. -/
theorem ensures_answerCluster_ok {r : RuleBody} {start c : Nat} {found : Cluster} {tree : Tree}
    (hfound : s.memo.clusters[c]? = some found) (hhead : found.head = r.rule)
    (post : Except Cause Tree → Session → Prop) :
    Ensures lenient (answerCluster r start c (.ok tree)) s post ↔
      Ensures lenient (grow r start c tree s.source.pos)
        { s with memo := s.memo.remember r.rule start (.done (.ok tree)) s.source.pos } post := by
  simp only [answerCluster, remember, ensures_bind, ensures_memo, hfound, hhead, bne_self_eq_false,
    Bool.false_eq_true, if_false, ensures_position, ensures_modifyMemo]

/-- The head of a cluster that has matched nothing forgets the members, unless a cluster is being grown at
the offset. -/
theorem ensures_answerCluster_error {r : RuleBody} {start c : Nat} {found : Cluster} {cause : Cause}
    (hfound : s.memo.clusters[c]? = some found) (hhead : found.head = r.rule)
    (post : Except Cause Tree → Session → Prop) :
    Ensures lenient (answerCluster r start c (.error cause)) s post ↔
      Ensures lenient (do
        if !s.memo.growing.contains start then forget found.involved start
        fail cause)
        { s with
          memo := (s.memo.remember r.rule start (.done (.error cause)) s.source.pos).modifyCluster c
            fun cluster => { cluster with involved := [] } } post := by
  simp only [answerCluster, remember, ensures_bind, ensures_memo, hfound, hhead, bne_self_eq_false,
    Bool.false_eq_true, if_false, ensures_position, ensures_modifyMemo]
  rfl

/-- What the head of a cluster that has matched nothing ensures: its failure, with the members forgotten. -/
theorem ensures_answerCluster_failed {r : RuleBody} {start c : Nat} {found : Cluster} {cause : Cause}
    (hfound : s.memo.clusters[c]? = some found) (hhead : found.head = r.rule)
    {post : Except Cause Tree → Session → Prop}
    (h : ∀ trace, post (.error cause)
      { s with memo := s.memo.failHead r.rule start s.source.pos c found.involved cause, trace }) :
    Ensures lenient (answerCluster r start c (.error cause)) s post := by
  rw [ensures_answerCluster_error hfound hhead]
  unfold Memo.failHead at h
  cases hgrown : s.memo.growing.contains start with
  | true =>
    simp only [hgrown, if_true] at h
    exact h s.trace
  | false =>
    simp only [hgrown, Bool.false_eq_true, if_false] at h
    simp only [Bool.not_false, if_true, forget, ensures_bind, ensures_memo, ensures_modifyMemo,
      ensures_modify, ensures_fail]
    exact h _

/-- What growing ensures, in terms of its rounds. -/
theorem ensures_grow {r : RuleBody} {start c stop : Nat} {seed : Tree}
    {post : Except Cause Tree → Session → Prop}
    (h : Ensures lenient (growFrom r start c (s.source.text.size + 1) seed stop)
      { s with memo := { s.memo with growing := s.memo.growing.insert start c } } fun result s' =>
        match result with
        | .error cause => post (.error cause) s'
        | .ok (best, stop) => s'.source.text.isBoundary stop = true ∧ ∀ trace, post (.ok best)
          { s' with
            source.pos := stop
            memo := s'.memo.endGrowth start c s.memo.growing[start]?
            trace }) :
    Ensures lenient (grow r start c seed stop) s post := by
  simp only [grow, ensures_bind, ensures_memo, ensures_modifyMemo, ensures_source]
  refine h.mono fun result s' hpost => ?_
  rcases result with cause | ⟨best, stop⟩
  · exact hpost
  · obtain ⟨hb, hpost⟩ := hpost
    dsimp only
    cases houter : s.memo.growing[start]? with
    | some id =>
      simp only [ensures_bind, ensures_modifyMemo, ensures_moveTo, hb, ensures_pure]
      simp only [houter] at hpost
      exact hpost s'.trace
    | none =>
      simp only [ensures_bind, ensures_modifyMemo, forget, ensures_memo, ensures_modify,
        ensures_moveTo, hb, ensures_pure]
      simp only [houter] at hpost
      exact hpost _

end Matcher

/-- The session in which a match starts at an offset, with nothing remembered. -/
def Session.startAt (text : String) (options : Options) (bodies : List (Nat × Atom)) (pos : Nat) :
    Session :=
  { Session.start text options bodies with source := { Source.ofString text with pos } }

/-- One rule, a left-recursive sum of `n`s. -/
def sumTable : RuleTable :=
  ⟨1, [⟨"sum", fun rules => .choice
    [.sequence [rules.rule "sum", .literal "+", .literal "n"], .literal "n"]⟩]⟩

/-- A reference leads to the body of its rule, which may be built for it. -/
theorem RuleTable.exists_resolved {table : RuleTable} {ref : RuleRef} {index : Nat} {atom : Atom} {s : Session}
    (hr : table.resolve? ref = some index) (hatom : table.bodyAt? index = some atom)
    (hb : table.Knows s.bodies) : ∃ bodies trace, table.Knows bodies ∧
      table.resolve ref s = .matched (some (index, atom)) { s with bodies, trace } := by
  have hresolved : Ensures unbroken (table.resolve ref) s fun result s' =>
      ∃ bodies trace, table.Knows bodies ∧ result = .ok (some (index, atom)) ∧
        s' = { s with bodies, trace } := by
    refine ensures_resolve hb (fun hnone => ?_) fun index' atom' bodies trace hr' hatom' hbodies => ?_
    · rw [hr] at hnone
      cases hnone
    · rw [hr] at hr'
      cases hr'
      rw [hatom] at hatom'
      cases hatom'
      exact ⟨bodies, trace, hbodies, rfl, rfl⟩
  obtain ⟨cause, s', -, bodies, trace, -, heq, -⟩ | ⟨value, s', hreply, bodies, trace, hbodies, heq, rfl⟩ :=
    hresolved.exists_reply
  · cases heq
  · cases heq
    exact ⟨bodies, trace, hbodies, hreply⟩

/-- A rule as it is applied, with at most so many rules inside its body. -/
def RuleTable.ruleBody (table : RuleTable) (depth : Nat) (name : String) (index : Nat) (atom : Atom) :
    RuleBody := ⟨index, name, do flatten false (← atom.matcher (table.applyRule depth))⟩

/-- Applying a reference comes to applying its rule through the memo. -/
theorem RuleTable.exists_applyRule_eq {table : RuleTable} {ref : RuleRef} {index : Nat} {atom : Atom}
    {s : Session} (hr : table.resolve? ref = some index) (hatom : table.bodyAt? index = some atom)
    (hb : table.Knows s.bodies) : ∃ bodies trace, table.Knows bodies ∧ ∀ depth,
      table.applyRule (depth + 1) ref s = (do
        return Raw.leaf (← memoized (table.ruleBody depth ref.name index atom))) { s with bodies, trace } := by
  obtain ⟨bodies, trace, hbodies, hreply⟩ := exists_resolved hr hatom hb
  exact ⟨bodies, trace, hbodies, fun depth => bind_of_matched hreply⟩

/-- The cursor is back where the body of a rule started, if that fails. -/
theorem givesBack_ruleBody (table : RuleTable) (depth : Nat) (name : String) (index : Nat) (atom : Atom)
    (s : Session) : Ensures anyhow (table.ruleBody depth name index atom).body s fun result s' =>
      ∀ cause, result = .error cause → s'.source.pos = s.source.pos := by
  simp only [RuleTable.ruleBody, ensures_bind]
  refine (givesBack_matcher (table.applyRule depth) atom s).mono fun result s' hback => ?_
  cases result with
  | error cause => exact fun _ _ => hback cause rfl
  | ok raw => exact ensures_flatten _ _ _ fun _ _ _ heq => by cases heq

end Packrat
