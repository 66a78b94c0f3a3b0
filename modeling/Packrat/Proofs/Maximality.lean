import Mathlib
import Packrat.Proofs.Lockstep
import Packrat.Proofs.PassingOn
import Packrat.Proofs.Indirection
import Packrat.Proofs.LeftRecursion

/-!
# Where growing stops

Growing stops where matching the body of the rule once more does not lead further. That need not be where
the rule could be made to end: a round applies the other members of the cluster again, and what comes of
this takes the place even of a longer match that a member has grown to by itself inside of the same round.
-/

namespace Packrat

open Matcher Course

/-- The session after a rule was left that came back to itself, at the start of growing its match. -/
def Session.startGrowth (s : Session) (id rule start c : Nat) (tree : Tree) : Session :=
  { s with memo := { s.memo.leaveHead id rule start tree s.source.pos with
      growing := s.memo.growing.insert start c } }

/-- Rounds of growing the cluster of the rule at the offset, each of which made the match longer, lead from
the first match and session to the second ones. -/
inductive Grown (r : RuleBody) (start c : Nat) (tree : Tree) (stop : Nat) (s : Session) :
    Tree → Nat → Session → Prop
  | seed : Grown r start c tree stop s tree stop s
  | round {best : Tree} {reached : Nat} {t : Session} {longer : Tree} {t' : Session} :
    Grown r start c tree stop s best reached t → r.body (t.round start c) = .matched longer t' →
    reached < t'.source.pos → Grown r start c tree stop s longer t'.source.pos
      { t'.grew r.rule start longer with trace := .seedGrew r.name start t'.source.pos :: t'.trace }

/-- The rule is about to be matched once more at the cursor while its cluster is grown: what it has matched
so far is remembered, and all other members are to be applied again. -/
structure Session.Growing (s : Session) (rule c : Nat) (tree : Tree) (stop : Nat) : Prop where
  known : s.memo.find? rule s.source.pos = some ⟨.done (.ok tree), stop⟩
  registered : ∃ cluster, s.memo.growing? s.source.pos = some (c, cluster) ∧
    cluster.pending = cluster.involved

/-- In the second session the body of the rule was matched for the last time when the rule was applied in
the first one and matched up to an offset. If the rule did not come back to itself, its body was matched
once; otherwise it was grown from a seed, and the last round was to make the match longer. -/
inductive LastTry (r : RuleBody) (s : Session) : Tree → Nat → Session → Prop
  | once {tree : Tree} {t : Session} : r.body (s.enter r s.source.pos) = .matched tree t →
    t.memo.clusterAt? s.memo.applications.size = none →
    LastTry r s tree t.source.pos (s.enter r s.source.pos)
  | grown {seed tree : Tree} {stop c : Nat} {cluster : Cluster} {t t' : Session} :
    r.body (s.enter r s.source.pos) = .matched seed t →
    t.memo.clusterAt? s.memo.applications.size = some c → t.memo.clusters[c]? = some cluster →
    cluster.head = r.rule →
    Grown r s.source.pos c seed t.source.pos
      (t.startGrowth s.memo.applications.size r.rule s.source.pos c seed) tree stop t' →
    (t'.round s.source.pos c).Growing r.rule c tree stop →
    LastTry r s tree stop (t'.round s.source.pos c)

section Rounds

variable {table : RuleTable} {text : Text} {u : Underway} {depth start c : Nat} {r : RuleBody}
  {s s₀ : Session} {memo : Memo} {seed best : Tree} {stop₀ stop : Nat}

/-- What is remembered of the rule at the start of a round, and what is grown there. -/
theorem growing_round (hknown : s.memo.find? r.rule start = some ⟨.done (.ok best), stop⟩)
    (hs : ((Regime.bare table text anyhow False).course (u.grow c r.rule start) depth).Start
      (s.round start c)) : (s.round start c).Growing r.rule c best stop := by
  have ha := hs.memo.fits.accounts
  have hg : (s.round start c).memo.growing[start]? = some c := by
    rw [ha.growing]
    simp [Underway.grow]
  obtain ⟨-, cluster, hcluster⟩ := ha.grown ⟨c, r.rule, start⟩ List.mem_cons_self
  refine ⟨hknown, cluster, growing?_eq_some.2 ⟨hg, hcluster⟩, ?_⟩
  have hrefilled : (s.memo.refill c).clusters[c]? = some cluster := hcluster
  rw [Memo.refill, Memo.clusters_modifyCluster] at hrefilled
  obtain ⟨before, -, rfl⟩ := Option.map_eq_some_iff.1 hrefilled
  rw [if_pos rfl]

/-- Growing goes on until a round does not make the match longer. -/
theorem ensures_growFrom_grown
    (hends : ∀ u, ((Regime.bare table text anyhow False).course u depth).Ends r.body)
    (happlying : (Regime.bare table text anyhow False).Applying u r.rule start memo)
    (hfresh : ∀ g ∈ u.grown, g.cluster ≠ c) (hgrown : Grown r start c seed stop₀ s₀ best stop s)
    (hknown : s.memo.find? r.rule start = some ⟨.done (.ok best), stop⟩)
    (hs : ((Regime.bare table text anyhow False).course (u.grow c r.rule start) depth).Start
      (s.round start c)) (bound : Nat) :
    Ensures anyhow (growFrom r start c bound best stop) s fun result _ => ∀ tree reached,
      result = .ok (tree, reached) → ∃ t, Grown r start c seed stop₀ s₀ tree reached t ∧
        (t.round start c).Growing r.rule c tree reached ∧ ∀ longer t',
          r.body (t.round start c) = .matched longer t' → t'.source.pos ≤ reached := by
  induction bound generalizing s best stop with
  | zero => exact trivial
  | succ bound ih =>
    have hb : s.source.text.isBoundary start = true := hs.text ▸ hs.boundary
    have hgrowing := growing_round hknown hs
    simp only [growFrom, ensures_bind, ensures_moveTo hb, ensures_modifyMemo, ensures_attempt,
      ensures_position]
    have hbody := hends _ _ hs
    change Ensures anyhow r.body (s.round start c) _
    cases hreply : r.body (s.round start c) with
    | stopped reason =>
      rw [Ensures, hreply]
      exact trivial
    | failed cause t =>
      rw [Ensures, hreply]
      rintro tree reached ⟨⟩
      refine ⟨s, hgrown, hgrowing, fun longer t' hmatched => ?_⟩
      rw [hreply] at hmatched
      cases hmatched
    | matched tree t =>
      have he := hbody.of_matched hreply
      rw [Ensures, hreply]
      dsimp only
      split
      · rename_i hlt
        have hround : (Regime.bare table text anyhow False).Round u r.rule start c memo best stop
            (s.memo.refill c) (.ok tree) t.source.pos t.memo :=
          ⟨happlying, hfresh, trivial, hs.memo.fits, he.forward, he.boundary,
            he.passes.memo hs.memo.fits, trivial⟩
        simp only [ensures_bind, ensures_modifyMemo, ensures_emit, Matcher.remember]
        obtain ⟨hnext, -⟩ := hround.next (Regime.lawful_bare ..) hlt hs he
          (.seedGrew r.name start t.source.pos :: t.trace)
        refine ih (hgrown.round hreply hlt) ?_ (hnext.start hs)
        exact Memo.find?_remember_self ..
      · rename_i hge
        rintro _ _ ⟨⟩
        refine ⟨s, hgrown, hgrowing, fun longer t' hmatched => ?_⟩
        rw [hreply] at hmatched
        cases hmatched
        exact Nat.le_of_not_lt hge

end Rounds

section Fresh

variable {table : RuleTable} {text : Text} {depth c : Nat} {r : RuleBody} {s t : Session}
  {result : Except Cause Tree}

/-- With nothing else under way, a rule is the head of the cluster it belongs to. -/
theorem Regime.Matched.exists_head
    (hm : (Regime.bare table text anyhow False).Matched {} depth r.rule (r.failed s.source.pos) s result t)
    (hc : t.memo.clusterAt? s.memo.applications.size = some c) :
    ∃ cluster, t.memo.clusters[c]? = some cluster ∧ cluster.head = r.rule := by
  obtain ⟨-, cluster, hcluster, w, hw, -, -, hhead, -⟩ :=
    hm.entered.goes.fits.accounts.clustered _ List.mem_cons_self c hc
  obtain rfl : w = ⟨s.memo.applications.size, r.rule, s.source.pos⟩ := List.mem_singleton.1 hw
  exact ⟨cluster, hcluster, hhead.symm⟩

/-- A rule that has come back to itself, with nothing else under way, is grown up to an offset that the last
round does not lead beyond. -/
theorem ensures_grow_tried {tree : Tree} {cluster : Cluster}
    (hends : ∀ u, ((Regime.bare table text anyhow False).course u depth).Ends r.body)
    (hs : ((Regime.bare table text anyhow False).course {} (depth + 1)).Start s)
    (hentering : (Regime.bare table text anyhow False).Entering {} r.rule s.source.pos s.memo)
    (hm : (Regime.bare table text anyhow False).Matched {} depth r.rule (r.failed s.source.pos) s (.ok tree) t)
    (hreply : r.body (s.enter r s.source.pos) = .matched tree t)
    (hc : t.memo.clusterAt? s.memo.applications.size = some c) (hcluster : t.memo.clusters[c]? = some cluster)
    (hhead : cluster.head = r.rule) :
    Ensures anyhow (grow r s.source.pos c tree t.source.pos)
      { t with memo := t.memo.leaveHead s.memo.applications.size r.rule s.source.pos tree t.source.pos }
      fun result s' => ∀ tree, result = .ok tree → ∃ context, LastTry r s tree s'.source.pos context ∧
        ∀ longer t', r.body context = .matched longer t' → t'.source.pos ≤ s'.source.pos := by
  obtain ⟨hfresh, -⟩ := hm.entered.apart hc hcluster
  have hstart := hm.start_grow (Regime.lawful_bare ..) hs hc hcluster hhead
  simp only [grow, ensures_bind, ensures_memo, ensures_modifyMemo, ensures_source]
  refine (ensures_growFrom_grown hends hentering.toApplying hfresh .seed ?_ ?_ _).mono ?_
  · exact Memo.find?_remember_self ..
  · exact hstart
  rintro (cause | ⟨best, stop⟩) t₁ htried
  · rintro _ ⟨⟩
  · obtain ⟨t', hgrown, hgrowing, hlast⟩ := htried best stop rfl
    have hlasttry := LastTry.grown hreply hc hcluster hhead hgrown hgrowing
    -- what is done on leaving moves the cursor to where the match ends
    dsimp only
    split
    · simp only [ensures_bind, ensures_modifyMemo]
      refine ensures_moveTo_anyhow ?_
      rintro _ ⟨⟩
      exact ⟨_, hlasttry, hlast⟩
    · simp only [ensures_bind, ensures_modifyMemo, forget, ensures_memo, ensures_modify]
      refine ensures_moveTo_anyhow ?_
      rintro _ ⟨⟩
      exact ⟨_, hlasttry, hlast⟩

/-- A rule that is applied with nothing else under way matches up to an offset that its last try does not
lead beyond. -/
theorem ensures_applyFresh_tried
    (hends : ∀ u, ((Regime.bare table text anyhow False).course u depth).Ends r.body)
    (hs : ((Regime.bare table text anyhow False).course {} (depth + 1)).Start s)
    (hentering : (Regime.bare table text anyhow False).Entering {} r.rule s.source.pos s.memo) :
    Ensures anyhow (applyFresh r s.source.pos) s fun result s' => ∀ tree, result = .ok tree →
      ∃ context, LastTry r s tree s'.source.pos context ∧ ∀ longer t, r.body context = .matched longer t →
        t.source.pos ≤ s'.source.pos := by
  have hbody := Regime.ensures_matched hs hentering hends
  rw [ensures_applyFresh]
  change Ensures anyhow r.body (s.enter r s.source.pos) _
  cases hreply : r.body (s.enter r s.source.pos) with
  | stopped reason =>
    rw [Ensures, hreply]
    exact trivial
  | failed cause t =>
    have hm := hbody.of_failed hreply
    rw [Ensures, hreply]
    dsimp only
    split
    · rename_i c hc
      obtain ⟨cluster, hcluster, hhead⟩ := hm.exists_head hc
      refine ensures_answerCluster_failed ?_ hhead fun _ _ heq => ?_
      · exact hcluster
      · cases heq
    · rintro _ ⟨⟩
  | matched tree t =>
    have hm := hbody.of_matched hreply
    rw [Ensures, hreply]
    dsimp only
    split
    · rename_i c hc
      have hc : t.memo.clusterAt? s.memo.applications.size = some c := hc
      obtain ⟨cluster, hcluster, hhead⟩ := hm.exists_head hc
      refine (ensures_answerCluster_ok ?_ hhead _).2 ?_
      · exact hcluster
      have hgrow := ensures_grow_tried hends hs hentering hm hreply hc hcluster hhead
      exact hgrow
    · rename_i hnone
      rintro _ ⟨⟩
      refine ⟨_, .once hreply hnone, fun longer t' hmatched => ?_⟩
      rw [hreply] at hmatched
      cases hmatched
      exact Nat.le_refl _

end Fresh

/-- What a match has come to is what has been found. -/
theorem Matcher.exists_matched_of_finding {α : Type} {reply : Reply α} {value : α} {stop : Nat}
    (h : reply.finding = .ok (some value, stop)) : ∃ s, reply = .matched value s ∧ s.source.pos = stop := by
  cases reply with
  | stopped reason => cases h
  | failed cause s => cases h
  | matched value' s =>
    cases h
    exact ⟨s, rfl, rfl⟩

/-- What is grown cannot be made longer. If a rule, applied at an offset with nothing remembered, matches up
to some other, then matching its body once more in the context of its last try does not get beyond that:
if the rule has not come back to itself, its body was matched once; otherwise it was grown, round after
round from a seed, and in the context of the last round the match found so far is remembered, the cluster of
the rule is grown, and all its other members are still to be applied again. -/
theorem applyRule_leads_no_further (table : RuleTable) (ref : RuleRef) (index : Nat) (atom : Atom)
    (href : table.resolve? ref = some index) (hatom : table.bodyAt? index = some atom)
    (bodies : List (Nat × Atom)) (hbodies : table.Knows bodies) (text : String) (options : Options) (pos : Nat)
    (hpos : (Text.ofString text).isBoundary pos = true) (raw : Raw) (s' : Session)
    (hmatched : table.applyRule (table.depthBound text.utf8ByteSize) ref
      (Session.startAt text options bodies pos) = .matched raw s') :
    ∃ depth tree s context, table.depthBound text.utf8ByteSize = depth + 1 ∧ raw = .leaf tree ∧
      (∃ bodies' trace, s = { Session.startAt text options bodies' pos with trace }) ∧
      LastTry (table.ruleBody depth ref.name index atom) s tree s'.source.pos context ∧
      ∀ longer t, (table.ruleBody depth ref.name index atom).body context = .matched longer t →
        t.source.pos ≤ s'.source.pos := by
  have hstart := (Regime.bare table (Text.ofString text) anyhow False).startAt_of_knows hbodies options hpos
    trivial
  obtain ⟨bodies', trace, hbodies', hreply⟩ := RuleTable.exists_applyRule_eq href hatom hstart.bodies
  have hbuilt := hstart.built hbodies' trace
  obtain ⟨depth, hdepth⟩ : ∃ depth, table.depthBound text.utf8ByteSize = depth + 1 :=
    ⟨_, (Nat.succ_pred_eq_of_pos (Nat.zero_lt_of_lt hstart.memo.room)).symm⟩
  rw [hdepth] at hmatched hbuilt ⊢
  rw [hreply depth] at hmatched
  let s : Session := { Session.startAt text options bodies pos with bodies := bodies', trace }
  have hfind : s.memo.find? index s.source.pos = none := by simp [s, Session.startAt, Session.start, Memo.find?]
  have hgrowing : s.memo.growing[s.source.pos]? = none := by simp [s, Session.startAt, Session.start]
  have hdue : s.memo.NotDue index s.source.pos := fun c cluster hg => by
    rw [hgrowing] at hg
    cases hg
  have hallowed : ¬ s.memo.Refuses index s.source.pos := by
    rintro ⟨c, cluster, hg, -⟩
    rw [(growing?_eq_some.1 hg).1] at hgrowing
    cases hgrowing
  have hentering := Regime.entering_of_none hbuilt (RuleTable.index_lt_of_bodyAt? hatom) hfind hdue hallowed
  have heq : memoized (table.ruleBody depth ref.name index atom) s
      = applyFresh (table.ruleBody depth ref.name index atom) s.source.pos s :=
    memoized_of_none hfind hdue hallowed
  obtain ⟨tree, rfl, hfresh⟩ : ∃ tree, raw = .leaf tree ∧
      applyFresh (table.ruleBody depth ref.name index atom) s.source.pos s = .matched tree s' := by
    rw [← heq]
    change Matcher.bind _ _ s = _ at hmatched
    rw [Matcher.bind] at hmatched
    split at hmatched
    · cases hmatched
    · cases hmatched
    · rename_i tree t hreply
      cases hmatched
      exact ⟨tree, rfl, hreply⟩
  have htried := ensures_applyFresh_tried (r := table.ruleBody depth ref.name index atom)
    (fun u => ends_ruleBody table (Text.ofString text) u depth ref.name index atom) hbuilt hentering
  obtain ⟨context, htry, hlast⟩ := htried.of_matched hfresh tree rfl
  exact ⟨depth, tree, s, context, rfl, rfl, ⟨bodies', trace, rfl⟩, htry, hlast⟩

set_option maxRecDepth 8000 in
/-- A sum of three is grown to the end of the text, and nothing more is left. -/
theorem sum_leads_no_further : ∃ raw s', sumTable.applyRule (sumTable.depthBound "n+n+n".utf8ByteSize)
      (sumTable.rules.ref "sum") (Session.startAt "n+n+n" {} [] 0) = .matched raw s' ∧ s'.source.pos = 5 ∧
    ∃ depth tree s context, sumTable.depthBound "n+n+n".utf8ByteSize = depth + 1 ∧ raw = .leaf tree ∧
      (∃ bodies' trace, s = { Session.startAt "n+n+n" {} bodies' 0 with trace }) ∧
      LastTry (sumTable.ruleBody depth "sum" 0 (sumLoop.body (sumTable.rules.ref "sum"))) s tree
        s'.source.pos context ∧
      ∀ longer t, (sumTable.ruleBody depth "sum" 0 (sumLoop.body (sumTable.rules.ref "sum"))).body context
        = .matched longer t → t.source.pos ≤ s'.source.pos := by
  have hfound : (sumTable.applyRule (sumTable.depthBound "n+n+n".utf8ByteSize) (sumTable.rules.ref "sum")
      (Session.startAt "n+n+n" {} [] 0)).finding
        = .ok (some (.leaf (.str ⟨Text.ofString "n+n+n", 0, 5, 0⟩)), 5) := by
    cbv
  obtain ⟨s', hmatched, hpos⟩ := exists_matched_of_finding hfound
  exact ⟨_, s', hmatched, hpos, applyRule_leads_no_further sumTable (sumTable.rules.ref "sum") 0
    (sumLoop.body (sumTable.rules.ref "sum")) rfl rfl [] sumTable.knows_nil "n+n+n" {} 0
    (Text.isBoundary_zero _) _ s' hmatched⟩

/-- An expression is a term; a term goes on with a factor behind a term or with a summand behind an
expression. -/
def termTable : RuleTable :=
  ⟨1, [⟨"expression", fun rules => rules.rule "term"⟩,
    ⟨"term", fun rules => .choice [.sequence [rules.rule "term", .literal "*n"],
      .sequence [rules.rule "expression", .literal "+n"], .literal "n"]⟩]⟩

/-- The session of a match from the start of a text in which all that is remembered is a match of the rule
there. -/
def Session.knowing (text : String) (rule : Nat) (tree : Tree) (stop : Nat) : Session :=
  { Session.startAt text {} [] 0 with memo := ({} : Memo).remember rule 0 (.done (.ok tree)) stop }

set_option maxRecDepth 8000 in
/-- A product is no more than its first factor as an expression, and yet where only that is remembered, the
body of the expression matches all of it. In the round of growing, the term that is applied again grows to
the whole product by itself, inside of its own body; then the body goes on and ends with the one factor,
which is remembered in place of the product. -/
theorem body_exceeds_grown_match :
    termTable.bodyAt? 0 = some (termTable.rules.rule "term") ∧ ∃ tree s raw t,
    termTable.applyRule (termTable.depthBound "n*n".utf8ByteSize) (termTable.rules.ref "expression")
      (Session.startAt "n*n" {} [] 0) = .matched (.leaf tree) s ∧ s.source.pos = 1 ∧
    (termTable.rules.rule "term").matcher (termTable.applyRule (termTable.depthBound "n*n".utf8ByteSize))
      (Session.knowing "n*n" 0 tree s.source.pos) = .matched raw t ∧ t.source.pos = 3 := by
  have hgrown : (termTable.applyRule (termTable.depthBound "n*n".utf8ByteSize)
      (termTable.rules.ref "expression") (Session.startAt "n*n" {} [] 0)).finding
        = .ok (some (.leaf (.str ⟨Text.ofString "n*n", 0, 1, 0⟩)), 1) := by
    cbv
  have hlonger (stop : Nat) (hstop : stop = 1) : ((termTable.rules.rule "term").matcher
      (termTable.applyRule (termTable.depthBound "n*n".utf8ByteSize))
      (Session.knowing "n*n" 0 (.str ⟨Text.ofString "n*n", 0, 1, 0⟩) stop)).finding
        = .ok (some (.leaf (.str ⟨Text.ofString "n*n", 0, 3, 0⟩)), 3) := by
    subst hstop
    cbv
  obtain ⟨s, hmatched, hpos⟩ := exists_matched_of_finding hgrown
  obtain ⟨t, hmatched', hpos'⟩ := exists_matched_of_finding (hlonger _ hpos)
  exact ⟨rfl, _, s, _, t, hmatched, hpos, hmatched', hpos'⟩

end Packrat
