import Packrat.Proofs.Ending
import Packrat.Proofs.Lookup
import Packrat.Proofs.MemoSlices
import Packrat.Proofs.Room

/-!
# What is kept while rules are applied

That the memo accounts for what is under way is kept by every step of applying a rule. Statements about
what rules come to need more than that to be kept, each something else. A regime says what: a condition
on the memo, how the memo may change, when a rule may be applied, and what follows for a rule from what
matching its body has come to. It is lawful if each single step of applying a rule complies; then
applying a rule complies, with all that happens in it.
-/

namespace Packrat

open Matcher Course

/-- The failure of a rule whose body was not tried has no slices. -/
theorem Matcher.RuleBody.intact_failed (r : RuleBody) (start : Nat) : Intact (r.failed start) :=
  Cause.intact_iff.2 ⟨by simp [Message.slices], intact_nil⟩

/-- The memo after so many more answers from it were counted. -/
def Memo.hitAgain (memo : Memo) (n : Nat) : Memo :=
  memo.count fun counts => { counts with hits := counts.hits + n }

/-- What is kept while rules of a table are applied in a text. -/
structure Regime (table : RuleTable) (text : Text) where
  /-- The reasons for which a step may be broken off. -/
  lenient : Stop → Prop
  /-- Whether values have to be intact. -/
  slices : Prop
  /-- What the memo meets while just this is under way. -/
  Holds : Underway → Memo → Prop
  /-- How the memo may change meanwhile. -/
  Leads : Underway → Memo → Memo → Prop
  /-- The rule may be applied at the offset. -/
  May : Underway → Memo → Nat → Nat → Prop
  /-- The body of the rule, matched from the offset with the first memo, may come to the result and the
  offset behind it, and leave the second memo. -/
  Matches : Underway → Nat → Nat → Memo → Except Cause Tree → Nat → Memo → Prop
  /-- The same of the rule itself, applied through the memo. -/
  Answers : Underway → Nat → Nat → Memo → Except Cause Tree → Nat → Memo → Prop
  /-- A round of growing the cluster of the rule at the offset may start with the second memo, after the
  rule was applied with the first one and has been grown so far. -/
  Grows : Underway → Nat → Nat → Nat → Memo → Tree → Nat → Memo → Prop
  refl : ∀ u memo, Leads u memo memo
  trans : ∀ {u first second third}, Leads u first second → Leads u second third → Leads u first third

namespace Regime

variable {table : RuleTable} {text : Text} (K : Regime table text)

/-- The memo is fit for what is under way. -/
structure Fits (u : Underway) (memo : Memo) : Prop where
  accounts : Accounts table.definitions.length text u memo
  intact : K.slices → memo.Intact
  holds : K.Holds u memo

/-- The second memo is fit and may come after the first. -/
structure Goes (u : Underway) (memo memo' : Memo) : Prop where
  fits : K.Fits u memo'
  shrinks : Shrinks u memo memo'
  leads : K.Leads u memo memo'

/-- Matching can go on from the offset with so many rules inside each other. -/
structure Bounded (u : Underway) (depth pos : Nat) (memo : Memo) : Prop where
  orderly : u.Orderly table.definitions.length pos
  fits : K.Fits u memo
  room : u.room table.definitions.length text.size memo pos < depth

/-- The course of a match while just this is under way, with room for so many rules inside each other. -/
def course (u : Underway) (depth : Nat) : Course where
  table := table
  text := text
  strict := False
  lenient := K.lenient
  slices := K.slices
  Fit := K.Bounded u depth
  Leads memo memo' := K.Fits u memo → K.Goes u memo memo'
  refl memo h := ⟨h, .refl memo, K.refl u memo⟩
  trans h h' hf := by
    obtain ⟨hf', hs, hl⟩ := h hf
    obtain ⟨hf'', hs', hl'⟩ := h' hf'
    exact ⟨hf'', hs.trans hs', K.trans hl hl'⟩
  later h hle :=
    ⟨h.orderly.mono hle, h.fits,
      Nat.lt_of_le_of_lt (Underway.room_anti h.orderly h.fits.accounts hle) h.room⟩
  kept := by
    rintro pos memo memo' ⟨ho, hf, hroom⟩ hleads
    obtain ⟨hf', hs, -⟩ := hleads hf
    refine ⟨ho, hf', Nat.lt_of_le_of_lt ?_ hroom⟩
    exact Nat.add_le_add_left (hf.accounts.pendingAt_anti hf'.accounts hs pos) _

/-- What applying the rule at the offset has come to complies. -/
structure Complies (u : Underway) (rule start : Nat) (memo : Memo) (result : Except Cause Tree)
    (stop : Nat) (memo' : Memo) : Prop where
  holds : K.Holds u memo'
  leads : K.Leads u memo memo'
  answers : K.Answers u rule start memo result stop memo'

/-- The rule is about to be applied at the offset. -/
structure Applying (u : Underway) (rule start : Nat) (memo : Memo) : Prop where
  fits : K.Fits u memo
  orderly : u.Orderly table.definitions.length start
  boundary : text.isBoundary start = true
  rule_lt : rule < table.definitions.length
  may : K.May u memo rule start

/-- The rule is about to be entered at the offset. -/
structure Entering (u : Underway) (rule start : Nat) (memo : Memo) : Prop
    extends K.Applying u rule start memo where
  free : ¬ u.Busy rule start
  due : memo.NotDue rule start
  allowed : ¬ memo.Refuses rule start
  stale : memo.Open rule start

/-- The rule is about to be applied again as a member of the cluster. -/
structure Redoing (u : Underway) (rule start c : Nat) (cluster : Cluster) (memo : Memo) : Prop
    extends K.Applying u rule start memo where
  growing : memo.growing[start]? = some c
  found : memo.clusters[c]? = some cluster
  due : rule ∈ cluster.pending

/-- The body of the rule has been matched after it was entered. -/
structure Entered (u : Underway) (rule start : Nat) (memo : Memo) (cause : Cause)
    (result : Except Cause Tree) (stop : Nat) (memo' : Memo) : Prop where
  entering : K.Entering u rule start memo
  forward : start ≤ stop
  boundary : text.isBoundary stop = true
  goes : K.Goes (u.enter memo.applications.size rule start) (memo.enter rule start (.error cause)) memo'
  body : K.Matches (u.enter memo.applications.size rule start) rule start
    (memo.enter rule start (.error cause)) result stop memo'

/-- The body of the rule has been matched in a round of growing its cluster. -/
structure Round (u : Underway) (rule start c : Nat) (memo : Memo) (best : Tree) (stop : Nat)
    (before : Memo) (result : Except Cause Tree) (reached : Nat) (after : Memo) : Prop where
  applying : K.Applying u rule start memo
  fresh : ∀ g ∈ u.grown, g.cluster ≠ c
  grows : K.Grows u rule start c memo best stop before
  fits : K.Fits (u.grow c rule start) before
  forward : start ≤ reached
  boundary : text.isBoundary reached = true
  goes : K.Goes (u.grow c rule start) before after
  body : K.Matches (u.grow c rule start) rule start before result reached after

/-- Each step of applying a rule complies. -/
structure Lawful : Prop where
  /-- How often the memo was of use plays no part. -/
  count : ∀ {u memo} n, K.Holds u memo → K.Holds u (memo.hitAgain n) ∧ K.Leads u memo (memo.hitAgain n)
  may_count : ∀ {u memo rule start} n, K.May u memo rule start → K.May u (memo.hitAgain n) rule start
  answers_count : ∀ {u rule start memo result stop memo'} n,
    K.Answers u rule start (memo.hitAgain n) result stop memo' → K.Answers u rule start memo result stop memo'
  /-- The answer of an entry. -/
  hit : ∀ {u rule start memo result stop}, K.Applying u rule start memo → memo.NotDue rule start →
    memo.find? rule start = some ⟨.done result, stop⟩ → K.Answers u rule start memo result stop memo
  /-- The failure of a rule that is refused. -/
  refused : ∀ {u start memo} (r : RuleBody), K.Applying u r.rule start memo → memo.Refuses r.rule start →
    K.Answers u r.rule start memo (.error (r.failed start)) start memo
  /-- The seed of a rule that comes back to itself. -/
  recurs : ∀ {u rule start memo w a}, K.Applying u rule start memo → w ∈ u.path → w.rule = rule →
    w.start = start → memo.applications[w.id]? = some a →
    K.Complies u rule start memo a.seed start (memo.markLeftRecursion rule w.id)
  /-- A member of a cluster that is to be applied again. -/
  redo : ∀ {u rule start c cluster memo}, K.Redoing u rule start c cluster memo →
    K.Holds (u.redo rule start) (memo.redo c rule)
  /-- A member that has been applied again. -/
  redone : ∀ {u rule start c cluster memo result stop memo'}, K.Redoing u rule start c cluster memo →
    start ≤ stop → text.isBoundary stop = true →
    K.Goes (u.redo rule start) (memo.redo c rule) memo' →
    K.Matches (u.redo rule start) rule start (memo.redo c rule) result stop memo' →
    K.Complies u rule start memo result stop (memo'.remember rule start (.done result) stop)
  /-- A rule that is entered. -/
  enter : ∀ {u start memo} (r : RuleBody), K.Entering u r.rule start memo →
    K.Holds (u.enter memo.applications.size r.rule start) (memo.enter r.rule start (.error (r.failed start)))
  /-- A rule that is left without having come back to itself. -/
  left : ∀ {u rule start memo cause result stop memo'},
    K.Entered u rule start memo cause result stop memo' →
    memo'.clusterAt? memo.applications.size = none →
    K.Complies u rule start memo result stop (memo'.leave memo.applications.size rule start result stop)
  /-- A member of a cluster that is left. -/
  member : ∀ {u rule start memo cause result stop memo' c found},
    K.Entered u rule start memo cause result stop memo' →
    memo'.clusterAt? memo.applications.size = some c → memo'.clusters[c]? = some found →
    found.head ≠ rule → K.Complies u rule start memo result stop
      (memo'.leaveSeeded memo.applications.size rule start result stop)
  /-- The head of a cluster that has matched nothing. -/
  failed : ∀ {u rule start memo cause cause' stop memo' c found},
    K.Entered u rule start memo cause (.error cause') stop memo' →
    memo'.clusterAt? memo.applications.size = some c → memo'.clusters[c]? = some found →
    found.head = rule → K.Complies u rule start memo (.error cause') stop
      ((memo'.leaveSeeded memo.applications.size rule start (.error cause') stop).failHead rule start stop
        c found.involved cause')
  /-- The head of a cluster that is to be grown. -/
  grow : ∀ {u rule start memo cause tree stop memo' c found},
    K.Entered u rule start memo cause (.ok tree) stop memo' →
    memo'.clusterAt? memo.applications.size = some c → memo'.clusters[c]? = some found →
    found.head = rule → ∀ grown,
    grown = (memo'.leaveHead memo.applications.size rule start tree stop).startGrowth start c →
    K.Holds (u.grow c rule start) grown ∧ K.Grows u rule start c memo tree stop grown
  /-- A round in which the match has become longer. -/
  grew : ∀ {u rule start c memo best stop before tree reached after},
    K.Round u rule start c memo best stop before (.ok tree) reached after → stop < reached → ∀ refilled,
    refilled = (after.longer rule start tree reached).refill c →
    K.Holds (u.grow c rule start) refilled ∧ K.Leads (u.grow c rule start) before refilled ∧
      K.Grows u rule start c memo tree reached refilled
  /-- The last round. -/
  settled : ∀ {u rule start c memo best stop before result reached after},
    K.Round u rule start c memo best stop before result reached after →
    (∀ tree, result = .ok tree → reached ≤ stop) →
    K.Complies u rule start memo (.ok best) stop (after.endGrowth start c memo.growing[start]?)

variable {K} {u u' : Underway} {depth depth' : Nat} {memo : Memo} {r : RuleBody}
  {s s₁ s₂ s' : Session} {result other : Except Cause Tree}

variable (K) in
/-- The body of the rule is matched as the regime says, with just that under way in addition. -/
def Bodies (u : Underway) (depth : Nat) (r : RuleBody) : Prop :=
  ∀ u' s, u'.chain = ⟨s.source.pos, r.rule⟩ :: u.chain → (K.course u' depth).Start s →
    Ensures K.lenient r.body s fun result s' => (K.course u' depth).Ended s result s' ∧
      K.Matches u' r.rule s.source.pos s.memo result s'.source.pos s'.memo

variable (K) in
/-- The step matches the body of the rule from the offset as the regime says, while just this is under way. -/
def Body (u : Underway) (depth rule start : Nat) (step : Matcher Tree) : Prop :=
  ∀ s, (K.course u depth).Start s → s.source.pos = start →
    Ensures K.lenient step s fun result s' => (K.course u depth).Ended s result s' ∧
      K.Matches u rule start s.memo result s'.source.pos s'.memo

/-- A body that keeps to the regime wherever it is matched keeps to it at the offset. -/
theorem Bodies.body (h : K.Bodies u depth r) {start : Nat} (hchain : u'.chain = ⟨start, r.rule⟩ :: u.chain) :
    K.Body u' depth r.rule start r.body := by
  rintro s hs rfl
  exact h u' s hchain hs

variable (K) in
/-- However the body of the rule comes to be matched at the offset, the regime is kept to: when the rule is
entered, in rounds of growing, and when it is applied again. -/
structure Bodied (u : Underway) (depth start : Nat) (r : RuleBody) (first round : Nat → Matcher Tree) : Prop where
  entered : ∀ id, K.Body (u.enter id r.rule start) depth r.rule start (first id)
  grown : ∀ id c, K.Body (u.grow c r.rule start) depth r.rule start (round id)
  again : K.Body (u.redo r.rule start) depth r.rule start r.body

/-- A body is the same step whether the rule is entered, grown or applied again. -/
theorem Bodies.bodied (h : K.Bodies u depth r) (start : Nat) :
    K.Bodied u depth start r (fun _ => r.body) fun _ => r.body where
  entered _ := h.body rfl
  grown _ _ := h.body rfl
  again := h.body rfl

variable (K) in
/-- The step, taken from the session, ends and answers for the rule at the cursor. -/
def AnswersAt (u : Underway) (depth rule : Nat) (step : Matcher Tree) (s : Session) : Prop :=
  Ensures K.lenient step s fun result s' => (K.course u depth).Ended s result s' ∧
    K.Answers u rule s.source.pos s.memo result s'.source.pos s'.memo

/-- What has ended while something else was under way has ended, if the memo complies. -/
theorem ended_of {α β : Type} [Sliced α] [Sliced β] {inner : Except Cause α} {outer : Except Cause β}
    (h : (K.course u' depth').Ended s₁ inner s₂) (ht : s₁.source.text = s.source.text)
    (hb : table.Knows s.bodies → table.Knows s₁.bodies) (hl : s₁.labels = s.labels)
    (ht' : s'.source.text = s₂.source.text)
    (hb' : s'.bodies = s₂.bodies) (hl' : s'.labels = s₂.labels) (hc' : s'.captures = s₂.captures)
    (hgoes : K.Goes u s.memo s'.memo) (hle : s.source.pos ≤ s'.source.pos)
    (hboundary : text.isBoundary s'.source.pos = true) (hr : K.slices → Intact outer) :
    (K.course u depth).Ended s outer s' where
  passes :=
    { text := ht'.trans (h.passes.text.trans ht)
      bodies := by
        rw [hb']
        exact h.passes.bodies ∘ hb
      labels := hl'.trans (h.passes.labels.trans hl)
      memo := fun _ => hgoes }
  forward := hle
  boundary := hboundary
  captures := by
    rw [hc']
    exact h.captures
  intact := hr

/-- How often the memo was of use plays no part. -/
theorem Fits.goes_count (hK : K.Lawful) (h : K.Fits u memo) (n : Nat) :
    K.Goes u memo (memo.hitAgain n) := by
  obtain ⟨hholds, hleads⟩ := hK.count n h.holds
  exact ⟨⟨h.accounts.count _, fun hst => (h.intact hst).of_eq rfl rfl, hholds⟩, .of_eq rfl, hleads⟩

/-- A rule may be applied whatever was counted before. -/
theorem Applying.count (hK : K.Lawful) {rule start : Nat} (h : K.Applying u rule start memo) (n : Nat) :
    K.Applying u rule start (memo.hitAgain n) :=
  ⟨(h.fits.goes_count hK n).fits, h.orderly, h.boundary, h.rule_lt, hK.may_count n h.may⟩

variable (K) in
/-- From the session at the start of a round, growing has come to its last round, which left the second
session and did not get further than what is handed on. -/
def GrownOut (u : Underway) (depth rule start c : Nat) (memo : Memo) (s : Session)
    (result : Except Cause (Tree × Nat)) (s' : Session) : Prop :=
  ∃ best stop before last, result = .ok (best, stop) ∧
    (start ≤ stop ∧ text.isBoundary stop = true ∧ (K.slices → Intact best)) ∧
    (K.course (u.grow c rule start) depth).Ended (α := Unit) s (.ok ()) s' ∧
    K.Round u rule start c memo best stop before last s'.source.pos s'.memo ∧
    ∀ tree, last = .ok tree → s'.source.pos ≤ stop

/-- A round in which the match has become longer leads to the start of the next one. -/
theorem Round.next (hK : K.Lawful) {rule start c : Nat} {best tree : Tree} {stop : Nat} {s : Session}
    (hround : K.Round u rule start c memo best stop (s.memo.refill c) (.ok tree) s₁.source.pos s₁.memo)
    (hlt : stop < s₁.source.pos)
    (hs : (K.course (u.grow c rule start) depth).Start
      { s with source.pos := start, memo := s.memo.refill c })
    (he : (K.course (u.grow c rule start) depth).Ended
      { s with source.pos := start, memo := s.memo.refill c } (.ok tree) s₁) (trace : List Event) :
    (K.course (u.grow c rule start) depth).Ended (α := Unit)
        { s with source.pos := start, memo := s.memo.refill c } (.ok ())
        { s₁ with
          source.pos := start
          memo := (s₁.memo.longer rule start tree s₁.source.pos).refill c
          trace } ∧
      K.Grows u rule start c memo tree s₁.source.pos
        ((s₁.memo.longer rule start tree s₁.source.pos).refill c) := by
  have hgoes := hround.goes
  have haccounts := (hgoes.fits.accounts.count fun s => { s with growthRounds := s.growthRounds + 1 }
    ).remember_done hgoes.fits.accounts.spot_ne_of_grow (.ok tree) he.forward he.boundary
  have hrefilled := hround.fits.accounts.refill hround.fresh haccounts hgoes.shrinks
  obtain ⟨hholds, hleads, hgrows⟩ := hK.grew hround hlt _ rfl
  have hintact (hst : K.slices) :
      ((s₁.memo.longer rule start tree s₁.source.pos).refill c).Intact :=
    (((hgoes.fits.intact hst).count _).remember_done (he.intact hst)).modifyCluster ..
  have hended : (K.course (u.grow c rule start) depth).Ended (α := Unit) _ (.ok ()) s₁ :=
    he.withResult fun _ => intact_unit ()
  refine ⟨?_, hgrows⟩
  exact ended_of hended rfl id rfl rfl rfl rfl rfl
    ⟨⟨hrefilled, hintact, hholds⟩, hgoes.shrinks.refill, hleads⟩ (Nat.le_refl _) hs.boundary
    fun _ => intact_unit ()

/-- Rounds of growing go on until one does not get further into the text. -/
theorem ensures_growFrom (hK : K.Lawful) {c start bound : Nat}
    (hbody : K.Body (u.grow c r.rule start) depth r.rule start r.body)
    (happlying : K.Applying u r.rule start memo) (hfresh : ∀ g ∈ u.grown, g.cluster ≠ c)
    {best : Tree} {stop : Nat} (hle : start ≤ stop) (hb : text.isBoundary stop = true)
    (hbest : K.slices → Intact best) (hbound : text.size < stop + bound)
    (hgrows : K.Grows u r.rule start c memo best stop (s.memo.refill c))
    (hs : (K.course (u.grow c r.rule start) depth).Start
      { s with source.pos := start, memo := s.memo.refill c }) :
    Ensures K.lenient (growFrom r start c bound best stop) s
      (K.GrownOut u depth r.rule start c memo
        { s with source.pos := start, memo := s.memo.refill c }) := by
  induction bound generalizing s best stop with
  | zero =>
    have := Text.le_size_of_isBoundary hb
    omega
  | succ bound ih =>
    have hstart : s.source.text.isBoundary start = true := hs.text ▸ hs.boundary
    simp only [growFrom, ensures_bind, ensures_moveTo hstart, ensures_modifyMemo, ensures_attempt,
      ensures_position]
    refine (hbody _ hs rfl).mono ?_
    rintro result s₁ ⟨he, hmatches⟩
    have hgoes := he.passes.memo hs.memo.fits
    have hround : K.Round u r.rule start c memo best stop (s.memo.refill c) result s₁.source.pos
        s₁.memo :=
      ⟨happlying, hfresh, hgrows, hs.memo.fits, he.forward, he.boundary, hgoes, hmatches⟩
    have hended : (K.course (u.grow c r.rule start) depth).Ended (α := Unit)
        { s with source.pos := start, memo := s.memo.refill c } (.ok ()) s₁ :=
      he.withResult fun _ => intact_unit ()
    have hlast (hshort : ∀ tree, result = .ok tree → s₁.source.pos ≤ stop) :
        K.GrownOut u depth r.rule start c memo { s with source.pos := start, memo := s.memo.refill c }
          (.ok (best, stop)) s₁ :=
      ⟨best, stop, s.memo.refill c, result, rfl, ⟨hle, hb, hbest⟩, hended, hround, hshort⟩
    cases result with
    | error cause => exact hlast (by simp)
    | ok tree =>
      dsimp only
      split
      · rename_i hlt
        simp only [ensures_bind, ensures_modifyMemo, ensures_emit, Matcher.remember]
        obtain ⟨hnext, hgrows'⟩ := hround.next hK hlt hs he
          (.seedGrew r.name start s₁.source.pos :: s₁.trace)
        refine (ih he.forward he.boundary he.intact (by omega) hgrows' (hnext.start hs)).mono ?_
        rintro result' s₂ ⟨best', stop', before, last, hresult, hstop, hended', hround', hshort⟩
        exact ⟨best', stop', before, last, hresult, hstop, hended'.after hnext.toMoves, hround', hshort⟩
      · rename_i hge
        refine hlast fun tree' heq => ?_
        omega

section Fresh

variable {cause : Cause} {c : Nat} {found : Cluster}

/-- What can be said of the cluster of an application that has been left, if the rule is its head. -/
theorem Entered.apart {rule start stop : Nat} {memo' : Memo}
    (h : K.Entered u rule start memo cause result stop memo')
    (hc : memo'.clusterAt? memo.applications.size = some c) (hfound : memo'.clusters[c]? = some found) :
    (∀ g ∈ u.grown, g.cluster ≠ c) ∧ (found.head = rule → ∀ w ∈ u.path,
      memo'.clusterAt? w.id ≠ some c ∧ (w.start = start → w.rule ∉ found.involved)) := by
  have ha := h.goes.fits.accounts
  obtain ⟨hgrown, -⟩ := ha.clustered _ List.mem_cons_self c hc
  refine ⟨hgrown, fun hhead w hw => ?_⟩
  exact ha.apart _ List.mem_cons_self c found hc hfound hhead.symm w (List.mem_cons_of_mem _ hw)
    (ha.lt_of_enter hw)

/-- The clusters that are being grown shrink while the body of a rule that is entered is matched. -/
theorem Entered.shrinks {rule start stop : Nat} {memo' : Memo}
    (h : K.Entered u rule start memo cause result stop memo') : Shrinks u memo memo' :=
  Shrinks.trans (.of_eq rfl) h.goes.shrinks

variable (K) in
/-- The body of the rule has been matched in the second session, after the rule was entered in the first
one. -/
structure Matched (u : Underway) (depth rule : Nat) (cause : Cause) (s : Session)
    (result : Except Cause Tree) (s₁ : Session) : Prop where
  entered : K.Entered u rule s.source.pos s.memo cause result s₁.source.pos s₁.memo
  ended : (K.course (u.enter s.memo.applications.size rule s.source.pos) depth).Ended
    { s with memo := s.memo.enter rule s.source.pos (.error cause) } result s₁

/-- After the rule has been left, with all that is to be done on leaving, it has ended if the memo
complies. -/
theorem Matched.leaves {rule : Nat} {answer : Except Cause Tree}
    (h : K.Matched u depth rule cause s result s₁) (ht : s'.source.text = s₁.source.text)
    (hb : s'.bodies = s₁.bodies) (hl : s'.labels = s₁.labels) (hc : s'.captures = s₁.captures)
    (hfits : Accounts table.definitions.length text u s'.memo) (hshrinks : Shrinks u s.memo s'.memo)
    (hintact : K.slices → s'.memo.Intact) (hr : K.slices → Intact answer)
    (hle : s.source.pos ≤ s'.source.pos) (hboundary : text.isBoundary s'.source.pos = true)
    (hcomplies : K.Complies u rule s.source.pos s.memo answer s'.source.pos s'.memo) :
    (K.course u (depth + 1)).Ended s answer s' ∧
      K.Answers u rule s.source.pos s.memo answer s'.source.pos s'.memo := by
  have hgoes : K.Goes u s.memo s'.memo :=
    ⟨⟨hfits, hintact, hcomplies.holds⟩, hshrinks, hcomplies.leads⟩
  exact ⟨ended_of h.ended rfl id rfl ht hb hl hc hgoes hle hboundary hr, hcomplies.answers⟩

/-- The first round of growing takes the spot of the head. -/
theorem Matched.start_grow (hK : K.Lawful) {rule : Nat} {tree : Tree}
    (h : K.Matched u depth rule cause s (.ok tree) s₁) (hs : (K.course u (depth + 1)).Start s)
    (hc : s₁.memo.clusterAt? s.memo.applications.size = some c)
    (hfound : s₁.memo.clusters[c]? = some found) (hhead : found.head = rule) :
    (K.course (u.grow c rule s.source.pos) depth).Start
      { s₁ with
        source.pos := s.source.pos
        memo := (s₁.memo.leaveHead s.memo.applications.size rule s.source.pos tree
          s₁.source.pos).startGrowth s.source.pos c } := by
  obtain ⟨hentered, he⟩ := h
  have hentering := hentered.entering
  have ha := hentered.goes.fits.accounts
  obtain ⟨hfresh, hapart⟩ := hentered.apart hc hfound
  have hapart := hapart hhead
  have hknows : (s₁.memo.leaveHead s.memo.applications.size rule s.source.pos tree
      s₁.source.pos).Knows rule s.source.pos := ⟨_, _, Memo.find?_remember_self ..⟩
  have hgrowth := (ha.leaveHead tree he.forward he.boundary).growth hknows hfresh
    (fun w hw hin => (hapart w hw).1 ((Memo.clusterAt?_seed ..).symm.trans hin)) hfound
    fun w hw => (hapart w hw).2
  have hintact (hst : K.slices) :
      ((s₁.memo.leaveHead s.memo.applications.size rule s.source.pos tree
        s₁.source.pos).startGrowth s.source.pos c).Intact :=
    ((hentered.goes.fits.intact hst).leaveHead _ (he.intact hst)).startGrowth ..
  obtain ⟨hholds, -⟩ := hK.grow hentered hc hfound hhead _ rfl
  have hroom := Underway.room_lt_of_taken s.memo (fun x q hb => hb.grow c rule s.source.pos)
    hentering.free (u.busy_grow c rule s.source.pos) hentering.rule_lt
    (Text.le_size_of_isBoundary hs.boundary) (hgrowth.pendingAt_le s.source.pos)
  have htext : s₁.source.text = text := he.passes.text.trans hs.text
  refine ⟨⟨htext, hs.boundary, he.passes.bodies hs.bodies, False.elim, ?_⟩, he.captures⟩
  exact ⟨hentering.orderly.grow c rule, ⟨hgrowth, hintact, hholds⟩,
    Nat.lt_of_lt_of_le hroom (Nat.le_of_lt_succ hs.memo.room)⟩

/-- Growing ends, and what it hands on is the answer. -/
theorem ensures_grow (hK : K.Lawful) {tree : Tree}
    (hbody : K.Body (u.grow c r.rule s.source.pos) depth r.rule s.source.pos r.body)
    (hs : (K.course u (depth + 1)).Start s) (h : K.Matched u depth r.rule cause s (.ok tree) s₁)
    (hc : s₁.memo.clusterAt? s.memo.applications.size = some c)
    (hfound : s₁.memo.clusters[c]? = some found) (hhead : found.head = r.rule) :
    Ensures K.lenient (grow r s.source.pos c tree s₁.source.pos)
      { s₁ with
        memo := s₁.memo.leaveHead s.memo.applications.size r.rule s.source.pos tree s₁.source.pos }
      fun result s' => (K.course u (depth + 1)).Ended s result s' ∧
        K.Answers u r.rule s.source.pos s.memo result s'.source.pos s'.memo := by
  have hstart := h.start_grow hK hs hc hfound hhead
  obtain ⟨hentered, he⟩ := h
  have ha := hentered.goes.fits.accounts
  obtain ⟨hfresh, -⟩ := hentered.apart hc hfound
  obtain ⟨-, hgrows⟩ := hK.grow hentered hc hfound hhead _ rfl
  have htext : s₁.source.text = text := he.passes.text.trans hs.text
  apply Matcher.ensures_grow
  refine (ensures_growFrom hK hbody hentered.entering.toApplying hfresh he.forward he.boundary he.intact ?_
    ?_ ?_).mono ?_
  · dsimp only
    rw [htext]
    omega
  · exact hgrows
  · exact hstart
  rintro _ s₂ ⟨best, stop, before, last, rfl, ⟨hle, hb, hbest⟩, hended, hround, hshort⟩
  refine ⟨?_, fun trace => ?_⟩
  · rw [hended.passes.text]
    exact htext.symm ▸ hb
  have hgoes := hended.passes.memo hstart.memo.fits
  have hshrinks : Shrinks u s.memo s₂.memo :=
    (hentered.shrinks.trans (.modifyCluster hfresh _)).trans fun g hg =>
      hgoes.shrinks g (List.mem_cons_of_mem _ hg)
  obtain ⟨hsettled, hshrinks'⟩ := hs.memo.fits.accounts.endGrowth hfresh hgoes.fits.accounts hshrinks
  have hcomplies := hK.settled hround hshort
  have houter : s.memo.growing[s.source.pos]?
      = (s₁.memo.leaveHead s.memo.applications.size r.rule s.source.pos tree
        s₁.source.pos).growing[s.source.pos]? := by
    rw [hs.memo.fits.accounts.growing, (ha.leaveHead tree he.forward he.boundary).growing]
  rw [houter] at hsettled hshrinks' hcomplies
  have hfits : K.Fits u (s₂.memo.endGrowth s.source.pos c (s₁.memo.leaveHead s.memo.applications.size
      r.rule s.source.pos tree s₁.source.pos).growing[s.source.pos]?) :=
    ⟨hsettled, fun hst => (hgoes.fits.intact hst).endGrowth .., hcomplies.holds⟩
  exact ⟨ended_of hended he.passes.text he.passes.bodies he.passes.labels rfl rfl rfl rfl
    ⟨hfits, hshrinks', hcomplies.leads⟩ hle hb hbest, hcomplies.answers⟩

/-- What an application that belongs to a cluster hands on is the answer. -/
theorem ensures_answerCluster (hK : K.Lawful)
    (hbody : K.Body (u.grow c r.rule s.source.pos) depth r.rule s.source.pos r.body)
    (hs : (K.course u (depth + 1)).Start s) (h : K.Matched u depth r.rule cause s result s₁)
    (hc : s₁.memo.clusterAt? s.memo.applications.size = some c) :
    Ensures K.lenient (answerCluster r s.source.pos c result)
      { s₁ with
        memo := s₁.memo.leaveSeeded s.memo.applications.size r.rule s.source.pos result s₁.source.pos }
      fun result s' => (K.course u (depth + 1)).Ended s result s' ∧
        K.Answers u r.rule s.source.pos s.memo result s'.source.pos s'.memo := by
  obtain ⟨hentered, he⟩ := h
  have ha := hentered.goes.fits.accounts
  obtain ⟨hfresh, found, hfound, -⟩ := ha.clustered _ List.mem_cons_self c hc
  have hseeded := ha.leaveSeeded result he.forward he.boundary
  have hintact (hst : K.slices) : (s₁.memo.leaveSeeded s.memo.applications.size r.rule s.source.pos
      result s₁.source.pos).Intact :=
    (hentered.goes.fits.intact hst).leaveSeeded _ (he.intact hst)
  have hmember : (s₁.memo.leaveSeeded s.memo.applications.size r.rule s.source.pos result
      s₁.source.pos).clusters[c]? = some found := hfound
  by_cases hhead : found.head = r.rule
  · cases result with
    | ok tree =>
      refine (ensures_answerCluster_ok ?_ hhead _).2 ?_
      · exact hmember
      · have hmatched : K.Matched u depth r.rule cause s (.ok tree) s₁ := ⟨hentered, he⟩
        have hgrow := ensures_grow hK hbody hs hmatched hc hfound hhead
        change Ensures K.lenient (grow r s.source.pos c tree s₁.source.pos)
          { s₁ with
            memo := s₁.memo.leaveHead s.memo.applications.size r.rule s.source.pos tree s₁.source.pos } _
        exact hgrow
    | error cause' =>
      obtain ⟨-, hapart⟩ := hentered.apart hc hfound
      obtain ⟨hfailed, hshrinks⟩ := hseeded.failHead cause'
        ha.spot_ne_of_enter he.forward he.boundary hfresh fun w hw => (hapart hhead w hw).2
      refine ensures_answerCluster_failed ?_ hhead fun trace => ?_
      · exact hmember
      · exact Matched.leaves ⟨hentered, he⟩ rfl rfl rfl rfl hfailed
          ((hentered.shrinks.trans (.of_eq rfl)).trans hshrinks)
          (fun hst => (hintact hst).failHead _ ((intact_error cause').1 (he.intact hst))) he.intact
          he.forward he.boundary (hK.failed hentered hc hfound hhead)
  · refine (ensures_answerCluster_member ?_ hhead _).2 ?_
    · exact hmember
    exact Matched.leaves ⟨hentered, he⟩ rfl rfl rfl rfl hseeded
      (hentered.shrinks.trans (.of_eq rfl)) hintact he.intact he.forward he.boundary
      (hK.member hentered hc hfound hhead)

/-- Once the rule is entered, its body can be matched with the spot of the rule taken. -/
theorem start_enter (hK : K.Lawful) (r : RuleBody) (hs : (K.course u (depth + 1)).Start s)
    (h : K.Entering u r.rule s.source.pos s.memo) :
    (K.course (u.enter s.memo.applications.size r.rule s.source.pos) depth).Start
      { s with memo := s.memo.enter r.rule s.source.pos (.error (r.failed s.source.pos)) } := by
  obtain ⟨ho, hfits, hroom⟩ := hs.memo
  have hentered := hfits.accounts.enter h.free h.due hs.boundary (.error (r.failed s.source.pos))
  have hlt := Underway.room_lt_of_taken s.memo (fun x q hb => hb.enter _ r.rule s.source.pos) h.free
    (u.busy_enter s.memo.applications.size r.rule s.source.pos) h.rule_lt
    (Text.le_size_of_isBoundary hs.boundary) (hentered.pendingAt_le s.source.pos)
  refine ⟨⟨hs.text, hs.boundary, hs.bodies, False.elim, ?_⟩, hs.captures⟩
  refine ⟨ho.enter (fun _ => hfits.accounts.lt_size) h.rule_lt, ⟨hentered, fun hst => ?_, ?_⟩, ?_⟩
  · exact (hfits.intact hst).enter ((intact_error _).2 (r.intact_failed s.source.pos))
  · exact hK.enter r h
  · exact Nat.lt_of_lt_of_le hlt (Nat.le_of_lt_succ hroom)

/-- A rule that is entered answers. -/
theorem ensures_applyFreshWith (hK : K.Lawful) {first round : Nat → Matcher Tree}
    (hs : (K.course u (depth + 1)).Start s) (h : K.Entering u r.rule s.source.pos s.memo)
    (hbody : K.Bodied u depth s.source.pos r first round) :
    K.AnswersAt u (depth + 1) r.rule (applyFreshWith .none r first round s.source.pos) s := by
  have hstart := start_enter hK r hs h
  rw [AnswersAt, Matcher.ensures_applyFreshWith]
  refine (hbody.entered _ _ hstart rfl).mono ?_
  rintro result s₁ ⟨he, hmatches⟩
  have hgoes := he.passes.memo hstart.memo.fits
  have hmatched : K.Matched u depth r.rule (r.failed s.source.pos) s result s₁ :=
    ⟨⟨h, he.forward, he.boundary, hgoes, hmatches⟩, he⟩
  dsimp only
  split
  · rename_i c hc
    exact ensures_answerCluster hK (r := { r with body := round s.memo.applications.size })
      (hbody.grown _ c) hs hmatched hc
  · rename_i hnone
    exact Matched.leaves hmatched rfl rfl rfl rfl
      (hgoes.fits.accounts.leave result he.forward he.boundary)
      (hmatched.entered.shrinks.trans (.of_eq (Memo.clusters_release ..)))
      (fun hst => (hgoes.fits.intact hst).leave _ (he.intact hst)) he.intact he.forward he.boundary
      (hK.left hmatched.entered hnone)

end Fresh

section Looking

variable (K) in
/-- What looking a rule up can lead to: an answer to move on with or else, if the rule is neither about to be
applied again nor refused, what the memo says about it. -/
def LookedUp (u : Underway) (depth rule : Nat) (s s' : Session) : Option Entry → Prop
  | some ⟨.done result, stop⟩ =>
    (K.course u depth).Ended s result { s' with source.pos := stop } ∧
      K.Answers u rule s.source.pos s.memo result stop s'.memo
  | entry => ∃ n, s' = { s with memo := s.memo.hitAgain n } ∧
    s.memo.find? rule s.source.pos = entry ∧ s.memo.NotDue rule s.source.pos ∧
      ¬ s.memo.Refuses rule s.source.pos

/-- The step that only counts. -/
theorem ended_count (hK : K.Lawful) (hs : (K.course u depth).Start s) (n : Nat) :
    (K.course u depth).Ended (α := Unit) s (.ok ()) { s with memo := s.memo.hitAgain n } := by
  have hstart : (K.course u depth).Ended (α := Unit) s (.ok ()) s := hs.ended fun _ => intact_unit ()
  exact ended_of hstart rfl id rfl rfl rfl rfl rfl (hs.memo.fits.goes_count hK n) (Nat.le_refl _)
    hs.boundary fun _ => intact_unit ()

/-- Without a member to apply again, the memo answers, and at most the counts change. -/
theorem lookedUp_find? (hK : K.Lawful) {rule : Nat} (hs : (K.course u depth).Start s)
    (h : K.Applying u rule s.source.pos s.memo) (hdue : s.memo.NotDue rule s.source.pos)
    (hallowed : ¬ s.memo.Refuses rule s.source.pos) (n : Nat) :
    K.LookedUp u depth rule s { s with memo := s.memo.hitAgain n } (s.memo.find? rule s.source.pos) := by
  cases hentry : s.memo.find? rule s.source.pos with
  | none => exact ⟨n, rfl, hentry, hdue, hallowed⟩
  | some entry =>
    rcases entry with ⟨result | id, stop⟩
    · obtain ⟨hle, hb⟩ := h.fits.accounts.stops _ _ _ hentry
      have hanswers := hK.hit (h.count hK n) hdue hentry
      refine ⟨?_, hK.answers_count n hanswers⟩
      have hcounted := (ended_count hK hs n).moveTo hle hb
      exact hcounted.withResult fun hst => (h.fits.intact hst).entries _ _ _ _ hentry
    · exact ⟨n, rfl, hentry, hdue, hallowed⟩

/-- The body of a member that is applied again can be matched with the member taken from those that are
to be applied again. -/
theorem start_redo (hK : K.Lawful) {rule c : Nat} {cluster : Cluster}
    (hs : (K.course u (depth + 1)).Start s) (h : K.Redoing u rule s.source.pos c cluster s.memo) :
    (K.course (u.redo rule s.source.pos) depth).Start { s with memo := s.memo.redo c rule } := by
  obtain ⟨ho, hfits, hroom⟩ := hs.memo
  have hredone : Accounts table.definitions.length text (u.redo rule s.source.pos)
      (s.memo.redo c rule) := Accounts.redo_iff.2 (hfits.accounts.erase c rule)
  have hlt := Accounts.pendingAt_erase_lt h.growing h.found h.due
  refine ⟨⟨hs.text, hs.boundary, hs.bodies, False.elim, ?_⟩, hs.captures⟩
  refine ⟨ho.redo rule, ⟨hredone, fun hst => (hfits.intact hst).modifyCluster .., hK.redo h⟩, ?_⟩
  unfold Underway.room at hroom ⊢
  change (table.definitions.length + 1) * u.spare table.definitions.length text.size s.source.pos
    + _ < depth
  dsimp only
  omega

/-- A member that is applied again ends, and what it has come to is remembered. -/
theorem ensures_redo (hK : K.Lawful)
    (hbody : K.Body (u.redo r.rule s.source.pos) depth r.rule s.source.pos r.body)
    (hs : (K.course u (depth + 1)).Start s) {c : Nat} {cluster : Cluster}
    (h : K.Redoing u r.rule s.source.pos c cluster s.memo) :
    Ensures K.lenient r.body { s with memo := s.memo.redo c r.rule } fun result s₁ =>
      K.LookedUp u (depth + 1) r.rule s
        { s₁ with memo := s₁.memo.remember r.rule s.source.pos (.done result) s₁.source.pos }
        (some ⟨.done result, s₁.source.pos⟩) := by
  have hfits := hs.memo.fits
  have hstart := start_redo hK hs h
  refine (hbody _ hstart rfl).mono ?_
  rintro result s₁ ⟨he, hmatches⟩
  have hgoes := he.passes.memo hstart.memo.fits
  have hspot (w : Waiting) (hw : w ∈ u.path) : ¬ (w.rule = r.rule ∧ w.start = s.source.pos) := by
    rintro ⟨hrule, hat⟩
    exact hfits.accounts.pending _ c cluster h.growing h.found w hw hat (hrule ▸ h.due)
  have hcomplies := hK.redone h he.forward he.boundary hgoes hmatches
  have haccounts := (Accounts.redo_iff.1 hgoes.fits.accounts).remember_done hspot result he.forward
    he.boundary
  refine ⟨ended_of he rfl id rfl rfl rfl rfl rfl ⟨⟨haccounts, fun hst => ?_, hcomplies.holds⟩,
    ?_, hcomplies.leads⟩ he.forward he.boundary he.intact, hcomplies.answers⟩
  · exact (hgoes.fits.intact hst).remember_done (he.intact hst)
  · exact (Shrinks.erase c r.rule).trans hgoes.shrinks

/-- Looking a rule up ends, also if the rule is applied again for it. -/
theorem ensures_remembered (hK : K.Lawful)
    (hbody : K.Body (u.redo r.rule s.source.pos) depth r.rule s.source.pos r.body)
    (hs : (K.course u (depth + 1)).Start s) (h : K.Applying u r.rule s.source.pos s.memo) :
    Ensures K.lenient (remembered r s.source.pos) s fun result s' =>
      ∃ entry, result = .ok entry ∧ K.LookedUp u (depth + 1) r.rule s s' entry := by
  simp only [remembered, ensures_bind, ensures_memo]
  split
  · rename_i hnone
    have hdue : s.memo.NotDue r.rule s.source.pos := fun c cluster hg hcluster => by
      simp [Memo.growing?, hg, hcluster] at hnone
    have hallowed : ¬ s.memo.Refuses r.rule s.source.pos := by
      rintro ⟨c, cluster, hgrowing, -⟩
      rw [hnone] at hgrowing
      cases hgrowing
    split
    · exact ⟨_, rfl, lookedUp_find? hK hs h hdue hallowed 1⟩
    · exact ⟨_, rfl, lookedUp_find? hK hs h hdue hallowed 0⟩
  · rename_i c cluster hgrowing
    obtain ⟨hg, hcluster⟩ : s.memo.growing[s.source.pos]? = some c ∧
        s.memo.clusters[c]? = some cluster := by
      obtain ⟨c', hg, hmap⟩ := Option.bind_eq_some_iff.1 hgrowing
      obtain ⟨cluster', hcluster, heq⟩ := Option.map_eq_some_iff.1 hmap
      cases heq
      exact ⟨hg, hcluster⟩
    split
    · rename_i hrefused
      simp only [Bool.and_eq_true, Option.isNone_iff_eq_none, bne_iff_ne, ne_eq, Bool.not_eq_true',
        List.contains_eq_mem, decide_eq_false_iff_not] at hrefused
      have hrefuses : s.memo.Refuses r.rule s.source.pos :=
        ⟨c, cluster, hgrowing, hrefused.1.1, hrefused.1.2, hrefused.2⟩
      have hfailed := r.intact_failed s.source.pos
      exact ⟨_, rfl, hs.ended fun _ => (intact_error _).2 hfailed, hK.refused r h hrefuses⟩
    · rename_i hrefused
      split
      · rename_i hcontains
        simp only [ensures_bind, ensures_modifyMemo, ensures_attempt, ensures_position, Matcher.remember,
          ensures_pure]
        have hredoing : K.Redoing u r.rule s.source.pos c cluster s.memo :=
          ⟨h, hg, hcluster, by simpa using hcontains⟩
        exact (ensures_redo hK hbody hs hredoing).mono fun result s₁ hlooked => ⟨_, rfl, hlooked⟩
      · rename_i hcontains
        have hdue : s.memo.NotDue r.rule s.source.pos := fun c' cluster' hg' hcluster' => by
          rw [hg] at hg'
          cases hg'
          rw [hcluster] at hcluster'
          cases hcluster'
          simpa using hcontains
        have hallowed : ¬ s.memo.Refuses r.rule s.source.pos := by
          rintro ⟨c', cluster', hgrowing', hnone, hhead, hout⟩
          rw [hgrowing] at hgrowing'
          cases hgrowing'
          exact hrefused (by simp [hnone, hhead, hout])
        split
        · exact ⟨_, rfl, lookedUp_find? hK hs h hdue hallowed 1⟩
        · exact ⟨_, rfl, lookedUp_find? hK hs h hdue hallowed 0⟩

/-- A rule that comes back to itself answers with its seed. -/
theorem ensures_recurs (hK : K.Lawful) (hs : (K.course u depth).Start s)
    (h : K.Applying u r.rule s.source.pos s.memo) {id stop : Nat}
    (hentry : s.memo.find? r.rule s.source.pos = some ⟨.inProgress id, stop⟩)
    (hactive : s.memo.isActive id = true) (other : Matcher Tree) :
    K.AnswersAt u depth r.rule (do
      moveTo stop
      markLeftRecursion r.rule id
      match (← Matcher.memo).application? id with
      | some application => ofResult application.seed
      | none => other) s := by
  have ha := hs.memo.fits.accounts
  obtain ⟨w, hw, rfl⟩ := ha.isActive_iff.1 hactive
  -- the application that the entry is about is that of the rule at the cursor
  obtain ⟨a, hrecord, harule, hastart⟩ := ha.records _ _ _ _ hentry
  obtain ⟨a', hrecord', hwrule, hwstart⟩ := ha.record hw
  rw [hrecord] at hrecord'
  cases hrecord'
  have hrule : w.rule = r.rule := hwrule.symm.trans harule
  have hat : w.start = s.source.pos := hwstart.symm.trans hastart
  have hwaits := ha.waits w hw
  rw [hrule, hat, hentry] at hwaits
  cases hwaits
  have hb : s.source.text.isBoundary s.source.pos = true := hs.at_boundary
  obtain ⟨haccounts, hshrinks⟩ := ha.markLeftRecursion hs.memo.orderly hw hat
  rw [hrule] at haccounts hshrinks
  obtain ⟨cluster, hafter⟩ :=
    (Memo.Frame.markLeftRecursion s.memo r.rule w.id).records w.id a hrecord
  have hcomplies := hK.recurs h hw hrule hat hrecord
  have hstart : (K.course u depth).Ended (α := Unit) s (.ok ()) s := hs.ended fun _ => intact_unit ()
  have hmarked (trace : List Event) : (K.course u depth).Ended s a.seed
      { s with memo := s.memo.markLeftRecursion r.rule w.id, trace } :=
    ended_of hstart rfl id rfl rfl rfl rfl rfl ⟨⟨haccounts, fun hst =>
      (hs.memo.fits.intact hst).markLeftRecursion .., hcomplies.holds⟩, hshrinks, hcomplies.leads⟩
      (Nat.le_refl _) hs.boundary fun hst => (hs.memo.fits.intact hst).seeds _ _ hrecord
  simp only [AnswersAt, ensures_bind, ensures_moveTo, hb, markLeftRecursion, ensures_memo,
    ensures_modifyMemo]
  split <;> simp only [ensures_emit, ensures_pure, Memo.application?, hafter, ensures_ofResult]
  · exact ⟨hmarked _, hcomplies.answers⟩
  · exact ⟨hmarked _, hcomplies.answers⟩

/-- Through the memo, a rule answers. -/
theorem answers_memoizedWith (hK : K.Lawful) {first round : Nat → Nat → Matcher Tree}
    (hbody : K.Bodied u depth s.source.pos r (first · s.source.pos) (round · s.source.pos))
    (hrule : r.rule < table.definitions.length) (hs : (K.course u (depth + 1)).Start s)
    (hmay : K.May u s.memo r.rule s.source.pos) :
    K.AnswersAt u (depth + 1) r.rule (memoizedWith .none r first round) s := by
  have happlying : K.Applying u r.rule s.source.pos s.memo :=
    ⟨hs.memo.fits, hs.memo.orderly, hs.boundary, hrule, hmay⟩
  rw [AnswersAt, memoizedWith, rememberedWith_none]
  simp only [ensures_bind, ensures_position]
  refine (ensures_remembered hK hbody.again hs happlying).mono ?_
  rintro _ s₁ ⟨entry, rfl, hlooked⟩
  -- what is done with the counts changed
  have hcounted (n : Nat) {step : Matcher Tree}
      (h : (K.course u (depth + 1)).Start { s with memo := s.memo.hitAgain n } →
        K.Applying u r.rule s.source.pos (s.memo.hitAgain n) →
          K.AnswersAt u (depth + 1) r.rule step { s with memo := s.memo.hitAgain n }) :
      Ensures K.lenient step { s with memo := s.memo.hitAgain n } fun result s' =>
        (K.course u (depth + 1)).Ended s result s' ∧
          K.Answers u r.rule s.source.pos s.memo result s'.source.pos s'.memo := by
    have hcount := ended_count hK hs n
    refine (h (hcount.start hs) (happlying.count hK n)).mono ?_
    rintro result s' ⟨he, hanswers⟩
    exact ⟨he.after hcount.toMoves, hK.answers_count n hanswers⟩
  have hfresh (n : Nat) (hdue : s.memo.NotDue r.rule s.source.pos)
      (hallowed : ¬ s.memo.Refuses r.rule s.source.pos) (hstale : s.memo.Open r.rule s.source.pos) :
      Ensures K.lenient (applyFreshWith .none r (first · s.source.pos) (round · s.source.pos) s.source.pos)
        { s with memo := s.memo.hitAgain n } fun result s' =>
          (K.course u (depth + 1)).Ended s result s' ∧
            K.Answers u r.rule s.source.pos s.memo result s'.source.pos s'.memo := by
    refine hcounted n fun hs₁ happlying₁ => ?_
    exact ensures_applyFreshWith hK hs₁
      ⟨happlying₁, hs₁.memo.fits.accounts.not_busy hstale, hdue, hallowed, hstale⟩ hbody
  rcases entry with _ | ⟨result | id, stop⟩
  · obtain ⟨n, rfl, hnone, hdue, hallowed⟩ := hlooked
    refine hfresh n hdue hallowed fun entry he => ?_
    rw [hnone] at he
    cases he
  · obtain ⟨he, hanswers⟩ := hlooked
    have hb : s₁.source.text.isBoundary stop = true := by
      rw [he.passes.text, hs.text]
      exact he.boundary
    simp only [ensures_bind, ensures_moveTo, hb, ensures_ofResult]
    exact ⟨he, hanswers⟩
  · obtain ⟨n, rfl, hentry, hdue, hallowed⟩ := hlooked
    simp only [ensures_bind, ensures_memo]
    split
    · rename_i hactive
      exact hcounted n fun hs₁ happlying₁ => ensures_recurs hK hs₁ happlying₁ hentry hactive _
    · rename_i hstale
      refine hfresh n hdue hallowed fun entry he => ?_
      rw [hentry] at he
      cases he
      exact ⟨id, stop, rfl, Bool.eq_false_iff.2 hstale⟩

/-- The same with one body. -/
theorem answers_memoized (hK : K.Lawful) (hbody : K.Bodies u depth r)
    (hrule : r.rule < table.definitions.length) (hs : (K.course u (depth + 1)).Start s)
    (hmay : K.May u s.memo r.rule s.source.pos) :
    K.AnswersAt u (depth + 1) r.rule (memoized r) s := by
  rw [← memoizedWith_none]
  exact answers_memoizedWith hK (hbody.bodied _) hrule hs hmay

end Looking

end Regime

end Packrat
