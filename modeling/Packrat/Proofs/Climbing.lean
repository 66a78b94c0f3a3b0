import Mathlib
import Packrat.Proofs.OperatorTree
import Packrat.Proofs.Steady

/-!
# Operator expressions are grouped by precedence

Without regard to precedence, an operator expression is a row: an operand, and then, as long as an
operator matches, the first one of the table that does and another operand. Climbing reads the same row.
It may read an operator, find that it binds too loosely and leave it to be read again from further
outside; what comes out is the value of the one tree that groups the row, provided that operators
consume input and that operands and operators are detached.
-/

namespace Packrat

namespace Matcher

/-- The operators that match in a row, each with the operand behind it. -/
def scanFrom (element : Matcher Tree) (next : Matcher (Option (Tree × Fixity))) :
    (bound : Nat) → Matcher (List Token)
  | 0 => stop .spent
  | bound + 1 => do
    match ← next with
    | none => return []
    | some (symbol, fixity) =>
      let value ← element
      return .operator symbol fixity :: .operand value :: (← scanFrom element next bound)

/-- An operand and the operators that match in a row behind it, each with another operand. -/
def scan (element : Matcher Tree) (next : Matcher (Option (Tree × Fixity))) (bound : Nat) :
    Matcher (List Token) := do
  let value ← element
  return .operand value :: (← scanFrom element next bound)

variable {element : Matcher Tree} {next : Matcher (Option (Tree × Fixity))} {origin s s' : Session}
  {combine : Tree → Tree → Tree → Tree}

/-- The operator that matches next, if one does, meets the condition. -/
def Ahead (next : Matcher (Option (Tree × Fixity))) (s : Session) (holds : Fixity → Prop) : Prop :=
  ∀ symbol fixity s', next s = .matched (some (symbol, fixity)) s' → holds fixity

/-- No operator matches next, or one that binds too loosely. -/
def Loose (next : Matcher (Option (Tree × Fixity))) (s : Session) (floor : UInt32) : Prop :=
  ∃ found s', next s = .matched found s' ∧
    ∀ symbol fixity, found = some (symbol, fixity) → fixity.precedence < floor

/-- An operator that matches consumes input, and if none does the cursor stays. -/
structure Progresses (origin : Session) (next : Matcher (Option (Tree × Fixity))) : Prop where
  consumes : ∀ s found s', Reached origin s → next s = .matched (some found) s' →
    s.source.pos < s'.source.pos
  stays : ∀ s s', Reached origin s → next s = .matched none s' → s'.source.pos = s.source.pos

/-- For no operator that matches does the precedence asked for to its right wrap around. -/
def Fits (next : Matcher (Option (Tree × Fixity))) : Prop :=
  ∀ s symbol fixity s', next s = .matched (some (symbol, fixity)) s' → fixity ≠ ⟨4294967295, .left⟩

/-- The operator that matches next binds too loosely. -/
theorem Loose.ahead {floor : UInt32} (h : Loose next s floor) :
    Ahead next s fun fixity => fixity.precedence < floor := by
  obtain ⟨found, s₁, hr, hlow⟩ := h
  intro symbol fixity s₂ hr'
  rw [hr] at hr'
  cases hr'
  exact hlow symbol fixity rfl

/-- A scan by steady steps is steady. -/
theorem steady_scanFrom (he : Steady origin element) (hn : Steady origin next) (bound : Nat) :
    Steady origin (scanFrom element next bound) := by
  induction bound with
  | zero => exact steady_stop _ _
  | succ bound ih =>
    refine hn.bind fun found => ?_
    rcases found with _ | ⟨symbol, fixity⟩
    · exact steady_pure _ _
    · exact he.bind fun value => ih.bind fun _ => steady_pure _ _

/-- At the same offset the same operator is next. -/
theorem Steady.loose (hn : Steady origin next) (hs : Reached origin s) (hs' : Reached origin s')
    (hpos : s.source.pos = s'.source.pos) {floor : UInt32} (h : Loose next s floor) :
    Loose next s' floor := by
  obtain ⟨found, t, hr, hlow⟩ := h
  rcases gist_cases (hn.same s s' hs hs' hpos) with
    ⟨reason, heq, -⟩ | ⟨cause, t, cause', t', heq, -⟩ | ⟨found', t, t', heq, hr', -⟩
  · rw [hr] at heq
    cases heq
  · rw [hr] at heq
    cases heq
  · rw [hr] at heq
    cases heq
    exact ⟨found, t', hr', hlow⟩

/-- Fewer bytes are left behind what was read. -/
theorem Reached.remaining_lt (hs : Reached origin s) (hs' : Reached origin s')
    (hlt : s.source.pos < s'.source.pos) : s'.source.remaining < s.source.remaining := by
  have hsize := Source.pos_add_remaining hs.boundary
  have hsize' := Source.pos_add_remaining hs'.boundary
  rw [hs'.text, ← hs.text] at hsize'
  omega

/-- No more bytes are left behind what was read, be it empty. -/
theorem Reached.remaining_le (hs : Reached origin s) (hs' : Reached origin s')
    (hle : s.source.pos ≤ s'.source.pos) : s'.source.remaining ≤ s.source.remaining := by
  have hsize := Source.pos_add_remaining hs.boundary
  have hsize' := Source.pos_add_remaining hs'.boundary
  rw [hs'.text, ← hs.text] at hsize'
  omega

/-- The gist of a scan that starts with the tokens `read` and goes on with the given gist. -/
def behind (read : List Token) (rest : Except Stop (Option (List Token × Nat))) :
    Except Stop (Option (List Token × Nat)) :=
  rest.map (Option.map fun found => (read ++ found.1, found.2))

/-- In front of a scan, no tokens make no difference. -/
@[simp] theorem behind_nil (rest : Except Stop (Option (List Token × Nat))) : behind [] rest = rest := by
  rcases rest with _ | _ | _ <;> rfl

/-- Tokens are put in front of a scan all at once or in two goes. -/
theorem behind_append (read read' : List Token) (rest : Except Stop (Option (List Token × Nat))) :
    behind read (behind read' rest) = behind (read ++ read') rest := by
  rcases rest with _ | _ | found
  · rfl
  · rfl
  · simp [behind, Except.map]

/-- Behind tokens that are put in front, a scan comes to what it comes to by itself. -/
theorem gist_map (step : Matcher (List Token)) (read : List Token) (s : Session) :
    (Matcher.bind step (fun rest => pure (read ++ rest)) s).gist = behind read (step s).gist := by
  rw [Matcher.bind]
  cases step s <;> rfl

/-- What a scan comes to, by what the next operator and the operand behind it come to. -/
theorem gist_scanFrom (bound : Nat) : (scanFrom element next (bound + 1) s).gist =
    match next s with
    | .stopped reason => .error reason
    | .failed _ _ => .ok none
    | .matched none s₁ => .ok (some ([], s₁.source.pos))
    | .matched (some (symbol, fixity)) s₁ =>
      match element s₁ with
      | .stopped reason => .error reason
      | .failed _ _ => .ok none
      | .matched value s₂ =>
        behind [.operator symbol fixity, .operand value] (scanFrom element next bound s₂).gist := by
  change (Matcher.bind next _ s).gist = _
  rw [Matcher.bind]
  cases next s with
  | stopped reason => rfl
  | failed cause s₁ => rfl
  | matched found s₁ =>
    rcases found with _ | ⟨symbol, fixity⟩
    · rfl
    · change (Matcher.bind element _ s₁).gist = _
      rw [Matcher.bind]
      cases hr₁ : element s₁ with
      | stopped reason => simp only [hr₁, Reply.gist]
      | failed cause s₂ => simp only [hr₁, Reply.gist]
      | matched value s₂ =>
        simp only [hr₁]
        exact gist_map _ [.operator symbol fixity, .operand value] s₂

variable (element next) in
/-- What a scan from the session comes to, whatever its bound, if that is above the bytes left. -/
def Scans (s : Session) (outcome : Except Stop (Option (List Token × Nat))) : Prop :=
  ∀ bound, s.source.remaining < bound → (scanFrom element next bound s).gist = outcome

section Rounds

variable {symbol first : Tree} {fixity : Fixity} {s₁ s₂ : Session} {reason : Stop} {cause : Cause}
  {outcome : Except Stop (Option (List Token × Nat))}

/-- A scan whose bound is above the bytes left has a first round. -/
theorem Scans.of_round (h : ∀ bound, s.source.remaining ≤ bound →
    (scanFrom element next (bound + 1) s).gist = outcome) : Scans element next s outcome := by
  intro bound hbound
  obtain ⟨fewer, rfl⟩ : ∃ fewer, bound = fewer + 1 := ⟨bound - 1, by omega⟩
  exact h fewer (by omega)

/-- A scan is broken off by the operator. -/
theorem scans_operator_stopped (hr : next s = .stopped reason) : Scans element next s (.error reason) :=
  .of_round fun bound _ => by rw [gist_scanFrom, hr]

/-- A scan fails with the operator. -/
theorem scans_operator_failed (hr : next s = .failed cause s₁) : Scans element next s (.ok none) :=
  .of_round fun bound _ => by rw [gist_scanFrom, hr]

/-- A scan is broken off by the operand behind an operator. -/
theorem scans_operand_stopped (hr : next s = .matched (some (symbol, fixity)) s₁)
    (hr₁ : element s₁ = .stopped reason) : Scans element next s (.error reason) :=
  .of_round fun bound _ => by simp only [gist_scanFrom, hr, hr₁]

/-- A scan fails with the operand behind an operator. -/
theorem scans_operand_failed (hr : next s = .matched (some (symbol, fixity)) s₁)
    (hr₁ : element s₁ = .failed cause s₂) : Scans element next s (.ok none) :=
  .of_round fun bound _ => by simp only [gist_scanFrom, hr, hr₁]

/-- A scan reads an operator and an operand and comes to what it comes to behind them. -/
theorem Scans.taken (hr : next s = .matched (some (symbol, fixity)) s₁)
    (hr₁ : element s₁ = .matched first s₂) (hless : s₂.source.remaining < s.source.remaining)
    (h : Scans element next s₂ outcome) :
    Scans element next s (behind [.operator symbol fixity, .operand first] outcome) :=
  .of_round fun bound hbound => by
    simp only [gist_scanFrom bound, hr, hr₁]
    rw [h bound (by omega)]

end Rounds

variable (origin element next) in
/-- From a session behind the tree `left`, climbing has read some more tokens and made one tree of all.
The root is the one there was or binds tightly enough, and what is next binds too loosely. -/
structure Climbed (floor : UInt32) (left : OperatorTree) (s : Session) (tree : OperatorTree)
    (s' : Session) : Prop where
  reached : Reached origin s'
  forward : s.source.pos ≤ s'.source.pos
  grouped : tree.Grouped
  root : ∀ inner, tree.root? = some inner → left.root? = some inner ∨ floor ≤ inner.precedence
  loose : Loose next s' floor
  scanned : ∃ read, tree.tokens = left.tokens ++ read ∧ ∀ outcome, Scans element next s' outcome →
    Scans element next s (behind read outcome)

variable (origin element next combine) in
/-- Climbing fails only where the scan does, and what it matches is the value of the tree that it made. -/
def Climbs (floor : UInt32) (left : OperatorTree) (s : Session) : Except Cause Tree → Session → Prop
  | .error _, _ => Scans element next s (.ok none)
  | .ok value, s' => ∃ tree, value = tree.fold combine ∧ Climbed element next origin floor left s tree s'

/-- Climbing that leaves the tree as it is. -/
theorem Climbed.still (he : Steady origin element) (hn : Steady origin next) {floor : UInt32}
    {left : OperatorTree} (hleft : left.Grouped) (hs : Reached origin s) (hs' : Reached origin s')
    (hpos : s.source.pos = s'.source.pos) (hloose : Loose next s floor) :
    Climbed element next origin floor left s left s' where
  reached := hs'
  forward := Nat.le_of_eq hpos
  grouped := hleft
  root _ h := .inl h
  loose := hn.loose hs hs' hpos hloose
  scanned := by
    refine ⟨[], by simp, fun outcome h bound hbound => ?_⟩
    rw [behind_nil, (steady_scanFrom he hn bound).same s s' hs hs' hpos]
    exact h bound (Nat.lt_of_le_of_lt (hs.remaining_le hs' (Nat.le_of_eq hpos)) hbound)

/-- Climbing goes on only behind an operator, and then with the tree that the operator roots. -/
theorem Climbed.further {floor : UInt32} {left right tree : OperatorTree} {symbol first : Tree}
    {fixity : Fixity} {s₁ s₂ s₃ s₄ : Session} (hr : next s = .matched (some (symbol, fixity)) s₁)
    (hr₁ : element s₁ = .matched first s₂) (hpos : s.source.pos ≤ s₂.source.pos)
    (hless : s₂.source.remaining < s.source.remaining) (hfloor : floor ≤ fixity.precedence)
    (hright : Climbed element next origin fixity.rightFloor (.leaf first) s₂ right s₃)
    (htree : Climbed element next origin floor (.node left symbol fixity right) s₃ tree s₄) :
    Climbed element next origin floor left s tree s₄ := by
  have hforward := htree.forward
  have hforward' := hright.forward
  obtain ⟨read, hread, hscan⟩ := hright.scanned
  obtain ⟨read', hread', hscan'⟩ := htree.scanned
  refine ⟨htree.reached, by omega, htree.grouped, fun inner hinner => ?_, htree.loose,
    .operator symbol fixity :: .operand first :: (read ++ read'), ?_, fun outcome h => ?_⟩
  · rcases htree.root inner hinner with heq | hle
    · cases heq
      exact .inr hfloor
    · exact .inr hle
  · simp [hread', hread, OperatorTree.tokens]
  · have htaken := (hscan _ (hscan' _ h)).taken hr hr₁ hless
    rwa [behind_append, behind_append] at htaken

variable (origin element next combine) in
/-- With the bound, climbing reads what a scan reads and groups it, from every session that leaves fewer
bytes and behind every grouped tree that lets what is next stand behind it. -/
def ClimbsWithin (bound : Nat) : Prop :=
  ∀ floor left s, left.Grouped → Reached origin s → s.source.remaining < bound →
    Ahead next s (fun fixity =>
      ∀ inner, left.root? = some inner → fixity.precedence.toNat < inner.next) →
    Ensures (fun reason => Scans element next s (.error reason))
      (climbFrom element next combine bound floor (left.fold combine)) s
      (Climbs element next origin combine floor left s)

/-- The round of climbing that takes an operator: first the operand on its right is read, as far as it
reaches, and then what is behind it. -/
theorem ClimbsWithin.ensures_taken (he : Steady origin element) (hn : Steady origin next)
    (hp : Progresses origin next) (hf : Fits next) {bound : Nat} (ih : ClimbsWithin element next origin combine bound)
    {floor : UInt32} {left : OperatorTree} (hleft : left.Grouped) (hs : Reached origin s)
    (hbound : s.source.remaining < bound + 1) {symbol : Tree} {fixity : Fixity} {s₁ : Session}
    (hr : next s = .matched (some (symbol, fixity)) s₁) (htight : floor ≤ fixity.precedence)
    (hopen : ∀ inner, left.root? = some inner → fixity.precedence.toNat < inner.next) :
    Ensures (fun reason => Scans element next s (.error reason))
      (do let first ← element
          let right ← climbFrom element next combine bound fixity.rightFloor first
          climbFrom element next combine bound floor (combine (left.fold combine) symbol right)) s₁
      (Climbs element next origin combine floor left s) := by
  obtain ⟨hs₁, -⟩ := (hn.forward s hs).of_matched hr
  have hless₁ := hs.remaining_lt hs₁ (hp.consumes s _ s₁ hs hr)
  have hnext := Fixity.toNat_rightFloor (hf s symbol fixity s₁ hr)
  cases hr₁ : element s₁ with
  | stopped reason => exact (ensures_bind_stopped hr₁).2 (scans_operand_stopped hr hr₁)
  | failed cause s₂ => exact (ensures_bind_failed hr₁).2 (scans_operand_failed hr hr₁)
  | matched first s₂ =>
    obtain ⟨hs₂, hforward⟩ := (he.forward s₁ hs₁).of_matched hr₁
    have hfewer := hs₁.remaining_le hs₂ hforward
    have hless : s₂.source.remaining < s.source.remaining := by omega
    have hpos : s.source.pos ≤ s₂.source.pos :=
      Nat.le_trans (Nat.le_of_lt (hp.consumes s _ s₁ hs hr)) hforward
    rw [ensures_bind_matched hr₁, ensures_bind]
    have hlone : Ahead next s₂ fun fixity =>
        ∀ inner, (OperatorTree.leaf first).root? = some inner → fixity.precedence.toNat < inner.next :=
      fun _ _ _ _ _ h => by cases h
    refine (ih fixity.rightFloor (.leaf first) s₂ trivial hs₂ (by omega) hlone).imp
      (fun reason hstop => hstop.taken hr hr₁ hless) fun result s₃ hright => ?_
    cases result with
    | error cause => exact Scans.taken hr hr₁ hless hright
    | ok value =>
      obtain ⟨right, rfl, hright⟩ := hright
      obtain ⟨read, -, hread⟩ := hright.scanned
      have hfewer₃ := hs₂.remaining_le hright.reached hright.forward
      have hnode : (OperatorTree.node left symbol fixity right).Grouped := by
        refine ⟨hleft, hright.grouped, hopen, fun inner hinner => ?_⟩
        rcases hright.root inner hinner with h | h
        · cases h
        · exact hnext ▸ UInt32.le_iff_toNat_le.1 h
      have hbehind : Ahead next s₃ fun fixity' => ∀ inner,
          (OperatorTree.node left symbol fixity right).root? = some inner →
            fixity'.precedence.toNat < inner.next := by
        intro symbol' fixity' s' hr' inner hinner
        cases hinner
        exact hnext ▸ UInt32.lt_iff_toNat_lt.1 (hright.loose.ahead symbol' fixity' s' hr')
      refine (ih floor _ s₃ hnode hright.reached (by omega) hbehind).imp
        (fun reason hstop => (hread _ hstop).taken hr hr₁ hless) fun result s₄ htree => ?_
      cases result with
      | error cause => exact (hread _ htree).taken hr hr₁ hless
      | ok value =>
        obtain ⟨tree, rfl, htree⟩ := htree
        exact ⟨tree, rfl, .further hr hr₁ hpos hless htight hright htree⟩

/-- Climbing reads what a scan reads, and groups it. -/
theorem ensures_climbFrom (he : Steady origin element) (hn : Steady origin next)
    (hp : Progresses origin next) (hf : Fits next) (bound : Nat) : ClimbsWithin element next origin combine bound := by
  induction bound with
  | zero => exact fun _ _ _ _ _ hbound => absurd hbound (Nat.not_lt_zero _)
  | succ bound ih =>
    intro floor left s hleft hs hbound hopen
    rw [climbFrom, ensures_bind, ensures_position]
    cases hr : next s with
    | stopped reason => exact (ensures_bind_stopped hr).2 (scans_operator_stopped hr)
    | failed cause s₁ => exact (ensures_bind_failed hr).2 (scans_operator_failed hr)
    | matched found s₁ =>
      obtain ⟨hs₁, -⟩ := (hn.forward s hs).of_matched hr
      refine (ensures_bind_matched hr).2 ?_
      rcases found with _ | ⟨symbol, fixity⟩
      · have hloose : Loose next s floor := ⟨none, s₁, hr, fun _ _ h => by cases h⟩
        exact ⟨left, rfl, Climbed.still he hn hleft hs hs₁ (hp.stays s s₁ hs hr).symm hloose⟩
      · dsimp only
        split
        · rename_i hlow
          have hloose : Loose next s floor := ⟨_, s₁, hr, fun _ _ h => by cases h; exact hlow⟩
          have hback : s₁.source.text.isBoundary s.source.pos = true := by
            rw [hs₁.text, ← hs.text]
            exact hs.boundary
          rw [ensures_bind, ensures_moveTo hback]
          have hs' : Reached origin { s₁ with source.pos := s.source.pos } :=
            ⟨⟨hs₁.text, hs₁.lines, hs₁.bodies, hs₁.memo, hs₁.captures, hs₁.labels⟩, hback⟩
          exact ⟨left, rfl, Climbed.still he hn hleft hs hs' rfl hloose⟩
        · rename_i htight
          exact ih.ensures_taken he hn hp hf hleft hs hbound hr (UInt32.not_lt.1 htight)
            (hopen symbol fixity s₁ hr)

/-- What a scan comes to, by what the first operand comes to. -/
theorem gist_scan (bound : Nat) : (scan element next bound s).gist =
    match element s with
    | .stopped reason => .error reason
    | .failed _ _ => .ok none
    | .matched value s₁ => behind [.operand value] (scanFrom element next bound s₁).gist := by
  change (Matcher.bind element _ s).gist = _
  rw [Matcher.bind]
  cases element s with
  | stopped reason => rfl
  | failed cause s₁ => rfl
  | matched value s₁ => exact gist_map _ [.operand value] s₁

variable (combine)

/-- Climbing from the start fails where the scan fails, and otherwise groups all that is scanned. -/
def Groups (scanned : Except Stop (Option (List Token × Nat))) : Except Cause Tree → Session → Prop
  | .error _, _ => scanned = .ok none
  | .ok value, s' => ∃ tree : OperatorTree, tree.Grouped ∧ value = tree.fold combine ∧
    scanned = .ok (some (tree.tokens, s'.source.pos))

/-- Climbing from the start reads all that is scanned. -/
theorem ensures_climb (he : Steady origin element) (hn : Steady origin next)
    (hp : Progresses origin next) (hf : Fits next) (hs : Reached origin s) {bound bound' : Nat}
    (hbound : s.source.remaining < bound) (hbound' : s.source.remaining < bound') :
    Ensures (fun reason => (scan element next bound' s).gist = .error reason)
      (climb element next combine bound 0) s (Groups combine (scan element next bound' s).gist) := by
  rw [climb, gist_scan]
  cases hr : element s with
  | stopped reason => exact (ensures_bind_stopped hr).2 rfl
  | failed cause s₁ => exact (ensures_bind_failed hr).2 rfl
  | matched first s₁ =>
    obtain ⟨hs₁, hforward⟩ := (he.forward s hs).of_matched hr
    have hfewer := hs.remaining_le hs₁ hforward
    rw [ensures_bind_matched hr]
    have hlone : Ahead next s₁ fun fixity =>
        ∀ inner, (OperatorTree.leaf first).root? = some inner → fixity.precedence.toNat < inner.next :=
      fun _ _ _ _ _ h => by cases h
    refine (ensures_climbFrom he hn hp hf bound 0 (.leaf first) s₁ trivial hs₁ (by omega) hlone).imp
      (fun reason hstop => ?_) fun result s₂ hclimbs => ?_
    · dsimp only
      rw [hstop bound' (by omega)]
      rfl
    · cases result with
      | error cause =>
        change behind _ _ = _
        rw [hclimbs bound' (by omega)]
        rfl
      | ok value =>
        obtain ⟨tree, hvalue, hclimbed⟩ := hclimbs
        obtain ⟨read, hread, hrest⟩ := hclimbed.scanned
        refine ⟨tree, hclimbed.grouped, hvalue, ?_⟩
        -- whatever operator were next would bind tightly enough
        obtain ⟨found, s₃, hr₂, hlow⟩ := hclimbed.loose
        rcases found with _ | ⟨symbol, fixity⟩
        · have hlast : Scans element next s₂ (.ok (some ([], s₂.source.pos))) :=
            .of_round fun bound _ => by
              simp only [gist_scanFrom, hr₂, hp.stays s₂ s₃ hclimbed.reached hr₂]
          dsimp only
          rw [hrest _ hlast bound' (by omega), hread]
          simp [behind, Except.map, OperatorTree.tokens]
        · exact (UInt32.not_lt_zero (hlow symbol fixity rfl)).elim

/-- A guarded step is broken off if the step is. -/
theorem guarded_stopped {step : Matcher Raw} {reason : Stop} (h : step s = .stopped reason) :
    guarded step s = .stopped reason := by
  change Matcher.bind (attempt step) _ s = _
  rw [Matcher.bind, attempt, h]

/-- A guarded step fails if the step does. -/
theorem guarded_failed {step : Matcher Raw} {cause : Cause} (h : step s = .failed cause s')
    (hb : s'.source.text.isBoundary s.source.pos = true) :
    guarded step s = .failed cause { s' with source.pos := s.source.pos } := by
  change Matcher.bind (attempt step) _ s = _
  rw [Matcher.bind, attempt, h]
  change Matcher.bind (moveTo s.source.pos) _ s' = _
  simp [Matcher.bind, moveTo, Source.setPos?, hb, fail]

/-- A guarded step matches if the step does. -/
theorem guarded_matched {step : Matcher Raw} {raw : Raw} (h : step s = .matched raw s') :
    guarded step s = .matched raw
      { s' with reporter := s'.reporter.observe (.succeeded s'.source.pos) } := by
  change Matcher.bind (attempt step) _ s = _
  rw [Matcher.bind, attempt, h]
  rfl

end Matcher

section Expression

open Matcher

variable {apply : RuleRef → Matcher Raw} {operand : Atom} {table : List (Fixity × Atom)}
  {origin s : Session}

/-- Wherever the expression matches, it consumes input. -/
def Atom.Consumes (apply : RuleRef → Matcher Raw) (atom : Atom) : Prop :=
  ∀ s value s', s.source.text.isBoundary s.source.pos = true →
    atom.matcher apply s = .matched value s' → s.source.pos < s'.source.pos

/-- A literal other than the empty one, or a character of a class, consumes input. -/
theorem Atom.consumes_of_isSymbol (apply : RuleRef → Matcher Raw) {atom : Atom}
    (h : atom.isSymbol = true) : atom.Consumes apply := by
  intro s value s' hs hr
  obtain ⟨rules, hb⟩ := RuleTable.exists_knows s.bodies
  have hreached : Reached s s := ⟨.refl s, hs⟩
  have htakes : (Course.free rules s.source.text).Takes 1 (atom.watched (fun _ => guarded) apply) :=
    Course.takes_symbol (fun _ _ _ h => h.guarded) h
  rw [watched_guarded] at htakes
  exact ((htakes s (hreached.start hb)).of_matched hr).2 value rfl

/-- The row that an operator expression is read as, without regard to precedence. There are no more
operators in it than bytes. -/
def Atom.scan (apply : RuleRef → Matcher Raw) (operand : Atom) (table : List (Fixity × Atom)) :
    Matcher (List Token) := fun s =>
  Matcher.scan (Matcher.operand operand (operand.matcher apply))
    (operator (Atom.operatorMatchers apply table)) (s.source.remaining + 1) s

/-- An operand that is detached is steady. -/
theorem steady_operand (h : operand.Every (·.isDetached)) :
    Steady origin (Matcher.operand operand (operand.matcher apply)) :=
  steady_of_goes (calm.operand (calm_matcher h) operand) fun table text =>
    Pair.goes_operand operand operand (Pair.goes_detached table text h)

/-- A scan for operators that are detached is steady. -/
theorem steady_operator (h : ∀ op ∈ table, op.2.Every (·.isDetached)) :
    Steady origin (operator (Atom.operatorMatchers apply table)) := by
  rw [Atom.operatorMatchers_eq_map]
  have hcalm : ∀ op ∈ table.map fun op => (op.1, op.2.matcher apply), Calm op.2 := by
    simpa using fun _ _ fixity atom hop _ heq => heq ▸ calm_matcher (h (fixity, atom) hop)
  refine steady_of_goes (calm.operator hcalm) fun rules text => ?_
  have hgoes (op : Fixity × Atom) (hop : op ∈ table) :
      (Pair.free rules text).Goes Eq (op.2.matcher apply) (op.2.matcher apply) :=
    Pair.goes_detached rules text (h op hop)
  have hends : ∀ op ∈ table.map fun op => (op.1, op.2.matcher apply),
      (Course.free rules text).Ends op.2 := by
    simpa using fun _ _ fixity atom hop _ heq => heq ▸ (hgoes (fixity, atom) hop).first
  exact ⟨Course.ends_operator hends, Course.ends_operator hends,
    Pair.keeps_operator (fun op : Fixity × Atom => op.1) hgoes⟩

/-- If no operator matches, the cursor is back where it was. -/
theorem operator_stays (h : ∀ op ∈ table, op.2.Every (·.isDetached)) (hs : Reached origin s) :
    Ensures anyhow (operator (Atom.operatorMatchers apply table)) s fun result s' =>
      result = .ok none → s'.source.pos = s.source.pos := by
  induction table generalizing s with
  | nil => simp [Atom.operatorMatchers, operator]
  | cons op rest ih =>
    rw [Atom.operatorMatchers, operator, ensures_bind, ensures_attempt]
    refine (((steady_matcher (h op (by simp))).forward s hs).and (givesBack_matcher apply op.2 s)).mono ?_
    rintro result s₁ ⟨⟨hs₁, -⟩, hback⟩
    cases result with
    | error cause =>
      have hrest := ih (fun op hop => h op (List.mem_cons_of_mem _ hop)) hs₁
      rwa [hback cause rfl] at hrest
    | ok raw =>
      dsimp only
      rw [ensures_bind]
      exact ensures_flatten _ _ _ fun _ _ => by simp

/-- An operator that is found is one of the table, and was matched. What holds of the session at first, and
still behind an operator that does not match, holds where it was matched. -/
theorem exists_of_operator_found (holds : Session → Prop)
    (hfailed : ∀ op ∈ table, ∀ t cause t', holds t → op.2.matcher apply t = .failed cause t' → holds t')
    (hs : holds s) {symbol : Tree} {fixity : Fixity}
    (hr : operator (Atom.operatorMatchers apply table) s = .matched (some (symbol, fixity)) s') :
    ∃ op ∈ table, op.1 = fixity ∧ ∃ t raw t', holds t ∧ op.2.matcher apply t = .matched raw t' ∧
      t'.source.pos = s'.source.pos := by
  induction table generalizing s with
  | nil => cases hr
  | cons op rest ih =>
    rw [Atom.operatorMatchers, operator] at hr
    cases hop : op.2.matcher apply s with
    | stopped reason =>
      change Matcher.bind (attempt _) _ s = _ at hr
      rw [Matcher.bind, attempt, hop] at hr
      cases hr
    | failed cause s₁ =>
      have htried : attempt (op.2.matcher apply) s = .matched (.error cause) s₁ := by rw [attempt, hop]
      rw [bind_of_matched htried] at hr
      obtain ⟨op', hop', hfound⟩ := ih (fun op hop => hfailed op (List.mem_cons_of_mem _ hop))
        (hfailed op List.mem_cons_self s cause s₁ hs hop) hr
      exact ⟨op', List.mem_cons_of_mem _ hop', hfound⟩
    | matched raw s₁ =>
      have htried : attempt (op.2.matcher apply) s = .matched (.ok raw) s₁ := by rw [attempt, hop]
      rw [bind_of_matched htried] at hr
      have hflat : Ensures anyhow (do return some (← flatten true raw, op.1)) s₁ fun result t =>
          ∀ symbol fixity, result = .ok (some (symbol, fixity)) → op.1 = fixity ∧ s₁.source.pos = t.source.pos := by
        rw [ensures_bind]
        exact ensures_flatten _ _ _ fun _ _ => by simp
      obtain ⟨rfl, hpos⟩ := hflat.of_matched hr symbol fixity rfl
      exact ⟨op, List.mem_cons_self, rfl, s, raw, s₁, hs, hop, hpos⟩

/-- A scan progresses if every operator consumes something. -/
theorem progresses_operator (h : ∀ op ∈ table, op.2.Every (·.isDetached))
    (hconsumes : ∀ op ∈ table, op.2.Consumes apply) :
    Progresses origin (operator (Atom.operatorMatchers apply table)) where
  consumes s found s' hs hr := by
    obtain ⟨op, hop, -, t, raw, t', ⟨ht, hpos⟩, hmatched, hpos'⟩ :=
      exists_of_operator_found (fun t => Reached origin t ∧ t.source.pos = s.source.pos)
        (fun op hop t cause t' ⟨ht, hpos⟩ hr =>
          ⟨(((steady_matcher (h op hop)).forward t ht).of_failed hr).1,
            ((givesBack_matcher apply op.2 t).of_failed hr cause rfl).trans hpos⟩) ⟨hs, rfl⟩ hr
    rw [← hpos, ← hpos']
    exact hconsumes op hop t raw t' ht.boundary hmatched
  stays s s' hs hr := (operator_stays h hs).of_matched hr rfl

/-- An operator that is found binds as one of the table does. -/
theorem operator_fits (h : ∀ op ∈ table, op.1 ≠ ⟨4294967295, .left⟩) :
    Fits (operator (Atom.operatorMatchers apply table)) := by
  intro s symbol fixity s' hr
  obtain ⟨op, hop, rfl, -⟩ :=
    exists_of_operator_found (fun _ => True) (fun _ _ _ _ _ _ _ => trivial) trivial hr
  exact h op hop

/-- How an operator expression matches, given how it is scanned from the same session: both are broken
off, or both fail, or both match up to one offset, and then the tokens can be grouped in exactly one way
and the value is that of the tree. -/
inductive GroupsScan (combine : Tree → Tree → Tree → Tree) (start : Nat) :
    Reply (List Token) → Reply Raw → Prop where
  /-- An operand or an operator is broken off. -/
  | stopped (reason : Stop) : GroupsScan combine start (.stopped reason) (.stopped reason)
  /-- An operand is missing. -/
  | failed {cause cause' : Cause} {s s' : Session} (back : s'.source.pos = start) :
    GroupsScan combine start (.failed cause s) (.failed cause' s')
  /-- No operand is missing. -/
  | matched {tree : OperatorTree} {s s' : Session} (grouped : tree.Grouped)
    (only : ∀ other : OperatorTree, other.tokens = tree.tokens → other.Grouped → other = tree)
    (stop : s'.source.pos = s.source.pos) :
    GroupsScan combine start (.matched tree.tokens s) (.matched (.leaf (tree.fold combine)) s')

/-- An operator expression is read as a row, and its value is that of the one tree that groups the row:
if operands and operators are detached and operators consume input, it is broken off, fails and matches
as the scan from the same session does, and up to the same offset. -/
theorem operators_groups_scan (hoperand : operand.Every (·.isDetached))
    (htable : ∀ op ∈ table, op.2.Every (·.isDetached)) (hconsumes : ∀ op ∈ table, op.2.Consumes apply)
    (hfits : ∀ op ∈ table, op.1 ≠ ⟨4294967295, .left⟩) (combine : Option (Tree → Tree → Tree → Tree))
    (hs : s.source.text.isBoundary s.source.pos = true) :
    GroupsScan (combine.getD Tree.operation) s.source.pos (Atom.scan apply operand table s)
      ((Atom.operators operand table combine).matcher apply s) := by
  have hreached : Reached s s := ⟨.refl s, hs⟩
  have hoperand' : Steady s (Matcher.operand operand (operand.matcher apply)) := steady_operand hoperand
  have hclimb := ensures_climb (combine.getD Tree.operation) hoperand' (steady_operator htable)
    (progresses_operator htable hconsumes) (operator_fits hfits) hreached (Course.lt_operatorBound s.source.remaining)
    (Nat.lt_succ_self s.source.remaining)
  have hstep : operators operand (operand.matcher apply) (Atom.operatorMatchers apply table) combine s
      = Matcher.bind (climb (Matcher.operand operand (operand.matcher apply))
        (operator (Atom.operatorMatchers apply table)) (combine.getD Tree.operation)
        (operatorBound s.source.remaining) 0) (fun tree => pure (.leaf tree)) s := rfl
  have hscan : Matcher.scan (Matcher.operand operand (operand.matcher apply))
      (operator (Atom.operatorMatchers apply table)) s.source.remaining.succ s
        = Atom.scan apply operand table s := rfl
  rw [Matcher.bind] at hstep
  rw [hscan] at hclimb
  unfold Ensures at hclimb
  have hmatcher : (Atom.operators operand table combine).matcher apply = guarded
    (operators operand (operand.matcher apply) (Atom.operatorMatchers apply table) combine) := rfl
  rw [hmatcher]
  split at hclimb
  · rename_i reason hr
    rw [hr] at hstep
    rw [guarded_stopped hstep, eq_stopped_of_gist hclimb]
    exact .stopped reason
  · rename_i cause s' hr
    rw [hr] at hstep
    have htext := ((calm_operators hoperand htable combine s).of_failed hstep).text
    obtain ⟨cause', s₁, hr₁⟩ := eq_failed_of_gist hclimb
    rw [guarded_failed hstep (htext ▸ hs), hr₁]
    exact .failed rfl
  · rename_i value s' hr
    rw [hr] at hstep
    obtain ⟨tree, hgrouped, rfl, hgist⟩ := hclimb
    obtain ⟨s₁, hr₁, hpos⟩ := eq_matched_of_gist hgist
    rw [guarded_matched hstep, hr₁]
    exact .matched hgrouped (fun other htokens hother => hother.eq_of_tokens hgrouped htokens) hpos.symm

/-- Sums and products, which group to the left, and powers, which group to the right; products bind
tighter than sums, and powers tighter than both. -/
def arithmeticTable : List (Fixity × Atom) :=
  [(⟨1, .left⟩, .literal "+"), (⟨2, .left⟩, .literal "*"), (⟨3, .right⟩, .literal "^")]

/-- The byte at an offset of a text, as an expression that consumes it yields it. -/
def byteAt (text : String) (offset : Nat) : Tree :=
  .str ⟨Text.ofString text, offset, offset + 1, offset⟩

/-- From the start of the text, arithmetic is read to the end and yields the value of the tree. -/
def ReadAs (text : String) (tree : OperatorTree) : Prop :=
  ∃ s', (Atom.operators .any arithmeticTable none).matcher (RuleTable.empty.applyRule 1)
      (Session.startAt text {} [] 0) = .matched (.leaf (tree.fold Tree.operation)) s' ∧
    s'.source.pos = text.utf8ByteSize

/-- Sums group to the left, powers group to the right, and a product is an operand of a sum. -/
theorem arithmetic_groups_scan :
    ReadAs "1+2+3" (.node (.node (.leaf (byteAt "1+2+3" 0)) (byteAt "1+2+3" 1) ⟨1, .left⟩
      (.leaf (byteAt "1+2+3" 2))) (byteAt "1+2+3" 3) ⟨1, .left⟩ (.leaf (byteAt "1+2+3" 4))) ∧
    ReadAs "1^2^3" (.node (.leaf (byteAt "1^2^3" 0)) (byteAt "1^2^3" 1) ⟨3, .right⟩
      (.node (.leaf (byteAt "1^2^3" 2)) (byteAt "1^2^3" 3) ⟨3, .right⟩ (.leaf (byteAt "1^2^3" 4)))) ∧
    ReadAs "1+2*3" (.node (.leaf (byteAt "1+2*3" 0)) (byteAt "1+2*3" 1) ⟨1, .left⟩
      (.node (.leaf (byteAt "1+2*3" 2)) (byteAt "1+2*3" 3) ⟨2, .left⟩ (.leaf (byteAt "1+2*3" 4)))) := by
  have hoperand : Atom.any.Every (·.isDetached) := by simp [Atom.any, Atom.isDetached]
  have htable : ∀ op ∈ arithmeticTable, op.2.Every (·.isDetached) := by
    simp [arithmeticTable, Atom.isDetached]
  have hsymbols : ∀ op ∈ arithmeticTable, op.2.isSymbol = true := by
    simp [arithmeticTable, Atom.isSymbol]
  have hfits : ∀ op ∈ arithmeticTable, op.1 ≠ ⟨4294967295, .left⟩ := by
    simp [arithmeticTable]
  have hread (text : String) (tree : OperatorTree) (hgrouped : tree.Grouped)
      (hscan : (Atom.scan (RuleTable.empty.applyRule 1) .any arithmeticTable
        (Session.startAt text {} [] 0)).gist = .ok (some (tree.tokens, text.utf8ByteSize))) :
      ReadAs text tree := by
    have hgroups := operators_groups_scan hoperand htable
      (fun op hop => Atom.consumes_of_isSymbol (RuleTable.empty.applyRule 1) (hsymbols op hop)) hfits
      none (Text.isBoundary_zero (Session.startAt text {} [] 0).source.text)
    unfold ReadAs
    generalize Atom.scan _ _ _ _ = scanned at hscan hgroups
    generalize (Atom.operators .any arithmeticTable none).matcher _ _ = reply at hgroups ⊢
    cases hgroups with
    | stopped reason => cases hscan
    | failed back => cases hscan
    | @matched tree' s s' grouped only stop =>
      obtain ⟨htokens, hpos⟩ : tree'.tokens = tree.tokens ∧ s.source.pos = text.utf8ByteSize := by
        simpa [Reply.gist] using hscan
      rw [only tree htokens.symm hgrouped]
      exact ⟨s', rfl, stop.trans hpos⟩
  refine ⟨hread _ _ ?_ (by cbv), hread _ _ ?_ (by cbv), hread _ _ ?_ (by cbv)⟩ <;>
    simp [OperatorTree.Grouped, OperatorTree.root?, Fixity.next]

end Expression

end Packrat
