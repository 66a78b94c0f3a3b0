import Packrat.Atom.Basic

/-!
# Operator trees

What operators of different precedence join is a binary tree. Read from left to right, a tree is a row
of tokens: operands with an operator between any two of them. A tree is grouped if every operator binds
its operands as its precedence and its side ask for. A row of tokens can be grouped in one way only:
the operator at the root binds looser than all others in the row, up to the sides of those that bind
alike, and no other operator of the row does.
-/

namespace Packrat

/-- What an operator expression is read as, from left to right. -/
inductive Token where
  /-- The value of an operand. -/
  | operand (value : Tree)
  /-- The value of an operator, and how it binds. -/
  | operator (symbol : Tree) (fixity : Fixity)

/-- Operands joined by binary operators. -/
inductive OperatorTree where
  /-- One operand. -/
  | leaf (value : Tree)
  /-- An operator between what it joins. -/
  | node (left : OperatorTree) (symbol : Tree) (fixity : Fixity) (right : OperatorTree)

/-- The lowest precedence that the root of a right operand may have: one more than the precedence of the
operator if it groups to the left, and the same precedence if it groups to the right. -/
def Fixity.next (f : Fixity) : Nat :=
  match f.side with
  | .left => f.precedence.toNat + 1
  | .right => f.precedence.toNat

/-- To its right an operator asks for no less than its own precedence. -/
theorem Fixity.precedence_le_next (f : Fixity) : f.precedence.toNat ≤ f.next := by
  unfold next
  split <;> omega

/-- To its right an operator asks for at most one precedence more than its own. -/
theorem Fixity.next_le (f : Fixity) : f.next ≤ f.precedence.toNat + 1 := by
  unfold next
  split <;> omega

/-- Climbing asks for just this precedence, unless the addition wraps around. -/
theorem Fixity.toNat_rightFloor {f : Fixity} (h : f ≠ ⟨4294967295, .left⟩) :
    f.rightFloor.toNat = f.next := by
  obtain ⟨precedence, side⟩ := f
  cases side with
  | right => rfl
  | left =>
    have hne : precedence.toNat ≠ 4294967295 := fun heq =>
      h (by rw [UInt32.toNat_inj.1 (heq.trans (by rfl : _ = (4294967295 : UInt32).toNat))])
    have hlt := precedence.toNat_lt
    simp only [rightFloor, next, UInt32.toNat_add, UInt32.toNat_one]
    omega

example : Fixity.rightFloor ⟨4294967295, .left⟩ = 0 := rfl

namespace OperatorTree

/-- The operands and operators of the tree, from left to right. -/
def tokens : OperatorTree → List Token
  | .leaf value => [.operand value]
  | .node left symbol fixity right => left.tokens ++ .operator symbol fixity :: right.tokens

/-- How the operator at the root binds, if there is one. -/
def root? : OperatorTree → Option Fixity
  | .leaf _ => none
  | .node _ _ fixity _ => some fixity

/-- Every operator binds what it joins: the root behind it binds as tightly as it asks for, and the root
in front of it asks for more than it has, so that it could not stand further inside. -/
def Grouped : OperatorTree → Prop
  | .leaf _ => True
  | .node left _ fixity right => left.Grouped ∧ right.Grouped ∧
    (∀ inner, left.root? = some inner → fixity.precedence.toNat < inner.next) ∧
    ∀ inner, right.root? = some inner → fixity.next ≤ inner.precedence.toNat

/-- The value of the tree, if an operator combines the values of what it joins. -/
def fold (combine : Tree → Tree → Tree → Tree) : OperatorTree → Tree
  | .leaf value => value
  | .node left symbol _ right => combine (left.fold combine) symbol (right.fold combine)

variable {tree left right left' right' : OperatorTree} {symbol symbol' : Tree}
  {fixity fixity' inner : Fixity}

/-- If the operator at the root asks for no more than is there, neither do those below it. -/
theorem Grouped.lt_of_root (h : tree.Grouped) {bound : Nat}
    (hroot : ∀ inner, tree.root? = some inner → bound < inner.next)
    (hmem : .operator symbol fixity ∈ tree.tokens) : bound < fixity.next := by
  induction tree with
  | leaf value => simp [tokens] at hmem
  | node left s f right ihleft ihright =>
    obtain ⟨hl, hr, hlroot, hrroot⟩ := h
    have hf : bound < f.next := hroot f rfl
    have hnear := f.next_le
    simp only [tokens, List.mem_append, List.mem_cons] at hmem
    rcases hmem with hmem | heq | hmem
    · exact ihleft hl (fun inner hinner => by have := hlroot inner hinner; omega) hmem
    · cases heq
      exact hf
    · refine ihright hr (fun inner hinner => ?_) hmem
      have := hrroot inner hinner
      have := inner.precedence_le_next
      omega

/-- If the operator at the root binds tightly enough, so do those below it. -/
theorem Grouped.le_of_root (h : tree.Grouped) {bound : Nat}
    (hroot : ∀ inner, tree.root? = some inner → bound ≤ inner.precedence.toNat)
    (hmem : .operator symbol fixity ∈ tree.tokens) : bound ≤ fixity.precedence.toNat := by
  induction tree with
  | leaf value => simp [tokens] at hmem
  | node left s f right ihleft ihright =>
    obtain ⟨hl, hr, hlroot, hrroot⟩ := h
    have hf : bound ≤ f.precedence.toNat := hroot f rfl
    have hnear := f.precedence_le_next
    simp only [tokens, List.mem_append, List.mem_cons] at hmem
    rcases hmem with hmem | heq | hmem
    · refine ihleft hl (fun inner hinner => ?_) hmem
      have := hlroot inner hinner
      have := inner.next_le
      omega
    · cases heq
      exact hf
    · exact ihright hr (fun inner hinner => by have := hrroot inner hinner; omega) hmem

/-- Two grouped trees with the same tokens do not have their roots at different places. -/
theorem Grouped.not_shifted (h : (node left symbol fixity right).Grouped)
    (h' : (node left' symbol' fixity' right').Grouped) {between : List Token}
    (hleft : left'.tokens = left.tokens ++ .operator symbol fixity :: between)
    (hright : right.tokens = between ++ .operator symbol' fixity' :: right'.tokens) : False := by
  obtain ⟨-, hr, -, hrroot⟩ := h
  obtain ⟨hl', -, hlroot', -⟩ := h'
  have hmem : .operator symbol fixity ∈ left'.tokens := by rw [hleft]; simp
  have hmem' : .operator symbol' fixity' ∈ right.tokens := by rw [hright]; simp
  have hbefore : fixity'.precedence.toNat < fixity.next := hl'.lt_of_root hlroot' hmem
  have hbehind : fixity.next ≤ fixity'.precedence.toNat := hr.le_of_root hrroot hmem'
  omega

/-- A row of tokens can be grouped in one way only. -/
theorem Grouped.eq_of_tokens (h : tree.Grouped) {other : OperatorTree} (h' : other.Grouped)
    (htokens : tree.tokens = other.tokens) : tree = other := by
  have hlone (value : Tree) (left right : OperatorTree) (symbol : Tree) (fixity : Fixity) :
      [Token.operand value] ≠ left.tokens ++ .operator symbol fixity :: right.tokens := by
    intro heq
    have hmem : Token.operator symbol fixity ∈ [Token.operand value] := by rw [heq]; simp
    simp at hmem
  induction tree generalizing other with
  | leaf value =>
    cases other with
    | leaf value' => simpa [tokens] using htokens
    | node left' s' f' right' => exact (hlone _ _ _ _ _ htokens).elim
  | node left s f right ihleft ihright =>
    cases other with
    | leaf value' => exact (hlone _ _ _ _ _ htokens.symm).elim
    | node left' s' f' right' =>
      rcases List.append_eq_append_iff.1 htokens with
        ⟨between, hleft, hright⟩ | ⟨between, hleft, hright⟩
      · cases between with
        | nil =>
          simp only [List.append_nil, List.nil_append, List.cons.injEq, Token.operator.injEq]
            at hleft hright
          obtain ⟨⟨rfl, rfl⟩, hright⟩ := hright
          rw [ihleft h.1 h'.1 hleft.symm, ihright h.2.1 h'.2.1 hright]
        | cons token between =>
          simp only [List.cons_append, List.cons.injEq] at hright
          obtain ⟨rfl, hright⟩ := hright
          exact (h.not_shifted h' hleft hright).elim
      · cases between with
        | nil =>
          simp only [List.append_nil, List.nil_append, List.cons.injEq, Token.operator.injEq]
            at hleft hright
          obtain ⟨⟨rfl, rfl⟩, hright⟩ := hright
          rw [ihleft h.1 h'.1 hleft, ihright h.2.1 h'.2.1 hright.symm]
        | cons token between =>
          simp only [List.cons_append, List.cons.injEq] at hright
          obtain ⟨rfl, hright⟩ := hright
          exact (h'.not_shifted h hleft hright).elim

end OperatorTree

end Packrat
