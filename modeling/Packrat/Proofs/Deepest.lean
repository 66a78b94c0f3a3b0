import Packrat.Proofs.Anchoring
import Packrat.Proofs.Selection

/-!
# The deepest cause of a tree

The search for the deepest cause of a tree only compares what the subtrees have come up with. What it finds
is nonetheless the first, in preorder, of all the causes in the tree that lie deepest: what a subtree came up
with prevails over an earlier one only if it lies strictly deeper, at whatever level the two are compared.
-/

namespace Packrat

/-- Of two runs of causes, the deepest of the first is kept unless that of the second lies deeper. -/
theorem FirstDeepest.append {best candidate : Cause} {causes more : List Cause}
    (h : FirstDeepest best causes) (hmore : FirstDeepest candidate more) :
    FirstDeepest (if best.offset < candidate.offset then candidate else best) (causes ++ more) := by
  by_cases hlt : best.offset < candidate.offset
  · rw [if_pos hlt]
    obtain ⟨earlier, later, rfl, hearlier, hlater⟩ := hmore
    refine ⟨causes ++ earlier, later, (List.append_assoc ..).symm, ?_, hlater⟩
    exact List.forall_mem_append.2 ⟨fun other hother => Nat.lt_of_le_of_lt (h.le other hother) hlt, hearlier⟩
  · rw [if_neg hlt]
    have hle (other : Cause) (hother : other ∈ more) : other.offset ≤ best.offset :=
      Nat.le_trans (hmore.le other hother) (Nat.le_of_not_lt hlt)
    obtain ⟨earlier, later, rfl, hearlier, hlater⟩ := h
    refine ⟨earlier, later ++ more, ?_, hearlier, List.forall_mem_append.2 ⟨hlater, hle⟩⟩
    rw [List.append_assoc, List.cons_append]

/-- There is only one first of the deepest causes. -/
theorem FirstDeepest.unique {cause other : Cause} {causes : List Cause} (h : FirstDeepest cause causes)
    (h' : FirstDeepest other causes) : cause = other := by
  have hle := h'.le cause
  have hle' := h.le other
  obtain ⟨earlier, later, rfl, hearlier, -⟩ := h
  obtain ⟨earlier', later', heq, hearlier', -⟩ := h'
  -- if one of them came before the other, it would lie less deep, but it lies no less deep
  rcases List.append_eq_append_iff.1 heq with ⟨between, hsplit, hrest⟩ | ⟨between, hsplit, hrest⟩
  all_goals rcases between with _ | ⟨first, between⟩
  · exact (List.cons.inj hrest).1
  · obtain ⟨rfl, -⟩ := List.cons.inj hrest
    have hlt := hearlier' cause (by simp [hsplit])
    exact absurd (hle' (by simp [heq])) (Nat.not_le.2 hlt)
  · exact (List.cons.inj hrest).1.symm
  · obtain ⟨rfl, -⟩ := List.cons.inj hrest
    have hlt := hearlier other (by simp [hsplit])
    exact absurd (hle (by simp)) (Nat.not_le.2 hlt)

namespace Cause

/-- The nodes of a tree are its root and then those of its subtrees, one subtree after the other. -/
theorem nodes_mk (message : Message) (offset : Nat) (position : Option Position) (label : Option String)
    (children : List Cause) : nodes ⟨message, offset, position, label, children⟩
      = ⟨message, offset, position, label, children⟩ :: children.flatMap nodes := by
  rw [nodes, preorder, List.map_cons, map_snd_preorderAll_eq]

mutual

/-- What is found in a tree is the first of its deepest nodes. -/
theorem firstDeepest_deepest (cause : Cause) : FirstDeepest cause.deepest cause.nodes := by
  obtain ⟨message, offset, position, label, children⟩ := cause
  rw [deepest, nodes_mk]
  have hroot : FirstDeepest ⟨message, offset, position, label, children⟩
      [⟨message, offset, position, label, children⟩] := ⟨[], [], rfl, by simp, by simp⟩
  exact firstDeepest_deepestAmong hroot children

/-- What is found in several trees, once the first of the deepest causes before them is known. -/
theorem firstDeepest_deepestAmong {best : Cause} {causes : List Cause} (h : FirstDeepest best causes)
    (children : List Cause) :
    FirstDeepest (deepestAmong best children) (causes ++ children.flatMap nodes) := by
  match children with
  | [] => rwa [deepestAmong, List.flatMap_nil, List.append_nil]
  | child :: rest =>
    rw [deepestAmong, List.flatMap_cons, ← List.append_assoc]
    exact firstDeepest_deepestAmong (h.append (firstDeepest_deepest child)) rest

end

/-- The deepest cause of a tree is the one node that lies no less deep than any other in the tree, and deeper
than all the nodes that come before it in preorder. -/
theorem deepest_eq_iff_first_in_preorder (cause node : Cause) :
    cause.deepest = node ↔ FirstDeepest node cause.nodes := by
  constructor
  · rintro rfl
    exact cause.firstDeepest_deepest
  · exact cause.firstDeepest_deepest.unique

/-- A node further down prevails over one as deep that hangs right below the root, if it comes first. -/
example : (⟨.prematureEnd, 0, none, none, [⟨.prematureEnd, 1, none, none, [.leaf (.custom "first") 3]⟩,
    .leaf (.custom "second") 3]⟩ : Cause).deepest = .leaf (.custom "first") 3 := rfl

end Cause

end Packrat
