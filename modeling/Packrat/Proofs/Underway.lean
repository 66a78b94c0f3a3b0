import Mathlib.Data.Finset.Card
import Mathlib.Data.Finset.Prod
import Mathlib.Order.Interval.Finset.Nat
import Packrat.Proofs.CallPath

/-!
# What is under way

While a match goes on, applications of rules wait on the call path and clusters are being grown. A rule
at an offset is busy if its application waits there or if it is the head of a cluster that is grown
there. No rule is ever entered at an offset where it is busy, so there are ever fewer spots left to enter
rules at; and within a round of growing, there are ever fewer members of the cluster left to be applied
again. These two numbers bound how deep rules can be nested.

What is under way accounts for the state of the memo: busy rules can be told by their entries, and the
members of a cluster are never rules that wait below its head. This is what keeps the entries of busy
rules from being overwritten or dropped.
-/

namespace Packrat

/-- An application that waits on the call path. -/
structure Waiting where
  /-- The number of its record. -/
  id : Nat
  /-- The rule that is applied. -/
  rule : Nat
  /-- The offset at which it is applied. -/
  start : Nat

/-- A cluster that is being grown. -/
structure Growth where
  /-- The number of the cluster. -/
  cluster : Nat
  /-- The rule at its head. -/
  head : Nat
  /-- The offset at which it is grown. -/
  start : Nat

/-- Everything that has not come to an end yet. -/
structure Underway where
  /-- The call path, the latest application first. -/
  path : List Waiting := []
  /-- The clusters that are being grown, the latest first. -/
  grown : List Growth := []
  /-- The rules whose bodies are being matched, each with its offset, the latest first. Apart from those
  that wait and those that are grown, these are members of clusters that are applied again. -/
  chain : List Spot := []

namespace Underway

variable {u : Underway} {rules size pos pos' : Nat}

/-- A further application waits. -/
def enter (u : Underway) (id rule start : Nat) : Underway :=
  { u with path := ⟨id, rule, start⟩ :: u.path, chain := ⟨start, rule⟩ :: u.chain }

/-- A further cluster is grown. -/
def grow (u : Underway) (cluster head start : Nat) : Underway :=
  { u with grown := ⟨cluster, head, start⟩ :: u.grown, chain := ⟨start, head⟩ :: u.chain }

/-- A member of a cluster is applied again. -/
def redo (u : Underway) (rule start : Nat) : Underway := { u with chain := ⟨start, rule⟩ :: u.chain }

/-- The rule waits to finish at the offset, or is grown there. -/
def Busy (u : Underway) (rule start : Nat) : Prop :=
  (∃ w ∈ u.path, w.rule = rule ∧ w.start = start) ∨ ∃ g ∈ u.grown, g.head = rule ∧ g.start = start

instance (u : Underway) (rule start : Nat) : Decidable (u.Busy rule start) :=
  inferInstanceAs (Decidable (_ ∨ _))

/-- The number of rules and offsets, from `pos` on, at which a rule can still be entered. -/
def spare (u : Underway) (rules size pos : Nat) : Nat :=
  ((Finset.range rules ×ˢ Finset.Icc pos size).filter fun spot => ¬ u.Busy spot.1 spot.2).card

/-- No more spots are left than there are rules and offsets. -/
theorem spare_le (u : Underway) (rules size pos : Nat) :
    u.spare rules size pos ≤ rules * (size + 1 - pos) := by
  refine (Finset.card_filter_le _ _).trans ?_
  rw [Finset.card_product, Finset.card_range, Nat.card_Icc]

/-- There are no more spots left from a later offset on. -/
theorem spare_anti (u : Underway) (rules size : Nat) (h : pos ≤ pos') :
    u.spare rules size pos' ≤ u.spare rules size pos := by
  refine Finset.card_le_card (Finset.filter_subset_filter _ (Finset.product_subset_product_right ?_))
  exact Finset.Icc_subset_Icc_left h

/-- There are fewer spots left as soon as a further one is busy. -/
theorem spare_lt {u' : Underway} {rule : Nat} (h : ∀ x q, u.Busy x q → u'.Busy x q)
    (hfree : ¬ u.Busy rule pos) (hbusy : u'.Busy rule pos) (hrule : rule < rules) (hpos : pos ≤ size) :
    u'.spare rules size pos < u.spare rules size pos := by
  refine Finset.card_lt_card ((Finset.ssubset_iff_of_subset ?_).2 ⟨(rule, pos), ?_, ?_⟩)
  · exact Finset.monotone_filter_right _ fun spot _ hspot hb => hspot (h _ _ hb)
  · simp [hfree, hrule, hpos]
  · simp [hbusy]

/-- A rule that is busy stays busy when another is entered. -/
theorem Busy.enter {x q : Nat} (h : u.Busy x q) (id rule start : Nat) :
    (u.enter id rule start).Busy x q := by
  rcases h with ⟨w, hw, hspot⟩ | hgrown
  · exact .inl ⟨w, List.mem_cons_of_mem _ hw, hspot⟩
  · exact .inr hgrown

/-- A rule that is entered is busy. -/
theorem busy_enter (u : Underway) (id rule start : Nat) : (u.enter id rule start).Busy rule start :=
  .inl ⟨_, List.mem_cons_self, rfl, rfl⟩

/-- A rule that is busy stays busy when a cluster starts to grow. -/
theorem Busy.grow {x q : Nat} (h : u.Busy x q) (cluster head start : Nat) :
    (u.grow cluster head start).Busy x q := by
  rcases h with hwaits | ⟨g, hg, hspot⟩
  · exact .inl hwaits
  · exact .inr ⟨g, List.mem_cons_of_mem _ hg, hspot⟩

/-- The head of a cluster that is grown is busy. -/
theorem busy_grow (u : Underway) (cluster head start : Nat) :
    (u.grow cluster head start).Busy head start :=
  .inr ⟨_, List.mem_cons_self, rfl, rfl⟩

/-- Later applications have later records and start no earlier, nothing starts behind the cursor, and the
bodies of all rules that wait or are grown are being matched. -/
structure Orderly (u : Underway) (rules pos : Nat) : Prop where
  rules : ∀ w ∈ u.path, w.rule < rules
  starts : ∀ spot ∈ u.chain, spot.start ≤ pos
  later : u.path.Pairwise fun w w' => w'.id < w.id ∧ w'.start ≤ w.start
  waiting : (u.path.map fun w => Spot.mk w.start w.rule).Sublist u.chain
  growing : ∀ g ∈ u.grown, ⟨g.start, g.head⟩ ∈ u.chain

namespace Orderly

/-- The bodies of rules that wait are being matched. -/
theorem mem_chain (h : u.Orderly rules pos) {w : Waiting} (hw : w ∈ u.path) :
    ⟨w.start, w.rule⟩ ∈ u.chain := h.waiting.subset (List.mem_map_of_mem hw)

/-- What waits was entered no later than where the cursor stands. -/
theorem waiting_le (h : u.Orderly rules pos) {w : Waiting} (hw : w ∈ u.path) : w.start ≤ pos :=
  h.starts _ (h.mem_chain hw)

/-- What is grown is grown no later than where the cursor stands. -/
theorem growing_le (h : u.Orderly rules pos) {g : Growth} (hg : g ∈ u.grown) : g.start ≤ pos :=
  h.starts _ (h.growing g hg)

/-- Where nothing is under way, all is in order. -/
theorem nil (rules pos : Nat) : ({} : Underway).Orderly rules pos :=
  ⟨by simp, by simp, .nil, by simp, by simp⟩

/-- The cursor may move on. -/
theorem mono (h : u.Orderly rules pos) (hle : pos ≤ pos') : u.Orderly rules pos' :=
  ⟨h.rules, fun spot hs => (h.starts spot hs).trans hle, h.later, h.waiting, h.growing⟩

/-- A further rule may be entered at the cursor, under a number that is new. -/
theorem enter (h : u.Orderly rules pos) {id rule : Nat} (hid : ∀ w ∈ u.path, w.id < id)
    (hrule : rule < rules) : (u.enter id rule pos).Orderly rules pos where
  rules := by
    rintro w (_ | ⟨_, hw⟩)
    · exact hrule
    · exact h.rules w hw
  starts := by
    rintro spot (_ | ⟨_, hs⟩)
    · exact Nat.le_refl _
    · exact h.starts spot hs
  later := List.pairwise_cons.2 ⟨fun w hw => ⟨hid w hw, h.waiting_le hw⟩, h.later⟩
  waiting := h.waiting.cons_cons _
  growing g hg := List.mem_cons_of_mem _ (h.growing g hg)

/-- A cluster may be grown at the cursor. -/
theorem grow (h : u.Orderly rules pos) (cluster head : Nat) :
    (u.grow cluster head pos).Orderly rules pos where
  rules := h.rules
  starts := by
    rintro spot (_ | ⟨_, hs⟩)
    · exact Nat.le_refl _
    · exact h.starts spot hs
  later := h.later
  waiting := h.waiting.cons _
  growing := by
    rintro g (_ | ⟨_, hg⟩)
    · exact List.mem_cons_self
    · exact List.mem_cons_of_mem _ (h.growing g hg)

/-- A member of a cluster may be applied again at the cursor. -/
theorem redo (h : u.Orderly rules pos) (rule : Nat) : (u.redo rule pos).Orderly rules pos where
  rules := h.rules
  starts := by
    rintro spot (_ | ⟨_, hs⟩)
    · exact Nat.le_refl _
    · exact h.starts spot hs
  later := h.later
  waiting := h.waiting.cons _
  growing g hg := List.mem_cons_of_mem _ (h.growing g hg)

end Orderly

end Underway

/-- An ascending list of rules of a table with so many. -/
def Ascending (rules : Nat) (members : List Nat) : Prop :=
  members.Pairwise (· < ·) ∧ ∀ rule ∈ members, rule < rules

namespace Ascending

variable {rules : Nat} {members : List Nat}

/-- No rules are in order. -/
theorem nil (rules : Nat) : Ascending rules [] := ⟨.nil, by simp⟩

/-- Rules may be left out. -/
theorem sublist {members' : List Nat} (h : Ascending rules members) (hs : members'.Sublist members) :
    Ascending rules members' := ⟨h.1.sublist hs, fun rule hr => h.2 rule (hs.subset hr)⟩

/-- There are no more members than rules, as each of them is there once. -/
theorem length_le (h : Ascending rules members) : members.length ≤ rules := by
  have hnodup : members.Nodup := h.1.imp fun hlt => Nat.ne_of_lt hlt
  have hsub : members.toFinset ⊆ Finset.range rules := fun rule hr => by
    simpa using h.2 rule (List.mem_toFinset.1 hr)
  have hcard := Finset.card_le_card hsub
  rwa [List.toFinset_card_of_nodup hnodup, Finset.card_range] at hcard

end Ascending

/-- A rule is inserted without losing any. -/
theorem mem_insertRule {rule x : Nat} {members : List Nat} :
    x ∈ insertRule rule members ↔ x = rule ∨ x ∈ members := by
  induction members with
  | nil => simp [insertRule]
  | cons r rest ih =>
    rw [insertRule]
    split
    · simp
    · split
      · rename_i heq
        simp [heq]
      · rw [List.mem_cons, ih, List.mem_cons]
        exact or_left_comm

/-- A rule is inserted at its place. -/
theorem Ascending.insertRule {rules rule : Nat} {members : List Nat} (h : Ascending rules members)
    (hrule : rule < rules) : Ascending rules (insertRule rule members) := by
  refine ⟨?_, fun x hx => ?_⟩
  · obtain ⟨hsorted, -⟩ := h
    induction members with
    | nil => exact List.pairwise_singleton ..
    | cons r rest ih =>
      obtain ⟨hfirst, hrest⟩ := List.pairwise_cons.1 hsorted
      rw [Packrat.insertRule]
      split
      · rename_i hlt
        refine List.pairwise_cons.2 ⟨fun x hx => ?_, hsorted⟩
        rcases List.mem_cons.1 hx with rfl | hx
        · exact hlt
        · exact hlt.trans (hfirst x hx)
      · split
        · exact hsorted
        · refine List.pairwise_cons.2 ⟨fun x hx => ?_, ih hrest⟩
          rcases mem_insertRule.1 hx with rfl | hx
          · omega
          · exact hfirst x hx
  · rcases mem_insertRule.1 hx with rfl | hx
    · exact hrule
    · exact h.2 x hx

end Packrat
