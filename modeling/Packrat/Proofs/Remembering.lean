import Mathlib.Data.Finset.Prod
import Packrat.Proofs.Following
import Packrat.Proofs.MemoLaws
import Packrat.Proofs.Rules

/-!
# What is remembered is what was read

While a rule is being applied, every entry that can be met says what its rule reads, except for those
of applications that are under way; and these cannot be met, since a rule that comes back to itself
has no reading. How far the memo may change meanwhile, and how many rules may still be entered, makes
up the setting in which matching through the memo follows plain reading.

Rules inside each other are at different offsets or different rules, so their number is bounded by
that of rules and offsets.
-/

namespace Packrat

open Matcher

namespace Memo

/-- The rule is being applied at the offset. -/
def Awaits (memo : Memo) (index start : Nat) : Prop :=
  ∃ id stop, memo.find? index start = some ⟨.inProgress id, stop⟩

open Classical in
/-- How many rules could still be entered from the offset on, each at a different offset or place. -/
noncomputable def free (memo : Memo) (rules bytes pos : Nat) : Nat :=
  ((Finset.range rules ×ˢ Finset.range (bytes + 1)).filter fun spot =>
    pos ≤ spot.2 ∧ ¬ memo.Awaits spot.1 spot.2).card

open Classical in
/-- There are no more rules and offsets to be entered than rules times offsets. -/
theorem free_le (memo : Memo) (rules bytes pos : Nat) :
    memo.free rules bytes pos ≤ rules * (bytes + 1) := by
  refine (Finset.card_filter_le _ _).trans_eq ?_
  rw [Finset.card_product, Finset.card_range, Finset.card_range]

open Classical in
/-- Fewer rules can be entered from a later offset on. -/
theorem free_anti {memo memo' : Memo} {pos pos' : Nat} (rules bytes : Nat) (hle : pos ≤ pos')
    (h : ∀ index start, pos' ≤ start → memo.Awaits index start → memo'.Awaits index start) :
    memo'.free rules bytes pos' ≤ memo.free rules bytes pos := by
  refine Finset.card_le_card fun spot hs => ?_
  rw [Finset.mem_filter] at hs ⊢
  exact ⟨hs.1, hle.trans hs.2.1, fun ha => hs.2.2 (h _ _ hs.2.1 ha)⟩

open Classical in
/-- Entering a rule, or leaving its offset behind, uses up one of those that could be entered. -/
theorem free_lt {memo memo' : Memo} {rules bytes pos pos' index : Nat} (hindex : index < rules)
    (hpos : pos ≤ bytes) (hfree : ¬ memo.Awaits index pos) (hle : pos ≤ pos')
    (hused : memo'.Awaits index pos ∨ pos < pos')
    (h : ∀ rule start, pos' ≤ start → memo.Awaits rule start → memo'.Awaits rule start) :
    memo'.free rules bytes pos' < memo.free rules bytes pos := by
  refine Finset.card_lt_card ⟨fun spot hs => ?_, fun hsub => ?_⟩
  · rw [Finset.mem_filter] at hs ⊢
    exact ⟨hs.1, hle.trans hs.2.1, fun ha => hs.2.2 (h _ _ hs.2.1 ha)⟩
  · have hmem : (index, pos) ∈ (Finset.range rules ×ˢ Finset.range (bytes + 1)).filter
        fun spot => pos ≤ spot.2 ∧ ¬ memo.Awaits spot.1 spot.2 := by
      rw [Finset.mem_filter, Finset.mem_product, Finset.mem_range, Finset.mem_range]
      exact ⟨⟨hindex, Nat.lt_succ_of_le hpos⟩, Nat.le_refl _, hfree⟩
    obtain ⟨_, hle', hnot⟩ := Finset.mem_filter.1 (hsub hmem)
    rcases hused with ha | hlt
    · exact hnot ha
    · exact absurd hle' (Nat.not_le_of_lt hlt)

/-- The second memo has all of the first and more answers, of which `faithful` says that they are
right. Applications under way and clusters being grown are the same in both. -/
structure Extends (faithful : Nat → Nat → Except Cause Tree → Nat → Prop) (memo memo' : Memo) :
    Prop where
  top : memo'.top = memo.top
  growing : ∀ start : Nat, memo'.growing[start]? = memo.growing[start]?
  applications : ∀ (id : Nat) application, memo.applications[id]? = some application →
    memo'.applications[id]? = some application
  clusters : ∀ (id : Nat) cluster, memo.clusters[id]? = some cluster →
    memo'.clusters[id]? = some cluster
  waiting : ∀ index start id stop, memo'.find? index start = some ⟨.inProgress id, stop⟩ ↔
    memo.find? index start = some ⟨.inProgress id, stop⟩
  kept : ∀ index start result stop, memo.find? index start = some ⟨.done result, stop⟩ →
    memo'.find? index start = some ⟨.done result, stop⟩
  new : ∀ index start result stop, memo'.find? index start = some ⟨.done result, stop⟩ →
    memo.find? index start = some ⟨.done result, stop⟩ ∨ faithful index start result stop

namespace Extends

variable {faithful : Nat → Nat → Except Cause Tree → Nat → Prop} {memo memo' memo'' : Memo}

/-- A memo has its own answers. -/
theorem refl (memo : Memo) : Extends faithful memo memo :=
  ⟨rfl, fun _ => rfl, fun _ _ h => h, fun _ _ h => h, fun _ _ _ _ => Iff.rfl, fun _ _ _ _ h => h,
    fun _ _ _ _ h => .inl h⟩

/-- Answers are added step by step, all of them right. -/
theorem trans (h : Extends faithful memo memo') (h' : Extends faithful memo' memo'') :
    Extends faithful memo memo'' where
  top := h'.top.trans h.top
  growing start := (h'.growing start).trans (h.growing start)
  applications id a ha := h'.applications id a (h.applications id a ha)
  clusters id c hc := h'.clusters id c (h.clusters id c hc)
  waiting index start id stop := (h'.waiting index start id stop).trans (h.waiting index start id stop)
  kept index start result stop hk := h'.kept _ _ _ _ (h.kept _ _ _ _ hk)
  new index start result stop hn := by
    rcases h'.new _ _ _ _ hn with hn | hf
    · exact h.new _ _ _ _ hn
    · exact .inr hf

/-- The same rules are waited for, as what is under way is the same. -/
theorem awaits_iff (h : Extends faithful memo memo') (index start : Nat) :
    memo'.Awaits index start ↔ memo.Awaits index start := by
  simp only [Awaits, h.waiting]

/-- What is known stays so. -/
theorem knows (h : Extends faithful memo memo') {index start : Nat}
    (hk : memo.Knows index start) : memo'.Knows index start := by
  obtain ⟨result, stop, he⟩ := hk
  exact ⟨result, stop, h.kept _ _ _ _ he⟩

end Extends

/-- The second memo extends the first, apart from what concerns the rule at the offset: its entry, the
clusters grown there, and records and clusters that the first does not have. -/
structure ExtendsApart (faithful : Nat → Nat → Except Cause Tree → Nat → Prop) (rule pos : Nat)
    (memo memo' : Memo) : Prop where
  growing : ∀ start : Nat, start ≠ pos → memo'.growing[start]? = memo.growing[start]?
  applications : ∀ (id : Nat) application, memo.applications[id]? = some application →
    memo'.applications[id]? = some application
  clusters : ∀ (id : Nat) cluster, memo.clusters[id]? = some cluster →
    memo'.clusters[id]? = some cluster
  waiting : ∀ index start id stop, ¬ (index = rule ∧ start = pos) →
    (memo'.find? index start = some ⟨.inProgress id, stop⟩ ↔
      memo.find? index start = some ⟨.inProgress id, stop⟩)
  kept : ∀ index start result stop, ¬ (index = rule ∧ start = pos) →
    memo.find? index start = some ⟨.done result, stop⟩ →
      memo'.find? index start = some ⟨.done result, stop⟩
  new : ∀ index start result stop, ¬ (index = rule ∧ start = pos) →
    memo'.find? index start = some ⟨.done result, stop⟩ →
      memo.find? index start = some ⟨.done result, stop⟩ ∨ faithful index start result stop

namespace ExtendsApart

variable {faithful : Nat → Nat → Except Cause Tree → Nat → Prop} {rule pos : Nat}
  {memo memo' memo'' : Memo}

/-- Nothing has changed anywhere. -/
theorem refl (memo : Memo) : ExtendsApart faithful rule pos memo memo :=
  ⟨fun _ _ => rfl, fun _ _ h => h, fun _ _ h => h, fun _ _ _ _ _ => Iff.rfl,
    fun _ _ _ _ _ h => h, fun _ _ _ _ _ h => .inl h⟩

/-- Matching may go on. -/
theorem extend (h : ExtendsApart faithful rule pos memo memo')
    (h' : Extends faithful memo' memo'') : ExtendsApart faithful rule pos memo memo'' where
  growing start hne := (h'.growing start).trans (h.growing start hne)
  applications id a ha := h'.applications id a (h.applications id a ha)
  clusters id c hc := h'.clusters id c (h.clusters id c hc)
  waiting index start id stop hne :=
    (h'.waiting index start id stop).trans (h.waiting index start id stop hne)
  kept index start result stop hne hk := h'.kept _ _ _ _ (h.kept _ _ _ _ hne hk)
  new index start result stop hne hn := by
    rcases h'.new _ _ _ _ hn with hn | hf
    · exact h.new _ _ _ _ hne hn
    · exact .inr hf

/-- What concerns the rule at the offset may change. -/
theorem change (h : ExtendsApart faithful rule pos memo memo')
    (hentries : ∀ index start, ¬ (index = rule ∧ start = pos) →
      memo''.find? index start = memo'.find? index start)
    (hgrowing : ∀ start : Nat, start ≠ pos → memo''.growing[start]? = memo'.growing[start]?)
    (happlications : ∀ id < memo.applications.size,
      memo''.applications[id]? = memo'.applications[id]?)
    (hclusters : ∀ id < memo.clusters.size, memo''.clusters[id]? = memo'.clusters[id]?) :
    ExtendsApart faithful rule pos memo memo'' where
  growing start hne := (hgrowing start hne).trans (h.growing start hne)
  applications id a ha := by
    rw [happlications id (Array.getElem?_eq_some_iff.1 ha).1]
    exact h.applications id a ha
  clusters id c hc := by
    rw [hclusters id (Array.getElem?_eq_some_iff.1 hc).1]
    exact h.clusters id c hc
  waiting index start id stop hne := by
    rw [hentries index start hne]
    exact h.waiting index start id stop hne
  kept index start result stop hne hk := by
    rw [hentries index start hne]
    exact h.kept index start result stop hne hk
  new index start result stop hne hn := by
    rw [hentries index start hne] at hn
    exact h.new index start result stop hne hn

/-- When the rule is done and nothing is grown at the offset any more, the memo has been extended. -/
theorem close (h : ExtendsApart faithful rule pos memo memo') (htop : memo'.top = memo.top)
    (hgrowing : memo'.growing[pos]? = memo.growing[pos]?) (hnone : memo.find? rule pos = none)
    {result : Except Cause Tree} {stop : Nat}
    (hdone : memo'.find? rule pos = some ⟨.done result, stop⟩)
    (hf : faithful rule pos result stop) : Extends faithful memo memo' where
  top := htop
  growing start := by
    by_cases hs : start = pos
    · rw [hs, hgrowing]
    · exact h.growing start hs
  applications := h.applications
  clusters := h.clusters
  waiting index start id stop' := by
    by_cases hspot : index = rule ∧ start = pos
    · rw [hspot.1, hspot.2, hdone, hnone]
      simp
    · exact h.waiting index start id stop' hspot
  kept index start result' stop' hk := by
    by_cases hspot : index = rule ∧ start = pos
    · rw [hspot.1, hspot.2, hnone] at hk
      cases hk
    · exact h.kept index start result' stop' hspot hk
  new index start result' stop' hn := by
    by_cases hspot : index = rule ∧ start = pos
    · rw [hspot.1, hspot.2, hdone] at hn
      cases hn
      rw [hspot.1, hspot.2]
      exact .inr hf
    · exact h.new index start result' stop' hspot hn

/-- Entering a rule changes nothing but what is remembered for it there. -/
theorem enter (memo : Memo) (seed : Except Cause Tree) :
    ExtendsApart faithful rule pos memo (memo.enter rule pos seed) := by
  refine (refl memo).change (fun index start hne => ?_) (fun _ _ => rfl) (fun id hid => ?_)
    (fun _ _ => rfl)
  · exact find?_remember_of_ne _ _ _ hne
  · exact Array.getElem?_push_lt hid ▸ (Array.getElem?_eq_getElem hid).symm

end ExtendsApart

/-- The record of the rule that was entered last. -/
theorem application?_enter (memo : Memo) (rule start : Nat) (seed : Except Cause Tree) :
    (memo.enter rule start seed).applications[memo.applications.size]?
      = some ⟨rule, start, seed, none, memo.top⟩ :=
  Array.getElem?_push_size

end Memo

section Setting

variable (table : RuleTable) (text : Text) (loop : Option Loop) (strict : Prop)

/-- What is remembered of a rule at an offset is what the rule reads there. -/
def Faithful (index start : Nat) (result : Except Cause Tree) (stop : Nat) : Prop :=
  ∃ depth, match result with
    | .ok tree => table.readRule text loop depth index start = some (.matched tree stop)
    | .error cause => stop = start ∧ ∃ cause',
      table.readRule text loop depth index start = some (.failed cause') ∧
        (strict → cause = cause')

/-- With such a memo, what can be read from the offset on with at most `depth` rules inside each
other can be matched with at most `room` of them. -/
structure FitToRead (depth room : Nat) (pos : Nat) (memo : Memo) : Prop where
  right : ∀ index start result stop, pos ≤ start →
    memo.find? index start = some ⟨.done result, stop⟩ →
      Faithful table text loop strict index start result stop
  waiting : ∀ index start, pos ≤ start → memo.Awaits index start →
    table.readRule text loop depth index start = none
  quiet : ∀ start, pos ≤ start → memo.growing[start]? = none
  room : memo.free table.definitions.length text.size pos < room

variable {table text loop strict}

/-- Entering a rule that cannot be read at the smaller depth keeps the memo fit for that depth. -/
theorem FitToRead.enter {depth depth' room pos rule : Nat} {memo : Memo}
    (h : FitToRead table text loop strict depth (room + 1) pos memo) (hle : depth' ≤ depth)
    (hnone : memo.find? rule pos = none) (hrule : rule < table.definitions.length)
    (hpos : pos ≤ text.size) (hleast : table.readRule text loop depth' rule pos = none)
    (seed : Except Cause Tree) :
    FitToRead table text loop strict depth' room pos (memo.enter rule pos seed) where
  right index start result stop hp he := by
    rw [Memo.enter, Memo.find?_remember] at he
    split at he
    · cases he
    · exact h.right index start result stop hp he
  waiting index start hp ha := by
    obtain ⟨id, stop, he⟩ := ha
    rw [Memo.enter, Memo.find?_remember] at he
    split at he
    · rename_i hspot
      rw [hspot.1, hspot.2]
      exact hleast
    · have hd := h.waiting index start hp ⟨id, stop, he⟩
      cases hd' : table.readRule text loop depth' index start with
      | none => rfl
      | some verdict =>
        rw [table.readRule_mono hle index start verdict hd'] at hd
        cases hd
  quiet := h.quiet
  room := by
    have hlt : (memo.enter rule pos seed).free table.definitions.length text.size pos
        < memo.free table.definitions.length text.size pos := by
      refine Memo.free_lt hrule hpos ?_ (Nat.le_refl _) (.inl ?_) fun index start _ ha => ?_
      · rintro ⟨id, stop, he⟩
        rw [hnone] at he
        cases he
      · exact ⟨_, _, Memo.find?_remember_self ..⟩
      · obtain ⟨id, stop, he⟩ := ha
        have hne : ¬ (index = rule ∧ start = pos) := by
          rintro ⟨rfl, rfl⟩
          rw [hnone] at he
          cases he
        exact ⟨id, stop, by rw [Memo.enter, Memo.find?_remember_of_ne _ _ _ hne]; exact he⟩
    have := h.room
    omega

variable (table text loop strict)

/-- The setting in which matching follows plain reading. -/
def readingSetting (depth room : Nat) : Setting where
  table := table
  text := text
  strict := strict
  lenient := unbroken
  slices := False
  Fit := FitToRead table text loop strict depth room
  Leads := Memo.Extends (Faithful table text loop strict)
  refl := Memo.Extends.refl
  trans := Memo.Extends.trans
  later h hle :=
    { right := fun _ _ _ _ hp => h.right _ _ _ _ (hle.trans hp)
      waiting := fun _ _ hp => h.waiting _ _ (hle.trans hp)
      quiet := fun _ hp => h.quiet _ (hle.trans hp)
      room := (Memo.free_anti _ _ hle fun _ _ _ ha => ha).trans_lt h.room }
  kept h he :=
    { right := fun _ _ _ _ hp hn => by
        rcases he.new _ _ _ _ hn with hn | hf
        · exact h.right _ _ _ _ hp hn
        · exact hf
      waiting := fun _ _ hp ha => h.waiting _ _ hp ((he.awaits_iff _ _).1 ha)
      quiet := fun start hp => (he.growing start).trans (h.quiet start hp)
      room := (Memo.free_anti _ _ (Nat.le_refl _) fun _ _ _ ha =>
        (he.awaits_iff _ _).2 ha).trans_lt h.room }
  knows h hk := h.knows hk

end Setting

end Packrat
