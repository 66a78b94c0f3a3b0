import Packrat.Captures
import Packrat.Cause.Basic
import Packrat.Proofs.Boundaries
import Packrat.Tree.Flatten
import Packrat.Tree.Transform

/-!
# Slices on boundaries

A slice is intact if it is cut out of its buffer at boundaries. A value is intact if all the slices in
it are. Joining, merging and flattening make intact values of intact ones: what they do not hand on as
it is they cut anew, at boundaries that they were given or at the ends of a buffer of their own.
-/

namespace Packrat

/-- Whether the slice starts and stops at boundaries of its buffer. -/
def Slice.isIntact (s : Slice) : Bool :=
  decide (s.start ≤ s.stop) && s.buffer.isBoundary s.start && s.buffer.isBoundary s.stop

mutual

/-- The slices in a tree. -/
def Tree.slices : Tree → List Slice
  | .unit => []
  | .str slice => [slice]
  | .list items => Tree.slicesOfItems items
  | .map entries => Tree.slicesOfEntries entries

/-- The slices in the items of a list. -/
def Tree.slicesOfItems : List Tree → List Slice
  | [] => []
  | item :: rest => item.slices ++ Tree.slicesOfItems rest

/-- The slices in the values of a map. -/
def Tree.slicesOfEntries : List (String × Tree) → List Slice
  | [] => []
  | (_, value) :: rest => value.slices ++ Tree.slicesOfEntries rest

end

mutual

/-- The slices in a raw value. -/
def Raw.slices : Raw → List Slice
  | .leaf tree => tree.slices
  | .sequence parts => Raw.slicesOfAll parts
  | .repetition rounds => Raw.slicesOfAll rounds
  | .optional none => []
  | .optional (some value) => value.slices

/-- The slices in several raw values. -/
def Raw.slicesOfAll : List Raw → List Slice
  | [] => []
  | raw :: rest => raw.slices ++ Raw.slicesOfAll rest

end

/-- The slices in a message. -/
def Message.slices : Message → List Slice
  | .expected _ got => [got]
  | .unconsumed rest => [rest]
  | _ => []

mutual

/-- The slices in a cause and in those that led to it. -/
def Cause.slices : Cause → List Slice
  | ⟨message, _, _, _, children⟩ => message.slices ++ Cause.slicesOfAll children

/-- The slices in several causes. -/
def Cause.slicesOfAll : List Cause → List Slice
  | [] => []
  | cause :: rest => cause.slices ++ Cause.slicesOfAll rest

end

/-- Values that slices can be found in. -/
class Sliced (α : Type) where
  /-- The slices in a value. -/
  slices : α → List Slice

open Sliced (slices)

instance : Sliced Tree := ⟨Tree.slices⟩

instance : Sliced Raw := ⟨Raw.slices⟩

instance : Sliced Cause := ⟨Cause.slices⟩

instance : Sliced Unit := ⟨fun _ => []⟩

instance : Sliced Nat := ⟨fun _ => []⟩

instance : Sliced String := ⟨fun _ => []⟩

instance : Sliced Fixity := ⟨fun _ => []⟩

section Compound

variable {α β : Type} [Sliced α] [Sliced β]

instance : Sliced (List α) := ⟨fun items => items.flatMap slices⟩

instance : Sliced (Option α) := ⟨fun item => item.toList.flatMap slices⟩

instance : Sliced (α × β) := ⟨fun pair => slices pair.1 ++ slices pair.2⟩

instance : Sliced (Except α β) := ⟨fun
  | .error cause => slices cause
  | .ok value => slices value⟩

/-- All the slices in a value are intact. -/
def Intact (value : α) : Prop := ∀ slice ∈ slices value, slice.isIntact = true

instance (value : α) : Decidable (Intact value) :=
  inferInstanceAs (Decidable (∀ slice ∈ slices value, slice.isIntact = true))

/-- There are no slices in an empty list. -/
@[simp] theorem intact_nil : Intact ([] : List α) := by simp [Intact, slices]

/-- A list is intact if its head and its rest are. -/
@[simp] theorem intact_cons (item : α) (rest : List α) :
    Intact (item :: rest) ↔ Intact item ∧ Intact rest := by
  simp [Intact, slices, List.flatMap_cons, or_imp, forall_and]

/-- A list is intact if every item of it is. -/
theorem intact_list {items : List α} : Intact items ↔ ∀ item ∈ items, Intact item := by
  induction items with
  | nil => simp
  | cons item rest ih => rw [intact_cons, ih, List.forall_mem_cons]

/-- There are no slices where there is no value. -/
@[simp] theorem intact_none : Intact (none : Option α) := by simp [Intact, slices]

/-- A value that is there is intact if it is intact by itself. -/
@[simp] theorem intact_some (item : α) : Intact (some item) ↔ Intact item := by
  simp [Intact, slices]

/-- A pair is intact if both sides are. -/
@[simp] theorem intact_pair (pair : α × β) : Intact pair ↔ Intact pair.1 ∧ Intact pair.2 := by
  simp [Intact, slices, or_imp, forall_and]

/-- A failure is intact if its cause is. -/
@[simp] theorem intact_error (cause : α) : Intact (.error cause : Except α β) ↔ Intact cause := Iff.rfl

/-- A match is intact if its value is. -/
@[simp] theorem intact_ok (value : β) : Intact (.ok value : Except α β) ↔ Intact value := Iff.rfl

end Compound

/-- There are no slices in the unit value. -/
@[simp] theorem intact_unit (value : Unit) : Intact value := by simp [Intact, slices]

/-- There are no slices in a number. -/
@[simp] theorem intact_nat (value : Nat) : Intact value := by simp [Intact, slices]

/-- A text that is not a slice has no slices. -/
@[simp] theorem intact_string (value : String) : Intact value := by simp [Intact, slices]

/-- There are no slices in a fixity. -/
@[simp] theorem intact_fixity (value : Fixity) : Intact value := by simp [Intact, slices]

instance : Sliced Captures := ⟨fun captures => slices (captures.innermost :: captures.outer)⟩

namespace Slice

/-- A slice is intact if its ends are boundaries of its buffer, in order. -/
theorem isIntact_iff {s : Slice} : s.isIntact = true ↔
    s.start ≤ s.stop ∧ s.buffer.isBoundary s.start = true ∧ s.buffer.isBoundary s.stop = true := by
  simp [isIntact, and_assoc]

/-- A view of a whole string is intact. -/
theorem isIntact_ofString (s : String) (offset : Nat) : (ofString s offset).isIntact = true := by
  rw [isIntact_iff]
  exact ⟨Nat.zero_le _, Text.isBoundary_zero _, Text.isBoundary_size (Text.ofString s)⟩

/-- Two views of one buffer that meet may be looked at as one. -/
theorem isIntact_joined {a b : Slice} (ha : a.isIntact = true) (hb : b.isIntact = true)
    (hbuffer : a.buffer = b.buffer) (hmeet : a.stop = b.start) : (joined a b).isIntact = true := by
  rw [isIntact_iff] at ha hb ⊢
  obtain ⟨hle, hstart, -⟩ := ha
  obtain ⟨hle', -, hend⟩ := hb
  refine ⟨?_, hstart, ?_⟩
  · simp only [joined]
    omega
  · simp only [joined]
    rw [hbuffer]
    exact hend

/-- Slices are joined to one view if they are views of one buffer that meet, and else to a copy. -/
theorem concat_cases (a b : Slice) :
    (a.buffer = b.buffer ∧ a.stop = b.start ∧ a.concat b = joined a b) ∨ a.concat b = copied a b := by
  unfold concat
  split
  · rename_i hadjacent
    simp only [Bool.and_eq_true, beq_iff_eq] at hadjacent
    obtain ⟨hbuffer, hmeet⟩ := hadjacent
    exact .inl ⟨Text.eq_of_string_eq (eq_of_beq hbuffer), hmeet, rfl⟩
  · exact .inr rfl

/-- Joining intact slices gives an intact one, whether it is a wider view or a copy. -/
theorem isIntact_concat {a b : Slice} (ha : a.isIntact = true) (hb : b.isIntact = true) :
    (a.concat b).isIntact = true := by
  rcases concat_cases a b with ⟨hbuffer, hmeet, heq⟩ | heq
  · rw [heq]
    exact isIntact_joined ha hb hbuffer hmeet
  · rw [heq]
    exact isIntact_ofString _ _

end Slice

namespace Source

variable {s : Source}

/-- What a source cuts out between two boundaries is intact. -/
theorem isIntact_slice (h : s.text.isBoundary s.pos = true) {length : Nat}
    (hend : s.text.isBoundary (s.pos + length) = true) : (s.slice s.pos length).isIntact = true := by
  rw [Slice.isIntact_iff]
  exact ⟨Nat.le_add_right _ _, h, hend⟩

/-- A view of the next characters is intact. -/
theorem isIntact_peekChars (h : s.text.isBoundary s.pos = true) (n : Nat) :
    (s.peekChars n).isIntact = true :=
  isIntact_slice h (isBoundary_add_width h (List.take_append_drop n s.rest).symm)

end Source

namespace Tree

/-- The slices in the items of a list are found as in any list. -/
theorem slicesOfItems_eq (items : List Tree) : slicesOfItems items = Sliced.slices items := by
  induction items with
  | nil => rfl
  | cons item rest ih =>
    rw [slicesOfItems, ih]
    exact List.flatMap_cons.symm

/-- The slices in the entries of a map are found as in any list of pairs. -/
theorem slicesOfEntries_eq (entries : List (String × Tree)) :
    slicesOfEntries entries = Sliced.slices entries := by
  induction entries with
  | nil => rfl
  | cons entry rest ih =>
    rw [slicesOfEntries, ih]
    rfl

/-- The unit tree is intact. -/
@[simp] theorem intact_unit : Intact Tree.unit := by simp [Intact, Sliced.slices, Tree.slices]

/-- A string is intact if the slice it views is. -/
@[simp] theorem intact_str (slice : Slice) : Intact (Tree.str slice) ↔ slice.isIntact = true := by
  simp [Intact, Sliced.slices, Tree.slices]

/-- A list of trees is intact if the trees are. -/
@[simp] theorem intact_list (items : List Tree) : Intact (Tree.list items) ↔ Intact items := by
  have heq : Sliced.slices (Tree.list items) = Sliced.slices items :=
    (Tree.slices.eq_3 items).trans (slicesOfItems_eq items)
  rw [Intact, heq]
  rfl

/-- A map is intact if its entries are. -/
@[simp] theorem intact_map (entries : List (String × Tree)) :
    Intact (Tree.map entries) ↔ Intact entries := by
  have heq : Sliced.slices (Tree.map entries) = Sliced.slices entries :=
    (Tree.slices.eq_4 entries).trans (slicesOfEntries_eq entries)
  rw [Intact, heq]
  rfl

/-- An entry whose value is intact may be put into an intact map. -/
theorem intact_insertEntry {key : String} {value : Tree} {entries : List (String × Tree)}
    (hv : Intact value) (h : Intact entries) : Intact (insertEntry key value entries) := by
  induction entries with
  | nil => simpa [insertEntry] using hv
  | cons entry rest ih =>
    obtain ⟨k, v⟩ := entry
    obtain ⟨hentry, hrest⟩ := (intact_cons _ _).1 h
    rw [insertEntry]
    split
    · simpa using ⟨hv, by simpa using hentry, hrest⟩
    · simpa using ⟨hv, hrest⟩
    · rw [intact_cons]
      exact ⟨hentry, ih hrest⟩

/-- One intact map may be taken into another. -/
theorem intact_insertEntries {entries more : List (String × Tree)} (h : Intact entries)
    (hmore : Intact more) : Intact (insertEntries entries more) := by
  induction more generalizing entries with
  | nil => exact h
  | cons entry rest ih =>
    obtain ⟨hentry, hrest⟩ := (intact_cons _ _).1 hmore
    have hinserted : Intact (insertEntry entry.1 entry.2 entries) :=
      intact_insertEntry ((intact_pair _).1 hentry).2 h
    exact ih hinserted hrest

/-- Merging neighbours keeps their slices intact. -/
theorem intact_merge {left right : Tree} (hl : Intact left) (hr : Intact right) :
    Intact (merge left right).tree := by
  cases left <;> cases right <;>
    simp only [merge, intact_str, intact_map, intact_list, intact_cons] at hl hr ⊢ <;>
    first
      | assumption
      | exact Slice.isIntact_concat hl hr
      | exact intact_insertEntries hl hr
      | exact ⟨hl, hr⟩
      | skip
  · exact Packrat.intact_list.2 (List.forall_mem_append.2
      ⟨Packrat.intact_list.1 hl, Packrat.intact_list.1 hr⟩)
  · refine Packrat.intact_list.2 (List.forall_mem_append.2 ⟨Packrat.intact_list.1 hl, ?_⟩)
    simpa using hr

/-- Intact trees merge into an intact tree. -/
theorem intact_mergeInto {tree : Tree} {trees : List Tree} (h : Intact tree) (ht : Intact trees) :
    Intact (mergeInto tree trees).tree := by
  induction trees generalizing tree with
  | nil => exact h
  | cons next rest ih =>
    obtain ⟨hnext, hrest⟩ := (intact_cons _ _).1 ht
    exact ih (intact_merge h hnext) hrest

/-- Rounds that are intact are joined to an intact tree. -/
theorem intact_joinRounds {named : Bool} {rounds : List Tree} (h : Intact rounds) :
    Intact (joinRounds named rounds).tree := by
  rw [Packrat.intact_list] at h
  unfold joinRounds
  split
  · rw [intact_list, Packrat.intact_list]
    intro round hround
    exact h round (List.mem_filter.1 hround).1
  · split
    · rw [intact_list, Packrat.intact_list]
      intro item hitem
      obtain ⟨round, hround, hmem⟩ := List.mem_flatMap.1 hitem
      have hintact := h round hround
      cases round with
      | list items => exact Packrat.intact_list.1 ((intact_list items).1 hintact) item hmem
      | _ => cases hmem
    · split
      · simp
      · exact intact_mergeInto intact_unit (Packrat.intact_list.2 h)

/-- An operation holds the slices of its operands. -/
theorem intact_operation {left operator right : Tree} (hl : Intact left) (ho : Intact operator)
    (hr : Intact right) : Intact (operation left operator right) := by
  rw [operation, ofEntries, intact_map]
  refine intact_insertEntries intact_nil ?_
  simpa using ⟨hl, ho, hr⟩

end Tree

namespace Raw

/-- The slices in the parts of a sequence are found as in any list. -/
theorem slicesOfAll_eq (parts : List Raw) : slicesOfAll parts = Sliced.slices parts := by
  induction parts with
  | nil => rfl
  | cons part rest ih =>
    rw [slicesOfAll, ih]
    exact List.flatMap_cons.symm

/-- A leaf is intact if its tree is. -/
@[simp] theorem intact_leaf (tree : Tree) : Intact (Raw.leaf tree) ↔ Intact tree := by
  simp [Intact, Sliced.slices, Raw.slices]

/-- A sequence of raw values is intact if the parts are. -/
@[simp] theorem intact_sequence (parts : List Raw) : Intact (Raw.sequence parts) ↔ Intact parts := by
  have heq : Sliced.slices (Raw.sequence parts) = Sliced.slices parts :=
    (Raw.slices.eq_2 parts).trans (slicesOfAll_eq parts)
  rw [Intact, heq]
  rfl

/-- A repetition is intact if its rounds are. -/
@[simp] theorem intact_repetition (rounds : List Raw) :
    Intact (Raw.repetition rounds) ↔ Intact rounds := by
  have heq : Sliced.slices (Raw.repetition rounds) = Sliced.slices rounds :=
    (Raw.slices.eq_3 rounds).trans (slicesOfAll_eq rounds)
  rw [Intact, heq]
  rfl

/-- An optional value is intact if it is absent or intact. -/
@[simp] theorem intact_optional (value : Option Raw) : Intact (Raw.optional value) ↔ Intact value := by
  cases value <;> simp [Intact, Sliced.slices, Raw.slices]

/-- The raw value of a match without text is intact. -/
@[simp] theorem intact_unit : Intact Raw.unit := by simp [unit]

mutual

/-- Flattening keeps slices intact. -/
theorem intact_flatten (named : Bool) : ∀ raw : Raw, Intact raw → Intact (raw.flatten named).tree
  | .leaf tree, h => by simpa [flatten] using h
  | .sequence parts, h => by
    have hparts := intact_flattenAll parts ((intact_sequence parts).1 h)
    exact Tree.intact_mergeInto Tree.intact_unit hparts
  | .repetition rounds, h => by
    have hrounds := intact_flattenAll rounds ((intact_repetition rounds).1 h)
    simpa [flatten] using Tree.intact_joinRounds hrounds
  | .optional none, _ => by simp [flatten]
  | .optional (some value), h => by
    have hvalue := intact_flatten false value (by simpa using h)
    simpa [flatten] using hvalue

/-- Intact parts flatten to intact trees. -/
theorem intact_flattenAll : ∀ parts : List Raw, Intact parts → Intact (flattenAll parts).1
  | [], _ => by simp [flattenAll]
  | part :: rest, h => by
    obtain ⟨hpart, hrest⟩ := (intact_cons _ _).1 h
    have hflat := intact_flatten false part hpart
    have hflats := intact_flattenAll rest hrest
    simpa [flattenAll] using ⟨hflat, hflats⟩

end

end Raw

namespace Cause

/-- The slices in the children of a cause are found as in any list. -/
theorem slicesOfAll_eq (causes : List Cause) : slicesOfAll causes = Sliced.slices causes := by
  induction causes with
  | nil => rfl
  | cons cause rest ih =>
    rw [slicesOfAll, ih]
    exact List.flatMap_cons.symm

/-- The slices of a cause are those of its message and of the causes that led to it. -/
theorem intact_iff {message : Message} {offset : Nat} {position : Option Position}
    {label : Option String} {children : List Cause} :
    Intact (Cause.mk message offset position label children) ↔
      (∀ slice ∈ message.slices, slice.isIntact = true) ∧ Intact children := by
  have heq : Sliced.slices (Cause.mk message offset position label children)
      = message.slices ++ Sliced.slices children := by
    rw [← slicesOfAll_eq]
    exact Cause.slices.eq_1 ..
  rw [Intact, heq, List.forall_mem_append]
  rfl

end Cause

namespace Captures

/-- Captures are intact if those of the innermost scope and of the scopes around it are. -/
theorem intact_iff {captures : Captures} :
    Intact captures ↔ Intact captures.innermost ∧ Intact captures.outer := intact_cons _ _

/-- There are no slices where nothing is captured. -/
@[simp] theorem intact_empty : Intact ({} : Captures) := by
  rw [intact_iff]
  exact ⟨intact_nil, intact_nil⟩

/-- An intact value may be captured. -/
theorem intact_insert {captures : Captures} {name : String} {value : Tree} (h : Intact captures)
    (hv : Intact value) : Intact (captures.insert name value) := by
  obtain ⟨hinner, houter⟩ := intact_iff.1 h
  refine intact_iff.2 ⟨(intact_cons _ _).2 ⟨by simpa using hv, ?_⟩, houter⟩
  rw [intact_list] at hinner ⊢
  intro entry hentry
  exact hinner entry (List.mem_filter.1 hentry).1

/-- A scope that is opened adds nothing to the captures that would have to be intact. -/
theorem intact_openScope {captures : Captures} (h : Intact captures) :
    Intact captures.openScope := by
  have hscopes := intact_iff.1 h
  exact intact_iff.2 ⟨intact_nil, (intact_cons _ _).2 hscopes⟩

/-- What is left after a scope is closed was captured around it. -/
theorem intact_closeScope {captures : Captures} (h : Intact captures) :
    Intact captures.closeScope := by
  unfold closeScope
  split
  · exact h
  · rename_i scope outer heq
    have hscopes := (intact_iff.1 h).2
    rw [heq] at hscopes
    exact intact_iff.2 ((intact_cons _ _).1 hscopes)

end Captures

end Packrat
