import Packrat.Proofs.Slices

/-!
# Values that quote the text

A slice is a view of the text if it shows the text between two boundaries and was found where it starts.
A tree quotes the text between two offsets if it keeps nothing only where there is nothing, is a string
only if that is the view of all the text between the offsets, and has no other strings in it than views
of the text. What quotes neighbouring pieces of the text is merged to what quotes all of it: strings are
joined only with what stands right behind them.
-/

namespace Packrat

open Sliced (slices)

variable {text : Text} {start middle stop : Nat}

namespace Slice

/-- Whether the slice shows the text between the two offsets, both of them boundaries, and was found at
the first. -/
def isView (text : Text) (start stop : Nat) (slice : Slice) : Bool :=
  slice.buffer == text && slice.start == start && slice.stop == stop && slice.offset == start &&
    slice.isIntact

/-- A slice is a view of the text between two offsets if it is the one that reading there makes.
-/
theorem isView_iff {slice : Slice} : slice.isView text start stop = true ↔
    slice = ⟨text, start, stop, start⟩ ∧ slice.isIntact = true := by
  obtain ⟨buffer, first, last, offset⟩ := slice
  simp only [isView, Bool.and_eq_true, beq_iff_eq, Slice.mk.injEq]
  constructor
  · rintro ⟨⟨⟨⟨hbuffer, rfl⟩, rfl⟩, rfl⟩, hintact⟩
    exact ⟨⟨Text.eq_of_string_eq (eq_of_beq hbuffer), rfl, rfl, rfl⟩, hintact⟩
  · rintro ⟨⟨rfl, rfl, rfl, rfl⟩, hintact⟩
    exact ⟨⟨⟨⟨beq_self_eq_true buffer.string, rfl⟩, rfl⟩, rfl⟩, hintact⟩

/-- The slice was found at the first offset and shows the characters of the text between the two. -/
def Shows (text : Text) (start stop : Nat) (slice : Slice) : Prop :=
  slice.offset = start ∧ ∃ chars, text.cut? start stop = some chars ∧ slice.chars? = some chars

/-- A view shows the characters that are cut from the text between its ends. -/
theorem shows_of_isView {slice : Slice} (h : slice.isView text start stop = true) :
    slice.Shows text start stop := by
  obtain ⟨rfl, hintact⟩ := isView_iff.1 h
  obtain ⟨hle, hstart, hstop⟩ := isIntact_iff.1 hintact
  obtain ⟨chars, hchars⟩ := Text.exists_cut hle hstart hstop
  exact ⟨rfl, chars, hchars, hchars⟩

/-- Neighbouring views are joined to a view. -/
theorem isView_concat {a b : Slice} (ha : a.isView text start middle = true)
    (hb : b.isView text middle stop = true) : (a.concat b).isView text start stop = true := by
  obtain ⟨rfl, hintact⟩ := isView_iff.1 ha
  obtain ⟨rfl, hintact'⟩ := isView_iff.1 hb
  have hjoined : concat ⟨text, start, middle, start⟩ ⟨text, middle, stop, middle⟩
      = ⟨text, start, stop, start⟩ := by
    have hsame : (text == text) = true := beq_self_eq_true text.string
    simp [concat, hsame, joined]
  have hconcat := isIntact_concat hintact hintact'
  rw [hjoined] at hconcat ⊢
  exact isView_iff.2 ⟨rfl, hconcat⟩

/-- The slice is a view of the text that starts where it was found. -/
def IsQuote (text : Text) (slice : Slice) : Prop :=
  slice.isView text slice.offset (slice.offset + slice.length) = true

/-- A view quotes the text. -/
theorem isQuote_of_isView {slice : Slice} (h : slice.isView text start stop = true) :
    slice.IsQuote text := by
  have hview := h
  obtain ⟨rfl, hintact⟩ := isView_iff.1 h
  have hle := (isIntact_iff.1 hintact).1
  have hlength : start + Slice.length ⟨text, start, stop, start⟩ = stop := by
    simp only [Slice.length] at hle ⊢
    omega
  rw [IsQuote, hlength]
  exact hview

instance (slice : Slice) : Decidable (slice.IsQuote text) :=
  inferInstanceAs (Decidable (_ = true))

end Slice

/-- All strings in the value are views of the text. -/
def Quotes {α : Type} [Sliced α] (text : Text) (value : α) : Prop :=
  ∀ slice ∈ slices value, slice.IsQuote text

instance {α : Type} [Sliced α] (value : α) : Decidable (Quotes text value) :=
  inferInstanceAs (Decidable (∀ slice ∈ slices value, slice.IsQuote text))

section Quotes

variable {α β : Type} [Sliced α] [Sliced β]

/-- An empty list quotes nothing. -/
@[simp] theorem quotes_nil : Quotes text ([] : List α) := by simp [Quotes, slices]

/-- A list quotes the text if its head and its rest do. -/
@[simp] theorem quotes_cons (item : α) (rest : List α) :
    Quotes text (item :: rest) ↔ Quotes text item ∧ Quotes text rest := by
  simp [Quotes, slices, List.flatMap_cons, or_imp, forall_and]

/-- A list quotes the text if every item of it does. -/
theorem quotes_list {items : List α} : Quotes text items ↔ ∀ item ∈ items, Quotes text item := by
  induction items with
  | nil => simp
  | cons item rest ih => rw [quotes_cons, ih, List.forall_mem_cons]

/-- A pair quotes the text if both sides do. -/
@[simp] theorem quotes_pair (pair : α × β) :
    Quotes text pair ↔ Quotes text pair.1 ∧ Quotes text pair.2 := by
  simp [Quotes, slices, or_imp, forall_and]

/-- A text that is not a slice quotes nothing. -/
@[simp] theorem quotes_string (value : String) : Quotes text value := by simp [Quotes, slices]

end Quotes

namespace Tree

/-- The unit tree quotes nothing. -/
@[simp] theorem quotes_unit : Quotes text Tree.unit := by simp [Quotes, Sliced.slices, Tree.slices]

/-- A string quotes the text if the slice it holds does. -/
@[simp] theorem quotes_str (slice : Slice) : Quotes text (Tree.str slice) ↔ slice.IsQuote text := by
  simp [Quotes, Sliced.slices, Tree.slices]

/-- A list of trees quotes the text if the trees do. -/
@[simp] theorem quotes_items (items : List Tree) :
    Quotes text (Tree.list items) ↔ Quotes text items := by
  have heq : Sliced.slices (Tree.list items) = Sliced.slices items :=
    (Tree.slices.eq_3 items).trans (slicesOfItems_eq items)
  rw [Quotes, heq]
  rfl

/-- A map quotes the text if its entries do. -/
@[simp] theorem quotes_map (entries : List (String × Tree)) :
    Quotes text (Tree.map entries) ↔ Quotes text entries := by
  have heq : Sliced.slices (Tree.map entries) = Sliced.slices entries :=
    (Tree.slices.eq_4 entries).trans (slicesOfEntries_eq entries)
  rw [Quotes, heq]
  rfl

/-- An entry whose value quotes the text may be put into a map that does. -/
theorem quotes_insertEntry {key : String} {value : Tree} {entries : List (String × Tree)}
    (hv : Quotes text value) (h : Quotes text entries) :
    Quotes text (insertEntry key value entries) := by
  induction entries with
  | nil => simpa [insertEntry] using hv
  | cons entry rest ih =>
    obtain ⟨k, v⟩ := entry
    obtain ⟨hentry, hrest⟩ := (quotes_cons _ _).1 h
    rw [insertEntry]
    split
    · simpa using ⟨hv, by simpa using hentry, hrest⟩
    · simpa using ⟨hv, hrest⟩
    · rw [quotes_cons]
      exact ⟨hentry, ih hrest⟩

/-- One map that quotes the text may be taken into another. -/
theorem quotes_insertEntries {entries more : List (String × Tree)} (h : Quotes text entries)
    (hmore : Quotes text more) : Quotes text (insertEntries entries more) := by
  induction more generalizing entries with
  | nil => exact h
  | cons entry rest ih =>
    obtain ⟨hentry, hrest⟩ := (quotes_cons _ _).1 hmore
    exact ih (quotes_insertEntry ((quotes_pair _).1 hentry).2 h) hrest

/-- An operation quotes what its operands quote. -/
theorem quotes_operation {left operator right : Tree} (hl : Quotes text left)
    (ho : Quotes text operator) (hr : Quotes text right) :
    Quotes text (operation left operator right) := by
  rw [operation, ofEntries, quotes_map]
  exact quotes_insertEntries quotes_nil (by simpa using ⟨hl, ho, hr⟩)

/-- Whether the tree quotes the text between the two offsets. -/
def spans (text : Text) (start stop : Nat) (tree : Tree) : Bool :=
  (!tree.isUnit || start == stop) && tree.slice?.all (·.isView text start stop) &&
    decide (Quotes text tree)

/-- A tree that quotes the text between two offsets is unit only if these are the same, and if it is a
string then that of the text between them; and every string in it is that of the text where it was
found. -/
theorem spans_iff {tree : Tree} : tree.spans text start stop = true ↔
    (tree = .unit → start = stop) ∧
      (∀ slice, tree = .str slice → slice.isView text start stop = true) ∧ Quotes text tree := by
  cases tree <;> simp [spans, isUnit, slice?]

/-- A match without value spans nothing: it starts where it stops. -/
@[simp] theorem spans_unit : Tree.unit.spans text start stop = true ↔ start = stop := by
  simp [spans_iff]

/-- A string spans what its slice is a view of. -/
@[simp] theorem spans_str {slice : Slice} :
    (Tree.str slice).spans text start stop = true ↔ slice.isView text start stop = true := by
  simp only [spans_iff, quotes_str]
  exact ⟨fun h => h.2.1 slice rfl, fun h => ⟨by simp, fun _ heq => by cases heq; exact h,
    Slice.isQuote_of_isView h⟩⟩

/-- A list spans any stretch, as long as what is in it quotes the text. -/
@[simp] theorem spans_list {items : List Tree} :
    (Tree.list items).spans text start stop = true ↔ Quotes text items := by
  simp [spans_iff]

/-- A map spans any stretch, as long as what is in it quotes the text. -/
@[simp] theorem spans_map {entries : List (String × Tree)} :
    (Tree.map entries).spans text start stop = true ↔ Quotes text entries := by
  simp [spans_iff]

/-- A tree that spans a stretch of the text quotes the text. -/
theorem quotes_of_spans {tree : Tree} (h : tree.spans text start stop = true) : Quotes text tree :=
  (spans_iff.1 h).2.2

/-- What quotes neighbouring pieces of the text is merged to what quotes both. -/
theorem spans_merge {left right : Tree} (hl : left.spans text start middle = true)
    (hr : right.spans text middle stop = true) : (merge left right).tree.spans text start stop = true := by
  cases left with
  | unit =>
    rw [spans_unit] at hl
    rw [hl]
    exact hr
  | str slice =>
    rw [spans_str] at hl
    cases right with
    | unit =>
      rw [spans_unit] at hr
      rw [← hr]
      exact spans_str.2 hl
    | str slice' => exact spans_str.2 (Slice.isView_concat hl (spans_str.1 hr))
    | list items => exact spans_list.2 (spans_list.1 hr)
    | map entries => exact spans_map.2 (spans_map.1 hr)
  | list items =>
    rw [spans_list] at hl
    cases right with
    | unit | str => exact spans_list.2 hl
    | list items' =>
      exact spans_list.2 (quotes_list.2 (List.forall_mem_append.2
        ⟨quotes_list.1 hl, quotes_list.1 (spans_list.1 hr)⟩))
    | map entries =>
      refine spans_list.2 (quotes_list.2 (List.forall_mem_append.2 ⟨quotes_list.1 hl, ?_⟩))
      simpa using spans_map.1 hr
  | map entries =>
    rw [spans_map] at hl
    cases right with
    | unit | str => exact spans_map.2 hl
    | list items => exact spans_list.2 ((quotes_cons _ _).2 ⟨(quotes_map _).2 hl, spans_list.1 hr⟩)
    | map entries' => exact spans_map.2 (quotes_insertEntries hl (spans_map.1 hr))

/-- The trees quote pieces of the text that follow each other from the first offset to the second. -/
def Follow (text : Text) : Nat → Nat → List Tree → Prop
  | start, stop, [] => start = stop
  | start, stop, tree :: rest =>
    ∃ middle, tree.spans text start middle = true ∧ Follow text middle stop rest

/-- Trees that follow one another all quote the text. -/
theorem Follow.quotes {trees : List Tree} (h : Follow text start stop trees) : Quotes text trees := by
  induction trees generalizing start with
  | nil => exact quotes_nil
  | cons tree rest ih =>
    obtain ⟨middle, htree, hrest⟩ := h
    exact (quotes_cons _ _).2 ⟨quotes_of_spans htree, ih hrest⟩

/-- A tree takes in those that follow it, and then spans what all of them did. -/
theorem spans_mergeInto {tree : Tree} {trees : List Tree} (h : tree.spans text start middle = true)
    (ht : Follow text middle stop trees) : (mergeInto tree trees).tree.spans text start stop = true := by
  induction trees generalizing tree middle with
  | nil =>
    cases ht
    exact h
  | cons next rest ih =>
    obtain ⟨middle', hnext, hrest⟩ := ht
    exact ih (spans_merge h hnext) hrest

/-- The rounds of a repetition are joined to what quotes all of them. -/
theorem spans_joinRounds {named : Bool} {rounds : List Tree} (h : Follow text start stop rounds) :
    (joinRounds named rounds).tree.spans text start stop = true := by
  have hrounds := quotes_list.1 h.quotes
  unfold joinRounds
  split
  · exact spans_list.2 (quotes_list.2 fun round hround => hrounds round (List.mem_filter.1 hround).1)
  · split
    · refine spans_list.2 (quotes_list.2 fun item hitem => ?_)
      obtain ⟨round, hround, hmem⟩ := List.mem_flatMap.1 hitem
      have hquotes := hrounds round hround
      cases round with
      | list items => exact quotes_list.1 ((quotes_items items).1 hquotes) item hmem
      | _ => cases hmem
    · split
      · exact spans_list.2 quotes_nil
      · exact spans_mergeInto (spans_unit.2 rfl) h

end Tree

namespace Raw

/-- Whether the flat value, for whatever it is needed, quotes the text between the two offsets. -/
def spans (text : Text) (start stop : Nat) (raw : Raw) : Bool :=
  (raw.flatten false).tree.spans text start stop && (raw.flatten true).tree.spans text start stop

/-- A raw value spans a stretch if it does however it is flattened. -/
theorem spans_iff {raw : Raw} : raw.spans text start stop = true ↔
    ∀ named, (raw.flatten named).tree.spans text start stop = true := by
  rw [spans, Bool.and_eq_true, Bool.forall_bool]

/-- A leaf spans what its tree spans. -/
@[simp] theorem spans_leaf {tree : Tree} :
    (Raw.leaf tree).spans text start stop = true ↔ tree.spans text start stop = true := by
  simp [spans, flatten]

/-- The raw values quote pieces of the text that follow each other from the first offset to the second. -/
def Follow (text : Text) : Nat → Nat → List Raw → Prop
  | start, stop, [] => start = stop
  | start, stop, raw :: rest =>
    ∃ middle, raw.spans text start middle = true ∧ Follow text middle stop rest

/-- Raw values that follow one another are flattened to trees that do. -/
theorem Follow.flattenAll {raws : List Raw} (h : Follow text start stop raws) :
    Tree.Follow text start stop (Raw.flattenAll raws).1 := by
  induction raws generalizing start with
  | nil => exact h
  | cons raw rest ih =>
    obtain ⟨middle, hraw, hrest⟩ := h
    exact ⟨middle, spans_iff.1 hraw false, ih hrest⟩

/-- A sequence spans the stretch along which its parts follow one another. -/
theorem Follow.spans_sequence {parts : List Raw} (h : Follow text start stop parts) :
    (Raw.sequence parts).spans text start stop = true :=
  spans_iff.2 fun _ => Tree.spans_mergeInto (Tree.spans_unit.2 rfl) h.flattenAll

/-- A repetition spans the stretch along which its rounds follow one another. -/
theorem Follow.spans_repetition {rounds : List Raw} (h : Follow text start stop rounds) :
    (Raw.repetition rounds).spans text start stop = true :=
  spans_iff.2 fun _ => Tree.spans_joinRounds h.flattenAll

/-- An optional part quotes what its value does, if there was a round for it. -/
theorem Follow.spans_optional {rounds : List Raw} (h : Follow text start stop rounds)
    (hone : rounds.length ≤ 1) : (Raw.optional rounds.getLast?).spans text start stop = true := by
  match rounds with
  | [] =>
    cases h
    simp [spans, flatten]
  | [raw] =>
    obtain ⟨middle, hraw, rfl⟩ := h
    have hflat := spans_iff.1 hraw false
    simp [spans, flatten, hflat]
  | first :: second :: rest => simp at hone

end Raw

end Packrat
