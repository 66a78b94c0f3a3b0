import Mathlib
import Packrat.Proofs.Boundaries
import Packrat.Proofs.Habits
import Packrat.Proofs.Settings

/-!
# Lines and columns

Where a byte offset lies is a matter of the bytes in front of it: its line is one more than the line feeds
there, its column one more than the characters since the last of them. The index finds the same, whatever
it has been asked before, because what it has recorded is always the line feeds of a first part of the text.
The causes of a failed parse are located one after the other, through one index, and each ends up where its
own offset lies.
-/

namespace Packrat

open Matcher (Within)

/-- The byte that ends a line. -/
def lineFeed : UInt8 := 10

namespace Utf8

/-- The characters as bytes. -/
def encode (cs : List Char) : List UInt8 := cs.flatMap String.utf8EncodeChar

/-- Characters are encoded one after the other. -/
@[simp] theorem encode_cons (c : Char) (cs : List Char) :
    encode (c :: cs) = String.utf8EncodeChar c ++ encode cs := rfl

/-- Characters take as many bytes as they are wide. -/
theorem length_encode (cs : List Char) : (encode cs).length = width cs := by
  induction cs with
  | nil => rfl
  | cons c cs ih => simp [ih]

/-- No character but a line feed has the byte of a line feed in it. -/
theorem lineFeed_mem_utf8EncodeChar {c : Char} (h : lineFeed ∈ String.utf8EncodeChar c) : c = '\n' := by
  have hbyte (n : Nat) : lineFeed = UInt8.ofNat n ↔ 10 = n % 256 := by
    rw [lineFeed, ← UInt8.toNat_inj, UInt8.toNat_ofNat']
    rfl
  have hval : c = '\n' ↔ c.val.toNat = 10 := by
    rw [← Char.val_inj, ← UInt32.toNat_inj]
    rfl
  rw [hval]
  -- in the encodings of more than one byte every byte is 128 or more
  unfold String.utf8EncodeChar at h
  dsimp only at h
  split_ifs at h <;> simp only [List.mem_cons, List.not_mem_nil, or_false, hbyte] at h <;> omega

/-- The line feeds of a single character. -/
theorem findIdxs_utf8EncodeChar (c : Char) (offset : Nat) :
    (String.utf8EncodeChar c).findIdxs (· == lineFeed) offset = if c = '\n' then [offset] else [] := by
  split
  · rename_i h
    subst h
    rfl
  · rename_i h
    rw [List.findIdxs_eq_nil_iff]
    intro byte hmem
    rw [beq_eq_false_iff_ne]
    rintro rfl
    exact h (lineFeed_mem_utf8EncodeChar hmem)

end Utf8

/-- Scanning characters for the ends of lines is scanning their bytes for line feeds. -/
theorem LineIndex.endsFrom_eq (offset : Nat) (cs : List Char) :
    endsFrom offset cs = (Utf8.encode cs).findIdxs (· == lineFeed) (offset + 1) := by
  induction cs generalizing offset with
  | nil => rfl
  | cons c cs ih =>
    rw [endsFrom, Utf8.encode_cons, List.findIdxs_append, Utf8.findIdxs_utf8EncodeChar,
      String.length_utf8EncodeChar, ih, Nat.add_right_comm]
    split
    · rename_i h
      subst h
      rfl
    · rfl

/-- A line ends behind a first part of the characters. -/
theorem LineIndex.exists_append_of_mem_endsFrom {offset e : Nat} {cs : List Char}
    (h : e ∈ endsFrom offset cs) : ∃ front rest, cs = front ++ rest ∧ offset + Utf8.width front = e := by
  induction cs generalizing offset with
  | nil => cases h
  | cons c cs ih =>
    have hlater (h : e ∈ endsFrom (offset + c.utf8Size) cs) :
        ∃ front rest, c :: cs = front ++ rest ∧ offset + Utf8.width front = e := by
      obtain ⟨front, rest, hcs, hwidth⟩ := ih h
      exact ⟨c :: front, rest, by rw [hcs]; rfl, by rw [Utf8.width_cons]; omega⟩
    rw [endsFrom] at h
    split at h
    · rcases List.mem_cons.1 h with rfl | h
      · exact ⟨[c], cs, rfl, by simp⟩
      · exact hlater h
    · exact hlater h

namespace Text

variable (text : Text) {start stop pos : Nat}

/-- The bytes of the text. -/
def bytes : List UInt8 := text.string.toByteArray.data.toList

/-- The bytes of a text are those its characters are encoded by. -/
theorem bytes_eq : text.bytes = Utf8.encode text.chars := by
  have hstring : text.string = String.ofList text.chars := by
    rw [text.chars_eq, String.ofList_toList]
  rw [bytes, hstring, String.toByteArray_ofList, List.utf8Encode, List.toList_data_toByteArray]
  rfl

/-- A text has as many bytes as its size says. -/
theorem length_bytes : text.bytes.length = text.size := by
  rw [bytes_eq, Utf8.length_encode, size_eq_width]

/-- The line that a byte offset is on, counted from 1. -/
def lineOf (pos : Nat) : Nat := 1 + (text.bytes.take pos).count lineFeed

/-- Where the line starts that a byte offset is on: just past the last line feed in front of it, or where
the text starts. -/
def lineStart (pos : Nat) : Nat :=
  Nat.findGreatest (fun start => 0 < start ∧ text.bytes[start - 1]? = some lineFeed) pos

/-- The number of characters that start between two byte offsets. -/
def charsBetween (start stop : Nat) : Nat :=
  (List.range' start (stop - start)).countP text.isBoundary

/-- The column of a byte offset in its line, counted from 1 in characters, or in bytes inside of one. -/
def columnOf (pos : Nat) : Nat :=
  1 + if text.isBoundary pos then text.charsBetween (text.lineStart pos) pos else pos - text.lineStart pos

/-- The line and the column of a byte offset. What lies past the end is located at the end. -/
def lineAndColumn (pos : Nat) : Nat × Nat :=
  (text.lineOf (min pos text.size), text.columnOf (min pos text.size))

/-- The offsets just past the line feeds between two byte offsets. -/
def feedsBetween (start stop : Nat) : List Nat :=
  ((text.bytes.take stop).drop start).findIdxs (· == lineFeed) (start + 1)

/-- An end of a line lies between two offsets if the byte right in front of it is a line feed
and lies between them. -/
theorem mem_feedsBetween {e : Nat} : e ∈ text.feedsBetween start stop ↔
    start < e ∧ e ≤ stop ∧ text.bytes[e - 1]? = some lineFeed := by
  rw [feedsBetween, List.mem_findIdxs_iff_getElem_sub_pos]
  constructor
  · rintro ⟨hstart, hlt, hfeed⟩
    have hplace : start + (e - (start + 1)) = e - 1 := by omega
    rw [List.length_drop, List.length_take] at hlt
    rw [List.getElem_drop, List.getElem_take, beq_iff_eq] at hfeed
    refine ⟨hstart, by omega, List.getElem?_eq_some_iff.2 ⟨by omega, ?_⟩⟩
    simpa only [hplace] using hfeed
  · rintro ⟨hstart, hstop, hfeed⟩
    have hplace : start + (e - (start + 1)) = e - 1 := by omega
    obtain ⟨hlt, hfeed⟩ := List.getElem?_eq_some_iff.1 hfeed
    refine ⟨hstart, by rw [List.length_drop, List.length_take]; omega, ?_⟩
    rw [List.getElem_drop, List.getElem_take, beq_iff_eq]
    simpa only [hplace] using hfeed

/-- The ends of lines are found piece by piece. -/
theorem feedsBetween_append {mid : Nat} (h : start ≤ mid) (h' : mid ≤ stop) (hend : mid ≤ text.size) :
    text.feedsBetween start mid ++ text.feedsBetween mid stop = text.feedsBetween start stop := by
  have hsplit : (text.bytes.take stop).drop start
      = (text.bytes.take mid).drop start ++ (text.bytes.take stop).drop mid := by
    have hmid : text.bytes.take stop = text.bytes.take mid ++ (text.bytes.take stop).drop mid := by
      conv_lhs => rw [← List.take_append_drop mid (text.bytes.take stop), List.take_take, min_eq_left h']
    conv_lhs => rw [hmid]
    rw [List.drop_append_of_le_length]
    rw [List.length_take, length_bytes]
    omega
  rw [feedsBetween, feedsBetween, feedsBetween, hsplit, List.findIdxs_append, List.length_drop,
    List.length_take, length_bytes, min_eq_left hend]
  congr 2
  omega

/-- Of the line feeds up to an offset, those in front of an earlier one. -/
theorem takeWhile_feedsBetween (h : pos ≤ stop) (hpos : pos ≤ text.size) :
    (text.feedsBetween 0 stop).takeWhile (· ≤ pos) = text.feedsBetween 0 pos := by
  rw [← text.feedsBetween_append (Nat.zero_le pos) h hpos, List.takeWhile_append_of_pos]
  · have hnone : (text.feedsBetween pos stop).takeWhile (· ≤ pos) = [] := by
      cases hfeeds : text.feedsBetween pos stop with
      | nil => rfl
      | cons e rest =>
        have he : e ∈ text.feedsBetween pos stop := by simp [hfeeds]
        rw [mem_feedsBetween] at he
        exact List.takeWhile_cons_of_neg (by simpa using he.1)
    rw [hnone, List.append_nil]
  · intro e he
    rw [mem_feedsBetween] at he
    exact decide_eq_true he.2.1

/-- Of all line feeds, those between two offsets. -/
theorem filter_feedsBetween (h : start ≤ stop) (hstop : stop ≤ text.size) :
    (text.feedsBetween 0 text.size).filter (fun e => start < e && e ≤ stop)
      = text.feedsBetween start stop := by
  have hnone {first last : Nat} (hout : last ≤ start ∨ stop ≤ first) :
      (text.feedsBetween first last).filter (fun e => start < e && e ≤ stop) = [] := by
    rw [List.filter_eq_nil_iff]
    intro e he
    rw [mem_feedsBetween] at he
    simp only [Bool.and_eq_true, decide_eq_true_eq]
    omega
  have hall : (text.feedsBetween start stop).filter (fun e => start < e && e ≤ stop)
      = text.feedsBetween start stop := by
    rw [List.filter_eq_self]
    intro e he
    rw [mem_feedsBetween] at he
    simp [he.1, he.2.1]
  rw [← text.feedsBetween_append (Nat.zero_le stop) hstop hstop,
    ← text.feedsBetween_append (Nat.zero_le start) h (Nat.le_trans h hstop), List.filter_append,
    List.filter_append, hall, hnone (.inl le_rfl), hnone (.inr le_rfl), List.nil_append, List.append_nil]

/-- An offset lies in the line behind as many ends of lines as there are in front of it. -/
theorem length_feedsBetween (pos : Nat) : text.lineOf pos = (text.feedsBetween 0 pos).length + 1 := by
  rw [lineOf, feedsBetween, List.drop_zero, List.length_findIdxs, Nat.add_comm]
  rfl

/-- A line starts just past the last line feed in front of it. -/
theorem lineStart_eq (pos : Nat) : text.lineStart pos = (text.feedsBetween 0 pos).getLast?.getD 0 := by
  rw [lineStart, Nat.findGreatest_eq_iff]
  cases hlast : (text.feedsBetween 0 pos).getLast? with
  | none =>
    rw [List.getLast?_eq_none_iff] at hlast
    refine ⟨Nat.zero_le _, fun h => absurd rfl h, fun e he hpos hfeed => ?_⟩
    have hmem : e ∈ text.feedsBetween 0 pos := (text.mem_feedsBetween).2 ⟨hfeed.1, hpos, hfeed.2⟩
    rw [hlast] at hmem
    cases hmem
  | some last =>
    have hmem := text.mem_feedsBetween.1 (List.mem_of_getLast? hlast)
    refine ⟨hmem.2.1, fun _ => ⟨hmem.1, hmem.2.2⟩, fun e he hpos hfeed => ?_⟩
    -- the line feeds are in ascending order, so none comes behind the last of them
    obtain ⟨front, hfront⟩ := List.getLast?_eq_some_iff.1 hlast
    have hmem' : e ∈ text.feedsBetween 0 pos := (text.mem_feedsBetween).2 ⟨hfeed.1, hpos, hfeed.2⟩
    have hsorted : (text.feedsBetween 0 pos).Pairwise (· < ·) := List.pairwise_findIdxs
    rw [hfront, List.pairwise_append] at hsorted
    rw [hfront, List.mem_append, List.mem_singleton] at hmem'
    rcases hmem' with hmem' | rfl
    · have := hsorted.2.2 e hmem' last (List.mem_singleton_self _)
      simp only [Option.getD_some] at he
      omega
    · simp at he

/-- No boundary lies inside a character. -/
theorem isBoundary_inside {front rest : List Char} {c : Char} (h : text.chars = front ++ c :: rest) {k : Nat}
    (hpos : 0 < k) (hlt : k < c.utf8Size) : text.isBoundary (Utf8.width front + k) = false := by
  rw [← Bool.not_eq_true]
  intro hb
  obtain ⟨front', rest', hchars, hwidth, -⟩ := exists_split hb
  rcases List.append_eq_append_iff.1 (h.symm.trans hchars) with ⟨more, rfl, hmore⟩ | ⟨more, rfl, -⟩
  · rw [Utf8.width_append] at hwidth
    cases more with
    | nil => simp at hwidth; omega
    | cons c' cs =>
      obtain ⟨rfl, -⟩ := List.cons.inj (hmore.trans (List.cons_append ..))
      rw [Utf8.width_cons] at hwidth
      omega
  · rw [Utf8.width_append] at hwidth
    omega

/-- As many characters start in a piece of the text as it is made of. -/
theorem countP_isBoundary {front shown rest : List Char} (h : text.chars = front ++ (shown ++ rest)) :
    (List.range' (Utf8.width front) (Utf8.width shown)).countP text.isBoundary = shown.length := by
  induction shown generalizing front with
  | nil => rfl
  | cons c cs ih =>
    have hwhole : text.chars = (front ++ [c]) ++ (cs ++ rest) := by rw [h]; simp
    have hrest := ih hwhole
    rw [Utf8.width_append, Utf8.width_cons, Utf8.width_nil, Nat.add_zero] at hrest
    obtain ⟨k, hk⟩ : ∃ k, c.utf8Size = k + 1 := ⟨c.utf8Size - 1, by have := c.utf8Size_pos; omega⟩
    have hinside : (List.range' (Utf8.width front + 1) k).countP text.isBoundary = 0 := by
      rw [List.countP_eq_zero]
      intro i hi
      obtain ⟨j, hj, rfl⟩ := List.mem_range'.1 hi
      have := text.isBoundary_inside (k := 1 + j) h (by omega) (by omega)
      simpa [Nat.add_assoc] using this
    have hfront : text.isBoundary (Utf8.width front) = true := isBoundary_width h
    rw [Utf8.width_cons, ← List.range'_append_1, List.countP_append, hrest, hk, List.range'_succ,
      List.countP_cons_of_pos hfront, hinside]
    simp [Nat.add_comm]

/-- The characters that can be cut out between two offsets start between them. -/
theorem length_cut (hle : start ≤ stop) (hstart : text.isBoundary start = true)
    (hstop : text.isBoundary stop = true) :
    ∃ shown, text.cut? start stop = some shown ∧ shown.length = text.charsBetween start stop := by
  obtain ⟨front, shown, rest, hchars, hfront, hshown, hcut⟩ := exists_split_cut hle hstart hstop
  refine ⟨shown, hcut, ?_⟩
  rw [charsBetween, ← text.countP_isBoundary hchars, hfront, hshown]

/-- The ends of lines that scanning the characters finds. -/
theorem endsFrom_chars : LineIndex.endsFrom 0 text.chars = text.feedsBetween 0 text.size := by
  rw [LineIndex.endsFrom_eq, feedsBetween, List.drop_zero, ← bytes_eq, List.take_of_length_le]
  exact Nat.le_of_eq text.length_bytes

/-- A line starts at a boundary, and not behind the offset. -/
theorem lineStart_spec (hpos : pos ≤ text.size) :
    text.isBoundary (text.lineStart pos) = true ∧ text.lineStart pos ≤ pos := by
  refine ⟨?_, Nat.findGreatest_le pos⟩
  rw [lineStart_eq]
  cases hlast : (text.feedsBetween 0 pos).getLast? with
  | none => exact text.isBoundary_zero
  | some last =>
    have hmem := List.mem_of_getLast? hlast
    rw [← text.takeWhile_feedsBetween hpos hpos, ← endsFrom_chars] at hmem
    obtain ⟨front, rest, hchars, hwidth⟩ :=
      LineIndex.exists_append_of_mem_endsFrom ((List.takeWhile_prefix _).subset hmem)
    rw [Nat.zero_add] at hwidth
    rw [Option.getD_some, ← hwidth]
    exact isBoundary_width hchars

end Text

namespace LineIndex

variable {index : LineIndex} {text : Text}

/-- The index has recorded the line feeds of a first part of the text, and no others. -/
structure Tracks (index : LineIndex) (text : Text) : Prop where
  within : index.scanned ≤ text.size
  ends : index.ends = text.feedsBetween 0 index.scanned

/-- An index that has scanned nothing is right about that. -/
theorem tracks_empty (text : Text) : Tracks {} text := ⟨Nat.zero_le _, rfl⟩

/-- Scanning on adds the line feeds of what was not scanned before. -/
theorem Tracks.scan (h : index.Tracks text) (upto : Nat) :
    (index.scan text upto).Tracks text ∧ min upto text.size ≤ (index.scan text upto).scanned := by
  rw [LineIndex.scan]
  dsimp only
  split
  · rename_i hle
    exact ⟨h, hle⟩
  · rename_i hgt
    have hle : index.scanned ≤ min upto text.size := by omega
    refine ⟨⟨Nat.min_le_right _ _, ?_⟩, Nat.le_refl _⟩
    rw [h.ends, text.endsFrom_chars, text.filter_feedsBetween hle (Nat.min_le_right _ _)]
    exact text.feedsBetween_append (Nat.zero_le _) hle h.within

/-- Whatever has been recorded, a question gets the answer that the bytes in front of the offset give. -/
theorem Tracks.lineAndColumn (h : index.Tracks text) (pos : Nat) :
    (index.lineAndColumn text pos).1 = text.lineAndColumn pos ∧
      (index.lineAndColumn text pos).2.Tracks text := by
  have hq : min pos text.size ≤ text.size := Nat.min_le_right _ _
  obtain ⟨hscan, hreach⟩ := h.scan (min pos text.size)
  rw [Nat.min_eq_left hq] at hreach
  refine ⟨?_, hscan⟩
  obtain ⟨hstart, hle⟩ := text.lineStart_spec hq
  rw [LineIndex.lineAndColumn, Text.lineAndColumn, Text.columnOf, text.length_feedsBetween]
  dsimp only
  rw [hscan.ends, text.takeWhile_feedsBetween hreach hq, ← text.lineStart_eq]
  cases hb : text.isBoundary (min pos text.size) with
  | true =>
    obtain ⟨shown, hcut, hlength⟩ := text.length_cut hle hstart hb
    rw [hcut, ← hlength]
    simp [Nat.add_comm]
  | false =>
    have hnone : text.cut? (text.lineStart (min pos text.size)) (min pos text.size) = none := by
      cases hcut : text.cut? (text.lineStart (min pos text.size)) (min pos text.size) with
      | none => rfl
      | some shown =>
        rw [Text.isBoundary_of_cut? hcut] at hb
        cases hb
    rw [hnone]
    simp [Nat.add_comm]

/-- What an index can be asked to do. -/
inductive Query where
  /-- To scan the text up to an offset. -/
  | scan (upto : Nat)
  /-- To say where an offset lies. -/
  | locate (pos : Nat)

/-- Asks the index once; scanning alone gives no answer. -/
def ask (text : Text) (index : LineIndex) : Query → Option (Nat × Nat) × LineIndex
  | .scan upto => (none, index.scan text upto)
  | .locate pos =>
    let (answer, index) := index.lineAndColumn text pos
    (some answer, index)

/-- The answers to one question after the other. -/
def answers (text : Text) : LineIndex → List Query → List (Option (Nat × Nat))
  | _, [] => []
  | index, query :: rest =>
    let (answer, index) := index.ask text query
    answer :: answers text index rest

/-- The answer that does not depend on what was asked before. -/
def Query.answer (text : Text) : Query → Option (Nat × Nat)
  | .scan _ => none
  | .locate pos => some (text.lineAndColumn pos)

/-- A question gets the answer of the text, and the index stays right. -/
theorem Tracks.ask (h : index.Tracks text) (query : Query) :
    (index.ask text query).1 = query.answer text ∧ (index.ask text query).2.Tracks text := by
  cases query with
  | scan upto => exact ⟨rfl, (h.scan upto).1⟩
  | locate pos => exact ⟨congrArg some (h.lineAndColumn pos).1, (h.lineAndColumn pos).2⟩

/-- Any number of questions get the answers of the text, in whatever order they are asked. -/
theorem Tracks.answers (h : index.Tracks text) (queries : List Query) :
    answers text index queries = queries.map (·.answer text) := by
  induction queries generalizing index with
  | nil => rfl
  | cons query rest ih =>
    obtain ⟨hanswer, hnext⟩ := h.ask query
    rw [LineIndex.answers, List.map_cons, ← hanswer, ← ih hnext]

end LineIndex

/-- The source is over the text, and its index has recorded lines of that text only. -/
structure Source.Tracks (source : Source) (text : Text) : Prop where
  text_eq : source.text = text
  lines : source.lines.Tracks text

/-- Where an offset lies in a text. -/
def Text.positionOf (text : Text) (offset : Nat) : Position :=
  ⟨offset, (text.lineAndColumn offset).1, (text.lineAndColumn offset).2⟩

/-- An offset is located where it lies in the text. -/
theorem Source.Tracks.position {source : Source} {text : Text} (h : source.Tracks text) (offset : Nat) :
    (source.position offset).1 = text.positionOf offset ∧ (source.position offset).2.Tracks text := by
  obtain ⟨rfl, hlines⟩ := h
  obtain ⟨hanswer, hnext⟩ := hlines.lineAndColumn offset
  refine ⟨?_, rfl, hnext⟩
  rw [Text.positionOf, ← hanswer]
  rfl

namespace Cause

variable {text : Text}

/-- Every cause of the tree is located where its own offset lies. -/
def Located (text : Text) (nodes : List (Nat × Cause)) : Prop :=
  ∀ node ∈ nodes, node.2.position = some (text.positionOf node.2.offset)

mutual

/-- A cause is located together with all that led to it, each where it lies. -/
theorem located_locate (cause : Cause) {source : Source} (h : source.Tracks text) (depth : Nat) :
    Located text ((cause.locate source).1.preorder depth) ∧ (cause.locate source).2.Tracks text := by
  obtain ⟨message, offset, position, label, children⟩ := cause
  obtain ⟨hposition, hnext⟩ := h.position offset
  obtain ⟨hchildren, hend⟩ := located_locateAll children hnext (depth + 1)
  refine ⟨?_, hend⟩
  rintro node hnode
  rw [locate, preorder, List.mem_cons] at hnode
  rcases hnode with rfl | hnode
  · exact congrArg some hposition
  · exact hchildren node hnode

/-- Causes side by side are located one after the other. -/
theorem located_locateAll (causes : List Cause) {source : Source} (h : source.Tracks text) (depth : Nat) :
    Located text (preorderAll depth (locateAll causes source).1) ∧
      (locateAll causes source).2.Tracks text := by
  match causes with
  | [] =>
    refine ⟨?_, h⟩
    rintro node hnode
    cases hnode
  | child :: rest =>
    obtain ⟨hchild, hnext⟩ := located_locate child h depth
    obtain ⟨hrest, hend⟩ := located_locateAll rest hnext depth
    refine ⟨?_, hend⟩
    rintro node hnode
    rw [locateAll, preorderAll, List.mem_append] at hnode
    rcases hnode with hnode | hnode
    · exact hchild node hnode
    · exact hrest node hnode

end

end Cause

/-- The second session reads the text of the first and knows the same lines of it. -/
structure Session.SameLines (s s' : Session) : Prop where
  text : s'.source.text = s.source.text
  lines : s'.source.lines = s.source.lines

namespace Session.SameLines

/-- A session knows the lines that it knows. -/
theorem refl (s : Session) : SameLines s s := ⟨rfl, rfl⟩

/-- Lines are kept step by step. -/
theorem trans {s s' s'' : Session} (h : SameLines s s') (h' : SameLines s' s'') : SameLines s s'' :=
  ⟨h'.text.trans h.text, h'.lines.trans h.lines⟩

/-- A match never asks where an offset lies. -/
theorem loose : Latitude.Loose SameLines where
  refl := .refl
  trans := .trans
  moved _ _ _ := ⟨rfl, rfl⟩
  noted _ _ _ := ⟨rfl, rfl⟩
  recorded _ _ := ⟨rfl, rfl⟩
  announced _ _ := ⟨rfl, rfl⟩
  chosen _ h := ⟨h.text, h.lines⟩
  inScope h := ⟨h.text, h.lines⟩
  labelled _ h := ⟨h.text, h.lines⟩
  memo _ _ := ⟨rfl, rfl⟩
  bodies _ _ _ := ⟨rfl, rfl⟩
  captures _ _ := ⟨rfl, rfl⟩
  undefined _ _ _ := ⟨rfl, rfl⟩

/-- A parse asks for lines only once the match is over. -/
theorem parseStep (table : RuleTable) (bytes : Nat) (entry : Atom) (allowRest : Bool) :
    Within SameLines (table.parseStep bytes entry allowRest) := by
  have hconclude (outcome : Except Cause Raw) : Within SameLines (conclude allowRest outcome) := by
    refine loose.habit.bind (loose.habit.ofResult outcome) fun raw =>
      loose.habit.bind loose.refl fun source => ?_
    split
    · exact loose.habit.bind (loose.habit.flatten false raw) fun tree =>
        loose.habit.bind (loose.habit.emit _) fun _ => loose.habit.pure tree
    · exact loose.habit.refuse _ _ _
  exact loose.habit.bind (loose.habit.attempt (loose.matcher table _ entry)) fun outcome =>
    loose.habit.bind (fun _ => ⟨rfl, rfl⟩) fun _ => hconclude outcome

end Session.SameLines

/-- A line index answers every question with the line and the column that the bytes in front of the offset
give, whatever it was asked before: the line is one more than the line feeds there, and the column is one
more than the characters, or the bytes inside of a character, since the line started. So every cause of the
tree that a failed parse reports is located where its own offset lies. -/
theorem line_index_answers_from_text (text : String) :
    (∀ queries, LineIndex.answers (.ofString text) {} queries
      = queries.map (·.answer (.ofString text))) ∧
    ∀ (table : RuleTable) bodies (entry : Atom) (options : Options) (cause : Cause),
      (run table bodies entry text options).outcome = .rejected (.parse cause) →
        ∀ node ∈ cause.preorder 0,
          node.2.position = some ((Text.ofString text).positionOf node.2.offset) := by
  refine ⟨(LineIndex.tracks_empty _).answers, fun table bodies entry options cause h => ?_⟩
  rw [run_outcome] at h
  have hlines := Session.SameLines.parseStep table text.utf8ByteSize entry options.allowRest
    (Session.start text options bodies)
  cases hstep : table.parseStep text.utf8ByteSize entry options.allowRest
      (Session.start text options bodies) with
  | stopped reason =>
    rw [hstep] at h
    cases h
  | matched tree s =>
    rw [hstep, Reply.outcome, Session.judge] at h
    split at h <;> cases h
  | failed root s =>
    have hsame := hlines.of_failed hstep
    rw [hstep, Reply.outcome, Session.judge] at h
    split at h
    · cases h
    · cases h
      have htracks : s.source.Tracks (.ofString text) :=
        ⟨hsame.text, by rw [hsame.lines]; exact LineIndex.tracks_empty _⟩
      exact (Cause.located_locate _ htracks 0).1

/-- The second part of a sequence fails on the second line, behind a character of two bytes. An index over
that text is asked about its end before it is asked about its start. -/
theorem second_line_located :
    (∃ cause, (run .empty [] (.sequence [.literal "é\nü", .literal "a"]) "é\nüx" {}).outcome
        = .rejected (.parse cause) ∧
      (cause.preorder 0).map (·.2.offset) = [5, 5] ∧
      ∀ node ∈ cause.preorder 0, node.2.position = some ⟨5, 2, 2⟩) ∧
    LineIndex.answers (.ofString "é\nüx") {} [.locate 9, .scan 1, .locate 2, .locate 4]
      = [some (2, 3), none, some (1, 2), some (2, 2)] := by
  obtain ⟨cause, hcause, hoffsets⟩ : ∃ cause,
      (run .empty [] (.sequence [.literal "é\nü", .literal "a"]) "é\nüx" {}).outcome
        = .rejected (.parse cause) ∧ (cause.preorder 0).map (·.2.offset) = [5, 5] :=
    ⟨_, by cbv, by cbv⟩
  obtain ⟨hanswers, hlocated⟩ := line_index_answers_from_text "é\nüx"
  refine ⟨⟨cause, hcause, hoffsets, fun node hnode => ?_⟩, (hanswers _).trans (by cbv)⟩
  have hoffset : node.2.offset ∈ (cause.preorder 0).map (·.2.offset) := List.mem_map_of_mem hnode
  rw [hoffsets] at hoffset
  have hfive : node.2.offset = 5 := by simpa using hoffset
  rw [hlocated _ _ _ _ cause hcause node hnode, hfive]
  exact congrArg some (by cbv)

end Packrat
