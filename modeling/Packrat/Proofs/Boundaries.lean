import Packrat.Source.Basic

/-!
# Boundaries of characters

The cursor only ever stands where a character starts or where the text ends. These are the offsets
at which the text can be cut in two, and everything that a source consumes from one of them ends at
another one.
-/

namespace Packrat

/-- What is taken is a first part of that width. -/
theorem Utf8.exists_append_of_take? {cs front : List Char} {n : Nat} (h : take? cs n = some front) :
    ∃ rest, cs = front ++ rest ∧ width front = n := by
  induction cs generalizing n front with
  | nil =>
    cases n with
    | zero => exact ⟨[], by simpa using h, by simpa using congrArg width (Option.some.inj h).symm⟩
    | succ n => simp [take?] at h
  | cons c cs ih =>
    cases n with
    | zero =>
      obtain rfl : [] = front := by simpa using h
      exact ⟨c :: cs, rfl, rfl⟩
    | succ n =>
      rw [take?] at h
      split at h
      · obtain ⟨shown, hshown, rfl⟩ := Option.map_eq_some_iff.1 h
        obtain ⟨rest, hcs, hwidth⟩ := ih hshown
        exact ⟨rest, by rw [hcs]; rfl, by rw [width_cons, hwidth]; omega⟩
      · cases h

namespace Text

variable {text : Text} {pos : Nat}

/-- A boundary cuts the characters of the text in two. -/
theorem exists_split (h : text.isBoundary pos = true) :
    ∃ front rest, text.chars = front ++ rest ∧ Utf8.width front = pos ∧
      text.from? pos = some rest := by
  obtain ⟨rest, hrest⟩ := Option.isSome_iff_exists.1 h
  obtain ⟨front, hchars, hwidth⟩ := Utf8.exists_append_of_drop? hrest
  exact ⟨front, rest, hchars, hwidth, hrest⟩

/-- Every first part of the characters ends at a boundary. -/
theorem isBoundary_width {front rest : List Char} (h : text.chars = front ++ rest) :
    text.isBoundary (Utf8.width front) = true := by
  simp [isBoundary, from?, h, Utf8.drop?_width_append]

/-- A text starts at a boundary. -/
@[simp] theorem isBoundary_zero (text : Text) : text.isBoundary 0 = true := by
  simp [isBoundary, from?]

/-- The end of the text is a boundary. -/
@[simp] theorem isBoundary_size (text : Text) : text.isBoundary text.size = true := by
  rw [size_eq_width]
  exact isBoundary_width (text.chars.append_nil).symm

/-- There are no boundaries behind the end of the text. -/
theorem le_size_of_isBoundary (h : text.isBoundary pos = true) : pos ≤ text.size := by
  obtain ⟨front, rest, hchars, hwidth, _⟩ := exists_split h
  rw [size_eq_width, hchars, Utf8.width_append]
  omega

/-- Two boundaries cut the characters of the text in three. -/
theorem exists_split_cut {start stop : Nat} (hle : start ≤ stop) (hstart : text.isBoundary start = true)
    (hstop : text.isBoundary stop = true) : ∃ front shown rest, text.chars = front ++ (shown ++ rest) ∧
      Utf8.width front = start ∧ Utf8.width shown = stop - start ∧ text.cut? start stop = some shown := by
  obtain ⟨front, rest, hchars, hfront, hrest⟩ := exists_split hstart
  obtain ⟨front', rest', hchars', hfront', -⟩ := exists_split hstop
  obtain ⟨shown, hshown⟩ : ∃ shown, rest = shown ++ rest' ∧ Utf8.width shown = stop - start := by
    rcases List.append_eq_append_iff.1 (hchars.symm.trans hchars') with ⟨more, rfl, hmore⟩ | ⟨more, rfl, hmore⟩
    · rw [Utf8.width_append] at hfront'
      exact ⟨more, hmore, by omega⟩
    · -- the first boundary is not behind the second
      rw [Utf8.width_append] at hfront
      cases more with
      | nil => exact ⟨[], by simpa using hmore.symm, by simp at hfront ⊢; omega⟩
      | cons c cs =>
        have := c.utf8Size_pos
        rw [Utf8.width_cons] at hfront
        omega
  refine ⟨front, shown, rest', by rw [hchars, hshown.1], hfront, hshown.2, ?_⟩
  rw [from?] at hrest
  rw [cut?, Utf8.cut?, if_pos hle, hrest, Option.bind_some, hshown.1, ← hshown.2, Utf8.take?_width_append]

/-- Between two boundaries the text can be cut out. -/
theorem exists_cut {start stop : Nat} (hle : start ≤ stop) (hstart : text.isBoundary start = true)
    (hstop : text.isBoundary stop = true) : ∃ chars, text.cut? start stop = some chars := by
  obtain ⟨-, shown, -, -, -, -, hcut⟩ := exists_split_cut hle hstart hstop
  exact ⟨shown, hcut⟩

/-- What can be cut out ends at a boundary. -/
theorem isBoundary_of_cut? {start stop : Nat} {shown : List Char}
    (h : text.cut? start stop = some shown) : text.isBoundary stop = true := by
  rw [cut?, Utf8.cut?] at h
  split at h
  · rename_i hle
    obtain ⟨rest, hrest, hshown⟩ := Option.bind_eq_some_iff.1 h
    obtain ⟨front, hchars, hfront⟩ := Utf8.exists_append_of_drop? hrest
    obtain ⟨behind, hbehind, hwidth⟩ := Utf8.exists_append_of_take? hshown
    have hsplit : text.chars = front ++ shown ++ behind := by rw [hchars, hbehind, List.append_assoc]
    have hb := isBoundary_width hsplit
    rwa [Utf8.width_append, hfront, hwidth, Nat.add_sub_cancel' hle] at hb
  · cases h

end Text

namespace Source

variable {s : Source}

/-- At a boundary, the bytes left are those of the characters left. -/
theorem width_rest (h : s.text.isBoundary s.pos = true) : Utf8.width s.rest = s.remaining := by
  obtain ⟨front, rest, hchars, hwidth, hrest⟩ := Text.exists_split h
  have hsize : s.text.size = Utf8.width front + Utf8.width rest := by
    rw [Text.size_eq_width, hchars, Utf8.width_append]
  have hleft : s.rest = rest := by simp [Source.rest, hrest]
  rw [hleft, remaining]
  omega

/-- Behind the first characters that are left there is a boundary again. -/
theorem isBoundary_add_width (h : s.text.isBoundary s.pos = true) {front rest : List Char}
    (hrest : s.rest = front ++ rest) : s.text.isBoundary (s.pos + Utf8.width front) = true := by
  obtain ⟨before, after, hchars, hwidth, hafter⟩ := Text.exists_split h
  have hleft : after = front ++ rest := by rw [← hrest, Source.rest, hafter, Option.getD_some]
  rw [← hwidth, ← Utf8.width_append]
  have hsplit : s.text.chars = before ++ front ++ rest := by rw [hchars, hleft, List.append_assoc]
  exact Text.isBoundary_width hsplit

/-- A literal that the text starts with fits into it and ends at a boundary. -/
theorem isBoundary_of_startsWith (h : s.text.isBoundary s.pos = true) {literal : String}
    (hs : s.startsWith literal = true) :
    literal.utf8ByteSize ≤ s.remaining ∧
      s.text.isBoundary (s.pos + literal.utf8ByteSize) = true := by
  obtain ⟨rest, hrest⟩ := List.isPrefixOf_iff_prefix.1 hs
  have hwidth := width_rest h
  rw [← hrest, Utf8.width_append, Utf8.width_toList] at hwidth
  have hb := isBoundary_add_width h hrest.symm
  rw [Utf8.width_toList] at hb
  exact ⟨by omega, hb⟩

/-- The next character fits into the text and ends at a boundary. -/
theorem isBoundary_of_nextChar? (h : s.text.isBoundary s.pos = true) {c : Char}
    (hc : s.nextChar? = some c) :
    c.utf8Size ≤ s.remaining ∧ s.text.isBoundary (s.pos + c.utf8Size) = true := by
  obtain ⟨rest, hrest⟩ : ∃ rest, s.rest = [c] ++ rest := by
    unfold nextChar? at hc
    cases hr : s.rest with
    | nil => simp [hr] at hc
    | cons c' rest => exact ⟨rest, by simp_all⟩
  have hwidth := width_rest h
  have hb := isBoundary_add_width h hrest
  rw [hrest, Utf8.width_append] at hwidth
  simp only [Utf8.width_cons, Utf8.width_nil, Nat.add_zero] at hwidth hb
  exact ⟨by omega, hb⟩

/-- Behind all that is left the text ends. -/
theorem pos_add_remaining (h : s.text.isBoundary s.pos = true) :
    s.pos + s.remaining = s.text.size := by
  have := Text.le_size_of_isBoundary h
  rw [remaining]
  omega

end Source

end Packrat
