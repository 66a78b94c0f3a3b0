/-!
# Byte positions in character lists

Offsets into a text count the bytes of its UTF-8 form. The functions here measure, drop and take
by bytes on a list of characters, and answer `none` when the byte asked for lies inside a
character or past the end. `Text` keeps a string beside its characters, so that positions can be
resolved without decoding the string again.
-/

namespace Packrat

namespace Utf8

/-- The number of bytes that the characters take. -/
def width : List Char → Nat
  | [] => 0
  | c :: cs => c.utf8Size + width cs

/-- The characters from byte `n` on, if a character starts there or the list ends there. -/
def drop? : List Char → Nat → Option (List Char)
  | cs, 0 => some cs
  | [], _ + 1 => none
  | c :: cs, n + 1 => if c.utf8Size ≤ n + 1 then drop? cs (n + 1 - c.utf8Size) else none

/-- The characters that fill exactly the first `n` bytes, if there are such. -/
def take? : List Char → Nat → Option (List Char)
  | _, 0 => some []
  | [], _ + 1 => none
  | c :: cs, n + 1 =>
    if c.utf8Size ≤ n + 1 then (take? cs (n + 1 - c.utf8Size)).map (c :: ·) else none

/-- The characters between byte `start` and byte `stop`. -/
def cut? (cs : List Char) (start stop : Nat) : Option (List Char) :=
  if start ≤ stop then (drop? cs start).bind fun rest => take? rest (stop - start) else none

/-- No characters have no width. -/
@[simp] theorem width_nil : width [] = 0 := rfl

/-- A list of characters is as wide as its head and its rest. -/
@[simp] theorem width_cons (c : Char) (cs : List Char) :
    width (c :: cs) = c.utf8Size + width cs := rfl

/-- Characters that follow one another are as wide as both stretches together. -/
@[simp] theorem width_append (as bs : List Char) : width (as ++ bs) = width as + width bs := by
  induction as with
  | nil => simp
  | cons a as ih => simp [ih, Nat.add_assoc]

/-- Dropping no bytes leaves all characters. -/
@[simp] theorem drop?_zero (cs : List Char) : drop? cs 0 = some cs := by
  cases cs <;> rfl

/-- Taking no bytes leaves none. -/
@[simp] theorem take?_zero (cs : List Char) : take? cs 0 = some [] := by
  cases cs <;> rfl

/-- A first part can be dropped by its width. -/
theorem drop?_width_append (as bs : List Char) : drop? (as ++ bs) (width as) = some bs := by
  induction as with
  | nil => simp
  | cons a as ih =>
    have positive := a.utf8Size_pos
    obtain ⟨n, hn⟩ : ∃ n, width (a :: as) = n + 1 := ⟨width (a :: as) - 1, by simp; omega⟩
    rw [hn, List.cons_append, drop?]
    have fits : a.utf8Size ≤ n + 1 := by rw [← hn]; simp
    have left : n + 1 - a.utf8Size = width as := by rw [← hn]; simp
    rw [if_pos fits, left, ih]

/-- What is dropped is a first part of that width. -/
theorem exists_append_of_drop? {cs rest : List Char} {n : Nat} (h : drop? cs n = some rest) :
    ∃ front, cs = front ++ rest ∧ width front = n := by
  induction cs generalizing n with
  | nil =>
    cases n with
    | zero => exact ⟨[], by simpa [eq_comm] using h, rfl⟩
    | succ n => simp [drop?] at h
  | cons c cs ih =>
    cases n with
    | zero => exact ⟨[], by simpa [eq_comm] using h, rfl⟩
    | succ n =>
      rw [drop?] at h
      split at h
      · obtain ⟨front, hcs, hw⟩ := ih h
        exact ⟨c :: front, by rw [hcs]; rfl, by simp [hw]; omega⟩
      · cases h

/-- Taking by the width of a first part gives that part. -/
theorem take?_width_append (as bs : List Char) : take? (as ++ bs) (width as) = some as := by
  induction as with
  | nil => simp
  | cons a as ih =>
    have positive := a.utf8Size_pos
    obtain ⟨n, hn⟩ : ∃ n, width (a :: as) = n + 1 := ⟨width (a :: as) - 1, by simp; omega⟩
    rw [hn, List.cons_append, take?]
    have fits : a.utf8Size ≤ n + 1 := by rw [← hn]; simp
    have left : n + 1 - a.utf8Size = width as := by rw [← hn]; simp
    rw [if_pos fits, left, ih]
    rfl

/-- The width of a string's characters is the string's size in bytes. -/
theorem width_toList (s : String) : width s.toList = s.utf8ByteSize := by
  have key : ∀ cs : List Char, width cs = (String.ofList cs).utf8ByteSize := by
    intro cs
    induction cs with
    | nil => rfl
    | cons c cs ih =>
      have split : String.ofList (c :: cs) = String.singleton c ++ String.ofList cs := by
        rw [← String.toList_inj]; simp
      rw [split, String.utf8ByteSize_append, width_cons, ih, String.utf8ByteSize_singleton]
  rw [key, String.ofList_toList]

end Utf8

/-- A string together with its characters. -/
structure Text where
  /-- The text as one string. -/
  string : String
  /-- The same text, character by character. -/
  chars : List Char
  /-- Both fields hold the same text. -/
  chars_eq : chars = string.toList

namespace Text

/-- A text from a string. -/
def ofString (s : String) : Text := ⟨s, s.toList, rfl⟩

/-- A text from its characters. -/
def ofChars (cs : List Char) : Text := ⟨String.ofList cs, cs, by simp⟩

/-- The length of the text in bytes. -/
def size (t : Text) : Nat := t.string.utf8ByteSize

/-- The characters from byte `pos` on. -/
def from? (t : Text) (pos : Nat) : Option (List Char) := Utf8.drop? t.chars pos

/-- The characters between two byte positions. -/
def cut? (t : Text) (start stop : Nat) : Option (List Char) := Utf8.cut? t.chars start stop

/-- Whether a character starts at byte `pos`, or the text ends there. -/
def isBoundary (t : Text) (pos : Nat) : Bool := (t.from? pos).isSome

/-- Two texts are the same text when their strings are. -/
instance : BEq Text := ⟨fun s t => s.string == t.string⟩

instance : Inhabited Text := ⟨ofString ""⟩

/-- A text of a string is that string. -/
@[simp] theorem ofString_string (s : String) : (ofString s).string = s := rfl

/-- A text of a string has its characters. -/
@[simp] theorem ofString_chars (s : String) : (ofString s).chars = s.toList := rfl

/-- A text is as large as its characters are wide. -/
theorem size_eq_width (t : Text) : t.size = Utf8.width t.chars := by
  rw [size, t.chars_eq, Utf8.width_toList]

/-- Texts of the same string are the same. -/
theorem eq_of_string_eq {s t : Text} (h : s.string = t.string) : s = t := by
  obtain ⟨a, as, ha⟩ := s
  obtain ⟨b, bs, hb⟩ := t
  simp only at h
  subst h ha hb
  rfl

end Text

end Packrat
