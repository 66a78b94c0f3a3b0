import Packrat.Proofs.Slices

/-!
# Joined slices

An intact slice has a text, the characters between its two ends. Slices are joined to a wider view of one
buffer or to a copy; either way the text is that of the one followed by that of the other, found where the
first was found.
-/

namespace Packrat

/-- What is cut out up to a boundary and from there on makes up what is cut out in one piece. -/
theorem Text.cut?_append {text : Text} {start middle stop : Nat} {front back : List Char}
    (hfront : text.cut? start middle = some front) (hback : text.cut? middle stop = some back)
    (hstart : text.isBoundary start = true) (hle : start ≤ middle) (hle' : middle ≤ stop) :
    text.cut? start stop = some (front ++ back) := by
  have hmiddle := isBoundary_of_cut? hfront
  have hstop := isBoundary_of_cut? hback
  obtain ⟨before, shown, rest, hchars, hbefore, hshown, hcut⟩ := exists_split_cut hle hstart hmiddle
  obtain ⟨before', shown', rest', hchars', hbefore', hshown', hcut'⟩ := exists_split_cut hle' hmiddle hstop
  rw [hfront] at hcut
  rw [hback] at hcut'
  cases hcut
  cases hcut'
  -- both ways to cut the text in two at the middle are the same
  have hrest : rest = back ++ rest' := by
    have hdrop := Utf8.drop?_width_append (before ++ front) rest
    have hdrop' := Utf8.drop?_width_append before' (back ++ rest')
    have hwidth : Utf8.width (before ++ front) = Utf8.width before' := by
      rw [Utf8.width_append]
      omega
    rw [List.append_assoc, ← hchars, hwidth] at hdrop
    rw [← hchars', hdrop] at hdrop'
    exact Option.some.inj hdrop'
  have hlength : stop - start = Utf8.width (front ++ back) := by
    rw [Utf8.width_append]
    omega
  rw [hrest, ← List.append_assoc front] at hchars
  rw [cut?, Utf8.cut?, if_pos (Nat.le_trans hle hle'), hchars, ← hbefore, Utf8.drop?_width_append,
    Option.bind_some, hbefore, hlength, Utf8.take?_width_append]

namespace Slice

/-- An intact slice shows the characters between its ends. -/
theorem exists_text {s : Slice} (h : s.isIntact = true) :
    ∃ chars, s.buffer.cut? s.start s.stop = some chars ∧ s.text = String.ofList chars := by
  obtain ⟨hle, hstart, hstop⟩ := isIntact_iff.1 h
  obtain ⟨chars, hchars⟩ := Text.exists_cut hle hstart hstop
  exact ⟨chars, hchars, by simp [text, text?, chars?, hchars]⟩

/-- A view of a whole string shows the string. -/
@[simp] theorem text_ofString (s : String) (offset : Nat) : (ofString s offset).text = s := by
  have hdrop : Utf8.drop? s.toList 0 = some s.toList := Utf8.drop?_zero _
  have htake : Utf8.take? s.toList s.utf8ByteSize = some s.toList := by
    have h := Utf8.take?_width_append s.toList []
    rwa [List.append_nil, Utf8.width_toList] at h
  simp [text, text?, chars?, ofString, Text.cut?, Utf8.cut?, htake]

/-- A copy of two slices shows the text of the first and then that of the second. -/
@[simp] theorem text_copied (a b : Slice) : (copied a b).text = a.text ++ b.text := text_ofString _ _

/-- Two views that are looked at as one show the text of the first and then that of the second. -/
theorem text_joined {a b : Slice} (ha : a.isIntact = true) (hb : b.isIntact = true)
    (hbuffer : a.buffer = b.buffer) (hmeet : a.stop = b.start) :
    (joined a b).text = a.text ++ b.text := by
  obtain ⟨front, hfront, htext⟩ := exists_text ha
  obtain ⟨back, hback, htext'⟩ := exists_text hb
  obtain ⟨hle, hstart, -⟩ := isIntact_iff.1 ha
  obtain ⟨hle', -, -⟩ := isIntact_iff.1 hb
  rw [← hbuffer, ← hmeet] at hback
  have hcut := Text.cut?_append hfront hback hstart hle (by omega)
  simp [text, text?, chars?, joined, hcut, ← htext, ← htext']

/-- Joined slices show the text of the first and then that of the second. -/
theorem text_concat {a b : Slice} (ha : a.isIntact = true) (hb : b.isIntact = true) :
    (a.concat b).text = a.text ++ b.text := by
  rcases concat_cases a b with ⟨hbuffer, hmeet, heq⟩ | heq
  · rw [heq, text_joined ha hb hbuffer hmeet]
  · rw [heq, text_copied]

/-- Joined slices are found where the first was found. -/
@[simp] theorem offset_concat (a b : Slice) : (a.concat b).offset = a.offset := by
  unfold concat
  split <;> rfl

end Slice

end Packrat
