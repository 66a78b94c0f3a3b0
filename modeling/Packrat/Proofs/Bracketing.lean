import Mathlib
import Packrat.Proofs.Joining

/-!
# Slices joined in any order

Several slices can be joined two at a time in many ways, and each time two views that meet in one buffer may be
looked at as one or be copied. None of that can be told from what comes of it: it shows the texts of the slices one
after the other, is as long as all of them together, and is found where the first of them was found.
-/

namespace Packrat

namespace Slice

/-- The slice was cut out of a buffer at boundaries, where its offset is that of the cut, or was made of a string of
its own, or is one of these joined to others, as a wider view or as a copy. -/
inductive Made : Slice → Prop where
  /-- A part of a buffer. -/
  | cut {buffer : Text} {start stop : Nat} (hle : start ≤ stop) (hstart : buffer.isBoundary start = true)
    (hstop : buffer.isBoundary stop = true) : Made ⟨buffer, start, stop, start⟩
  /-- A string of its own. -/
  | own (s : String) (offset : Nat) : Made (ofString s offset)
  /-- Two views of one buffer that meet. -/
  | joined {a b : Slice} (ha : Made a) (hb : Made b) (hbuffer : a.buffer = b.buffer) (hmeet : a.stop = b.start) :
    Made (a.joined b)
  /-- A copy of two slices. -/
  | copied {a b : Slice} (ha : Made a) (hb : Made b) : Made (a.copied b)

namespace Made

variable {a b s : Slice}

/-- Slices that were made are joined to one that was made, be it a view or a copy. -/
theorem concat (ha : a.Made) (hb : b.Made) : (a.concat b).Made := by
  rcases concat_cases a b with ⟨hbuffer, hmeet, heq⟩ | heq
  · rw [heq]
    exact ha.joined hb hbuffer hmeet
  · rw [heq]
    exact ha.copied hb

/-- A slice that was made has its ends at boundaries, in order. -/
theorem isIntact (h : s.Made) : s.isIntact = true := by
  induction h with
  | cut hle hstart hstop => exact isIntact_iff.2 ⟨hle, hstart, hstop⟩
  | own s offset => exact isIntact_ofString s offset
  | joined _ _ hbuffer hmeet iha ihb => exact isIntact_joined iha ihb hbuffer hmeet
  | copied => exact isIntact_ofString _ _

end Made

/-- An intact slice is a view of its text. -/
theorem text?_eq {s : Slice} (h : s.isIntact = true) : s.text? = some s.text := by
  obtain ⟨chars, hchars, htext⟩ := exists_text h
  rw [htext, text?, chars?, hchars, Option.map_some]

/-- An intact slice is as long as its text. -/
theorem length_eq {s : Slice} (h : s.isIntact = true) : s.length = s.text.utf8ByteSize := by
  obtain ⟨hle, hstart, hstop⟩ := isIntact_iff.1 h
  obtain ⟨-, shown, -, -, -, hwidth, hcut⟩ := Text.exists_split_cut hle hstart hstop
  obtain ⟨chars, hchars, htext⟩ := exists_text h
  rw [hcut] at hchars
  cases hchars
  rw [length, ← hwidth, htext, ← Utf8.width_toList, String.toList_ofList]

end Slice

/-- A way to join slices, two at a time. -/
inductive Bracketing where
  /-- A slice on its own. -/
  | slice (s : Slice)
  /-- What comes of the one joined to what comes of the other. -/
  | pair (front back : Bracketing)

namespace Bracketing

/-- The slices that are joined, in order. -/
def slices : Bracketing → List Slice
  | .slice s => [s]
  | .pair front back => front.slices ++ back.slices

/-- What comes of joining the slices. -/
def concat : Bracketing → Slice
  | .slice s => s
  | .pair front back => front.concat.concat back.concat

/-- What can come of joining the slices if any two views that meet in one buffer may as well be copied. -/
inductive Yields : Bracketing → Slice → Prop where
  /-- A slice on its own. -/
  | slice (s : Slice) : Yields (.slice s) s
  /-- The two are looked at as one. -/
  | view {front back : Bracketing} {a b : Slice} (ha : Yields front a) (hb : Yields back b)
    (hbuffer : a.buffer = b.buffer) (hmeet : a.stop = b.start) : Yields (.pair front back) (a.joined b)
  /-- The two are copied. -/
  | copy {front back : Bracketing} {a b : Slice} (ha : Yields front a) (hb : Yields back b) :
    Yields (.pair front back) (a.copied b)

/-- Joining as it is done is one way to join: views are kept just where buffers are the same and
ends meet. -/
theorem yields_concat (tree : Bracketing) : tree.Yields tree.concat := by
  induction tree with
  | slice s => exact .slice s
  | pair front back ihf ihb =>
    rw [concat]
    rcases Slice.concat_cases front.concat back.concat with ⟨hbuffer, hmeet, heq⟩ | heq
    · rw [heq]
      exact .view ihf ihb hbuffer hmeet
    · rw [heq]
      exact .copy ihf ihb

namespace Yields

variable {tree : Bracketing} {s : Slice}

/-- What comes of slices that were made was made. -/
theorem made (h : tree.Yields s) (hmade : ∀ t ∈ tree.slices, t.Made) : s.Made := by
  induction h with
  | slice s => exact hmade s (List.mem_singleton_self s)
  | view _ _ hbuffer hmeet iha ihb =>
    obtain ⟨hfront, hback⟩ := List.forall_mem_append.1 hmade
    exact (iha hfront).joined (ihb hback) hbuffer hmeet
  | copy _ _ iha ihb =>
    obtain ⟨hfront, hback⟩ := List.forall_mem_append.1 hmade
    exact (iha hfront).copied (ihb hback)

/-- Whatever is viewed or copied, the texts come together in order. -/
theorem text_eq (h : tree.Yields s) (hmade : ∀ t ∈ tree.slices, t.Made) :
    s.text = String.join (tree.slices.map Slice.text) := by
  induction h with
  | slice s => simp [slices, String.join_cons]
  | view ha hb hbuffer hmeet iha ihb =>
    obtain ⟨hfront, hback⟩ := List.forall_mem_append.1 hmade
    rw [Slice.text_joined (ha.made hfront).isIntact (hb.made hback).isIntact hbuffer hmeet, iha hfront, ihb hback,
      slices, List.map_append, String.join_append]
  | copy _ _ iha ihb =>
    obtain ⟨hfront, hback⟩ := List.forall_mem_append.1 hmade
    rw [Slice.text_copied, iha hfront, ihb hback, slices, List.map_append, String.join_append]

/-- Whatever is viewed or copied, the offset is that of the first slice. -/
theorem offset_eq (h : tree.Yields s) : tree.slices.head?.map Slice.offset = some s.offset := by
  induction h with
  | slice s => rfl
  | @view front back a b _ _ _ _ iha _ | @copy front back a b _ _ iha _ =>
    obtain ⟨first, hfirst, hoffset⟩ := Option.map_eq_some_iff.1 iha
    rw [slices, List.head?_append, hfirst, Option.some_or, Option.map_some, hoffset]
    rfl

end Yields

/-- The length of a text is the sum of those of the slices that show its parts. -/
theorem sum_length {slices : List Slice} (h : ∀ s ∈ slices, s.isIntact = true) :
    (slices.map Slice.length).sum = (String.join (slices.map Slice.text)).utf8ByteSize := by
  induction slices with
  | nil => rfl
  | cons s rest ih =>
    obtain ⟨hs, hrest⟩ := List.forall_mem_cons.1 h
    rw [List.map_cons, List.sum_cons, ih hrest, Slice.length_eq hs, List.map_cons, String.join_cons,
      String.utf8ByteSize_append]

/-- However slices are joined, two at a time, and whether views that meet in one buffer are looked at as one or
copied, what comes of it shows the texts of the slices one after the other, is found where the first of them was
found, and is as long as all of them together. -/
theorem yields_texts_in_order (tree : Bracketing) {first : Slice} {rest : List Slice}
    (hslices : tree.slices = first :: rest) (hmade : ∀ s ∈ first :: rest, s.Made) :
    tree.Yields tree.concat ∧ ∀ s, tree.Yields s →
      s.text? = some (String.join ((first :: rest).map Slice.text)) ∧ s.offset = first.offset ∧
        s.length = ((first :: rest).map Slice.length).sum := by
  refine ⟨tree.yields_concat, fun s hs => ?_⟩
  rw [← hslices] at hmade ⊢
  have hintact := (hs.made hmade).isIntact
  have htext := hs.text_eq hmade
  refine ⟨?_, ?_, ?_⟩
  · rw [Slice.text?_eq hintact, htext]
  · have hoffset := hs.offset_eq
    rw [hslices] at hoffset
    exact (Option.some.inj hoffset).symm
  · rw [Slice.length_eq hintact, htext, sum_length fun t ht => (hmade t ht).isIntact]

/-- Views of one buffer that meet, then a string of its own, an empty view, and the first view once more. -/
def mixedBracketing : Bracketing :=
  let buffer := Text.ofString "日é!"
  .pair (.pair (.slice ⟨buffer, 0, 3, 0⟩) (.slice ⟨buffer, 3, 5, 3⟩))
    (.pair (.slice (.ofString "-" 9)) (.pair (.slice ⟨buffer, 5, 5, 5⟩) (.slice ⟨buffer, 0, 3, 0⟩)))

/-- Some of the slices are looked at as one and some are copied, and the texts are in order. -/
theorem mixedBracketing_yields :
    mixedBracketing.slices = ⟨Text.ofString "日é!", 0, 3, 0⟩ :: mixedBracketing.slices.tail ∧
      (∀ s ∈ ⟨Text.ofString "日é!", 0, 3, 0⟩ :: mixedBracketing.slices.tail, s.Made) ∧
      mixedBracketing.Yields mixedBracketing.concat ∧ ∀ s, mixedBracketing.Yields s →
        s.text? = some "日é-日" ∧ s.offset = 0 ∧ s.length = 9 := by
  have hmade : ∀ s ∈ ⟨Text.ofString "日é!", 0, 3, 0⟩ :: mixedBracketing.slices.tail, s.Made := by
    intro s hs
    simp only [mixedBracketing, slices, List.cons_append, List.nil_append, List.tail_cons,
      List.mem_cons, List.not_mem_nil, or_false] at hs
    rcases hs with rfl | rfl | rfl | rfl | rfl
    · exact .cut (by decide) (by decide) (by decide)
    · exact .cut (by decide) (by decide) (by decide)
    · exact .own "-" 9
    · exact .cut (by decide) (by decide) (by decide)
    · exact .cut (by decide) (by decide) (by decide)
  exact ⟨rfl, hmade, yields_texts_in_order mixedBracketing rfl hmade⟩

end Bracketing

end Packrat
