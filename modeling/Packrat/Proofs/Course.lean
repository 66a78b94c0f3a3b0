import Packrat.Proofs.Ensures
import Packrat.Proofs.Parts

/-!
# The course of a match

Statements about matchers are made from sessions that are fit for it, and say what a step can have
changed. Which memos are fit at an offset, and what a step may change in the memo, is up to a course;
the other conditions on sessions are the same for all: the cursor stands at a boundary of the text, and
the bodies built so far are those of the table.
-/

namespace Packrat

/-- What a match goes on under. -/
structure Course where
  /-- The rules. -/
  table : RuleTable
  /-- The text. -/
  text : Text
  /-- Whether causes have to be the same. -/
  strict : Prop
  /-- The reasons for which a step may be broken off. -/
  lenient : Stop → Prop
  /-- Whether values have to be intact. -/
  slices : Prop
  /-- With such a memo, matching can go on from the offset. -/
  Fit : Nat → Memo → Prop
  /-- Matching can change the first memo into the second. -/
  Leads : Memo → Memo → Prop
  refl : ∀ memo, Leads memo memo
  trans : ∀ {first second third}, Leads first second → Leads second third → Leads first third
  later : ∀ {pos pos' memo}, Fit pos memo → pos ≤ pos' → Fit pos' memo
  kept : ∀ {pos memo memo'}, Fit pos memo → Leads memo memo' → Fit pos memo'

namespace Course

variable (C : Course)

/-- Matching can start from the session. -/
structure Ready (s : Session) : Prop where
  text : s.source.text = C.text
  boundary : C.text.isBoundary s.source.pos = true
  bodies : C.table.Knows s.bodies
  labels : C.strict → s.labels = []
  memo : C.Fit s.source.pos s.memo

/-- Matching can lead from the first session to the second, up to the cursor. -/
structure Passes (s s' : Session) : Prop where
  text : s'.source.text = s.source.text
  bodies : C.table.Knows s.bodies → C.table.Knows s'.bodies
  labels : s'.labels = s.labels
  memo : C.Leads s.memo s'.memo

variable {C}

/-- Nothing was passed so far. -/
theorem Passes.refl (s : Session) : C.Passes s s := ⟨rfl, id, rfl, C.refl _⟩

/-- A step that changes nothing that the course looks at. -/
theorem passes_of_eq {s s' : Session} (ht : s'.source.text = s.source.text)
    (hb : s'.bodies = s.bodies) (hl : s'.labels = s.labels) (hm : s'.memo = s.memo) :
    C.Passes s s' := ⟨ht, by rw [hb]; exact id, hl, by rw [hm]; exact C.refl _⟩

/-- Matching leads on step by step. -/
theorem Passes.trans {s s' s'' : Session} (h : C.Passes s s') (h' : C.Passes s' s'') :
    C.Passes s s'' :=
  ⟨h'.text.trans h.text, h'.bodies ∘ h.bodies, h'.labels.trans h.labels, C.trans h.memo h'.memo⟩

/-- Matching can go on from the same offset or a later one. -/
theorem Ready.pass {s s' : Session} (h : C.Ready s) (hp : C.Passes s s')
    (hle : s.source.pos ≤ s'.source.pos) (hb : C.text.isBoundary s'.source.pos = true) :
    C.Ready s' where
  text := hp.text.trans h.text
  boundary := hb
  bodies := hp.bodies h.bodies
  labels hs := hp.labels.trans (h.labels hs)
  memo := C.later (C.kept h.memo hp.memo) hle

/-- The cursor can be put back to where it was. -/
theorem Ready.boundary_after {s s' : Session} (h : C.Ready s) (hp : C.Passes s s') :
    s'.source.text.isBoundary s.source.pos = true := by
  rw [hp.text, h.text]
  exact h.boundary

end Course

end Packrat
