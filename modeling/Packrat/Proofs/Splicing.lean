import Mathlib
import Packrat.Proofs.Alternatives
import Packrat.Proofs.Merging

/-!
# Operators that splice

Where a part of a sequence is a sequence, its parts can stand in its place, and so can the branches of a choice
that is a branch of a choice. That is what the operators make of nested expressions. It changes what failures
are said to be about and what the reporter is told on the way, but not where a match ends or what it captures.
The value of a choice is that of its branch in either case. In the value of a sequence the inner values come to
stand next to the others, which makes no difference to the flat value if they are the first: they are merged
first anyhow.
-/

namespace Packrat

open Matcher

/-- The second session reads the text of the first, and stands at a boundary if that one does. -/
structure Session.Lands (s t : Session) : Prop where
  text : t.source.text = s.source.text
  boundary : s.source.text.isBoundary s.source.pos = true → t.source.text.isBoundary t.source.pos = true

/-- Every match keeps the text and leads from boundary to boundary. -/
theorem Session.lands_loose : Latitude.Loose Lands where
  refl _ := ⟨rfl, id⟩
  trans h h' := ⟨h'.text.trans h.text, h'.boundary ∘ h.boundary⟩
  moved _ _ h := ⟨rfl, h⟩
  noted _ _ _ := ⟨rfl, id⟩
  recorded _ _ := ⟨rfl, id⟩
  announced _ _ := ⟨rfl, id⟩
  chosen _ h := ⟨h.text, h.boundary⟩
  inScope h := ⟨h.text, h.boundary⟩
  labelled _ h := ⟨h.text, h.boundary⟩
  memo _ _ := ⟨rfl, id⟩
  bodies _ _ _ := ⟨rfl, id⟩
  captures _ _ := ⟨rfl, id⟩
  undefined _ _ _ := ⟨rfl, id⟩

/-- The values of the parts of a sequence, and what is left of them if the values of its parts take the place of
the value of an inner sequence. -/
inductive Spliced : List Atom → List Raw → List Raw → Prop
  | nil : Spliced [] [] []
  | sequence {parts rest : List Atom} {inner values values' : List Raw} : Spliced rest values values' →
      Spliced (.sequence parts :: rest) (.sequence inner :: values) (inner ++ values')
  | other {atom : Atom} {rest : List Atom} {value : Raw} {values values' : List Raw} :
      (∀ parts, atom ≠ .sequence parts) → Spliced rest values values' →
      Spliced (atom :: rest) (value :: values) (value :: values')

namespace Spliced

variable {atom : Atom} {atoms : List Atom} {value : Raw} {values values' inner : List Raw}

/-- A single sequence gives way to the values of its parts. -/
theorem single (parts : List Atom) (inner : List Raw) : Spliced [.sequence parts] [.sequence inner] inner := by
  have h : Spliced [.sequence parts] [.sequence inner] (inner ++ []) := .sequence .nil
  rwa [List.append_nil] at h

/-- What is spliced for one part stands in front of what is spliced for the others. -/
theorem cons (h : Spliced [atom] [value] inner) (hrest : Spliced atoms values values') :
    Spliced (atom :: atoms) (value :: values) (inner ++ values') := by
  cases h with
  | sequence hnil =>
    cases hnil
    rw [List.append_nil]
    exact .sequence hrest
  | other hother hnil =>
    cases hnil
    exact .other hother hrest

/-- Without sequences among the parts, nothing is spliced. -/
theorem eq_of_no_sequence (h : Spliced atoms values values') (hno : ∀ a ∈ atoms, ∀ parts, a ≠ .sequence parts) :
    values' = values := by
  induction h with
  | nil => rfl
  | @sequence parts => exact absurd rfl (hno (.sequence parts) (by simp) parts)
  | other _ _ ih => rw [ih fun a ha => hno a (List.mem_cons_of_mem _ ha)]

end Spliced

namespace Tree

/-- Merging trees and then further ones is merging all of them. -/
theorem mergeInto_append (tree : Tree) (trees trees' : List Tree) :
    (mergeInto tree (trees ++ trees')).tree = (mergeInto (mergeInto tree trees).tree trees').tree := by
  induction trees generalizing tree with
  | nil => rfl
  | cons next rest ih => exact ih (merge tree next).tree

end Tree

/-- What comes first in a sequence is merged first, whether it is a sequence of its own or not. -/
theorem Raw.flatten_inner_first (inner values : List Raw) (named : Bool) :
    ((Raw.sequence (inner ++ values)).flatten named).tree
      = ((Raw.sequence (.sequence inner :: values)).flatten named).tree := by
  simp only [Raw.flatten, Raw.flattenAll_eq, List.map_append, List.map_cons, Tree.mergeAll, Tree.mergeInto_append]
  rfl

/-- If no part but the first is a sequence, splicing makes no difference to the flat value. -/
theorem Spliced.flatten_eq {first : Atom} {rest : List Atom} {values values' : List Raw}
    (h : Spliced (first :: rest) values values') (hrest : ∀ a ∈ rest, ∀ parts, a ≠ .sequence parts)
    (named : Bool) :
    ((Raw.sequence values').flatten named).tree = ((Raw.sequence values).flatten named).tree := by
  cases h with
  | sequence h =>
    rw [h.eq_of_no_sequence hrest]
    exact Raw.flatten_inner_first _ _ named
  | other _ h => rw [h.eq_of_no_sequence hrest]

/-- The cursors may be put in the same place. -/
theorem Twins.movedTo {L : Likeness} {s s' : Session} (h : Twins L s s') (pos : Nat) :
    Twins L { s with source.pos := pos } { s' with source.pos := pos } :=
  ⟨by simp only [h.source], h.bodies, h.memo, h.captures, h.labels, h.undefined, h.notes⟩

namespace Matcher

section Steps

variable {α β : Type} {s s' : Session} {whole : Atom} {start : Nat} {branches rest : List (Matcher Raw)}
  {causes : List Cause}

/-- Where the branches of a choice come to anything but a failure, more branches make no difference. -/
theorem firstOf_append_of_decided (h : ∀ cause t, firstOf whole start branches causes s ≠ .failed cause t)
    (whole' : Atom) (rest : List (Matcher Raw)) :
    firstOf whole' start (branches ++ rest) causes s = firstOf whole start branches causes s := by
  induction branches generalizing causes s with
  | nil => exact absurd rfl (h _ _)
  | cons branch tail ih =>
    rw [firstOf_cons] at h
    rw [List.cons_append, firstOf_cons, firstOf_cons]
    cases hb : branch s with
    | stopped reason => rfl
    | matched value t => rfl
    | failed cause t =>
      rw [hb] at h
      exact ih h

/-- A step that goes abreast with the first branches of a choice is gone on with as the choice is. -/
theorem Abreast.firstOf_append {step : Matcher α} {next : Except Cause α → Matcher β} {whole' : Atom}
    {mid : Except Cause α → Session → Except Cause Raw → Session → Prop}
    {post : Except Cause β → Session → Except Cause Raw → Session → Prop}
    (h : Abreast step (firstOf whole start branches causes) s s' mid)
    (hmatched : ∀ r t value t', mid r t (.ok value) t' → Abreast (next r) (pure value) t t' post)
    (hfailed : ∀ r t cause t' reporter, mid r t (.error cause) { t' with reporter } →
      ∀ causes', Abreast (next r) (firstOf whole' start rest causes') t t' post) :
    Abreast (Matcher.attempt step >>= next) (firstOf whole' start (branches ++ rest) causes) s s' post := by
  unfold Abreast at h ⊢
  rw [ensures_bind, ensures_attempt]
  refine h.imp (fun reason hstopped => ?_) fun r t hends => ?_
  · have hother (cause : Cause) (t : Session) : firstOf whole start branches causes s' ≠ .failed cause t := by
      simp [hstopped]
    rw [firstOf_append_of_decided hother, hstopped]
  · obtain ⟨cause, t', hstep, hmid⟩ | ⟨value, t', hstep, hmid⟩ := hends.exists_reply
    · obtain ⟨causes', t'', reporter, rfl, hrest⟩ := Matcher.firstOf_append hstep
      exact (hfailed r t cause t'' reporter hmid causes').congr rfl (hrest whole' rest)
    · refine (hmatched r t value t' hmid).congr rfl ?_
      have hdecided (cause : Cause) (t : Session) : firstOf whole start branches causes s' ≠ .failed cause t := by
        simp [hstep]
      rw [firstOf_append_of_decided hdecided, hstep]
      rfl

/-- Parts are matched one after the other, wherever they are split in two. -/
theorem inOrder_append (whole : Atom) (parts rest : List (Matcher Raw)) :
    inOrder whole (parts ++ rest) = do
      let values ← inOrder whole parts
      let values' ← inOrder whole rest
      return values ++ values' := by
  induction parts with
  | nil => simp [inOrder]
  | cons part tail ih =>
    rw [List.cons_append, inOrder, inOrder, ih, bind_assoc]
    refine congrArg (attempt part >>= ·) (funext fun outcome => ?_)
    cases outcome with
    | error cause => rfl
    | ok value => simp

end Steps

section Expressions

variable {L : Likeness} {apply : RuleRef → Matcher Raw} {s s' : Session}

/-- Both ends are matches with values so related, in twins, or both are failures, in sessions that are twins once
the cursors are put in the same place. -/
def Met {α β : Type} (L : Likeness) (same : α → β → Prop) :
    Except Cause α → Session → Except Cause β → Session → Prop
  | .ok value, t, .ok value', t' => same value value' ∧ Twins L t t'
  | .error _, t, .error _, t' => ∀ pos, Twins L { t with source.pos := pos } { t' with source.pos := pos }
  | _, _, _, _ => False

/-- Twins match the same parts in order, whatever a failure is said to be about. -/
theorem abreast_inOrder {parts : List (Matcher Raw)} (h : ∀ part ∈ parts, Blind L part) (whole whole' : Atom)
    (hs : Twins L s s') : Abreast (inOrder whole parts) (inOrder whole' parts) s s' (Agreed L) := by
  induction parts generalizing s s' with
  | nil => exact ⟨rfl, hs⟩
  | cons part rest ih =>
    refine (h part (by simp) s s' hs).bind_attempt fun r t r' t' hends => ?_
    obtain ⟨rfl, ht⟩ := hends
    cases r' with
    | error cause => exact ⟨trivial, ht.told _ _ _ _⟩
    | ok value =>
      refine (ih (fun part hp => h part (List.mem_cons_of_mem _ hp)) ht).bind fun r t r' t' hrest => ?_
      obtain ⟨⟨values, _, rfl, rfl, rfl⟩ | ⟨cause, cause', rfl, rfl⟩, ht⟩ := And.imp_left Agree.cases hrest
      · exact ⟨rfl, ht⟩
      · exact ⟨trivial, ht⟩

variable
  (hblind : ∀ atom : Atom, Blind L (atom.matcher apply))
  (hlands : ∀ atom : Atom, Within Session.Lands (atom.matcher apply))

include hlands in
/-- Parts in order keep the text. -/
theorem inOrder_keeps_text (whole : Atom) (parts : List Atom) (s : Session) :
    Ensures anyhow (do return .sequence (← inOrder whole (parts.map (·.matcher apply))) : Matcher Raw) s
      fun _ t => t.source.text = s.source.text := by
  have hparts : ∀ part ∈ parts.map (·.matcher apply), Within Session.Lands part := by
    intro part hpart
    obtain ⟨a, -, rfl⟩ := List.mem_map.1 hpart
    exact hlands a
  have hwithin := Session.lands_loose.habit.inOrder whole hparts
  refine (Session.lands_loose.habit.bind hwithin (fun _ => Session.lands_loose.habit.pure _) s).mono ?_
  exact fun _ _ hland => hland.text

include hblind hlands

/-- The branches of a choice are tried to the same end with the branches of their own in their places. -/
theorem abreast_firstOf_spliced (atoms : List Atom) (whole whole' : Atom) (start start' : Nat)
    (causes causes' : List Cause) (hs : Twins L s s') (hpos : s.source.text.isBoundary s.source.pos = true) :
    Abreast (firstOf whole start (atoms.map (·.matcher apply)) causes)
      (firstOf whole' start' ((atoms.flatMap Atom.choiceBranches).map (·.matcher apply)) causes') s s'
      (Agreed L) := by
  induction atoms generalizing s s' causes causes' with
  | nil =>
    simp only [List.flatMap_nil, List.map_nil, firstOf, abreast_tell, abreast_refuse]
    exact ⟨trivial, hs.told _ _ _ _⟩
  | cons a rest ih =>
    rw [List.flatMap_cons, List.map_append]
    have ha := abreast_branches Session.lands_loose.toLatitude Session.Lands.text
      (fun branch (_ : branch ∈ a.choiceBranches) => hblind branch) (fun branch _ => hlands branch) whole' start'
      causes' hs hpos
    refine (ha.and ((givesBack_matcher apply a s).and (hlands a s)) (ensures_anyhow _ _)).firstOf_append ?_ ?_
    · rintro r t value t' ⟨⟨hagree, ht⟩, -, -⟩
      cases r with
      | error cause => exact hagree.elim
      | ok value' =>
        obtain rfl : value' = value := hagree
        exact ⟨rfl, ht.told _ _ _ _⟩
    · rintro r t cause t' reporter ⟨⟨hagree, ht⟩, ⟨hback, hland⟩, -⟩ causes'
      cases r with
      | ok value => exact hagree.elim
      | error cause' => exact ih _ _ (ht.told t.reporter t'.reporter t.trace t'.trace) (hland.boundary hpos)

/-- A choice comes to the same with the branches of the choices among its branches in their places. -/
theorem abreast_choice_spliced (atoms : List Atom) (hs : Twins L s s')
    (hpos : s.source.text.isBoundary s.source.pos = true) :
    Abreast ((Atom.choice atoms).matcher apply) ((Atom.choice (atoms.flatMap Atom.choiceBranches)).matcher apply)
      s s' (Agreed L) := by
  have hpos' : s'.source.text.isBoundary s'.source.pos = true := by rw [hs.source, hpos]
  have hwithin (branches : List Atom) (whole : Atom) :=
    within_choice Session.lands_loose.toLatitude whole fun branch (_ : branch ∈ branches) => hlands branch
  simp only [Atom.matcher, Atom.matchers_eq_map]
  refine abreast_guarded (givesBack_choice apply _ _) Session.Lands.text (hwithin _ _) hpos
    (fun _ _ _ _ _ h => ⟨h.1, h.2.told _ _ _ _⟩) (.symm ?_)
  refine abreast_guarded (givesBack_choice apply _ _) Session.Lands.text (hwithin _ _) hpos'
    (fun _ _ _ _ _ h => ⟨h.1, h.2.told _ _ _ _⟩) (.symm ?_)
  simp only [choice, abreast_position, abreast_tell]
  exact abreast_firstOf_spliced hblind hlands atoms _ _ _ _ [] [] (hs.told _ _ _ _) hpos

/-- A part of a sequence comes to the same as its own parts do when they are matched as part of a larger
sequence. -/
theorem abreast_parts (a whole : Atom) (hs : Twins L s s') (hpos : s.source.text.isBoundary s.source.pos = true) :
    Abreast (a.matcher apply) (inOrder whole (a.sequenceParts.map (·.matcher apply))) s s'
      (Met L fun value values => Spliced [a] [value] values) := by
  by_cases hsequence : ∃ parts, a = .sequence parts
  · obtain ⟨parts, rfl⟩ := hsequence
    have hparts : ∀ part ∈ parts.map (·.matcher apply), Blind L part := by
      intro part hpart
      obtain ⟨b, -, rfl⟩ := List.mem_map.1 hpart
      exact hblind b
    simp only [Atom.matcher, Atom.matchers_eq_map, Atom.sequenceParts]
    refine .guarded hpos (inOrder_keeps_text hlands _ parts s) ?_
    rw [← bind_pure (inOrder whole _)]
    refine (abreast_inOrder hparts _ _ hs).bind fun r t r' t' hends => ?_
    obtain ⟨hagree, ht⟩ := hends
    obtain ⟨values, _, rfl, rfl, rfl⟩ | ⟨cause, cause', rfl, rfl⟩ := hagree.cases
    · exact fun reporter => ⟨.single parts values, ht.told _ _ _ _⟩
    · exact fun pos => ht.movedTo pos
  · rw [Atom.sequenceParts_eq_self hsequence]
    refine (hblind a s s' hs).bind_attempt_second fun r t r' t' hends => ?_
    obtain ⟨rfl, ht⟩ := hends
    cases r' with
    | error cause => exact fun pos => (ht.movedTo pos).told _ _ _ _
    | ok value => exact ⟨.other (fun parts heq => hsequence ⟨parts, heq⟩) .nil, ht⟩

/-- The parts of a sequence are matched to the same end with the parts of their own in their places. -/
theorem abreast_inOrder_spliced (atoms : List Atom) (whole whole' : Atom) (hs : Twins L s s')
    (hpos : s.source.text.isBoundary s.source.pos = true) :
    Abreast (inOrder whole (atoms.map (·.matcher apply)))
      (inOrder whole' ((atoms.flatMap Atom.sequenceParts).map (·.matcher apply))) s s'
      (Met L (Spliced atoms)) := by
  induction atoms generalizing s s' with
  | nil => exact ⟨.nil, hs⟩
  | cons a rest ih =>
    rw [List.flatMap_cons, List.map_append, inOrder_append]
    have ha := (abreast_parts hblind hlands a whole' hs hpos).and (hlands a s) (ensures_anyhow _ _)
    refine ha.bind_attempt_first fun r t r' t' hends => ?_
    obtain ⟨hmet, hland, -⟩ := hends
    cases r' with
    | error cause' =>
      cases r with
      | ok value => exact hmet.elim
      | error cause => exact fun pos => (hmet pos).told _ _ _ _
    | ok inner =>
      cases r with
      | error cause => exact hmet.elim
      | ok value =>
        refine (ih hmet.2 (hland.boundary hpos)).bind fun r t r' t' hrest => ?_
        cases r <;> cases r'
        · exact hrest
        · exact hrest.elim
        · exact hrest.elim
        · exact ⟨hmet.1.cons hrest.1, hrest.2⟩

/-- A sequence comes to the same with the parts of the sequences among its parts in their places, but for its
value, in which the values of these parts are spliced. -/
theorem abreast_sequence_spliced (atoms : List Atom) (hs : Twins L s s')
    (hpos : s.source.text.isBoundary s.source.pos = true) :
    Abreast ((Atom.sequence atoms).matcher apply)
      ((Atom.sequence (atoms.flatMap Atom.sequenceParts)).matcher apply) s s' fun r t r' t' =>
        Agree (fun value value' => ∃ values values', value = .sequence values ∧ value' = .sequence values' ∧
          Spliced atoms values values') r r' ∧ Twins L t t' := by
  have hpos' : s'.source.text.isBoundary s'.source.pos = true := by rw [hs.source, hpos]
  have htext := inOrder_keeps_text hlands
  simp only [Atom.matcher, Atom.matchers_eq_map]
  refine .guarded hpos (htext _ _ _) (.symm (.guarded hpos' (htext _ _ _) (.symm ?_)))
  refine (abreast_inOrder_spliced hblind hlands atoms _ _ hs hpos).bind fun r t r' t' hmet => ?_
  cases r <;> cases r'
  · rw [← hs.source]
    exact ⟨trivial, hmet _⟩
  · exact hmet.elim
  · exact hmet.elim
  · exact fun _ _ => ⟨⟨_, _, rfl, rfl, hmet.1⟩, hmet.2.told _ _ _ _⟩

end Expressions

end Matcher

/-- From the session, both steps come to the same verdict and end in the same place, with values so related, and
they leave the same captures and the same memo behind. -/
def ComeToSame (same : Raw → Raw → Prop) (step step' : Matcher Raw) (s : Session) : Prop :=
  Abreast step step' s s fun r t r' t' => Agree same r r' ∧
    t'.source.pos = t.source.pos ∧ t'.captures = t.captures ∧ t'.memo = t.memo

/-- What is kept of the values is the same, under a name or not. -/
def SameFlat (value value' : Raw) : Prop := ∀ named, (value'.flatten named).tree = (value.flatten named).tree

/-- Wherever a match gets, which is always to a boundary, operators make of two expressions what a choice or a
sequence of the two would come to, although they splice. Only the raw value of a sequence is another, and if the
second expression is a sequence itself, the flat value may be. -/
theorem operators_match_as_plain (table : RuleTable) (depth : Nat) (a b : Atom) (s : Session)
    (hpos : s.source.text.isBoundary s.source.pos = true) :
    ComeToSame Eq ((Atom.choice [a, b]).matcher (table.applyRule depth))
      ((a.orElse b).matcher (table.applyRule depth)) s ∧
    ComeToSame (fun value value' => (∀ parts, b ≠ .sequence parts) → SameFlat value value')
      ((Atom.sequence [a, b]).matcher (table.applyRule depth))
      ((a.andThen b).matcher (table.applyRule depth)) s := by
  have hblind (atom : Atom) : Blind .captures (atom.matcher (table.applyRule depth)) :=
    table.blind_matcher (fun _ _ h => h) depth atom
  have hlands (atom : Atom) : Within Session.Lands (atom.matcher (table.applyRule depth)) :=
    Session.lands_loose.matcher table depth atom
  have hs : Twins .captures s s := ⟨rfl, rfl, rfl, rfl, rfl, rfl, trivial⟩
  constructor
  · have hchoice := abreast_choice_spliced hblind hlands [a, b] hs hpos
    rw [List.flatMap_cons, List.flatMap_singleton] at hchoice
    exact hchoice.mono fun r t r' t' h => ⟨h.1, by rw [h.2.source], h.2.captures, h.2.memo⟩
  · have hsequence := abreast_sequence_spliced hblind hlands [a, b] hs hpos
    rw [List.flatMap_cons, List.flatMap_singleton] at hsequence
    refine hsequence.mono fun r t r' t' h => ⟨?_, by rw [h.2.source], h.2.captures, h.2.memo⟩
    obtain ⟨_, _, rfl, rfl, values, values', rfl, rfl, hspliced⟩ | ⟨cause, cause', rfl, rfl⟩ := h.1.cases
    · exact fun hb named => hspliced.flatten_eq (List.forall_mem_singleton.2 hb) named
    · trivial

/-- One rule: an `n`, or itself in parentheses. -/
def nestTable : RuleTable :=
  ⟨1, [⟨"nest", fun rules => .choice [.sequence [.literal "(", rules.rule "nest", .literal ")"], .literal "n"]⟩]⟩

/-- The rule behind an opening parenthesis. -/
def opened : Atom := .sequence [.literal "(", nestTable.rules.rule "nest"]

/-- The sequence with the closing parenthesis appended comes to the same as that in which the
opened one is nested. -/
theorem opened_andThen_closing : ∃ value t,
    (Atom.sequence [opened, .literal ")"]).matcher (nestTable.applyRule 3) (Session.start "(n)" {} [])
      = .matched value t ∧ t.source.pos = 3 ∧
    (Session.start "(n)" {} []).source.text.isBoundary (Session.start "(n)" {} []).source.pos = true ∧
    ComeToSame (fun value value' => (∀ parts, .literal ")" ≠ Atom.sequence parts) → SameFlat value value')
      ((Atom.sequence [opened, .literal ")"]).matcher (nestTable.applyRule 3))
      ((opened.andThen (.literal ")")).matcher (nestTable.applyRule 3)) (Session.start "(n)" {} []) := by
  have hpos : (Session.start "(n)" {} []).source.text.isBoundary (Session.start "(n)" {} []).source.pos = true :=
    Text.isBoundary_zero _
  obtain ⟨value, t, hmatched, hend⟩ : ∃ value t, (Atom.sequence [opened, .literal ")"]).matcher
      (nestTable.applyRule 3) (Session.start "(n)" {} []) = .matched value t ∧ t.source.pos = 3 :=
    ⟨_, _, by cbv, rfl⟩
  -- with the session itself in their places, the two matches would be run to the end here
  generalize Session.start "(n)" {} [] = s at hpos hmatched ⊢
  exact ⟨value, t, hmatched, hend, hpos, (operators_match_as_plain nestTable 3 opened (.literal ")") s hpos).2⟩

/-- Without the condition, the flat value can be another: a map is put into the list in front of it, unless it is
merged to the map behind it before that. -/
example : ¬ SameFlat
    (.sequence [.leaf (.list []), .sequence [.leaf (.map [("k", .unit)]), .leaf (.map [("k", .unit)])]])
    (.sequence [.leaf (.list []), .leaf (.map [("k", .unit)]), .leaf (.map [("k", .unit)])]) :=
  fun h => by simpa [Raw.flatten, Raw.flattenAll, Tree.mergeAll, Tree.mergeInto, Tree.merge, Tree.insertEntries,
    Tree.insertEntry] using h false

end Packrat
