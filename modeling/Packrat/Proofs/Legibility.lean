import Mathlib.Data.List.Basic
import Packrat.Atom.Render
import Packrat.Proofs.Parts

/-!
# Telling expressions from how they are written

Literals without quotes, the dot, and what is made of them by sequences, choices, repetitions and lookaheads can
be told from how they are written, but for one thing: whether a repetition of at most one round was asked for as
such or as an option.

A written expression is read from the outside in. It is a choice of one or more branches; a branch is a sequence
of one or more parts; a part is repeated so many times; and what is repeated is an operand, which starts with a
character that says which kind it is and ends by itself. At each of these levels it can be told where an
expression ends, as long as what may follow it there does.
-/

namespace Packrat

namespace Atom

/-- An expression of the usual form: a literal without quotes, the dot, a sequence or a choice of at least two
expressions of other kinds, a repetition or a lookahead. -/
def IsUsual : Atom → Prop
  | .literal text => '\'' ∉ text.toList
  | .char .any => True
  | .sequence parts => 2 ≤ parts.length ∧ ∀ part ∈ parts, ∀ inner, part ≠ .sequence inner
  | .choice branches => 2 ≤ branches.length ∧ ∀ branch ∈ branches, ∀ inner, branch ≠ .choice inner
  | .repetition _ min max optional => optional = true → min = 0 ∧ max = some 1
  | .lookahead .. => True
  | _ => False

mutual

/-- The expression with repetitions in the places of options. -/
def explicit : Atom → Atom
  | .literal text => .literal text
  | .char test => .char test
  | .sequence parts => .sequence (explicitAll parts)
  | .choice branches => .choice (explicitAll branches)
  | .repetition body min max _ => .repetition body.explicit min max false
  | .lookahead body positive => .lookahead body.explicit positive
  | .named body name => .named body.explicit name
  | .rule ref => .rule ref
  | .ignore body => .ignore body.explicit
  | .map body transform => .map body.explicit transform
  | .mark body => .mark body.explicit
  | .capture body name => .capture body.explicit name
  | .scope body => .scope body.explicit
  | .dynamic pick => .dynamic fun source captures => (pick source captures).explicit
  | .operators operand table combine => .operators operand.explicit (explicitTable table) combine
  | .label body text => .label body.explicit text
  | .halt => .halt

/-- Each expression with repetitions in the places of options. -/
def explicitAll : List Atom → List Atom
  | [] => []
  | atom :: rest => atom.explicit :: explicitAll rest

/-- Each operator with repetitions in the places of options. -/
def explicitTable : List (Fixity × Atom) → List (Fixity × Atom)
  | [] => []
  | (fixity, atom) :: rest => (fixity, atom.explicit) :: explicitTable rest

end

/-- A list of expressions is made explicit one by one. -/
theorem explicitAll_eq_map (atoms : List Atom) : explicitAll atoms = atoms.map explicit := by
  induction atoms with
  | nil => rfl
  | cons atom rest ih => rw [explicitAll, ih, List.map_cons]

/-- A list of expressions is rendered one by one. -/
theorem renderAll_eq_map (place : Binding) (atoms : List Atom) :
    renderAll place atoms = atoms.map (renderAt place) := by
  induction atoms with
  | nil => rfl
  | cons atom rest ih => rw [renderAll, ih, List.map_cons]

/-- What is repeated, apart from how often. -/
def core : Atom → Atom
  | .repetition body _ _ _ => body.core
  | atom => atom

/-- How often the core is repeated, the innermost repetition first. -/
def bounds : Atom → List (Nat × Option Nat)
  | .repetition body min max _ => body.bounds ++ [(min, max)]
  | _ => []

/-- The characters of the expression as it is written at a place. -/
def written (place : Binding) (atom : Atom) : List Char := (atom.renderAt place).toList

/-- The characters behind what is repeated. -/
def boundMark (bound : Nat × Option Nat) : List Char := (repetitionMark bound.1 bound.2 false).toList

section Levels

variable {x y : Atom}

/-- The parts of a sequence are written with blanks between them. -/
theorem renderAt_sequence (place : Binding) (parts : List Atom) : renderAt place (.sequence parts)
    = parenthesize (.sequence parts) place (" ".intercalate (renderAll .sequence parts)) := rfl

/-- The branches of a choice are written with slashes between them. -/
theorem renderAt_choice (place : Binding) (branches : List Atom) : renderAt place (.choice branches)
    = parenthesize (.choice branches) place (" / ".intercalate (renderAll .choice branches)) := rfl

/-- A repetition is written as its body with a mark behind it. -/
theorem renderAt_repetition (place : Binding) (body : Atom) (min : Nat) (max : Option Nat) (optional : Bool) :
    renderAt place (.repetition body min max optional)
      = parenthesize (.repetition body min max optional) place
        (renderAt .repetition body ++ repetitionMark min max optional) := rfl

/-- A lookahead is written as its body with a sign in front of it. -/
theorem renderAt_lookahead (place : Binding) (body : Atom) (positive : Bool) :
    renderAt place (.lookahead body positive)
      = parenthesize (.lookahead body positive) place
        ((if positive then "&" else "!") ++ renderAt .lookahead body) := rfl

/-- A usual expression has a part, even if it is no sequence. -/
theorem sequenceParts_ne_nil (hx : x.IsUsual) : x.sequenceParts ≠ [] := by
  cases x with
  | sequence parts => exact List.ne_nil_of_length_pos (Nat.lt_of_lt_of_le Nat.zero_lt_two hx.1)
  | _ => exact List.cons_ne_nil _ _

/-- A usual expression has a branch, even if it is no choice. -/
theorem choiceBranches_ne_nil (hx : x.IsUsual) : x.choiceBranches ≠ [] := by
  cases x with
  | choice branches => exact List.ne_nil_of_length_pos (Nat.lt_of_lt_of_le Nat.zero_lt_two hx.1)
  | _ => exact List.cons_ne_nil _ _

/-- What goes for an expression and its parts goes for what is repeated in it. -/
theorem every_core {holds : Atom → Prop} (h : x.Every holds) : x.core.Every holds := by
  induction h with
  | @intro atom here parts ih =>
    cases atom with
    | repetition body min max optional => exact ih body (.repetition ..)
    | _ => exact .intro here parts

/-- What binds at least as tightly as its place asks for is not put into parentheses. -/
theorem parenthesize_of_le {place : Binding} (h : x.binding.rank ≤ place.rank) (text : String) :
    x.parenthesize place text = text := if_neg (Nat.not_lt.2 h)

/-- Nothing is put into parentheses at the outermost place. -/
theorem parenthesize_outer (x : Atom) (text : String) : x.parenthesize .outer text = text := by
  refine parenthesize_of_le ?_ text
  generalize x.binding = b
  cases b <;> decide

/-- What binds tightest is never put into parentheses. -/
theorem parenthesize_base (hx : x.binding = .base) (place : Binding) (text : String) :
    x.parenthesize place text = text := by
  refine parenthesize_of_le ?_ text
  rw [hx]
  cases place <;> decide

/-- What place an expression is written at makes no difference but that there may be parentheses around it. -/
theorem renderAt_eq (hx : x.IsUsual) (place : Binding) : x.renderAt place = x.parenthesize place x.render := by
  cases x with
  | sequence parts => rw [render, renderAt_sequence, renderAt_sequence, parenthesize_outer]
  | choice branches => rw [render, renderAt_choice, renderAt_choice, parenthesize_outer]
  | repetition body min max optional =>
    rw [render, renderAt_repetition, renderAt_repetition, parenthesize_outer]
  | lookahead body positive => rw [render, renderAt_lookahead, renderAt_lookahead, parenthesize_outer]
  | literal text => exact (parenthesize_base rfl place _).symm
  | char test =>
    cases test with
    | any => exact (parenthesize_base rfl place _).symm
    | _ => exact hx.elim
  | _ => exact hx.elim

/-- Places that ask for as much are the same. -/
theorem written_congr (hx : x.IsUsual) {place place' : Binding}
    (h : place.rank < x.binding.rank ↔ place'.rank < x.binding.rank) : x.written place = x.written place' := by
  rw [written, written, renderAt_eq hx place, renderAt_eq hx place', parenthesize, parenthesize]
  simp only [h]

/-- What binds looser than its place asks for is written in parentheses. -/
theorem written_enclosed (hx : x.IsUsual) {place : Binding} (h : place.rank < x.binding.rank) :
    x.written place = '(' :: (x.written .outer ++ [')']) := by
  rw [written, renderAt_eq hx, parenthesize, if_pos h]
  simp [written, render]

/-- An expression is written as its branches are, with slashes between them. -/
theorem written_outer (hx : x.Every IsUsual) :
    x.written .outer = " / ".toList.intercalate (x.choiceBranches.map (written .sequence)) := by
  by_cases hchoice : ∃ branches, x = .choice branches
  · obtain ⟨branches, rfl⟩ := hchoice
    have hbranches : branches.map (written .choice) = branches.map (written .sequence) := by
      refine List.map_congr_left fun b hb => written_congr (hx.of_part (.choice hb)).here ?_
      have hb' := hx.here.2 b hb
      cases b with
      | choice inner => exact absurd rfl (hb' inner)
      | _ => simp [binding, Binding.rank]
    rw [choiceBranches, ← hbranches, written, renderAt_choice, parenthesize_outer, renderAll_eq_map,
      String.toList_intercalate, List.map_map]
    rfl
  · rw [choiceBranches_eq_self hchoice, List.map_singleton, List.intercalate_singleton]
    refine written_congr hx.here ?_
    cases x with
    | choice branches => exact absurd ⟨branches, rfl⟩ hchoice
    | _ => simp [binding, Binding.rank]

/-- A branch is written as its parts are, with blanks between them. -/
theorem written_sequence (hx : x.Every IsUsual) :
    x.written .sequence = " ".toList.intercalate (x.sequenceParts.map (written .repetition)) := by
  by_cases hsequence : ∃ parts, x = .sequence parts
  · obtain ⟨parts, rfl⟩ := hsequence
    have hparts : parts.map (written .sequence) = parts.map (written .repetition) := by
      refine List.map_congr_left fun p hp => written_congr (hx.of_part (.sequence hp)).here ?_
      have hp' := hx.here.2 p hp
      cases p with
      | sequence inner => exact absurd rfl (hp' inner)
      | _ => simp [binding, Binding.rank]
    have hown (text : String) : parenthesize (.sequence parts) .sequence text = text :=
      parenthesize_of_le (Nat.le_refl _) text
    rw [sequenceParts, ← hparts, written, renderAt_sequence, hown, renderAll_eq_map, String.toList_intercalate,
      List.map_map]
    rfl
  · rw [sequenceParts_eq_self hsequence, List.map_singleton, List.intercalate_singleton]
    refine written_congr hx.here ?_
    cases x with
    | sequence parts => exact absurd ⟨parts, rfl⟩ hsequence
    | _ => simp [binding, Binding.rank]

/-- In the usual form, an option is written with the mark of the repetition it stands for. -/
theorem repetitionMark_explicit {body : Atom} {min : Nat} {max : Option Nat} {optional : Bool}
    (h : (repetition body min max optional).IsUsual) :
    repetitionMark min max optional = repetitionMark min max false := by
  cases optional with
  | false => rfl
  | true =>
    obtain ⟨rfl, rfl⟩ := h rfl
    rfl

/-- A part is written as what is repeated in it and the marks behind that. -/
theorem written_repetition (hx : x.Every IsUsual) :
    x.written .repetition = x.core.written .lookahead ++ x.bounds.flatMap boundMark := by
  induction x using parts_induction with
  | step x ih =>
  cases x with
  | repetition body min max optional =>
    have hbody := ih body (.repetition ..) (hx.of_part (.repetition ..))
    have hown (text : String) : parenthesize (.repetition body min max optional) .repetition text = text :=
      parenthesize_of_le (Nat.le_refl _) text
    rw [core, bounds, List.flatMap_append, ← List.append_assoc, ← hbody, List.flatMap_singleton, written,
      renderAt_repetition, hown, repetitionMark_explicit hx.here, String.toList_append]
    rfl
  | _ =>
    refine (written_congr hx.here ?_).trans (List.append_nil _).symm
    simp [binding, Binding.rank]

/-- An expression is made explicit in its core, and repeated as often as before. -/
theorem explicit_eq_core (x : Atom) : x.explicit
    = x.bounds.foldl (fun atom bound => .repetition atom bound.1 bound.2 false) x.core.explicit := by
  induction x using parts_induction with
  | step x ih =>
  cases x with
  | repetition body min max optional =>
    rw [explicit, bounds, core, List.foldl_append, ← ih body (.repetition ..)]
    rfl
  | _ => rfl

/-- The choice among the branches, or the branch if there is but one. -/
def ofBranches : List Atom → Atom
  | [branch] => branch
  | branches => .choice branches

/-- The sequence of the parts, or the part if there is but one. -/
def ofParts : List Atom → Atom
  | [part] => part
  | parts => .sequence parts

/-- A usual expression is made explicit branch by branch. -/
theorem explicit_eq_ofBranches (hx : x.IsUsual) : x.explicit = ofBranches (x.choiceBranches.map explicit) := by
  by_cases hchoice : ∃ branches, x = .choice branches
  · obtain ⟨branches, rfl⟩ := hchoice
    match branches, hx.1 with
    | first :: second :: rest, _ =>
      rw [explicit, explicitAll_eq_map]
      rfl
  · rw [choiceBranches_eq_self hchoice, List.map_singleton, ofBranches]

/-- A usual expression is made explicit part by part. -/
theorem explicit_eq_ofParts (hx : x.IsUsual) : x.explicit = ofParts (x.sequenceParts.map explicit) := by
  by_cases hsequence : ∃ parts, x = .sequence parts
  · obtain ⟨parts, rfl⟩ := hsequence
    match parts, hx.1 with
    | first :: second :: rest, _ =>
      rw [explicit, explicitAll_eq_map]
      rfl
  · rw [sequenceParts_eq_self hsequence, List.map_singleton, ofParts]

end Levels

/-- What may follow an expression that is written at a place. -/
def Follows : Binding → List Char → Prop
  | .outer, rest => ∀ c ∈ rest.head?, c = ')'
  | .sequence, rest => (∀ c ∈ rest.head?, c = ')') ∨ " / ".toList <+: rest
  | .repetition, rest => ∀ c ∈ rest.head?, c ∉ ['*', '+', '?', '\x7b']
  | _, _ => True

/-- Where an expression of the usual form is written at the place, it can be told from others, and from what
follows it. -/
def Legible (place : Binding) (x : Atom) : Prop :=
  ∀ y : Atom, y.Every IsUsual → ∀ rest rest', Follows place rest → Follows place rest' →
    x.written place ++ rest = y.written place ++ rest' → x.explicit = y.explicit ∧ rest = rest'

section Marks

variable {bound bound' : Nat × Option Nat} {bounds bounds' : List (Nat × Option Nat)} {rest rest' : List Char}

/-- A bound has a mark of its own, or else its numbers are written in braces. -/
theorem boundMark_cases (bound : Nat × Option Nat) :
    (bound = (0, none) ∧ boundMark bound = ['*']) ∨ (bound = (1, none) ∧ boundMark bound = ['+']) ∨
      (bound = (0, some 1) ∧ boundMark bound = ['?']) ∨
      boundMark bound = '\x7b' :: (Nat.toDigits 10 bound.1 ++ ',' :: ' ' ::
        (bound.2.elim [] (Nat.toDigits 10) ++ ['\x7d'])) := by
  obtain ⟨min, max⟩ := bound
  have hmark : boundMark (min, max) = (repetitionMark min max false).toList := rfl
  rw [hmark]
  unfold repetitionMark
  rw [if_neg Bool.false_ne_true]
  split
  · exact .inl ⟨rfl, rfl⟩
  · exact .inr (.inl ⟨rfl, rfl⟩)
  · exact .inr (.inr (.inl ⟨rfl, rfl⟩))
  · exact .inr (.inr (.inr (by simp [toString])))
  · exact .inr (.inr (.inr (by simp [toString])))

/-- A mark starts with a star, a plus, a question mark or a brace, so it is seen where one
begins. -/
theorem boundMark_eq_cons (bound : Nat × Option Nat) :
    ∃ c rest, boundMark bound = c :: rest ∧ c ∈ ['*', '+', '?', '\x7b'] := by
  obtain ⟨-, h⟩ | ⟨-, h⟩ | ⟨-, h⟩ | h := boundMark_cases bound <;> exact ⟨_, _, h, by decide⟩

/-- Different numbers have different digits. -/
theorem toDigits_injective : Function.Injective (Nat.toDigits 10) := fun m n h => by
  rw [← @Nat.ofDigitChars_ten_toDigits m, h, Nat.ofDigitChars_ten_toDigits]

/-- A character that is no digit does not occur among the digits of a number. -/
theorem not_mem_toDigits {c : Char} (hc : c.isDigit = false) (n : Nat) : c ∉ Nat.toDigits 10 n := fun h => by
  rw [Nat.isDigit_of_mem_toDigits (by decide) (by decide) h] at hc
  cases hc

/-- It can be told where characters end that an end mark is not among. -/
theorem append_cons_inj {c : Char} {cs cs' : List Char} (hc : c ∉ cs) (hc' : c ∉ cs')
    (h : cs ++ c :: rest = cs' ++ c :: rest') : cs = cs' ∧ rest = rest' := by
  induction cs generalizing cs' with
  | nil =>
    cases cs' with
    | nil => exact ⟨rfl, (List.cons.inj h).2⟩
    | cons d cs' => exact absurd (List.cons.inj h).1 fun heq => hc' (heq ▸ List.mem_cons_self)
  | cons d cs ih =>
    cases cs' with
    | nil => exact absurd (List.cons.inj h).1 fun heq => hc (heq ▸ List.mem_cons_self)
    | cons d' cs' =>
      obtain ⟨rfl, htail⟩ := List.cons.inj h
      obtain ⟨rfl, hrest⟩ := ih (fun hmem => hc (List.mem_cons_of_mem _ hmem))
        (fun hmem => hc' (List.mem_cons_of_mem _ hmem)) htail
      exact ⟨rfl, hrest⟩

/-- It can be told where a mark ends. -/
theorem boundMark_append_inj (h : boundMark bound ++ rest = boundMark bound' ++ rest') :
    bound = bound' ∧ rest = rest' := by
  obtain ⟨hb, hm⟩ | ⟨hb, hm⟩ | ⟨hb, hm⟩ | hm := boundMark_cases bound <;>
    obtain ⟨hb', hm'⟩ | ⟨hb', hm'⟩ | ⟨hb', hm'⟩ | hm' := boundMark_cases bound' <;> rw [hm, hm'] at h
  all_goals first
    | exact ⟨hb.trans hb'.symm, (List.cons.inj h).2⟩
    | exact absurd (List.cons.inj h).1 (by decide)
    | skip
  -- both have braces
  obtain ⟨min, max⟩ := bound
  obtain ⟨min', max'⟩ := bound'
  have hcomma (n : Nat) : ',' ∉ Nat.toDigits 10 n := not_mem_toDigits (by decide) n
  have hbrace (limit : Option Nat) : '\x7d' ∉ limit.elim [] (Nat.toDigits 10) := by
    cases limit with
    | none => exact List.not_mem_nil
    | some n => exact not_mem_toDigits (by decide) n
  simp only [List.cons_append, List.append_assoc, List.nil_append, List.cons.injEq, true_and] at h
  obtain ⟨hmin, h⟩ := append_cons_inj (hcomma min) (hcomma min') h
  obtain ⟨hmax, hrest⟩ := append_cons_inj (hbrace max) (hbrace max') (List.cons.inj h).2
  refine ⟨Prod.ext (toDigits_injective hmin) ?_, hrest⟩
  cases max with
  | none =>
    cases max' with
    | none => rfl
    | some n => exact absurd hmax.symm Nat.toDigits_ne_nil
  | some n =>
    cases max' with
    | none => exact absurd hmax Nat.toDigits_ne_nil
    | some n' => exact congrArg some (toDigits_injective hmax)

/-- No mark follows a part behind its own marks. -/
theorem Follows.ne_boundMark (h : Follows .repetition rest) (bound : Nat × Option Nat) (rest' : List Char) :
    rest ≠ boundMark bound ++ rest' := by
  rintro rfl
  obtain ⟨c, t, hc, hmem⟩ := boundMark_eq_cons bound
  rw [hc] at h
  exact h c rfl hmem

/-- It can be told where the marks behind an operand end. -/
theorem boundMarks_append_inj (hrest : Follows .repetition rest) (hrest' : Follows .repetition rest')
    (h : bounds.flatMap boundMark ++ rest = bounds'.flatMap boundMark ++ rest') :
    bounds = bounds' ∧ rest = rest' := by
  induction bounds generalizing bounds' with
  | nil =>
    cases bounds' with
    | nil => exact ⟨rfl, h⟩
    | cons bound' bounds' =>
      rw [List.flatMap_nil, List.nil_append, List.flatMap_cons, List.append_assoc] at h
      exact absurd h (hrest.ne_boundMark bound' _)
  | cons bound bounds ih =>
    cases bounds' with
    | nil =>
      rw [List.flatMap_nil, List.nil_append, List.flatMap_cons, List.append_assoc] at h
      exact absurd h.symm (hrest'.ne_boundMark bound _)
    | cons bound' bounds' =>
      rw [List.flatMap_cons, List.flatMap_cons, List.append_assoc, List.append_assoc] at h
      obtain ⟨rfl, hmarks⟩ := boundMark_append_inj h
      obtain ⟨rfl, hrest⟩ := ih hmarks
      exact ⟨rfl, hrest⟩

end Marks

section Operands

variable {x y : Atom} {rest rest' : List Char}

/-- A literal is written between quotes, wherever it stands. -/
theorem written_literal (text : String) (place : Binding) :
    (literal text).written place = '\'' :: (text.toList ++ ['\'']) := by
  change ("'" ++ text ++ "'").toList = _
  simp

/-- A lookahead is written without parentheses as the body of another. -/
theorem written_lookahead (body : Atom) (positive : Bool) : (lookahead body positive).written .lookahead
    = (if positive then '&' else '!') :: body.written .lookahead := by
  have hown (text : String) : parenthesize (.lookahead body positive) .lookahead text = text :=
    parenthesize_of_le (Nat.le_refl _) text
  rw [written, renderAt_lookahead, hown, String.toList_append]
  cases positive <;> rfl

/-- The character that an operand starts with, by its kind. -/
def opening : Atom → Char
  | .literal _ => '\''
  | .char _ => '.'
  | .lookahead _ positive => if positive then '&' else '!'
  | _ => '('

/-- An operand starts with the character of its kind. -/
theorem written_eq_cons (hx : x.IsUsual) : ∃ cs, x.written .lookahead = x.opening :: cs := by
  cases x with
  | literal text => exact ⟨_, written_literal text _⟩
  | char test =>
    cases test with
    | any => exact ⟨_, rfl⟩
    | _ => exact hx.elim
  | lookahead body positive => exact ⟨_, written_lookahead body positive⟩
  | sequence parts => exact ⟨_, written_enclosed hx (show 2 < 4 by decide)⟩
  | choice branches => exact ⟨_, written_enclosed hx (show 2 < 5 by decide)⟩
  | repetition body min max optional => exact ⟨_, written_enclosed hx (show 2 < 3 by decide)⟩
  | _ => exact hx.elim

/-- Only literals start with a quote. -/
theorem eq_literal_of_opening (h : x.opening = '\'') : ∃ text, x = .literal text := by
  cases x with
  | literal text => exact ⟨text, rfl⟩
  | lookahead body positive => cases positive <;> cases h
  | _ => cases h

/-- Only the class of all characters starts with a dot. -/
theorem eq_any_of_opening (hx : x.IsUsual) (h : x.opening = '.') : x = .char .any := by
  cases x with
  | char test =>
    cases test with
    | any => rfl
    | _ => exact hx.elim
  | lookahead body positive => cases positive <;> cases h
  | _ => cases h

/-- Only lookaheads of its kind start with a sign. -/
theorem eq_lookahead_of_opening {positive : Bool} (h : x.opening = if positive then '&' else '!') :
    ∃ body, x = .lookahead body positive := by
  cases x with
  | lookahead body positive' =>
    obtain rfl : positive' = positive := by cases positive <;> cases positive' <;> first | rfl | cases h
    exact ⟨body, rfl⟩
  | _ => cases positive <;> cases h

/-- What starts with a parenthesis is written between two of them. -/
theorem written_of_opening (hx : x.IsUsual) (h : x.opening = '(') :
    x.written .lookahead = '(' :: (x.written .outer ++ [')']) := by
  cases x with
  | sequence parts => exact written_enclosed hx (show 2 < 4 by decide)
  | choice branches => exact written_enclosed hx (show 2 < 5 by decide)
  | repetition body min max optional => exact written_enclosed hx (show 2 < 3 by decide)
  | lookahead body positive => cases positive <;> cases h
  | literal | char => cases h
  | _ => exact hx.elim

/-- No part starts with a slash. -/
theorem written_ne_slash (hx : x.Every IsUsual) (rest rest' : List Char) :
    x.written .repetition ++ rest ≠ '/' :: rest' := by
  intro h
  obtain ⟨cs, hcs⟩ := written_eq_cons (every_core hx).here
  rw [written_repetition hx, hcs] at h
  have hslash : x.core.opening = '/' := (List.cons.inj h).1
  generalize x.core = operand at hslash
  cases operand with
  | lookahead body positive => cases positive <;> cases hslash
  | _ => cases hslash

/-- Operands that start in the same way are of one kind. -/
theorem opening_eq_of_written (hx : x.IsUsual) (hy : y.IsUsual)
    (h : x.written .lookahead ++ rest = y.written .lookahead ++ rest') : x.opening = y.opening := by
  obtain ⟨cs, hcs⟩ := written_eq_cons hx
  obtain ⟨cs', hcs'⟩ := written_eq_cons hy
  rw [hcs, hcs'] at h
  exact (List.cons.inj h).1

end Operands

namespace Legible

variable {x : Atom} {rest rest' : List Char}

/-- A literal ends at its second quote, as there is none in its text. -/
theorem literal {text : String} (htext : '\'' ∉ text.toList) : Legible .lookahead (.literal text) := by
  intro y hy rest rest' _ _ heq
  obtain ⟨text', rfl⟩ := eq_literal_of_opening (opening_eq_of_written (x := .literal text) htext hy.here heq).symm
  rw [written_literal, written_literal] at heq
  simp only [List.cons_append, List.append_assoc, List.nil_append] at heq
  obtain ⟨htext, hrest⟩ := append_cons_inj htext hy.here (List.cons.inj heq).2
  exact ⟨by rw [String.toList_inj.1 htext], hrest⟩

/-- The class of all characters is one dot. -/
theorem any : Legible .lookahead (.char .any) := by
  intro y hy rest rest' _ _ heq
  obtain rfl := eq_any_of_opening hy.here (opening_eq_of_written (x := .char .any) trivial hy.here heq).symm
  exact ⟨rfl, List.append_cancel_left heq⟩

/-- A lookahead can be told from others if its body can. -/
theorem lookahead {body : Atom} (h : Legible .lookahead body) (positive : Bool) :
    Legible .lookahead (.lookahead body positive) := by
  intro y hy rest rest' _ _ heq
  have hopening := opening_eq_of_written (x := .lookahead body positive) trivial hy.here heq
  obtain ⟨body', rfl⟩ := eq_lookahead_of_opening hopening.symm
  rw [written_lookahead, written_lookahead] at heq
  obtain ⟨hbody, hrest⟩ := h body' (hy.of_part (.lookahead ..)) rest rest' trivial trivial (List.cons.inj heq).2
  exact ⟨by rw [explicit, explicit, hbody], hrest⟩

/-- What stands in parentheses can be told where it could without them. -/
theorem enclosed (hx : x.IsUsual) (hopening : x.opening = '(') (h : Legible .outer x) : Legible .lookahead x := by
  intro y hy rest rest' _ _ heq
  have hopening' := (opening_eq_of_written hx hy.here heq).symm.trans hopening
  rw [written_of_opening hx hopening, written_of_opening hy.here hopening'] at heq
  simp only [List.cons_append, List.append_assoc, List.nil_append] at heq
  have hclosed (rest : List Char) : Follows .outer (')' :: rest) := by
    rintro c ⟨⟩
    rfl
  obtain ⟨hexplicit, hrest⟩ := h y hy _ _ (hclosed rest) (hclosed rest') (List.cons.inj heq).2
  exact ⟨hexplicit, (List.cons.inj hrest).2⟩

/-- A part can be told where its operand can. -/
theorem repetition (hx : x.Every IsUsual) (h : Legible .lookahead x.core) : Legible .repetition x := by
  intro y hy rest rest' hrest hrest' heq
  rw [written_repetition hx, written_repetition hy, List.append_assoc, List.append_assoc] at heq
  obtain ⟨hcore, hmarks⟩ := h y.core (every_core hy) _ _ trivial trivial heq
  obtain ⟨hbounds, rfl⟩ := boundMarks_append_inj hrest hrest' hmarks
  refine ⟨?_, rfl⟩
  rw [explicit_eq_core x, explicit_eq_core y, hcore, hbounds]

section Separated

variable {inner outside : Binding} {separator : List Char} {xs ys : List Atom}

/-- The separator shows whether there is one more expression: at the place it may follow an expression, and what
follows the last one starts in another way. -/
structure Separates (inner outside : Binding) (separator : List Char) : Prop where
  follows : ∀ rest, Follows inner (separator ++ rest)
  ends : ∀ rest, Follows outside rest → Follows inner rest
  differs : ∀ rest, Follows outside rest → ∀ y : Atom, y.Every IsUsual → ∀ rest',
    rest ≠ separator ++ (y.written inner ++ rest')

/-- More expressions with separators in front of them, or the end, may follow an expression. -/
theorem Separates.follows_more (hs : Separates inner outside separator) (hrest : Follows outside rest) :
    Follows inner (xs.flatMap (fun x => separator ++ x.written inner) ++ rest) := by
  cases xs with
  | nil => exact hs.ends rest hrest
  | cons x xs =>
    rw [List.flatMap_cons, List.append_assoc, List.append_assoc]
    exact hs.follows _

/-- More expressions with separators in front of them can be told where each of them can. -/
theorem Separates.more (hs : Separates inner outside separator) (hxs : ∀ x ∈ xs, Legible inner x)
    (hxs' : ∀ x ∈ xs, x.Every IsUsual) (hys : ∀ y ∈ ys, y.Every IsUsual) (hrest : Follows outside rest)
    (hrest' : Follows outside rest') (h : xs.flatMap (fun x => separator ++ x.written inner) ++ rest
      = ys.flatMap (fun y => separator ++ y.written inner) ++ rest') :
    xs.map explicit = ys.map explicit ∧ rest = rest' := by
  induction xs generalizing ys with
  | nil =>
    cases ys with
    | nil => exact ⟨rfl, h⟩
    | cons y ys =>
      rw [List.flatMap_nil, List.nil_append, List.flatMap_cons, List.append_assoc, List.append_assoc] at h
      exact absurd h (hs.differs rest hrest y (hys y (by simp)) _)
  | cons x xs ih =>
    cases ys with
    | nil =>
      rw [List.flatMap_nil, List.nil_append, List.flatMap_cons, List.append_assoc, List.append_assoc] at h
      exact absurd h.symm (hs.differs rest' hrest' x (hxs' x (by simp)) _)
    | cons y ys =>
      obtain ⟨hy, hys⟩ := List.forall_mem_cons.1 hys
      obtain ⟨hx, hxs⟩ := List.forall_mem_cons.1 hxs
      obtain ⟨-, hxs'⟩ := List.forall_mem_cons.1 hxs'
      simp only [List.flatMap_cons, List.append_assoc] at h
      obtain ⟨hfirst, hmore⟩ := hx y hy _ _ (hs.follows_more hrest) (hs.follows_more hrest')
        (List.append_cancel_left h)
      obtain ⟨hrests, rfl⟩ := ih hxs hxs' hys hmore
      exact ⟨by rw [List.map_cons, List.map_cons, hfirst, hrests], rfl⟩

/-- Texts with separators between them are the first text and then every other behind a
separator. -/
theorem intercalate_cons_eq (separator text : List Char) (texts : List (List Char)) :
    separator.intercalate (text :: texts) = text ++ texts.flatMap (separator ++ ·) := by
  induction texts generalizing text with
  | nil => simp
  | cons next texts ih =>
    rw [List.intercalate_cons_cons, ih, List.flatMap_cons, List.append_assoc, List.append_assoc]

/-- Expressions with separators between them can be told where each of them can. -/
theorem Separates.all (hs : Separates inner outside separator) (hxs : ∀ x ∈ xs, Legible inner x)
    (hxs' : ∀ x ∈ xs, x.Every IsUsual) (hys : ∀ y ∈ ys, y.Every IsUsual) (hx : xs ≠ []) (hy : ys ≠ [])
    (hrest : Follows outside rest) (hrest' : Follows outside rest')
    (h : separator.intercalate (xs.map (written inner)) ++ rest
      = separator.intercalate (ys.map (written inner)) ++ rest') :
    xs.map explicit = ys.map explicit ∧ rest = rest' := by
  obtain ⟨x, xs, rfl⟩ := List.exists_cons_of_ne_nil hx
  obtain ⟨y, ys, rfl⟩ := List.exists_cons_of_ne_nil hy
  obtain ⟨hx, hxs⟩ := List.forall_mem_cons.1 hxs
  obtain ⟨-, hxs'⟩ := List.forall_mem_cons.1 hxs'
  obtain ⟨hy, hys⟩ := List.forall_mem_cons.1 hys
  simp only [List.map_cons, intercalate_cons_eq, List.flatMap_map, List.append_assoc] at h
  obtain ⟨hfirst, hmore⟩ := hx y hy _ _ (hs.follows_more hrest) (hs.follows_more hrest') h
  obtain ⟨hrests, rfl⟩ := hs.more hxs hxs' hys hrest hrest' hmore
  exact ⟨by rw [List.map_cons, List.map_cons, hfirst, hrests], rfl⟩

end Separated

/-- A blank shows that there is one more part: it is no mark, and behind a branch there is a parenthesis or a
slash. -/
theorem separates_blank : Separates .repetition .sequence " ".toList where
  follows rest := by
    rintro c ⟨⟩
    decide
  ends rest := by
    rintro (hclosed | ⟨rest, rfl⟩) c hc
    · rw [hclosed c hc]
      decide
    · cases hc
      decide
  differs rest := by
    rintro (hclosed | ⟨rest, rfl⟩) y hy rest' heq
    · rw [heq] at hclosed
      exact absurd (hclosed ' ' rfl) (by decide)
    · exact written_ne_slash hy _ _ (List.cons.inj heq).2.symm

/-- A slash between blanks shows that there is one more branch. -/
theorem separates_slash : Separates .sequence .outer " / ".toList where
  follows rest := .inr (List.prefix_append _ _)
  ends _ := .inl
  differs rest hclosed y _ rest' heq := by
    rw [heq] at hclosed
    exact absurd (hclosed ' ' rfl) (by decide)

/-- A branch can be told where its parts can. -/
theorem sequence (hx : x.Every IsUsual) (h : ∀ p ∈ x.sequenceParts, Legible .repetition p) :
    Legible .sequence x := by
  intro y hy rest rest' hrest hrest' heq
  rw [written_sequence hx, written_sequence hy] at heq
  obtain ⟨hparts, hrests⟩ := separates_blank.all h hx.sequenceParts hy.sequenceParts
    (sequenceParts_ne_nil hx.here) (sequenceParts_ne_nil hy.here) hrest hrest' heq
  exact ⟨by rw [explicit_eq_ofParts hx.here, explicit_eq_ofParts hy.here, hparts], hrests⟩

/-- An expression can be told where its branches can. -/
theorem outer (hx : x.Every IsUsual) (h : ∀ b ∈ x.choiceBranches, Legible .sequence b) : Legible .outer x := by
  intro y hy rest rest' hrest hrest' heq
  rw [written_outer hx, written_outer hy] at heq
  obtain ⟨hbranches, hrests⟩ := separates_slash.all h hx.choiceBranches hy.choiceBranches
    (choiceBranches_ne_nil hx.here) (choiceBranches_ne_nil hy.here) hrest hrest' heq
  exact ⟨by rw [explicit_eq_ofBranches hx.here, explicit_eq_ofBranches hy.here, hbranches], hrests⟩

/-- An expression can be told at every place where it may be written as part of another. -/
structure Throughout (x : Atom) : Prop where
  core : Legible .lookahead x.core
  operand : Legible .lookahead x
  part : Legible .repetition x
  branch : Legible .sequence x
  whole : Legible .outer x

/-- What is no repetition, sequence or choice can be told everywhere if it can be told as an operand. -/
theorem Throughout.of_operand (hx : x.Every IsUsual) (hcore : x.core = x) (hparts : x.sequenceParts = [x])
    (hbranches : x.choiceBranches = [x]) (h : Legible .lookahead x) : Throughout x := by
  have hpart : Legible .repetition x := repetition hx (by rwa [hcore])
  have hbranch : Legible .sequence x := sequence hx (by rwa [hparts, List.forall_mem_singleton])
  exact ⟨by rwa [hcore], h, hpart, hbranch, outer hx (by rwa [hbranches, List.forall_mem_singleton])⟩

/-- Every expression of the usual form can be told, since its parts can. -/
theorem throughout (hx : x.Every IsUsual) : Throughout x := by
  induction hx with
  | @intro x here hparts ih =>
    have hx : x.Every IsUsual := .intro here hparts
    cases x with
    | literal text => exact .of_operand hx rfl rfl rfl (literal here)
    | char test =>
      cases test with
      | any => exact .of_operand hx rfl rfl rfl any
      | _ => exact here.elim
    | lookahead body positive =>
      exact .of_operand hx rfl rfl rfl (lookahead (ih body (.lookahead ..)).operand positive)
    | repetition body min max optional =>
      have hcore := (ih body (.repetition ..)).core
      have hpart := repetition hx hcore
      have hbranch := sequence hx (List.forall_mem_singleton.2 hpart)
      have hwhole := outer hx (List.forall_mem_singleton.2 hbranch)
      exact ⟨hcore, enclosed here rfl hwhole, hpart, hbranch, hwhole⟩
    | sequence parts =>
      have hbranch := sequence hx fun p hp => (ih p (.sequence hp)).part
      have hwhole := outer hx (List.forall_mem_singleton.2 hbranch)
      have hoperand := enclosed here rfl hwhole
      exact ⟨hoperand, hoperand, repetition hx hoperand, hbranch, hwhole⟩
    | choice branches =>
      have hwhole := outer hx fun b hb => (ih b (.choice hb)).branch
      have hoperand := enclosed here rfl hwhole
      have hpart := repetition hx hoperand
      exact ⟨hoperand, hoperand, hpart, sequence hx (List.forall_mem_singleton.2 hpart), hwhole⟩
    | _ => exact here.elim

end Legible

/-- An option is written as the repetition that is in its place. -/
theorem renderAt_explicit {x : Atom} (hx : x.Every IsUsual) (place : Binding) :
    x.explicit.renderAt place = x.renderAt place := by
  induction hx generalizing place with
  | @intro x here _ ih =>
  cases x with
  | literal text => rfl
  | char test => rfl
  | sequence parts =>
    have hall : (parts.map explicit).map (renderAt .sequence) = parts.map (renderAt .sequence) := by
      rw [List.map_map]
      exact List.map_congr_left fun p hp => ih p (.sequence hp) .sequence
    rw [explicit, renderAt_sequence, renderAt_sequence, explicitAll_eq_map, renderAll_eq_map, hall,
      ← renderAll_eq_map]
    rfl
  | choice branches =>
    have hall : (branches.map explicit).map (renderAt .choice) = branches.map (renderAt .choice) := by
      rw [List.map_map]
      exact List.map_congr_left fun b hb => ih b (.choice hb) .choice
    rw [explicit, renderAt_choice, renderAt_choice, explicitAll_eq_map, renderAll_eq_map, hall, ← renderAll_eq_map]
    rfl
  | repetition body min max optional =>
    rw [explicit, renderAt_repetition, renderAt_repetition, ih body (.repetition ..), repetitionMark_explicit here]
    rfl
  | lookahead body positive =>
    rw [explicit, renderAt_lookahead, renderAt_lookahead, ih body (.lookahead ..)]
    rfl
  | _ => exact here.elim

/-- Two expressions of the usual form are written alike just if they are the same, up to options that stand for
repetitions of at most one round. -/
theorem render_eq_iff_explicit_eq {x y : Atom} (hx : x.Every IsUsual) (hy : y.Every IsUsual) :
    x.render = y.render ↔ x.explicit = y.explicit := by
  constructor
  · intro h
    have hnothing : Follows .outer [] := by
      rintro c ⟨⟩
    have hwritten : x.written .outer ++ [] = y.written .outer ++ [] := by
      rw [written, written, ← render, ← render, h]
    exact ((Legible.throughout hx).whole y hy [] [] hnothing hnothing hwritten).1
  · intro h
    rw [render, render, ← renderAt_explicit hx, ← renderAt_explicit hy, h]

/-- Looking out for no `a` any number of times, and looking out once for not so many as one. -/
theorem many_absent_written_apart :
    (literal "a").absent.many.Every IsUsual ∧ (literal "a").many.absent.Every IsUsual ∧
      (literal "a").absent.many.render ≠ (literal "a").many.absent.render := by
  have hliteral : (literal "a").Every IsUsual := (Every.literal_iff _ _).2 (show '\'' ∉ ['a'] by decide)
  have habsent : (literal "a").absent.Every IsUsual := .intro trivial fun _ hp => by
    cases hp
    exact hliteral
  have hmany : (literal "a").many.Every IsUsual := (Every.repetition_iff ..).2 ⟨nofun, hliteral⟩
  have hx : (literal "a").absent.many.Every IsUsual := (Every.repetition_iff ..).2 ⟨nofun, habsent⟩
  have hy : (literal "a").many.absent.Every IsUsual := .intro trivial fun _ hp => by
    cases hp
    exact hmany
  exact ⟨hx, hy, fun h => nomatch (render_eq_iff_explicit_eq hx hy).1 h⟩

end Atom

end Packrat
