import Packrat.Grammar.Basic

/-!
# The parts of an expression

An expression is made of others, down to those without parts. Statements about all expressions are
proved by induction on their parts, and conditions such as the absence of one kind of expression are
conditions on an expression and everything that it is made of. What a dynamic expression can choose
counts among its parts.
-/

namespace Packrat

namespace Atom

/-- The first expression is directly a part of the second. -/
inductive IsPart : Atom → Atom → Prop where
  /-- A part of a sequence. -/
  | sequence {atom : Atom} {parts : List Atom} : atom ∈ parts → IsPart atom (.sequence parts)
  /-- A branch of a choice. -/
  | choice {atom : Atom} {branches : List Atom} : atom ∈ branches → IsPart atom (.choice branches)
  /-- What a repetition repeats. -/
  | repetition (body : Atom) (min : Nat) (max : Option Nat) (optional : Bool) :
    IsPart body (.repetition body min max optional)
  /-- What a lookahead looks for. -/
  | lookahead (body : Atom) (positive : Bool) : IsPart body (.lookahead body positive)
  /-- What is named. -/
  | named (body : Atom) (name : String) : IsPart body (.named body name)
  /-- What is ignored. -/
  | ignore (body : Atom) : IsPart body (.ignore body)
  /-- What is transformed. -/
  | map (body : Atom) (transform : Tree → Tree) : IsPart body (.map body transform)
  /-- What is marked. -/
  | mark (body : Atom) : IsPart body (.mark body)
  /-- What is captured. -/
  | capture (body : Atom) (name : String) : IsPart body (.capture body name)
  /-- What has a scope of its own. -/
  | scope (body : Atom) : IsPart body (.scope body)
  /-- What can be chosen. -/
  | dynamic (pick : Source → Captures → Atom) (source : Source) (captures : Captures) :
    IsPart (pick source captures) (.dynamic pick)
  /-- The operand of an operator expression. -/
  | operand (operand : Atom) (table : List (Fixity × Atom))
      (combine : Option (Tree → Tree → Tree → Tree)) :
    IsPart operand (.operators operand table combine)
  /-- An operator of an operator expression. -/
  | operator {fixity : Fixity} {atom : Atom} (operand : Atom) {table : List (Fixity × Atom)}
      (combine : Option (Tree → Tree → Tree → Tree)) :
    (fixity, atom) ∈ table → IsPart atom (.operators operand table combine)
  /-- What is labelled. -/
  | label (body : Atom) (text : String) : IsPart body (.label body text)

mutual

/-- What holds of an expression as soon as it holds of its parts holds of every expression. -/
theorem parts_induction {motive : Atom → Prop}
    (step : ∀ atom, (∀ part, IsPart part atom → motive part) → motive atom) :
    ∀ atom : Atom, motive atom
  | .literal _ => step _ fun _ h => nomatch h
  | .char _ => step _ fun _ h => nomatch h
  | .sequence parts => step _ fun _ (.sequence h) => parts_induction_list step parts _ h
  | .choice branches => step _ fun _ (.choice h) => parts_induction_list step branches _ h
  | .repetition body _ _ _ => step _ fun _ h => by cases h; exact parts_induction step body
  | .lookahead body _ => step _ fun _ h => by cases h; exact parts_induction step body
  | .named body _ => step _ fun _ h => by cases h; exact parts_induction step body
  | .rule _ => step _ fun _ h => nomatch h
  | .ignore body => step _ fun _ h => by cases h; exact parts_induction step body
  | .map body _ => step _ fun _ h => by cases h; exact parts_induction step body
  | .mark body => step _ fun _ h => by cases h; exact parts_induction step body
  | .capture body _ => step _ fun _ h => by cases h; exact parts_induction step body
  | .scope body => step _ fun _ h => by cases h; exact parts_induction step body
  | .dynamic pick => step _ fun _ (.dynamic _ source captures) =>
    parts_induction step (pick source captures)
  | .operators operand table _ => step _ fun
    | _, .operand .. => parts_induction step operand
    | _, .operator _ _ h => parts_induction_table step table _ _ h
  | .label body _ => step _ fun _ h => by cases h; exact parts_induction step body
  | .halt => step _ fun _ h => nomatch h

/-- What follows for an expression from its parts goes for all expressions of a list. -/
theorem parts_induction_list {motive : Atom → Prop}
    (step : ∀ atom, (∀ part, IsPart part atom → motive part) → motive atom) :
    ∀ (atoms : List Atom) (atom : Atom), atom ∈ atoms → motive atom
  | [], _, h => nomatch h
  | first :: rest, atom, h => by
    rcases List.mem_cons.1 h with heq | h
    · rw [heq]
      exact parts_induction step first
    · exact parts_induction_list step rest atom h

/-- What follows for an expression from its parts goes for all operators of a table. -/
theorem parts_induction_table {motive : Atom → Prop}
    (step : ∀ atom, (∀ part, IsPart part atom → motive part) → motive atom) :
    ∀ (table : List (Fixity × Atom)) (fixity : Fixity) (atom : Atom),
      (fixity, atom) ∈ table → motive atom
  | [], _, _, h => nomatch h
  | (_, first) :: rest, _, _, h => by
    rcases List.mem_cons.1 h with heq | h
    · cases heq
      exact parts_induction step first
    · exact parts_induction_table step rest _ _ h

end

mutual

/-- The same expression with other references. -/
def mapRefs (f : RuleRef → RuleRef) : Atom → Atom
  | .literal text => .literal text
  | .char test => .char test
  | .sequence parts => .sequence (mapRefsAll f parts)
  | .choice branches => .choice (mapRefsAll f branches)
  | .repetition body min max optional => .repetition (body.mapRefs f) min max optional
  | .lookahead body positive => .lookahead (body.mapRefs f) positive
  | .named body name => .named (body.mapRefs f) name
  | .rule ref => .rule (f ref)
  | .ignore body => .ignore (body.mapRefs f)
  | .map body transform => .map (body.mapRefs f) transform
  | .mark body => .mark (body.mapRefs f)
  | .capture body name => .capture (body.mapRefs f) name
  | .scope body => .scope (body.mapRefs f)
  | .dynamic pick => .dynamic fun source captures => (pick source captures).mapRefs f
  | .operators operand table combine => .operators (operand.mapRefs f) (mapRefsTable f table) combine
  | .label body text => .label (body.mapRefs f) text
  | .halt => .halt

/-- The same expressions with other references. -/
def mapRefsAll (f : RuleRef → RuleRef) : List Atom → List Atom
  | [] => []
  | atom :: rest => atom.mapRefs f :: mapRefsAll f rest

/-- The same operators with other references. -/
def mapRefsTable (f : RuleRef → RuleRef) : List (Fixity × Atom) → List (Fixity × Atom)
  | [] => []
  | (fixity, atom) :: rest => (fixity, atom.mapRefs f) :: mapRefsTable f rest

end

/-- References change in each expression of a list. -/
theorem mapRefsAll_eq_map (f : RuleRef → RuleRef) (atoms : List Atom) :
    mapRefsAll f atoms = atoms.map (mapRefs f) := by
  induction atoms with
  | nil => rfl
  | cons atom rest ih => rw [mapRefsAll, ih, List.map_cons]

/-- References change in each operator of a table. -/
theorem mapRefsTable_eq_map (f : RuleRef → RuleRef) (table : List (Fixity × Atom)) :
    mapRefsTable f table = table.map fun op => (op.1, op.2.mapRefs f) := by
  induction table with
  | nil => rfl
  | cons op rest ih => rw [mapRefsTable, ih, List.map_cons]

/-- With the references that it has, it is the same expression. -/
theorem mapRefs_id (atom : Atom) : atom.mapRefs id = atom := by
  induction atom using parts_induction with
  | step atom ih =>
  cases atom with
  | literal text => rfl
  | char test => rfl
  | rule ref => rfl
  | halt => rfl
  | sequence parts =>
    rw [mapRefs, mapRefsAll_eq_map, List.map_congr_left fun part hp => ih part (.sequence hp), List.map_id']
  | choice branches =>
    rw [mapRefs, mapRefsAll_eq_map, List.map_congr_left fun branch hb => ih branch (.choice hb), List.map_id']
  | dynamic pick =>
    rw [mapRefs]
    congr
    funext source captures
    exact ih _ (.dynamic pick source captures)
  | operators operand table combine =>
    have htable : (table.map fun op => (op.1, op.2.mapRefs id)) = table.map fun op => op :=
      List.map_congr_left fun op hop => by rw [ih op.2 (.operator _ _ hop)]
    rw [mapRefs, mapRefsTable_eq_map, ih operand (.operand ..), htable, List.map_id']
  | repetition body min max optional => rw [mapRefs, ih body (.repetition ..)]
  | lookahead body positive => rw [mapRefs, ih body (.lookahead ..)]
  | named body name => rw [mapRefs, ih body (.named ..)]
  | ignore body => rw [mapRefs, ih body (.ignore _)]
  | map body transform => rw [mapRefs, ih body (.map ..)]
  | mark body => rw [mapRefs, ih body (.mark _)]
  | capture body name => rw [mapRefs, ih body (.capture ..)]
  | scope body => rw [mapRefs, ih body (.scope _)]
  | label body text => rw [mapRefs, ih body (.label ..)]

/-- The same expression where every reference leads to one rule. -/
def redirect (ref : RuleRef) : Atom → Atom := mapRefs fun _ => ref

/-- A condition holds of an expression and of everything that it is made of. -/
inductive Every (holds : Atom → Prop) : Atom → Prop where
  /-- The condition holds of the expression, and everywhere in its parts. -/
  | intro {atom : Atom} (here : holds atom) (parts : ∀ part, IsPart part atom → Every holds part) :
    Every holds atom

namespace Every

variable {holds : Atom → Prop} {atom part : Atom}

/-- What goes for an expression and its parts goes for the expression. -/
theorem here (h : Every holds atom) : holds atom := by
  cases h
  assumption

/-- What goes for an expression and its parts goes for a part and its parts. -/
theorem of_part (h : Every holds atom) (hp : IsPart part atom) : Every holds part := by
  cases h with
  | intro _ parts => exact parts part hp

variable (holds)

/-- A literal has no parts. -/
@[simp] theorem literal_iff (text : String) : Every holds (.literal text) ↔ holds (.literal text) :=
  ⟨here, fun h => .intro h fun _ hp => nomatch hp⟩

/-- A class of characters has no parts. -/
@[simp] theorem char_iff (test : CharClass) : Every holds (.char test) ↔ holds (.char test) :=
  ⟨here, fun h => .intro h fun _ hp => nomatch hp⟩

/-- A reference has no parts: the body it leads to is not one. -/
@[simp] theorem rule_iff (ref : RuleRef) : Every holds (.rule ref) ↔ holds (.rule ref) :=
  ⟨here, fun h => .intro h fun _ hp => nomatch hp⟩

/-- What takes in the rest has no parts. -/
@[simp] theorem halt_iff : Every holds .halt ↔ holds .halt :=
  ⟨here, fun h => .intro h fun _ hp => nomatch hp⟩

/-- The parts of a sequence are those it lists. -/
@[simp] theorem sequence_iff (parts : List Atom) :
    Every holds (.sequence parts) ↔ holds (.sequence parts) ∧ ∀ a ∈ parts, Every holds a :=
  ⟨fun h => ⟨h.here, fun _ ha => h.of_part (.sequence ha)⟩,
    fun h => .intro h.1 fun _ (.sequence ha) => h.2 _ ha⟩

/-- The parts of a choice are its branches. -/
@[simp] theorem choice_iff (branches : List Atom) :
    Every holds (.choice branches) ↔ holds (.choice branches) ∧ ∀ a ∈ branches, Every holds a :=
  ⟨fun h => ⟨h.here, fun _ ha => h.of_part (.choice ha)⟩,
    fun h => .intro h.1 fun _ (.choice ha) => h.2 _ ha⟩

/-- The part of a repetition is its body. -/
@[simp] theorem repetition_iff (body : Atom) (min : Nat) (max : Option Nat) (optional : Bool) :
    Every holds (.repetition body min max optional) ↔
      holds (.repetition body min max optional) ∧ Every holds body :=
  ⟨fun h => ⟨h.here, h.of_part (.repetition ..)⟩,
    fun h => .intro h.1 fun _ hp => by cases hp; exact h.2⟩

/-- The parts of an operator expression are its operand and its operators. -/
@[simp] theorem operators_iff (operand : Atom) (table : List (Fixity × Atom))
    (combine : Option (Tree → Tree → Tree → Tree)) :
    Every holds (.operators operand table combine) ↔ holds (.operators operand table combine) ∧
      Every holds operand ∧ ∀ op ∈ table, Every holds op.2 :=
  ⟨fun h => ⟨h.here, h.of_part (.operand ..), fun _ hop => h.of_part (.operator _ _ hop)⟩,
    fun h => .intro h.1 fun
      | _, .operand .. => h.2.1
      | _, .operator _ _ hop => h.2.2 _ hop⟩

end Every

section Operands

variable {atom : Atom} {holds : Atom → Prop}

/-- What is no sequence is its own only part. -/
theorem sequenceParts_eq_self (h : ¬ ∃ parts, atom = .sequence parts) : atom.sequenceParts = [atom] := by
  cases atom with
  | sequence parts => exact absurd ⟨parts, rfl⟩ h
  | _ => rfl

/-- What is no choice is its own only branch. -/
theorem choiceBranches_eq_self (h : ¬ ∃ branches, atom = .choice branches) : atom.choiceBranches = [atom] := by
  cases atom with
  | choice branches => exact absurd ⟨branches, rfl⟩ h
  | _ => rfl

/-- What holds everywhere in an expression holds everywhere in the parts that a sequence is made of. -/
theorem Every.sequenceParts (h : Every holds atom) : ∀ part ∈ atom.sequenceParts, Every holds part := by
  cases atom with
  | sequence parts => exact ((sequence_iff _ _).1 h).2
  | _ => exact List.forall_mem_singleton.2 h

/-- What holds everywhere in an expression holds everywhere in its branches. -/
theorem Every.choiceBranches (h : Every holds atom) : ∀ branch ∈ atom.choiceBranches, Every holds branch := by
  cases atom with
  | choice branches => exact ((choice_iff _ _).1 h).2
  | _ => exact List.forall_mem_singleton.2 h

end Operands

/-- A condition may be weakened. -/
theorem Every.mono {holds holds' : Atom → Prop} {atom : Atom} (h : Every holds atom)
    (weaker : ∀ atom, holds atom → holds' atom) : Every holds' atom := by
  induction h with
  | intro here _ ih => exact .intro (weaker _ here) ih

/-- Two conditions hold everywhere if both do. -/
theorem Every.and {holds holds' : Atom → Prop} {atom : Atom} (h : Every holds atom)
    (h' : Every holds' atom) : Every (fun a => holds a ∧ holds' a) atom := by
  induction h with
  | intro here _ ih => exact .intro ⟨here, h'.here⟩ fun part hp => ih part hp (h'.of_part hp)

/-- What holds of every expression holds everywhere in it. -/
theorem Every.of_forall {holds : Atom → Prop} (h : ∀ atom, holds atom) (atom : Atom) :
    Every holds atom := by
  induction atom using parts_induction with
  | step atom ih => exact .intro (h atom) ih

/-- A condition holds of an expression and of everything that it is made of, where of what a dynamic
expression can choose only that counts which it chooses for captures that fit. -/
inductive EveryFor (fits : Captures → Prop) (holds : Atom → Prop) : Atom → Prop where
  /-- The condition holds of the expression, and everywhere in its parts. -/
  | intro {atom : Atom} (here : holds atom)
    (parts : ∀ part, IsPart part atom → (∀ pick, atom ≠ .dynamic pick) → EveryFor fits holds part)
    (picks : ∀ pick source captures, atom = .dynamic pick → fits captures →
      EveryFor fits holds (pick source captures)) : EveryFor fits holds atom

/-- A condition may be weakened, and fewer captures may fit. -/
theorem EveryFor.mono {fits fits' : Captures → Prop} {holds holds' : Atom → Prop} {atom : Atom}
    (h : EveryFor fits holds atom) (hfits : ∀ captures, fits' captures → fits captures)
    (hholds : ∀ atom, holds atom → holds' atom) : EveryFor fits' holds' atom := by
  induction h with
  | intro here _ _ ihparts ihpicks =>
    exact .intro (hholds _ here) ihparts fun pick source captures heq hc =>
      ihpicks pick source captures heq (hfits captures hc)

/-- What holds everywhere holds for whatever captures. -/
theorem Every.everyFor {holds : Atom → Prop} {atom : Atom} (h : Every holds atom)
    (fits : Captures → Prop) : EveryFor fits holds atom := by
  induction h with
  | @intro atom here _ ih =>
    refine .intro here (fun part hp _ => ih part hp) fun pick source captures heq _ => ?_
    subst heq
    exact ih _ (.dynamic pick source captures)

/-- An expression whose match never depends on what was captured. -/
def isStatic : Atom → Bool
  | .dynamic _ => false
  | _ => true

/-- An expression that is not a label. -/
def isUnlabelled : Atom → Bool
  | .label _ _ => false
  | _ => true

end Atom

namespace RuleTable

/-- The body of the rule at a place in the table. -/
def bodyAt? (table : RuleTable) (index : Nat) : Option Atom :=
  table.definitions[index]?.map fun definition => definition.build table.rules

/-- A condition holds everywhere in the bodies of the rules. -/
def Every (holds : Atom → Prop) (table : RuleTable) : Prop :=
  ∀ index body, table.bodyAt? index = some body → body.Every holds

/-- Every body in the list is the body of the rule at its place. -/
def Knows (table : RuleTable) (bodies : List (Nat × Atom)) : Prop :=
  ∀ index body, bodies.lookup index = some body → table.bodyAt? index = some body

/-- Before any body was built, nothing wrong is known. -/
theorem knows_nil (table : RuleTable) : table.Knows [] := by
  intro index body h
  simp at h

/-- The body of one more rule may be added. -/
theorem Knows.cons {table : RuleTable} {bodies : List (Nat × Atom)} {index : Nat} {body : Atom}
    (h : table.Knows bodies) (hbody : table.bodyAt? index = some body) :
    table.Knows ((index, body) :: bodies) := by
  intro index' body' hl
  rw [List.lookup_cons] at hl
  split at hl
  · rename_i heq
    rw [beq_iff_eq] at heq
    cases hl
    rw [heq]
    exact hbody
  · exact h index' body' hl

/-- Whatever bodies were built, they are those of some table. -/
theorem exists_knows (bodies : List (Nat × Atom)) : ∃ table : RuleTable, table.Knows bodies := by
  have hbound : ∃ bound, ∀ index body, bodies.lookup index = some body → index < bound := by
    induction bodies with
    | nil => exact ⟨0, by simp⟩
    | cons entry rest ih =>
      obtain ⟨bound, hbound⟩ := ih
      refine ⟨max (entry.1 + 1) bound, fun index body h => ?_⟩
      rw [List.lookup_cons] at h
      split at h
      · rename_i hindex
        rw [beq_iff_eq] at hindex
        omega
      · have := hbound index body h
        omega
  obtain ⟨bound, hbound⟩ := hbound
  refine ⟨⟨0, (List.range bound).map fun index => ⟨"", fun _ => (bodies.lookup index).getD .halt⟩⟩,
    fun index body h => ?_⟩
  simp [bodyAt?, hbound index body h, h]

/-- A reference that resolves leads to a body. -/
theorem bodyAt?_isSome {table : RuleTable} {ref : RuleRef} {index : Nat}
    (h : table.resolve? ref = some index) : ∃ body, table.bodyAt? index = some body := by
  unfold resolve? at h
  split at h
  · obtain ⟨_, hlt⟩ := Option.filter_eq_some_iff.1 h
    have hlt : index < table.definitions.length := by simpa using hlt
    exact ⟨table.definitions[index].build table.rules, by simp [bodyAt?, hlt]⟩
  · cases h

/-- Only the rules of the table have bodies. -/
theorem index_lt_of_bodyAt? {table : RuleTable} {index : Nat} {body : Atom}
    (h : table.bodyAt? index = some body) : index < table.definitions.length := by
  unfold bodyAt? at h
  obtain ⟨definition, hd, _⟩ := Option.map_eq_some_iff.1 h
  exact (List.getElem?_eq_some_iff.1 hd).1

end RuleTable

end Packrat
