import Packrat.Proofs.Boundaries
import Packrat.Proofs.Reading

/-!
# Laws of reading

A reading with a larger bound, or with more rules that can be read, comes to the same wherever it
came to anything before; so an expression has at most one meaning. Readings never go back, and lead
from boundary to boundary. Operators that are read again and again without moving have no reading.
-/

namespace Packrat

namespace Reading

variable {α β : Type}

/-- Wherever the first reading comes to anything, the second comes to the same. -/
def Below (reading reading' : Reading α) : Prop :=
  ∀ start verdict, reading start = some verdict → reading' start = some verdict

/-- A reading comes to what it comes to. -/
theorem Below.refl (reading : Reading α) : Below reading reading := fun _ _ h => h

/-- A reading that was gone on after has matched or failed. -/
theorem resume_eq_some {outcome : Option (Verdict α)} {onMatch : α → Reading β}
    {onFailure : Cause → Option (Verdict β)} {verdict : Verdict β} :
    resume outcome onMatch onFailure = some verdict ↔
      (∃ cause, outcome = some (.failed cause) ∧ onFailure cause = some verdict) ∨
        ∃ value stop, outcome = some (.matched value stop) ∧
          onMatch value stop = some verdict := by
  cases outcome with
  | none => simp [resume]
  | some outcome =>
    cases outcome with
    | failed cause => simp [resume]
    | matched value stop => simp [resume, and_assoc]

/-- After a failure, only the handling of failures goes on. -/
@[simp] theorem resume_failed (cause : Cause) (onMatch : α → Reading β)
    (onFailure : Cause → Option (Verdict β)) :
    resume (some (.failed cause)) onMatch onFailure = onFailure cause := rfl

/-- After a match, the reading goes on from where it ended. -/
@[simp] theorem resume_matched (value : α) (stop : Nat) (onMatch : α → Reading β)
    (onFailure : Cause → Option (Verdict β)) :
    resume (some (.matched value stop)) onMatch onFailure = onMatch value stop := rfl

/-- Going on after a reading keeps the order. -/
theorem resume_mono {outcome outcome' : Option (Verdict α)} {onMatch onMatch' : α → Reading β}
    {onFailure onFailure' : Cause → Option (Verdict β)} {verdict : Verdict β}
    (h : resume outcome onMatch onFailure = some verdict)
    (hout : ∀ v, outcome = some v → outcome' = some v)
    (hmatch : ∀ value stop, onMatch value stop = some verdict → onMatch' value stop = some verdict)
    (hfail : ∀ cause, onFailure cause = some verdict → onFailure' cause = some verdict) :
    resume outcome' onMatch' onFailure' = some verdict := by
  rcases resume_eq_some.1 h with ⟨cause, ho, hv⟩ | ⟨value, stop, ho, hv⟩
  · rw [hout _ ho]
    exact hfail cause hv
  · rw [hout _ ho]
    exact hmatch value stop hv

section Order

variable {ι : Type} {items : List ι}

/-- Order is kept by one reading after another. -/
theorem Below.andThen {first first' : Reading α} {next next' : α → Reading β}
    (h : Below first first') (hn : ∀ value, Below (next value) (next' value)) :
    Below (first.andThen next) (first'.andThen next') := by
  intro start verdict hv
  exact resume_mono hv (h start) (fun value stop => hn value stop verdict) (fun _ => id)

/-- Order is kept by a change of the values. -/
theorem Below.map {body body' : Reading α} (h : Below body body') (f : α → β) :
    Below (body.map f) (body'.map f) := h.andThen fun _ => Below.refl _

/-- Order is kept by a sequence. -/
theorem below_inOrder (whole : Atom) {f f' : ι → Reading Raw}
    (h : ∀ i ∈ items, Below (f i) (f' i)) :
    Below (inOrder whole (items.map f)) (inOrder whole (items.map f')) := by
  induction items with
  | nil => exact Below.refl _
  | cons i rest ih =>
    have hrest := ih fun j hj => h j (List.mem_cons_of_mem _ hj)
    intro start verdict hv
    exact resume_mono hv (h i (by simp) start) (fun value stop => hrest.map _ stop verdict)
      (fun _ => id)

/-- Order is kept by ordered branches, whatever causes have been gathered. -/
theorem below_firstOf (whole : Atom) {f f' : ι → Reading α}
    (h : ∀ i ∈ items, Below (f i) (f' i)) (causes : List Cause) :
    Below (firstOf whole (items.map f) causes) (firstOf whole (items.map f') causes) := by
  induction items generalizing causes with
  | nil => exact Below.refl _
  | cons i rest ih =>
    have hrest := ih fun j hj => h j (List.mem_cons_of_mem _ hj)
    intro start verdict hv
    exact resume_mono hv (h i (by simp) start) (fun _ _ => id)
      (fun cause => hrest (cause :: causes) start verdict)

/-- Order is kept by rounds, also where the bound is larger. -/
theorem below_rounds {body body' : Reading Raw} (h : Below body body') (max : Option Nat)
    {bound bound' : Nat} (hb : bound ≤ bound') (count : Nat) :
    Below (rounds body max bound count) (rounds body' max bound' count) := by
  induction bound generalizing bound' count with
  | zero => intro start verdict hv; cases hv
  | succ bound ih =>
    obtain ⟨bound', rfl⟩ : ∃ b, bound' = b + 1 := ⟨bound' - 1, by omega⟩
    have hrest := ih (Nat.le_of_succ_le_succ hb) (count + 1)
    intro start verdict hv
    rw [rounds] at hv ⊢
    split at hv
    · rw [if_pos ‹_›]
      exact hv
    · rw [if_neg ‹_›]
      refine resume_mono hv (h start) (fun value stop hm => ?_) (fun _ => id)
      split at hm
      · rw [if_pos ‹_›]
        exact hm
      · rw [if_neg ‹_›]
        exact hrest.map _ stop verdict hm

/-- Order is kept by a repetition, also where the bound is larger. -/
theorem below_repetition (part : Atom) {body body' : Reading Raw} (h : Below body body')
    (min : Nat) (max : Option Nat) (optional : Bool) {bound bound' : Nat} (hb : bound ≤ bound') :
    Below (repetition part body min max optional bound)
      (repetition part body' min max optional bound') := by
  intro start verdict hv
  exact (below_rounds h max hb 0).andThen (fun _ => Below.refl _) start verdict hv

/-- Order is kept by the scan for an operator. -/
theorem below_operator (fixity : ι → Fixity) {f f' : ι → Reading Raw}
    (h : ∀ i ∈ items, Below (f i) (f' i)) :
    Below (operator (items.map fun i => (fixity i, f i)))
      (operator (items.map fun i => (fixity i, f' i))) := by
  induction items with
  | nil => exact Below.refl _
  | cons i rest ih =>
    have hrest := ih fun j hj => h j (List.mem_cons_of_mem _ hj)
    intro start verdict hv
    exact resume_mono hv (h i (by simp) start) (fun _ _ => id) (fun _ => hrest start verdict)

/-- Order is kept by climbing, also where the bound is larger. -/
theorem below_climbFrom {element element' : Reading Tree}
    {next next' : Reading (Option (Tree × Fixity))} (he : Below element element')
    (hn : Below next next') (combine : Tree → Tree → Tree → Tree) {bound bound' : Nat}
    (hb : bound ≤ bound') (floor : UInt32) (left : Tree) :
    Below (climbFrom element next combine bound floor left)
      (climbFrom element' next' combine bound' floor left) := by
  induction bound generalizing bound' floor left with
  | zero => intro start verdict hv; cases hv
  | succ bound ih =>
    obtain ⟨bound', rfl⟩ : ∃ b, bound' = b + 1 := ⟨bound' - 1, by omega⟩
    have hrest := ih (Nat.le_of_succ_le_succ hb)
    intro start verdict hv
    refine hn.andThen (fun found => ?_) start verdict hv
    cases found with
    | none => exact Below.refl _
    | some found =>
      dsimp only
      split
      · exact Below.refl _
      · exact he.andThen fun first => (hrest _ first).andThen fun right => hrest floor _

/-- Order is kept by an operator expression, also where the bound is larger. -/
theorem below_operators {element element' : Reading Tree}
    {next next' : Reading (Option (Tree × Fixity))} (he : Below element element')
    (hn : Below next next') (combine : Tree → Tree → Tree → Tree) {bound bound' : Nat}
    (hb : bound ≤ bound') :
    Below (operators element next combine bound) (operators element' next' combine bound') :=
  (he.andThen (below_climbFrom he hn combine hb 0)).map _

/-- Order is kept by the rounds of a loop, also where the bound is larger. -/
theorem below_iterate {step step' : Reading (List Raw)} (h : Below step step') {bound bound' : Nat}
    (hb : bound ≤ bound') (value : Tree) :
    Below (iterate step bound value) (iterate step' bound' value) := by
  induction bound generalizing bound' value with
  | zero => intro start verdict hv; cases hv
  | succ bound ih =>
    obtain ⟨bound', rfl⟩ : ∃ b, bound' = b + 1 := ⟨bound' - 1, by omega⟩
    intro start verdict hv
    refine resume_mono hv (h start) (fun raw stop hm => ?_) (fun _ => id)
    split at hm
    · rw [if_pos ‹_›]
      exact ih (Nat.le_of_succ_le_succ hb) _ stop verdict hm
    · rw [if_neg ‹_›]
      exact hm

end Order

/-- An operator that is read over and over without moving has no reading. -/
theorem climbFrom_eq_none {element : Reading Tree} {next : Reading (Option (Tree × Fixity))}
    {start behind : Nat} {symbol first : Tree} {fixity : Fixity}
    (hn : next start = some (.matched (some (symbol, fixity)) behind))
    (he : element behind = some (.matched first start)) (combine : Tree → Tree → Tree → Tree)
    (bound : Nat) (floor : UInt32) (hf : floor ≤ fixity.precedence) (left : Tree) :
    climbFrom element next combine bound floor left start = none := by
  induction bound generalizing floor left with
  | zero => rfl
  | succ bound ih =>
    have hlow : ¬ fixity.precedence < floor := UInt32.not_lt.2 hf
    simp only [climbFrom, andThen, hn, resume_matched, if_neg hlow, he]
    by_cases hright : fixity.rightFloor ≤ fixity.precedence
    · rw [ih _ hright]
      rfl
    · cases bound with
      | zero => rfl
      | succ bound =>
        -- the right operand is the single operand, and the same operator is read behind it again
        have hback : climbFrom element next combine (bound + 1) fixity.rightFloor first start
            = some (.matched first start) := by
          have : fixity.precedence < fixity.rightFloor := UInt32.not_le.1 hright
          simp only [climbFrom, andThen, hn, resume_matched, if_pos this]
        rw [hback, resume_matched, ih floor hf]

/-- From a boundary, the reading only ever matches up to a boundary that does not lie before it. -/
def Forward (text : Text) (reading : Reading α) : Prop :=
  ∀ start value stop, text.isBoundary start = true →
    reading start = some (.matched value stop) → start ≤ stop ∧ text.isBoundary stop = true

section Forward

variable {ι : Type} {items : List ι} {text : Text}

/-- One reading after another leads on if both do. -/
theorem Forward.andThen {first : Reading α} {next : α → Reading β} (h : Forward text first)
    (hn : ∀ value, Forward text (next value)) : Forward text (first.andThen next) := by
  intro start value stop hs hr
  rcases resume_eq_some.1 hr with ⟨_, _, hv⟩ | ⟨found, middle, hfirst, hv⟩
  · cases hv
  · obtain ⟨hle, hm⟩ := h start found middle hs hfirst
    obtain ⟨hle', hstop⟩ := hn found middle value stop hm hv
    exact ⟨Nat.le_trans hle hle', hstop⟩

/-- A value is read without moving. -/
theorem forward_value (value : α) : Forward text fun start => some (.matched value start) := by
  intro start value' stop hs hr
  cases hr
  exact ⟨Nat.le_refl _, hs⟩

/-- A change of the values does not change where a reading leads. -/
theorem Forward.map {body : Reading α} (h : Forward text body) (f : α → β) :
    Forward text (body.map f) := h.andThen fun value => forward_value (f value)

/-- A literal leads to the boundary after its last character. -/
theorem forward_literal (text : Text) (word : String) : Forward text (literal text word) := by
  intro start value stop hs hr
  simp only [literal] at hr
  split at hr
  · cases hr
  · split at hr
    · rename_i hw
      cases hr
      have hb := (Source.isBoundary_of_startsWith (s := { text, pos := start }) hs hw).2
      exact ⟨Nat.le_add_right _ _, hb⟩
    · cases hr

/-- A class of characters leads to the boundary after the character it takes. -/
theorem forward_character (text : Text) (test : CharClass) :
    Forward text (character text test) := by
  intro start value stop hs hr
  simp only [character] at hr
  split at hr
  · cases hr
  · rename_i c hc
    split at hr
    · cases hr
      have hb := (Source.isBoundary_of_nextChar? (s := { text, pos := start }) hs hc).2
      exact ⟨Nat.le_add_right _ _, hb⟩
    · cases hr

/-- A sequence leads on if its parts do. -/
theorem forward_inOrder (whole : Atom) {f : ι → Reading Raw}
    (h : ∀ i ∈ items, Forward text (f i)) : Forward text (inOrder whole (items.map f)) := by
  induction items with
  | nil =>
    intro start value stop hs hr
    cases hr
    exact ⟨Nat.le_refl _, hs⟩
  | cons i rest ih =>
    intro start value stop hs hr
    rcases resume_eq_some.1 hr with ⟨_, _, hv⟩ | ⟨first, middle, hi, hv⟩
    · cases hv
    · obtain ⟨hle, hm⟩ := h i (by simp) start first middle hs hi
      obtain ⟨hle', hstop⟩ :=
        (ih fun j hj => h j (List.mem_cons_of_mem _ hj)).map _ middle value stop hm hv
      exact ⟨Nat.le_trans hle hle', hstop⟩

/-- Ordered branches lead on if each branch does. -/
theorem forward_firstOf (whole : Atom) {f : ι → Reading α}
    (h : ∀ i ∈ items, Forward text (f i)) (causes : List Cause) :
    Forward text (firstOf whole (items.map f) causes) := by
  induction items generalizing causes with
  | nil => intro start value stop _ hr; cases hr
  | cons i rest ih =>
    intro start value stop hs hr
    rcases resume_eq_some.1 hr with ⟨cause, _, hv⟩ | ⟨value', stop', hi, hv⟩
    · exact ih (fun j hj => h j (List.mem_cons_of_mem _ hj)) (cause :: causes) start value stop hs hv
    · cases hv
      exact h i (by simp) start value stop hs hi

/-- Rounds lead on if their body does. -/
theorem forward_rounds {body : Reading Raw} (h : Forward text body) (max : Option Nat)
    (bound count : Nat) : Forward text (rounds body max bound count) := by
  induction bound generalizing count with
  | zero => intro start value stop _ hr; cases hr
  | succ bound ih =>
    intro start value stop hs hr
    rw [rounds] at hr
    split at hr
    · cases hr
      exact ⟨Nat.le_refl _, hs⟩
    · rcases resume_eq_some.1 hr with ⟨_, _, hv⟩ | ⟨first, middle, hbody, hv⟩
      · cases hv
        exact ⟨Nat.le_refl _, hs⟩
      · obtain ⟨hle, hm⟩ := h start first middle hs hbody
        split at hv
        · cases hv
          exact ⟨hle, hm⟩
        · obtain ⟨hle', hstop⟩ := (ih (count + 1)).map _ middle value stop hm hv
          exact ⟨Nat.le_trans hle hle', hstop⟩

/-- A repetition leads on if its body does. -/
theorem forward_repetition (part : Atom) {body : Reading Raw} (h : Forward text body) (min : Nat)
    (max : Option Nat) (optional : Bool) (bound : Nat) :
    Forward text (repetition part body min max optional bound) := by
  intro start value stop hs hr
  refine (forward_rounds h max bound 0).andThen (fun rounds => ?_) start value stop hs hr
  dsimp only
  split
  · intro _ _ _ _ hv
    cases hv
  · exact forward_value _

/-- A lookahead leads to where it began, wherever its part leads. -/
theorem forward_lookahead (part : Atom) (body : Reading Raw) (positive : Bool) :
    Forward text (lookahead part body positive) := by
  intro start value stop hs hr
  rcases resume_eq_some.1 hr with ⟨_, _, hv⟩ | ⟨_, _, _, hv⟩ <;> split at hv <;> cases hv <;>
    exact ⟨Nat.le_refl _, hs⟩

/-- A marked part leads to where it began. -/
theorem forward_marked (body : Reading Raw) : Forward text (marked body) := by
  intro start value stop hs hr
  rcases resume_eq_some.1 hr with ⟨_, _, hv⟩ | ⟨_, _, _, hv⟩ <;> cases hv
  exact ⟨Nat.le_refl _, hs⟩

/-- An operand leads on if the expression for it does. -/
theorem forward_operand (part : Atom) {body : Reading Raw} (h : Forward text body) :
    Forward text (operand part body) := by
  intro start value stop hs hr
  rcases resume_eq_some.1 hr with ⟨_, _, hv⟩ | ⟨raw, stop', hbody, hv⟩
  · cases hv
  · cases hv
    exact h start raw stop hs hbody

/-- The scan for an operator leads on if the operators do, and stays where none is found. -/
theorem forward_operator (fixity : ι → Fixity) {f : ι → Reading Raw}
    (h : ∀ i ∈ items, Forward text (f i)) :
    Forward text (operator (items.map fun i => (fixity i, f i))) := by
  induction items with
  | nil =>
    intro start value stop hs hr
    cases hr
    exact ⟨Nat.le_refl _, hs⟩
  | cons i rest ih =>
    intro start value stop hs hr
    rcases resume_eq_some.1 hr with ⟨_, _, hv⟩ | ⟨raw, stop', hi, hv⟩
    · exact ih (fun j hj => h j (List.mem_cons_of_mem _ hj)) start value stop hs hv
    · cases hv
      exact h i (by simp) start raw stop hs hi

/-- Climbing leads on if operand and scan do. -/
theorem forward_climbFrom {element : Reading Tree} {next : Reading (Option (Tree × Fixity))}
    (he : Forward text element) (hn : Forward text next) (combine : Tree → Tree → Tree → Tree)
    (bound : Nat) (floor : UInt32) (left : Tree) :
    Forward text (climbFrom element next combine bound floor left) := by
  induction bound generalizing floor left with
  | zero => intro start value stop _ hr; cases hr
  | succ bound ih =>
    intro start value stop hs hr
    rcases resume_eq_some.1 hr with ⟨_, _, hv⟩ | ⟨found, behind, hnext, hv⟩
    · cases hv
    · obtain ⟨hle, hbehind⟩ := hn start found behind hs hnext
      have hright (symbol : Tree) (fixity : Fixity) : Forward text (element.andThen fun first =>
          (climbFrom element next combine bound fixity.rightFloor first).andThen fun right =>
            climbFrom element next combine bound floor (combine left symbol right)) :=
        he.andThen fun first => (ih _ first).andThen fun right => ih floor _
      cases found with
      | none =>
        cases hv
        exact ⟨hle, hbehind⟩
      | some found =>
        dsimp only at hv
        split at hv
        · cases hv
          exact ⟨Nat.le_refl _, hs⟩
        · obtain ⟨hle', hstop⟩ := hright found.1 found.2 behind value stop hbehind hv
          exact ⟨Nat.le_trans hle hle', hstop⟩

/-- An operator expression leads on if its operand and its scan do. -/
theorem forward_operators {element : Reading Tree} {next : Reading (Option (Tree × Fixity))}
    (he : Forward text element) (hn : Forward text next) (combine : Tree → Tree → Tree → Tree)
    (bound : Nat) : Forward text (operators element next combine bound) :=
  (he.andThen (forward_climbFrom he hn combine bound 0)).map _

/-- Taking in the rest leads to the end of the text. -/
theorem forward_halt (text : Text) : Forward text (halt text) := by
  intro start value stop hs hr
  cases hr
  have hle := Text.le_size_of_isBoundary hs
  have hend : start + (text.size - start) = text.size := by omega
  exact ⟨Nat.le_add_right _ _, by rw [hend]; exact text.isBoundary_size⟩

/-- The rounds of a loop lead on if its step does. -/
theorem forward_iterate {step : Reading (List Raw)} (h : Forward text step) (bound : Nat) (value : Tree) :
    Forward text (iterate step bound value) := by
  induction bound generalizing value with
  | zero => intro start value stop _ hr; cases hr
  | succ bound ih =>
    intro start result stop hs hr
    rcases resume_eq_some.1 hr with ⟨_, _, hv⟩ | ⟨raw, middle, hstep, hv⟩
    · cases hv
      exact ⟨Nat.le_refl _, hs⟩
    · obtain ⟨hle, hm⟩ := h start raw middle hs hstep
      split at hv
      · obtain ⟨hle', hstop⟩ := ih _ middle result stop hm hv
        exact ⟨by omega, hstop⟩
      · cases hv
        exact ⟨Nat.le_refl _, hs⟩

end Forward

end Reading

open Reading

namespace Atom

variable {text : Text} {rule rule' : RuleRef → Reading Tree} {bound bound' : Nat}

/-- The readings of a list of atoms are those of the atoms, one by one. -/
theorem readings_eq_map (text : Text) (rule : RuleRef → Reading Tree) (bound : Nat)
    (atoms : List Atom) :
    readings text rule bound atoms = atoms.map (·.reading text rule bound) := by
  induction atoms with
  | nil => rfl
  | cons atom rest ih => rw [readings, ih, List.map_cons]

/-- The readings of a table of operators keep the precedences. -/
theorem operatorReadings_eq_map (text : Text) (rule : RuleRef → Reading Tree) (bound : Nat)
    (table : List (Fixity × Atom)) :
    operatorReadings text rule bound table
      = table.map fun op => (op.1, op.2.reading text rule bound) := by
  induction table with
  | nil => rfl
  | cons op rest ih => rw [operatorReadings, ih, List.map_cons]

/-- With more rules that can be read and a larger bound, an expression comes to the same. -/
theorem reading_mono (hrule : ∀ ref, Below (rule ref) (rule' ref)) (hb : bound ≤ bound')
    (atom : Atom) : Below (atom.reading text rule bound) (atom.reading text rule' bound') := by
  induction atom using parts_induction with
  | step atom ih =>
  cases atom with
  | literal word => exact Below.refl _
  | char test => exact Below.refl _
  | sequence parts =>
    simp only [reading, readings_eq_map]
    exact (below_inOrder _ fun a ha => ih a (.sequence ha)).map _
  | choice branches =>
    simp only [reading, readings_eq_map]
    exact below_firstOf _ (fun a ha => ih a (.choice ha)) []
  | repetition body min max optional =>
    exact below_repetition body (ih body (.repetition ..)) min max optional hb
  | lookahead body positive =>
    intro start verdict hv
    exact resume_mono hv (ih body (.lookahead ..) start) (fun _ _ => id) (fun _ => id)
  | named body name => exact ((ih body (.named ..)).map _).map _
  | rule ref => exact (hrule ref).map _
  | ignore body => exact (ih body (.ignore _)).map _
  | map body transform => exact ((ih body (.map ..)).map _).map _
  | mark body =>
    intro start verdict hv
    exact resume_mono hv (ih body (.mark _) start) (fun _ _ => id) (fun _ => id)
  | capture body name => exact ((ih body (.capture ..)).map _).map _
  | scope body => exact ih body (.scope _)
  | dynamic pick => intro start verdict hv; cases hv
  | operators operand table combine =>
    simp only [reading, operatorReadings_eq_map]
    refine below_operators ?_ (below_operator _ fun op h => ih op.2 (.operator _ _ h)) _ hb
    intro start verdict hv
    exact resume_mono hv (ih operand (.operand ..) start) (fun _ _ => id) (fun _ => id)
  | label body label => exact ih body (.label ..)
  | halt => exact Below.refl _

/-- An expression is read forward if references are. -/
theorem forward_reading (hrule : ∀ ref, Forward text (rule ref)) (bound : Nat) (atom : Atom) :
    Forward text (atom.reading text rule bound) := by
  induction atom using parts_induction with
  | step atom ih =>
  cases atom with
  | literal word => exact forward_literal text word
  | char test => exact forward_character text test
  | sequence parts =>
    simp only [reading, readings_eq_map]
    exact (forward_inOrder _ fun a ha => ih a (.sequence ha)).map _
  | choice branches =>
    simp only [reading, readings_eq_map]
    exact forward_firstOf _ (fun a ha => ih a (.choice ha)) []
  | repetition body min max optional =>
    exact forward_repetition body (ih body (.repetition ..)) min max optional bound
  | lookahead body positive => exact forward_lookahead _ _ _
  | named body name => exact ((ih body (.named ..)).map _).map _
  | rule ref => exact (hrule ref).map _
  | ignore body => exact (ih body (.ignore _)).map _
  | map body transform => exact ((ih body (.map ..)).map _).map _
  | mark body => exact forward_marked _
  | capture body name => exact ((ih body (.capture ..)).map _).map _
  | scope body => exact ih body (.scope _)
  | dynamic pick => intro start value stop _ hr; cases hr
  | operators operand table combine =>
    simp only [reading, operatorReadings_eq_map]
    exact forward_operators (forward_operand _ (ih operand (.operand ..)))
      (forward_operator _ fun op h => ih op.2 (.operator _ _ h)) _ bound
  | label body label => exact ih body (.label ..)
  | halt => exact forward_halt text

end Atom

namespace Loop

variable {text : Text} {rule rule' : RuleRef → Reading Tree} {bound bound' : Nat}

/-- A larger bound, or rules that can be read further, keep what the step of a loop comes to. -/
theorem step_mono (loop : Loop) (hrule : ∀ ref, Below (rule ref) (rule' ref))
    (hb : bound ≤ bound') : Below (loop.step text rule bound) (loop.step text rule' bound') := by
  simp only [step, Atom.readings_eq_map]
  exact below_firstOf _ (fun parts _ => below_inOrder _ fun a _ => Atom.reading_mono hrule hb a) []

/-- A larger bound, or rules that can be read further, keep what a loop comes to. -/
theorem reading_mono (loop : Loop) (hrule : ∀ ref, Below (rule ref) (rule' ref))
    (hb : bound ≤ bound') :
    Below (loop.reading text rule bound) (loop.reading text rule' bound') :=
  ((Atom.reading_mono hrule hb _).map _).andThen (below_iterate (loop.step_mono hrule hb) hb)

/-- The step of a loop leads on if rules do. -/
theorem forward_step (loop : Loop) (hrule : ∀ ref, Forward text (rule ref)) (bound : Nat) :
    Forward text (loop.step text rule bound) := by
  simp only [step, Atom.readings_eq_map]
  exact forward_firstOf _
    (fun parts _ => forward_inOrder _ fun a _ => Atom.forward_reading hrule bound a) []

/-- A loop leads on if rules do. -/
theorem forward_reading (loop : Loop) (hrule : ∀ ref, Forward text (rule ref)) (bound : Nat) :
    Forward text (loop.reading text rule bound) :=
  ((Atom.forward_reading hrule bound _).map _).andThen
    (forward_iterate (loop.forward_step hrule bound) bound)

end Loop

namespace RuleTable

variable {text : Text} {loop : Option Loop}

/-- Where more rules can be read, references keep what they come to. -/
theorem readRef_mono (table : RuleTable) {read read' : Nat → Reading Tree}
    (h : ∀ index, Below (read index) (read' index)) (ref : RuleRef) :
    Below (table.readRef read ref) (table.readRef read' ref) := by
  unfold readRef
  cases table.resolve? ref with
  | none => exact Below.refl _
  | some index => exact h index

/-- A rule that is read comes to the same with a larger depth. -/
theorem readRule_mono (table : RuleTable) {depth depth' : Nat} (hd : depth ≤ depth')
    (index : Nat) :
    Below (table.readRule text loop depth index) (table.readRule text loop depth' index) := by
  induction depth generalizing depth' index with
  | zero => intro start verdict hv; cases hv
  | succ depth ih =>
    obtain ⟨depth', rfl⟩ : ∃ d, depth' = d + 1 := ⟨depth' - 1, by omega⟩
    have hle := Nat.le_of_succ_le_succ hd
    have hrule := table.readRef_mono (fun index => ih hle index)
    simp only [readRule]
    cases loop.filter (·.rule = index) with
    | some loop => exact loop.reading_mono hrule hle
    | none =>
      cases table.bodyAt? index with
      | some body => exact (Atom.reading_mono hrule hle body).map _
      | none => exact Below.refl _

/-- A rule has at most one reading, whatever the depths. -/
theorem readRule_unique (table : RuleTable) {depth depth' index start : Nat}
    {verdict verdict' : Verdict Tree}
    (h : table.readRule text loop depth index start = some verdict)
    (h' : table.readRule text loop depth' index start = some verdict') : verdict = verdict' := by
  have hl := table.readRule_mono (Nat.le_max_left depth depth') index start verdict h
  have hr := table.readRule_mono (Nat.le_max_right depth depth') index start verdict' h'
  rw [hl] at hr
  exact Option.some.inj hr

/-- A rule that is read has a least depth at which it is read. -/
theorem exists_least_depth (table : RuleTable) {depth index start : Nat} {verdict : Verdict Tree}
    (h : table.readRule text loop depth index start = some verdict) :
    ∃ depth' < depth, table.readRule text loop depth' index start = none ∧
      table.readRule text loop (depth' + 1) index start = some verdict := by
  induction depth with
  | zero => cases h
  | succ depth ih =>
    cases hd : table.readRule text loop depth index start with
    | none => exact ⟨depth, Nat.lt_succ_self _, hd, h⟩
    | some verdict' =>
      rw [table.readRule_unique hd h] at hd
      obtain ⟨depth', hlt, hnone, hsome⟩ := ih hd
      exact ⟨depth', Nat.lt_succ_of_lt hlt, hnone, hsome⟩

/-- A reference leads on if the rules of the table do; one that leads nowhere is refused. -/
theorem forward_readRef (table : RuleTable) {read : Nat → Reading Tree}
    (h : ∀ index, Forward text (read index)) (ref : RuleRef) :
    Forward text (table.readRef read ref) := by
  unfold readRef
  cases table.resolve? ref with
  | none => intro start value stop _ hr; cases hr
  | some index => exact h index

/-- Rules are read forward. -/
theorem forward_readRule (table : RuleTable) (depth index : Nat) :
    Forward text (table.readRule text loop depth index) := by
  induction depth generalizing index with
  | zero => intro start value stop _ hr; cases hr
  | succ depth ih =>
    simp only [readRule]
    cases loop.filter (·.rule = index) with
    | some loop => exact loop.forward_reading (table.forward_readRef ih) depth
    | none =>
      cases table.bodyAt? index with
      | some body => exact (Atom.forward_reading (table.forward_readRef ih) depth body).map _
      | none => intro start value stop _ hr; cases hr

end RuleTable

end Packrat
