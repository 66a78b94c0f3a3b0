import Packrat.Proofs.Abreast
import Packrat.Proofs.Habits

/-!
# What matching does not depend on

The reporter, the noting of overwritten keys and the trace are written to all along a match, but nothing
in a match reads them. Two sessions that differ in nothing else are twins: every step comes to the same
from both of them, and leaves twins behind. So the settings of a parse decide only on what is made of its
match, never on the match.
-/

namespace Packrat

open Matcher

/-- The session after a key was overwritten in it. -/
def Session.note (s : Session) (key : String) : Session :=
  if s.warn then
    { s with
      overwritten := key :: s.overwritten
      trace := .keyOverwritten key :: s.trace }
  else s

/-- The keys noted after one more was overwritten, the latest first. -/
def noting (warn : Bool) (key : String) (noted : List String) : List String :=
  if warn then key :: noted else noted

/-- How far what two sessions note and have captured may differ. Whatever is noted or captured in both of
them makes no difference to that. -/
structure Likeness where
  /-- What the first session notes, and has noted, goes with what the second one does and has. -/
  Notes : Bool → List String → Bool → List String → Prop
  /-- What the first session has captured goes with what the second one has. -/
  Captures : Captures → Captures → Prop
  noted : ∀ {warn noted warn' noted'} key, Notes warn noted warn' noted' →
    Notes warn (noting warn key noted) warn' (noting warn' key noted')
  inserted : ∀ {captures captures'} name value, Captures captures captures' →
    Captures (captures.insert name value) (captures'.insert name value)
  opened : ∀ {captures captures'}, Captures captures captures' → Captures captures.openScope captures'.openScope
  closed : ∀ {captures captures'}, Captures captures captures' →
    Captures captures.closeScope captures'.closeScope

namespace Likeness

/-- The same was captured, whatever was noted. -/
def captures : Likeness where
  Notes _ _ _ _ := True
  Captures captures captures' := captures' = captures
  noted _ _ := trivial
  inserted name value h := congrArg (·.insert name value) h
  opened h := congrArg _ h
  closed h := congrArg _ h

/-- Both sessions note keys or neither does, and the second one had noted some before that. -/
def notesAfter (before : List String) : Likeness where
  Notes warn noted warn' noted' := warn' = warn ∧ noted' = noted ++ before
  Captures captures captures' := captures' = captures
  noted := by
    rintro warn noted _ _ key ⟨rfl, rfl⟩
    refine ⟨rfl, ?_⟩
    unfold noting
    split <;> rfl
  inserted name value h := congrArg (·.insert name value) h
  opened h := congrArg _ h
  closed h := congrArg _ h

/-- The same was noted, whatever was captured. -/
def notes : Likeness where
  Notes warn noted warn' noted' := warn' = warn ∧ noted' = noted
  Captures _ _ := True
  noted := by
    rintro warn noted _ _ key ⟨rfl, rfl⟩
    exact ⟨rfl, rfl⟩
  inserted _ _ _ := trivial
  opened _ := trivial
  closed _ := trivial

end Likeness

/-- Sessions that differ in nothing that a match reads, but for captures that are alike. -/
structure Twins (L : Likeness) (s s' : Session) : Prop where
  source : s'.source = s.source
  bodies : s'.bodies = s.bodies
  memo : s'.memo = s.memo
  captures : L.Captures s.captures s'.captures
  labels : s'.labels = s.labels
  undefined : s'.undefined = s.undefined
  notes : L.Notes s.warn s.overwritten s'.warn s'.overwritten

namespace Twins

variable {L : Likeness} {s s' : Session}

/-- The same key may be overwritten in both. -/
theorem note (h : Twins L s s') (key : String) : Twins L (s.note key) (s'.note key) := by
  have hnote (s : Session) : s.note key = { s with
      overwritten := noting s.warn key s.overwritten
      trace := (s.note key).trace } := by
    unfold Session.note noting
    split <;> rfl
  rw [hnote s, hnote s']
  exact ⟨h.source, h.bodies, h.memo, h.captures, h.labels, h.undefined, L.noted key h.notes⟩

/-- Reporters and traces may change in any way. -/
theorem told (h : Twins L s s') (reporter reporter' : Reporter) (trace trace' : List Event) :
    Twins L { s with reporter, trace } { s' with reporter := reporter', trace := trace' } :=
  ⟨h.source, h.bodies, h.memo, h.captures, h.labels, h.undefined, h.notes⟩

/-- The memos may change in the same way. -/
theorem modifyMemo (h : Twins L s s') (f : Memo → Memo) :
    Twins L { s with memo := f s.memo } { s' with memo := f s'.memo } :=
  ⟨h.source, h.bodies, congrArg f h.memo, h.captures, h.labels, h.undefined, h.notes⟩

end Twins

namespace Matcher

variable {L : Likeness} {α β : Type}

/-- Overwritten keys are noted one after the other. -/
theorem noteAllOverwritten_cons (key : String) (rest : List String) (s : Session) :
    noteAllOverwritten (key :: rest) s = noteAllOverwritten rest (s.note key) := by
  have hstep : noteAllOverwritten (key :: rest) s
      = (do if s.warn then noteOverwritten key
            noteAllOverwritten rest : Matcher Unit) s := rfl
  rw [hstep, Session.note]
  by_cases hw : s.warn = true
  · simp only [if_pos hw]
    rfl
  · simp only [if_neg hw]

/-- From twins the step comes to the same, and leaves twins behind. -/
def Blind (L : Likeness) (step : Matcher α) : Prop :=
  ∀ s s', Twins L s s' → Abreast step step s s' fun r t r' t' => r' = r ∧ Twins L t t'

/-- What is reported does not matter to a match. -/
theorem blind_tell (report : Report) : Blind L (tell report) :=
  fun _ _ h => ⟨rfl, h.told _ _ _ _⟩

/-- A refusal depends on the labels alone, which twins share. -/
theorem blind_refuse (message : Message) (offset : Nat) (children : List Cause) :
    Blind L (refuse message offset children : Matcher α) := by
  intro s s' h
  rw [abreast_refuse]
  exact ⟨by rw [h.labels], h.told _ _ _ _⟩

/-- Two steps in a row are blind if both are. -/
theorem blind_bind {step : Matcher α} {next : α → Matcher β} (h : Blind L step)
    (hnext : ∀ value, Blind L (next value)) : Blind L (step >>= next) := by
  intro s s' hs
  refine (h s s' hs).bind fun r t r' t' ht => ?_
  obtain ⟨rfl, ht⟩ := ht
  cases r' with
  | error cause => exact ⟨rfl, ht⟩
  | ok value => exact hnext value t t' ht

/-- A step whose failure is handed on as a value stays blind. -/
theorem blind_attempt {step : Matcher α} (h : Blind L step) : Blind L (attempt step) := by
  intro s s' hs
  refine (h s s' hs).attempt.mono fun r t r' t' ht => ?_
  obtain ⟨r₁, r₂, rfl, rfl, rfl, ht⟩ := ht
  exact ⟨rfl, ht⟩

/-- Moving the cursor looks at the text alone. -/
theorem blind_moveTo (pos : Nat) : Blind L (moveTo pos) := by
  intro s s' h
  unfold moveTo Abreast Ensures
  dsimp only
  rw [h.source]
  cases s.source.setPos? pos with
  | none => rfl
  | some source => exact ⟨rfl, rfl, h.bodies, h.memo, h.captures, h.labels, h.undefined, h.notes⟩

/-- Consuming looks at the text alone. -/
theorem blind_consume (n : Nat) : Blind L (consume n) := by
  intro s s' h
  unfold consume Abreast Ensures
  dsimp only
  rw [h.source]
  cases s.source.consume? n with
  | none => rfl
  | some found => exact ⟨rfl, rfl, h.bodies, h.memo, h.captures, h.labels, h.undefined, h.notes⟩

/-- Twins have the same text before them. -/
theorem blind_source : Blind L source := fun _ _ h => ⟨by rw [h.source], h⟩

/-- A literal looks at the text alone. -/
theorem blind_literal (word : String) : Blind L (literal word) := by
  refine blind_bind blind_source fun source => ?_
  split
  · exact blind_refuse _ _ _
  · split
    · exact blind_bind (blind_consume _) fun _ _ _ h => ⟨rfl, h⟩
    · exact blind_refuse _ _ _

/-- A class of characters looks at the text alone. -/
theorem blind_character (whole : Atom) (test : Char → Bool) : Blind L (character whole test) := by
  refine blind_bind blind_source fun source => ?_
  split
  · exact blind_refuse _ _ _
  · split
    · exact blind_bind (blind_consume _) fun _ _ _ h => ⟨rfl, h⟩
    · exact blind_refuse _ _ _

/-- Flattening comes to the same tree, whatever is noted of overwritten keys. -/
theorem blind_flatten (named : Bool) (raw : Raw) : Blind L (flatten named raw) := by
  have hkeys (keys : List String) : Blind L (noteAllOverwritten keys) := by
    induction keys with
    | nil => exact fun s s' h => ⟨rfl, h⟩
    | cons key rest ih =>
      exact fun s s' h => (ih _ _ (h.note key)).congr (noteAllOverwritten_cons key rest s)
        (noteAllOverwritten_cons key rest s')
  exact blind_bind (hkeys _) fun _ s s' h => ⟨rfl, h⟩

/-- What is chosen is the same if the captures are. -/
theorem blind_dynamic (hL : ∀ captures captures', L.Captures captures captures' → captures' = captures)
    {chosen : Source → Captures → Matcher Raw} (h : ∀ source captures, Blind L (chosen source captures)) :
    Blind L fun s => chosen s.source s.captures s := by
  intro s s' hs
  refine (h s.source s.captures s s' hs).congr rfl ?_
  rw [hs.source, hL _ _ hs.captures]

/-- Ordered branches are blind if each of them is. -/
theorem blind_firstOf (whole : Atom) (start : Nat) {branches : List (Matcher Raw)}
    (h : ∀ branch ∈ branches, Blind L branch) (causes : List Cause) :
    Blind L (firstOf whole start branches causes) := by
  induction branches generalizing causes with
  | nil => exact blind_bind (blind_tell _) fun _ => blind_refuse _ _ _
  | cons branch rest ih =>
    refine blind_bind (blind_attempt (h branch (by simp))) fun outcome => ?_
    cases outcome with
    | ok value => exact blind_bind (blind_tell _) fun _ s s' hs => ⟨rfl, hs⟩
    | error cause => exact ih (fun branch hb => h branch (List.mem_cons_of_mem _ hb)) _

/-- Twins are at the same offset. -/
theorem blind_position : Blind L position := fun s s' h => ⟨by rw [h.source], h⟩

/-- A result at hand does not depend on the session. -/
theorem blind_ofResult (result : Except Cause α) : Blind L (ofResult result) := by
  cases result <;> exact fun s s' h => ⟨rfl, h⟩

/-- What is changed around a step is changed in the same way on both sides. -/
theorem blind_around {body : Matcher Raw} {before after : Session → Session}
    (hbefore : ∀ s s', Twins L s s' → Twins L (before s) (before s'))
    (hafter : ∀ s s', Twins L s s' → Twins L (after s) (after s')) (h : Blind L body) :
    Blind L (do modify before; let outcome ← attempt body; modify after; ofResult outcome) :=
  blind_bind (fun s s' hs => ⟨rfl, hbefore s s' hs⟩) fun _ => blind_bind (blind_attempt h) fun outcome =>
    blind_bind (fun s s' hs => ⟨rfl, hafter s s' hs⟩) fun _ => blind_ofResult outcome

/-- To come to the same from twins is a habit. -/
def blind (L : Likeness) : Habit where
  Has := Blind L
  pure _ _ _ h := ⟨rfl, h⟩
  fail _ _ _ h := ⟨rfl, h⟩
  stop _ _ _ _ := rfl
  bind := blind_bind
  attempt := blind_attempt
  position := blind_position
  source := blind_source
  moveTo := blind_moveTo
  literal := blind_literal
  character := blind_character
  halt := blind_bind blind_source fun _ => blind_bind (blind_consume _) fun _ _ _ h => ⟨rfl, h⟩
  emit _ _ _ h := ⟨rfl, h.told _ _ _ _⟩
  announce _ := blind_tell _
  refuse := blind_refuse
  flatten := blind_flatten
  choice h := blind_bind blind_position fun start => blind_bind (blind_tell _) fun _ =>
    blind_firstOf _ start h []
  inScope := blind_around
    (fun _ _ h => ⟨h.source, h.bodies, h.memo, L.opened h.captures, h.labels, h.undefined,
      h.notes⟩)
    fun _ _ h => ⟨h.source, h.bodies, h.memo, L.closed h.captures, h.labels, h.undefined,
      h.notes⟩
  labelled text := blind_around
    (fun _ _ h => ⟨h.source, h.bodies, h.memo, h.captures, congrArg (text :: ·) h.labels, h.undefined,
      h.notes⟩)
    fun _ _ h => ⟨h.source, h.bodies, h.memo, h.captures, congrArg List.tail h.labels, h.undefined, h.notes⟩

/-- A captured part is blind if the part is: the same value is captured by both twins. -/
theorem blind_captured {body : Matcher Raw} (h : Blind L body) (name : String) :
    Blind L (captured body name) :=
  blind_bind h fun raw => blind_bind (blind_flatten false raw) fun value => blind_bind
    (fun _ _ h => ⟨rfl, h.source, h.bodies, h.memo, L.inserted name value h.captures, h.labels,
      h.undefined, h.notes⟩) fun _ _ _ h => ⟨rfl, h⟩

section Memo

/-- Twins have the same memo. -/
theorem blind_memo : Blind L memo := fun _ _ h => ⟨by rw [h.memo], h⟩

/-- The memos of twins may change in the same way. -/
theorem blind_modifyMemo (f : Memo → Memo) : Blind L (modifyMemo f) := fun _ _ h => ⟨rfl, h.modifyMemo f⟩

/-- The same entries are forgotten by both twins, and what is told of that does not matter. -/
theorem blind_forget (rules : List Nat) (start : Nat) : Blind L (forget rules start) :=
  blind_bind blind_memo fun _ => blind_bind (blind_modifyMemo _) fun _ _ _ h => ⟨rfl, h.told _ _ _ _⟩

/-- Twins resolve a reference to the same body, and know it from then on. -/
theorem blind_resolve (table : RuleTable) (ref : RuleRef) : Blind L (table.resolve ref) := by
  intro s s' h
  unfold RuleTable.resolve Abreast Ensures
  dsimp only
  rw [h.bodies]
  cases (table.resolve? ref).bind fun index => (table.body? index s.bodies).map (index, ·) with
  | none => exact ⟨rfl, h⟩
  | some found => exact ⟨rfl, h.source, rfl, h.memo, h.captures, h.labels, h.undefined, h.notes⟩

/-- The name of a rule that is missing is noted by both twins. -/
theorem blind_refuseUndefined (name : String) : Blind L (RuleTable.refuseUndefined name) := by
  have hrefuse : Blind L (do refuse (.undefinedRule name) (← position) [] : Matcher Raw) :=
    blind_bind blind_position fun pos => blind_refuse _ pos []
  have hnote : Blind L (modify fun s =>
      { s with
        undefined := some name
        trace := .aborted name :: s.trace }) :=
    fun _ _ h => ⟨rfl, h.source, h.bodies, h.memo, h.captures, h.labels, rfl, h.notes⟩
  have hcheck (undefined : Option String) : Blind L (do
      if undefined.isNone then
        modify fun s => { s with undefined := some name, trace := .aborted name :: s.trace }
      refuse (.undefinedRule name) (← position) [] : Matcher Raw) := by
    dsimp only
    split
    · exact blind_bind hnote fun _ => hrefuse
    · exact hrefuse
  intro s s' h
  refine (hcheck s.undefined s s' h).congr rfl ?_
  rw [← h.undefined]
  rfl

/-- The applications of rules are blind as far as they go to the memo. -/
theorem blind_recalls : (blind L).Recalls where
  memo := blind_memo
  countHit := blind_modifyMemo _
  countGrowth := blind_modifyMemo _
  remember _ _ _ _ := blind_modifyMemo _
  forget := blind_forget
  modifyCluster _ _ := blind_modifyMemo _
  mark _ _ := blind_modifyMemo _
  resolve := blind_resolve
  abort := blind_refuseUndefined

variable {r : RuleBody} {start cluster : Nat}

/-- Growing is blind if the body is. -/
theorem blind_grow (hb : Blind L r.body) (seed : Tree) (stop : Nat) :
    Blind L (grow r start cluster seed stop) := by
  refine blind_bind blind_memo fun memo => blind_bind (blind_modifyMemo _) fun _ =>
    blind_bind ((blind L).source) fun source =>
      blind_bind (blind_recalls.growFrom hb _ seed stop) fun best => ?_
  have hend : Blind L (do moveTo best.2; return best.1) :=
    blind_bind (blind_moveTo best.2) fun _ => (blind L).pure best.1
  refine blind_bind blind_memo fun memo' => blind_bind (blind_modifyMemo _) fun _ => ?_
  split
  · exact blind_bind (blind_modifyMemo _) fun _ => hend
  · exact blind_bind (blind_modifyMemo _) fun _ => blind_bind (blind_forget _ _) fun _ => hend

/-- An evaluation is blind if the body is. -/
theorem blind_applyFresh (hb : Blind L r.body) : Blind L (applyFresh r start) := by
  refine blind_bind (blind_modifyMemo _) fun _ => blind_bind blind_memo fun memo =>
    blind_bind (blind_modifyMemo _) fun _ => blind_bind (blind_modifyMemo _) fun _ =>
      blind_bind (blind_attempt hb) fun result => blind_bind (blind_modifyMemo _) fun _ =>
        blind_bind blind_position fun stop => blind_bind blind_memo fun memo' => ?_
  split
  · exact blind_bind (blind_modifyMemo _) fun _ => blind_bind (blind_modifyMemo _) fun _ =>
      blind_recalls.answerCluster (blind_grow hb) result
  · exact blind_bind (blind_modifyMemo _) fun _ => blind_bind (blind_modifyMemo _) fun _ =>
      blind_ofResult result

end Memo

end Matcher

/-- Matching any expression comes to the same from twins with the same captures. -/
theorem RuleTable.blind_matcher {L : Likeness}
    (hL : ∀ captures captures', L.Captures captures captures' → captures' = captures) (table : RuleTable)
    (depth : Nat) (atom : Atom) : Blind L (atom.matcher (table.applyRule depth)) :=
  blind_recalls.matcher (fun _ name h => blind_captured h name) (fun _ h => blind_dynamic hL h)
    (fun _ _ hb => blind_applyFresh hb) table depth atom

end Packrat
