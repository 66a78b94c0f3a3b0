import Packrat.Proofs.Lookup
import Packrat.Proofs.Steady

/-!
# Families of steps

A match may be tried with each of many expectations, without knowing beforehand which of them will be met.
A family of steps, one for each expectation, concurs with a step if it turns out at most once which
expectation is the right one: up to then all members of the family do what the step does, and from then on
the member with that expectation does. Which expectation has turned out to be right is told by the memo.
-/

namespace Packrat

open Matcher Course

namespace Matcher

variable {ι α β : Type} {known known' : ι → Prop} {knows knows' : ι → Session → Prop}
  {family : ι → Matcher α} {step : Matcher α} {s : Session}

/-- From the session, the members of the family whose expectation is known to be right do what the step
does. If nothing is known yet, either all members do, or one does whose expectation is known afterwards. -/
structure Concurs (known : ι → Prop) (knows : ι → Session → Prop) (family : ι → Matcher α)
    (step : Matcher α) (s : Session) : Prop where
  held : ∀ i, known i → family i s = step s ∧ Ensures anyhow step s fun _ s' => knows i s'
  found : (∀ i, family i s = step s) ∨
    ∃ i, family i s = step s ∧ Ensures anyhow step s fun _ s' => knows i s'

namespace Concurs

/-- Less may be known before, and less be asked for afterwards. -/
theorem imp (h : Concurs known knows family step s) (hknown : ∀ i, known' i → known i)
    (hknows : ∀ i s', knows i s' → knows' i s') : Concurs known' knows' family step s where
  held i hi := by
    obtain ⟨heq, hafter⟩ := h.held i (hknown i hi)
    exact ⟨heq, hafter.mono fun _ => hknows i⟩
  found := by
    rcases h.found with heq | ⟨i, heq, hafter⟩
    · exact .inl heq
    · exact .inr ⟨i, heq, hafter.mono fun _ => hknows i⟩

/-- The members may all be the step itself. -/
theorem same (hknows : ∀ i, known i → Ensures anyhow step s fun _ s' => knows i s') :
    Concurs known knows (fun _ => step) step s := ⟨fun i hi => ⟨rfl, hknows i hi⟩, .inl fun _ => rfl⟩

/-- The members may all do the same, whatever is known. -/
theorem of_eq (h : ∀ i, family i s = step s)
    (hknows : ∀ i, known i → Ensures anyhow step s fun _ s' => knows i s') :
    Concurs known knows family step s := ⟨fun i hi => ⟨h i, hknows i hi⟩, .inl h⟩

/-- The members and the step may be others, from another session, if they come to the same. -/
theorem congr {family' : ι → Matcher α} {step' : Matcher α} {s' : Session}
    (h : Concurs known knows family' step' s') (hfamily : ∀ i, family i s = family' i s')
    (hstep : step s = step' s') : Concurs known knows family step s := by
  have hensures (i : ι) : (Ensures anyhow step s fun _ t => knows i t) ↔
      Ensures anyhow step' s' fun _ t => knows i t := by
    rw [Ensures, hstep, Ensures]
  have hmember {i : ι} (hi : family' i s' = step' s') : family i s = step s :=
    (hfamily i).trans (hi.trans hstep.symm)
  refine ⟨fun i hi => ?_, ?_⟩
  · obtain ⟨heq, hafter⟩ := h.held i hi
    exact ⟨hmember heq, (hensures i).2 hafter⟩
  · rcases h.found with heq | ⟨i, heq, hafter⟩
    · exact .inl fun i => hmember (heq i)
    · exact .inr ⟨i, hmember heq, (hensures i).2 hafter⟩

/-- A step that matches comes first. -/
theorem after {first : Matcher β} {value : β} {s' : Session} {family : ι → β → Matcher α}
    {step : β → Matcher α} (hfirst : first s = .matched value s')
    (h : Concurs known knows (fun i => family i value) (step value) s') :
    Concurs known knows (fun i => first >>= family i) (first >>= step) s where
  held i hi := by
    rw [bind_of_matched hfirst, bind_of_matched hfirst, ensures_bind_matched hfirst]
    exact h.held i hi
  found := by
    simp only [bind_of_matched hfirst, ensures_bind_matched hfirst]
    exact h.found

section Bind

variable {next : ι → α → Matcher β} {step' : α → Matcher β}

/-- A member that does what the step does goes on doing so if its expectation is known then. -/
theorem bind_member {i : ι} (hi : family i s = step s)
    (hknown : Ensures anyhow step s fun _ s' => knows i s')
    (hok : ∀ value s', step s = .matched value s' → knows i s' → next i value s' = step' value s' ∧
      Ensures anyhow (step' value) s' fun _ s'' => knows' i s'')
    (herror : ∀ cause s', step s = .failed cause s' → knows i s' → knows' i s') :
    (family i >>= next i) s = (step >>= step') s ∧
      Ensures anyhow (step >>= step') s fun _ s' => knows' i s' := by
  change Matcher.bind (family i) (next i) s = Matcher.bind step step' s ∧ _
  rw [Matcher.bind, Matcher.bind, hi]
  cases hreply : step s with
  | stopped reason => exact ⟨rfl, (ensures_bind_stopped hreply).2 trivial⟩
  | failed cause s' =>
    exact ⟨rfl, (ensures_bind_failed hreply).2 (herror cause s' hreply (hknown.of_failed hreply))⟩
  | matched value s' =>
    rw [ensures_bind_matched hreply]
    exact hok value s' hreply (hknown.of_matched hreply)

/-- One step follows the other. -/
theorem bind {lenient : Stop → Prop} {post : Except Cause α → Session → Prop}
    (h : Concurs known knows family step s) (hends : Ensures lenient step s post)
    (hok : ∀ value s', post (.ok value) s' →
      Concurs (knows · s') knows' (fun i => next i value) (step' value) s')
    (herror : ∀ cause s', post (.error cause) s' → ∀ i, knows i s' → knows' i s') :
    Concurs known knows' (fun i => family i >>= next i) (step >>= step') s where
  held i hi := by
    obtain ⟨heq, hafter⟩ := h.held i hi
    exact bind_member heq hafter
      (fun value s' hreply hknows => (hok value s' (hends.of_matched hreply)).held i hknows)
      fun cause s' hreply hknows => herror cause s' (hends.of_failed hreply) i hknows
  found := by
    rcases h.found with heq | ⟨i, heq, hafter⟩
    · cases hreply : step s with
      | stopped reason =>
        refine .inl fun i => ?_
        change Matcher.bind (family i) (next i) s = Matcher.bind step step' s
        rw [Matcher.bind, Matcher.bind, heq i, hreply]
      | failed cause s' =>
        refine .inl fun i => ?_
        change Matcher.bind (family i) (next i) s = Matcher.bind step step' s
        rw [Matcher.bind, Matcher.bind, heq i, hreply]
      | matched value s' =>
        have hmember (i : ι) : (family i >>= next i) s = next i value s' :=
          bind_of_matched ((heq i).trans hreply)
        simp only [hmember, bind_of_matched hreply, ensures_bind_matched hreply]
        exact (hok value s' (hends.of_matched hreply)).found
    · refine .inr ⟨i, bind_member heq hafter
        (fun value s' hreply hknows => (hok value s' (hends.of_matched hreply)).held i hknows)
        fun cause s' hreply hknows => herror cause s' (hends.of_failed hreply) i hknows⟩

/-- What a step comes to is gone on with, whether it matches or fails. -/
theorem bind_attempt {next : ι → Except Cause α → Matcher β} {step' : Except Cause α → Matcher β}
    {lenient : Stop → Prop} {post : Except Cause α → Session → Prop}
    (h : Concurs known knows family step s) (hends : Ensures lenient step s post)
    (hnext : ∀ result s', post result s' →
      Concurs (knows · s') knows' (fun i => next i result) (step' result) s') :
    Concurs known knows' (fun i => attempt (family i) >>= next i) (attempt step >>= step') s := by
  have hattempt {i : ι} (heq : family i s = step s) : attempt (family i) s = attempt step s := by
    rw [attempt, attempt, heq]
  have hends' : Ensures lenient (attempt step) s fun outcome s' =>
      ∃ result, outcome = .ok result ∧ post result s' :=
    (ensures_attempt _ _).2 (hends.mono fun result _ hpost => ⟨result, rfl, hpost⟩)
  have hconcurs : Concurs known knows (fun i => attempt (family i)) (attempt step) s := by
    refine ⟨fun i hi => ?_, ?_⟩
    · obtain ⟨heq, hafter⟩ := h.held i hi
      exact ⟨hattempt heq, (ensures_attempt _ _).2 hafter⟩
    · rcases h.found with heq | ⟨i, heq, hafter⟩
      · exact .inl fun i => hattempt (heq i)
      · exact .inr ⟨i, hattempt heq, (ensures_attempt _ _).2 hafter⟩
  refine hconcurs.bind hends' ?_ ?_
  · rintro outcome s' ⟨result, heq, hpost⟩
    cases heq
    exact hnext outcome s' hpost
  · rintro cause s' ⟨result, heq, -⟩
    cases heq

end Bind

end Concurs

/-- Wherever the step ends, the memo is as it was. -/
def Spares (step : Matcher α) : Prop := ∀ s, Ensures anyhow step s fun _ s' => s'.memo = s.memo

/-- No basic step touches the memo. -/
theorem latitude_sparing : Latitude fun s s' => s'.memo = s.memo where
  refl _ := rfl
  trans h h' := h'.trans h
  moved _ _ _ := rfl
  noted _ _ _ := rfl
  recorded _ _ := rfl
  announced _ _ := rfl
  chosen _ h := h
  inScope h := h
  labelled _ h := h

/-- To leave the memo alone is a habit. -/
abbrev sparing : Habit := .within latitude_sparing

/-- A change of the session spares the memo if it leaves that alone. -/
theorem spares_modify {f : Session → Session} (h : ∀ s, (f s).memo = s.memo) : Spares (modify f) := h

/-- A report spares the memo. -/
theorem spares_tell (report : Report) : Spares (tell report) := fun _ => rfl

section Spared

variable {held : ι → Memo → Prop} {knowing : ι → Session → Prop}

/-- The members may all be a step that leaves the memo alone. -/
theorem Concurs.spared (h : Spares step) (s : Session) :
    Concurs (held · s.memo) (fun i s' => held i s'.memo) (fun _ => step) step s :=
  .same fun _ hi => (h s).mono fun _ _ hmemo => hmemo.symm ▸ hi

/-- What follows leaves the memo alone. -/
theorem Concurs.before {next : α → Matcher β}
    (h : Concurs known (fun i s' => held i s'.memo) family step s) (hnext : ∀ value, Spares (next value)) :
    Concurs known (fun i s' => held i s'.memo) (fun i => family i >>= next) (step >>= next) s :=
  h.bind (ensures_anyhow step s) (fun value s' _ => .spared (hnext value) s') fun _ _ _ _ hi => hi

/-- What follows leaves the memo alone, whether the step matches or fails. -/
theorem Concurs.attempt_before {next : Except Cause α → Matcher β}
    (h : Concurs known (fun i s' => held i s'.memo) family step s)
    (hok : ∀ value, Spares (next (.ok value))) (herror : ∀ cause, Spares (next (.error cause))) :
    Concurs known (fun i s' => held i s'.memo) (fun i => attempt (family i) >>= next)
      (attempt step >>= next) s := by
  refine h.bind_attempt (ensures_anyhow step s) fun result s' _ => .spared ?_ s'
  cases result with
  | ok value => exact hok value
  | error cause => exact herror cause

end Spared

end Matcher

namespace Course

variable {C : Course} {ι α β : Type} {held : ι → Memo → Prop} {family : ι → Matcher α} {step : Matcher α}

/-- From every fit session the family concurs with the step, where the memo tells which expectation has
turned out to be right. -/
def Concord (C : Course) (held : ι → Memo → Prop) (family : ι → Matcher α) (step : Matcher α) : Prop :=
  ∀ s, C.Start s → Concurs (held · s.memo) (fun i s' => held i s'.memo) family step s

namespace Concord

/-- The members may all be a step that leaves the memo alone. -/
theorem of_spares (h : Spares step) : C.Concord held (fun _ => step) step := fun s _ => .spared h s

/-- One step follows the other. -/
theorem bind [Sliced α] {next : ι → α → Matcher β} {step' : α → Matcher β} (h : C.Concord held family step)
    (hends : C.Ends step) (hnext : ∀ value, C.Concord held (fun i => next i value) (step' value)) :
    C.Concord held (fun i => family i >>= next i) (step >>= step') := fun s hs =>
  (h s hs).bind (hends s hs) (fun value s' he => hnext value s' (he.start hs)) fun _ _ _ _ hi => hi

/-- What a step comes to is gone on with, whether it matches or fails. -/
theorem bind_attempt [Sliced α] {next : ι → Except Cause α → Matcher β}
    {step' : Except Cause α → Matcher β} (h : C.Concord held family step) (hends : C.Ends step)
    (hnext : ∀ result, C.Concord held (fun i => next i result) (step' result)) :
    C.Concord held (fun i => attempt (family i) >>= next i) (attempt step >>= step') := fun s hs =>
  (h s hs).bind_attempt (hends s hs) fun result s' he => hnext result s' (he.start hs)

/-- What follows leaves the memo alone. -/
theorem before {next : α → Matcher β} (h : C.Concord held family step) (hnext : ∀ value, Spares (next value)) :
    C.Concord held (fun i => family i >>= next) (step >>= next) := fun s hs => (h s hs).before hnext

/-- What follows leaves the memo alone, whether the step matches or fails. -/
theorem attempt_before {next : Except Cause α → Matcher β} (h : C.Concord held family step)
    (hok : ∀ value, Spares (next (.ok value))) (herror : ∀ cause, Spares (next (.error cause))) :
    C.Concord held (fun i => attempt (family i) >>= next) (attempt step >>= next) :=
  fun s hs => (h s hs).attempt_before hok herror

/-- The place is looked up first. -/
theorem after_position {next : ι → Nat → Matcher α} {step' : Nat → Matcher α}
    (h : ∀ pos, C.Concord held (fun i => next i pos) (step' pos)) :
    C.Concord held (fun i => position >>= next i) (position >>= step') := fun s hs =>
  .after rfl (h s.source.pos s hs)

/-- The source is looked up first. -/
theorem after_source {next : ι → Source → Matcher α} {step' : Source → Matcher α}
    (h : ∀ source, C.Concord held (fun i => next i source) (step' source)) :
    C.Concord held (fun i => source >>= next i) (source >>= step') := fun s hs =>
  .after rfl (h s.source s hs)

section Combinators

variable {bodies : ι → Matcher Raw} {body : Matcher Raw} (h : C.Concord held bodies body)

include h

/-- Guarded members are in concord with the guarded body. -/
theorem guarded : C.Concord held (fun i => guarded (bodies i)) (Matcher.guarded body) :=
  after_position fun start => h.attempt_before
    (fun raw => sparing.bind sparing.position fun _ => sparing.bind (sparing.announce _) fun _ => sparing.pure raw)
    fun cause => sparing.bind (sparing.moveTo start) fun _ => sparing.fail cause

/-- Rounds of members are in concord with rounds of the body. -/
theorem roundsFrom (hends : C.Ends body) (max : Option Nat) (bound count : Nat) :
    C.Concord held (fun i => roundsFrom (bodies i) max bound count)
      (Matcher.roundsFrom body max bound count) := by
  induction bound generalizing count with
  | zero => exact of_spares (sparing.stop _)
  | succ bound ih =>
    simp only [Matcher.roundsFrom]
    split
    · exact of_spares (sparing.pure _)
    · refine after_position fun before => h.bind_attempt hends fun result => ?_
      cases result with
      | error cause => exact of_spares (sparing.pure _)
      | ok value =>
        refine after_position fun reached => ?_
        split
        · exact of_spares (sparing.pure _)
        · exact (ih (count + 1)).before fun _ => sparing.pure _

/-- Repetitions of members are in concord with that of the body. -/
theorem repetition (hends : C.Ends body) (part : Atom) (min : Nat) (max : Option Nat) (optional : Bool) :
    C.Concord held (fun i => repetition part (bodies i) min max optional)
      (Matcher.repetition part body min max optional) := by
  refine after_position fun start => after_source fun source =>
    (h.roundsFrom hends max _ 0).before fun rounds => ?_
  dsimp only
  split
  · exact sparing.refuse _ _ _
  · exact sparing.bind sparing.position fun _ => sparing.bind (sparing.emit _) fun _ => sparing.pure _

/-- Lookaheads at members are in concord with that at the body. -/
theorem lookahead (part : Atom) (positive : Bool) :
    C.Concord held (fun i => lookahead part (bodies i) positive)
      (Matcher.lookahead part body positive) := by
  refine after_position fun start => h.attempt_before
    (fun value => sparing.bind (sparing.moveTo start) fun _ => ?_)
    fun cause => sparing.bind (sparing.moveTo start) fun _ => ?_
  · cases positive
    · exact sparing.refuse _ _ _
    · exact sparing.pure _
  · cases positive
    · exact sparing.pure _
    · exact sparing.refuse _ _ _

/-- Named members are in concord with the named body. -/
theorem named (name : String) :
    C.Concord held (fun i => named (bodies i) name) (Matcher.named body name) :=
  h.before fun raw => sparing.bind (sparing.flatten true raw) fun _ => sparing.pure _

/-- Transformed members are in concord with the transformed body. -/
theorem mapped (transform : Tree → Tree) :
    C.Concord held (fun i => mapped (bodies i) transform) (Matcher.mapped body transform) :=
  h.before fun raw => sparing.bind (sparing.flatten false raw) fun _ => sparing.pure _

/-- Marked members are in concord with the marked body. -/
theorem marked : C.Concord held (fun i => marked (bodies i)) (Matcher.marked body) :=
  after_position fun start => h.before fun raw =>
    sparing.bind (sparing.moveTo start) fun _ => sparing.pure raw

/-- Captured members are in concord with the captured body. -/
theorem captured (name : String) :
    C.Concord held (fun i => captured (bodies i) name) (Matcher.captured body name) := by
  refine h.before fun raw => sparing.bind (sparing.flatten false raw) fun value =>
    sparing.bind ?_ fun _ => sparing.pure _
  exact spares_modify fun _ => rfl

/-- Scopes of members are in concord with that of the body. -/
theorem inScope : C.Concord held (fun i => inScope (bodies i)) (Matcher.inScope body) := by
  intro s hs
  have hclose {result : Except Cause Raw} : Spares (do
      modify fun s => { s with captures := s.captures.closeScope }
      ofResult result) := sparing.bind (spares_modify fun _ => rfl) fun _ => sparing.ofResult result
  exact .after rfl ((h _ hs.openScope).attempt_before (fun _ => hclose) fun _ => hclose)

/-- Labelled members are in concord with the labelled body. -/
theorem labelled (hlax : C.Lax) (label : String) :
    C.Concord held (fun i => labelled (bodies i) label) (Matcher.labelled body label) := by
  intro s hs
  have hlabels := hs.withLabels hlax.strict (label :: s.labels)
  have hunlabel {result : Except Cause Raw} : Spares (do
      modify fun s => { s with labels := s.labels.tail }
      ofResult result) := sparing.bind (spares_modify fun _ => rfl) fun _ => sparing.ofResult result
  exact .after rfl ((h _ hlabels).attempt_before (fun _ => hunlabel) fun _ => hunlabel)

/-- Members as operands are in concord with the body as one. -/
theorem operand (part : Atom) :
    C.Concord held (fun i => operand part (bodies i)) (Matcher.operand part body) :=
  h.attempt_before (fun raw => sparing.flatten true raw)
    fun _ => sparing.bind sparing.position fun _ => sparing.refuse _ _ _

end Combinators

section Lists

variable {κ : Type} {items : List κ} {bodies : ι → κ → Matcher Raw} {body : κ → Matcher Raw}

/-- Sequences are in concord if all their parts are, as what one part has found out the next
ones are told. -/
theorem inOrder (whole : Atom) (h : ∀ k ∈ items, C.Concord held (bodies · k) (body k))
    (hends : ∀ k ∈ items, C.Ends (body k)) :
    C.Concord held (fun i => inOrder whole (items.map (bodies i)))
      (Matcher.inOrder whole (items.map body)) := by
  induction items with
  | nil => exact of_spares (sparing.pure _)
  | cons k rest ih =>
    have hrest := ih (fun k hk => h k (List.mem_cons_of_mem _ hk)) fun k hk =>
      hends k (List.mem_cons_of_mem _ hk)
    simp only [List.map_cons, Matcher.inOrder]
    refine (h k (by simp)).bind_attempt (hends k (by simp)) fun result => ?_
    cases result with
    | error cause =>
      dsimp only
      exact of_spares (sparing.bind sparing.position fun _ => sparing.refuse _ _ _)
    | ok value => exact hrest.before fun _ => sparing.pure _

/-- Ordered branches are in concord if each of them is. -/
theorem firstOf (whole : Atom) (start : Nat) (h : ∀ k ∈ items, C.Concord held (bodies · k) (body k))
    (hends : ∀ k ∈ items, C.Ends (body k)) (causes : List Cause) :
    C.Concord held (fun i => firstOf whole start (items.map (bodies i)) causes)
      (Matcher.firstOf whole start (items.map body) causes) := by
  induction items generalizing causes with
  | nil => exact of_spares (sparing.bind (spares_tell _) fun _ => sparing.refuse _ _ _)
  | cons k rest ih =>
    have hrest := ih (fun k hk => h k (List.mem_cons_of_mem _ hk)) fun k hk =>
      hends k (List.mem_cons_of_mem _ hk)
    refine (h k (by simp)).bind_attempt (hends k (by simp)) fun result => ?_
    cases result with
    | error cause => exact hrest (cause :: causes)
    | ok value => exact of_spares (sparing.bind (spares_tell _) fun _ => sparing.pure _)

/-- Choices are in concord if their branches are. -/
theorem choice (whole : Atom) (h : ∀ k ∈ items, C.Concord held (bodies · k) (body k))
    (hends : ∀ k ∈ items, C.Ends (body k)) :
    C.Concord held (fun i => choice whole (items.map (bodies i)))
      (Matcher.choice whole (items.map body)) := by
  intro s hs
  have hstart : C.Ended (α := Raw) s (.ok .unit) { s with
      reporter := s.reporter.observe .choiceStarted } :=
    (hs.ended fun _ => Raw.intact_unit).of_eq rfl rfl rfl rfl rfl
  exact .after rfl (.after rfl (firstOf whole s.source.pos h hends [] _ (hstart.start hs)))

/-- Scans for an operator are in concord if the operators are. -/
theorem operator (fixity : κ → Fixity) (h : ∀ k ∈ items, C.Concord held (bodies · k) (body k))
    (hends : ∀ k ∈ items, C.Ends (body k)) :
    C.Concord held (fun i => operator (items.map fun k => (fixity k, bodies i k)))
      (Matcher.operator (items.map fun k => (fixity k, body k))) := by
  induction items with
  | nil => exact of_spares (sparing.pure _)
  | cons k rest ih =>
    have hrest := ih (fun k hk => h k (List.mem_cons_of_mem _ hk)) fun k hk =>
      hends k (List.mem_cons_of_mem _ hk)
    refine (h k (by simp)).bind_attempt (hends k (by simp)) fun result => ?_
    cases result with
    | error cause => exact hrest
    | ok raw => exact of_spares (sparing.bind (sparing.flatten true raw) fun _ => sparing.pure _)

end Lists

section Operators

variable {elements : ι → Matcher Tree} {element : Matcher Tree}
  {nexts : ι → Matcher (Option (Tree × Fixity))} {next : Matcher (Option (Tree × Fixity))}

/-- Climbing is in concord if operands and scans are. -/
theorem climbFrom (hlax : C.Lax) (he : C.Concord held elements element) (hends : C.Ends element)
    (hn : C.Concord held nexts next) (hnends : C.Ends next) (combine : Tree → Tree → Tree → Tree)
    (bound : Nat) (floor : UInt32) (left : Tree) :
    C.Concord held (fun i => climbFrom (elements i) (nexts i) combine bound floor left)
      (Matcher.climbFrom element next combine bound floor left) := by
  induction bound generalizing floor left with
  | zero => exact of_spares (sparing.stop _)
  | succ bound ih =>
    refine after_position fun before => hn.bind hnends fun found => ?_
    rcases found with _ | ⟨symbol, fixity⟩
    · exact of_spares (sparing.pure _)
    · dsimp only
      split
      · exact of_spares (sparing.bind (sparing.moveTo _) fun _ => sparing.pure _)
      · refine he.bind hends fun first => (ih _ first).bind (ends_climbFrom hlax hends hnends _ _ _ _) ?_
        exact fun right => ih floor _

/-- Operator expressions are in concord if their operands and their scans are. -/
theorem operators (hlax : C.Lax) (part : Atom) {bodies : ι → Matcher Raw} {body : Matcher Raw}
    (h : C.Concord held bodies body) (hends : C.Ends body)
    {tables : ι → List (Fixity × Matcher Raw)} {table : List (Fixity × Matcher Raw)}
    (ht : C.Concord held (fun i => Matcher.operator (tables i)) (Matcher.operator table))
    (htends : C.Ends (Matcher.operator table)) (combine : Option (Tree → Tree → Tree → Tree)) :
    C.Concord held (fun i => operators part (bodies i) (tables i) combine)
      (Matcher.operators part body table combine) := by
  have hoperand := h.operand part
  have hoperandEnds := ends_operand part hends
  refine after_source fun source => before ?_ fun _ => sparing.pure _
  exact hoperand.bind hoperandEnds fun first =>
    climbFrom hlax hoperand hoperandEnds ht htends _ _ 0 first

end Operators

end Concord

section Matcher

variable {apply : RuleRef → Matcher Raw}

/-- Families of watched expressions concur with the expressions if those of references do and nothing else
is watched. -/
theorem concord_watched (hlax : C.Lax) {watch : ι → Watch} {applied : ι → RuleRef → Matcher Raw}
    (hwatch : ∀ i atom step, (∀ ref, atom ≠ .rule ref) → watch i atom step = guarded step)
    (hrules : ∀ ref, C.Ends (apply ref))
    (hrule : ∀ ref, C.Concord held (fun i => watch i (.rule ref) (applied i ref)) (guarded (apply ref)))
    (atom : Atom) :
    C.Concord held (fun i => atom.watched (watch i) (applied i)) (atom.matcher apply) := by
  have hends := ends_matcher hlax hrules
  induction atom using Atom.parts_induction with
  | step atom ih =>
  cases atom with
  | literal word =>
    simp only [Atom.watched, hwatch _ (.literal word) _ (by simp)]
    exact .of_spares (sparing.guarded (sparing.literal word))
  | char test =>
    simp only [Atom.watched, hwatch _ (.char test) _ (by simp)]
    exact .of_spares (sparing.guarded (sparing.character _ test.accepts))
  | sequence parts =>
    simp only [Atom.watched, Atom.matcher, Atom.watchedAll_eq_map, Atom.matchers_eq_map,
      hwatch _ (.sequence parts) _ (by simp)]
    have hparts := Concord.inOrder (.sequence parts) (fun part hp => ih part (.sequence hp)) fun part _ =>
      hends part
    exact (hparts.before fun _ => sparing.pure _).guarded
  | choice branches =>
    simp only [Atom.watched, Atom.matcher, Atom.watchedAll_eq_map, Atom.matchers_eq_map,
      hwatch _ (.choice branches) _ (by simp)]
    exact (Concord.choice _ (fun branch hb => ih branch (.choice hb)) fun branch _ => hends branch).guarded
  | repetition body min max optional =>
    simp only [Atom.watched, hwatch _ (.repetition body min max optional) _ (by simp)]
    exact ((ih body (.repetition ..)).repetition (hends body) body min max optional).guarded
  | lookahead body positive =>
    simp only [Atom.watched, hwatch _ (.lookahead body positive) _ (by simp)]
    exact ((ih body (.lookahead ..)).lookahead body positive).guarded
  | named body name =>
    simp only [Atom.watched, hwatch _ (.named body name) _ (by simp)]
    exact ((ih body (.named ..)).named name).guarded
  | rule ref => exact hrule ref
  | ignore body =>
    simp only [Atom.watched, hwatch _ (.ignore body) _ (by simp)]
    exact ((ih body (.ignore _)).before fun _ => sparing.pure _).guarded
  | map body transform =>
    simp only [Atom.watched, hwatch _ (.map body transform) _ (by simp)]
    exact ((ih body (.map ..)).mapped transform).guarded
  | mark body =>
    simp only [Atom.watched, hwatch _ (.mark body) _ (by simp)]
    exact (ih body (.mark _)).marked.guarded
  | capture body name =>
    simp only [Atom.watched, hwatch _ (.capture body name) _ (by simp)]
    exact ((ih body (.capture ..)).captured name).guarded
  | scope body =>
    simp only [Atom.watched, hwatch _ (.scope body) _ (by simp)]
    exact (ih body (.scope _)).inScope.guarded
  | dynamic pick =>
    have hpick : C.Concord held
        (fun i session => (pick session.source session.captures).watched (watch i) (applied i) session)
        fun session => (pick session.source session.captures).matcher apply session := by
      intro s hs
      have hpicked := ih (pick s.source s.captures) (.dynamic pick s.source s.captures) s hs
      exact ⟨hpicked.held, hpicked.found⟩
    have hguarded (i : ι) := hwatch i (.dynamic pick)
      (fun session => (pick session.source session.captures).watched (watch i) (applied i) session) (by simp)
    simp only [Atom.watched, hguarded]
    exact hpick.guarded
  | operators operand table combine =>
    simp only [Atom.watched, Atom.matcher, Atom.watchedOperators_eq_map, Atom.operatorMatchers_eq_map,
      hwatch _ (.operators operand table combine) _ (by simp)]
    have htable := Concord.operator (fun op : Fixity × Atom => op.1)
      (fun op hop => ih op.2 (.operator operand combine hop)) fun op _ => hends op.2
    refine (Concord.operators hlax operand (ih operand (.operand ..)) (hends operand) htable ?_
      combine).guarded
    refine ends_operator fun op hop => ?_
    obtain ⟨op, -, rfl⟩ := List.mem_map.1 hop
    exact hends op.2
  | label body label =>
    simp only [Atom.watched, hwatch _ (.label body label) _ (by simp)]
    exact ((ih body (.label ..)).labelled hlax label).guarded
  | halt =>
    simp only [Atom.watched, hwatch _ .halt _ (by simp)]
    exact .of_spares (sparing.guarded sparing.halt)

end Matcher

end Course

end Packrat
