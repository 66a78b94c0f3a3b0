import Mathlib.Data.List.Nodup
import Packrat.Proofs.Abreast
import Packrat.Proofs.Indifference
import Packrat.Proofs.Renaming

/-!
# Matching with a copy of a table

A copy of a table has the same rules, with references to its own rules where the bodies of the table refer to
theirs. Two matches of one text, one with the table and one with the copy, go through sessions that are alike:
they are at the same offset and have captured and remembered the same, but for references. What does not
matter is which bodies were built already, be it in the match or before it. A body that is needed is built
now or was built before, and either way it is the same; all that differs is what is told about it.

Along the way, account is kept of the rules that were built: every body that is there was built once.
-/

namespace Packrat

open Matcher

/-- The rule whose body was built, if that is what happened. -/
def Event.built? : Event → Option String
  | .bodyBuilt name => some name
  | _ => none

/-- The rule that was built keeps its name where references change. -/
@[simp] theorem Event.built?_mapRefs (f : RuleRef → RuleRef) (event : Event) :
    (event.mapRefs f).built? = event.built? := by
  cases event <;> rfl

/-- The rules whose bodies were built. -/
def builtIn (trace : List Event) : List String := trace.filterMap Event.built?

/-- What happened, apart from the building of bodies. -/
def withoutBuilding (trace : List Event) : List Event := trace.filter (·.built?.isNone)

/-- Every body that is there was built once, either earlier or in the trace. -/
structure RuleTable.Ledger (table : RuleTable) (earlier : List String) (bodies : List (Nat × Atom))
    (trace : List Event) : Prop where
  built : bodies.map (fun entry => table.names[entry.1]?) = (builtIn trace ++ earlier).map some
  once : (bodies.map Prod.fst).Nodup

namespace RuleTable

variable {table : RuleTable} {earlier : List String} {bodies : List (Nat × Atom)} {trace : List Event}

/-- Where the names of the rules differ, no rule was built twice. -/
theorem Ledger.nodup (h : table.Ledger earlier bodies trace) (hnames : table.names.Nodup) :
    (builtIn trace ++ earlier).Nodup := by
  refine List.Nodup.of_map some ?_
  rw [← h.built]
  have hsplit : (bodies.map fun entry => table.names[entry.1]?)
      = (bodies.map Prod.fst).map (table.names[·]?) := by rw [List.map_map]; rfl
  rw [hsplit]
  refine List.Nodup.map_on (fun i hi j hj heq => ?_) h.once
  have hsome : table.names[i]? ∈ (builtIn trace ++ earlier).map some := by
    rw [← h.built, hsplit]
    exact List.mem_map_of_mem hi
  obtain ⟨name, -, hname⟩ := List.mem_map.1 hsome
  have hlt : i < table.names.length := (List.getElem?_eq_some_iff.1 hname.symm).1
  exact (List.getElem?_inj hlt hnames).1 heq

/-- What is told of anything but bodies does not enter the account. -/
theorem Ledger.tell (h : table.Ledger earlier bodies trace) {event : Event} (hevent : event.built? = none) :
    table.Ledger earlier bodies (event :: trace) := by
  refine ⟨?_, h.once⟩
  rw [builtIn, List.filterMap_cons_none hevent]
  exact h.built

/-- The body of a rule is there or is built now, and in the latter case that is told. -/
theorem exists_body? (hbodies : table.Knows bodies) {index : Nat} {atom : Atom}
    (hatom : table.bodyAt? index = some atom) : ∃ bodies' event?,
      table.body? index bodies = some (atom, bodies', event?) ∧ table.Knows bodies' ∧
        withoutBuilding event?.toList = [] ∧ ∀ earlier trace, table.Ledger earlier bodies trace →
          table.Ledger earlier bodies' (event?.toList ++ trace) := by
  unfold RuleTable.body?
  cases hl : bodies.lookup index with
  | some body =>
    have heq := hbodies index body hl
    rw [hatom, Option.some.injEq] at heq
    exact ⟨bodies, none, by rw [heq], hbodies, rfl, fun _ _ h => h⟩
  | none =>
    obtain ⟨definition, hdef, hbuild⟩ := Option.map_eq_some_iff.1 hatom
    refine ⟨(index, atom) :: bodies, some (.bodyBuilt definition.name), ?_, hbodies.cons hatom, rfl, ?_⟩
    · simp only [hdef, Option.map_some, hbuild]
    · intro earlier trace h
      have hname : table.names[index]? = some definition.name := by simp [names, hdef]
      refine ⟨?_, ?_⟩
      · rw [List.map_cons, hname, h.built]
        rfl
      · rw [List.map_cons, List.nodup_cons]
        refine ⟨fun hmem => ?_, h.once⟩
        obtain ⟨entry, hentry, hindex⟩ := List.mem_map.1 hmem
        have hne := List.lookup_eq_none_iff.1 hl entry hentry
        simp [hindex] at hne

end RuleTable

/-- A table and a copy of it, with the rules whose bodies were built before. -/
structure Copy where
  /-- The table. -/
  table : RuleTable
  /-- The copy. -/
  copy : RuleTable
  /-- What becomes of a reference. -/
  rename : RuleRef → RuleRef
  /-- The rules of the table that were built before. -/
  earlier : List String

namespace Copy

variable (C : Copy)

/-- If the expression is a reference, it leads to the same place in both tables. -/
def Leads (atom : Atom) : Prop :=
  ∀ ref, atom = .rule ref → C.copy.resolve? (C.rename ref) = C.table.resolve? ref

/-- The copy is one: it has rules of the same names, and its bodies are those of the table but for their
references, which lead to the same rules. -/
structure Faithful : Prop where
  name : ∀ ref, (C.rename ref).name = ref.name
  names : C.copy.names = C.table.names
  own : ∀ name, C.rename (C.table.rules.ref name) = C.copy.rules.ref name
  bodies : ∀ index, C.copy.bodyAt? index = (C.table.bodyAt? index).map (Atom.mapRefs C.rename)
  leads : C.table.Every C.Leads

/-- The sessions are the same but for references, for the bodies built so far and for what is told of
these. -/
structure Alike (s s' : Session) : Prop where
  source : s'.source = s.source
  captures : s'.captures = s.captures
  labels : s'.labels = s.labels
  undefined : s'.undefined = s.undefined
  warn : s'.warn = s.warn
  overwritten : s'.overwritten = s.overwritten
  reporter : s'.reporter = s.reporter.mapRefs C.rename
  memo : s.memo.Renamed C.rename s'.memo
  trace : withoutBuilding s'.trace = (withoutBuilding s.trace).map (Event.mapRefs C.rename)
  bodies : C.table.Knows s.bodies
  bodies' : C.copy.Knows s'.bodies
  ledger : C.table.Ledger C.earlier s.bodies s.trace

/-- From sessions that are alike the second step comes to the same as the first one, with the value changed
as given and with other references in the cause, and the sessions stay alike. -/
def Follows {α : Type} (g : α → α) (step step' : Matcher α) : Prop :=
  ∀ s s', C.Alike s s' → Abreast step step' s s' fun r t r' t' =>
    r' = (retold C.rename r).map g ∧ C.Alike t t'

variable {C} {s s' : Session}

namespace Alike

/-- The same event but for its references may be told in both, if no body was built. -/
theorem emit (h : C.Alike s s') (event : Event) (hevent : event.built? = none) :
    C.Alike { s with trace := event :: s.trace }
      { s' with trace := event.mapRefs C.rename :: s'.trace } := by
  refine { h with trace := ?_, ledger := h.ledger.tell hevent }
  have hmapped : (event.mapRefs C.rename).built? = none := by rw [Event.built?_mapRefs, hevent]
  have htrace := h.trace
  simp only [withoutBuilding] at htrace ⊢
  rw [List.filter_cons_of_pos (by simp [hmapped]), List.filter_cons_of_pos (by simp [hevent]), htrace,
    List.map_cons]

/-- The memos may change in the same way. -/
theorem withMemo (h : C.Alike s s') {memo memo' : Memo} (hmemo : memo.Renamed C.rename memo') :
    C.Alike { s with memo } { s' with memo := memo' } := { h with memo := hmemo }

/-- The same may be reported to both. -/
theorem tell (h : C.Alike s s') (report : Report) :
    C.Alike { s with reporter := s.reporter.observe report }
      { s' with reporter := s'.reporter.observe (report.mapRefs C.rename) } := by
  refine { h with reporter := ?_ }
  dsimp only
  rw [h.reporter, Reporter.observe_mapRefs]

/-- The same key may be overwritten in both. -/
theorem note (h : C.Alike s s') (key : String) : C.Alike (s.note key) (s'.note key) := by
  have hemitted : C.Alike { s with trace := .keyOverwritten key :: s.trace }
      { s' with trace := .keyOverwritten key :: s'.trace } := h.emit (.keyOverwritten key) rfl
  by_cases hwarn : s.warn = true
  · have hwarn' : s'.warn = true := h.warn.trans hwarn
    rw [Session.note, Session.note, if_pos hwarn, if_pos hwarn']
    exact { hemitted with overwritten := congrArg (key :: ·) h.overwritten }
  · have hwarn' : ¬ s'.warn = true := fun hw => hwarn (h.warn.symm.trans hw)
    rw [Session.note, Session.note, if_neg hwarn, if_neg hwarn']
    exact h

/-- The cursor, and what is known of lines, may become the same in both. -/
theorem relocate (h : C.Alike s s') (source : Source) :
    C.Alike { s with source } { s' with source } := { h with source := rfl }

end Alike

section Steps

variable (C) {α β : Type} {g : α → α} {k : β → β} {step step' : Matcher α}

/-- A value that is at hand is followed by what becomes of it. -/
theorem pure (value : α) : C.Follows g (Pure.pure value) (Pure.pure (g value)) := fun _ _ h => ⟨rfl, h⟩

/-- A failure is followed by the failure with the same cause, its references renamed. -/
theorem fail (cause : Cause) : C.Follows g (Matcher.fail cause) (Matcher.fail (cause.mapRefs C.rename)) :=
  fun _ _ h => ⟨rfl, h⟩

/-- Breaking off is followed by breaking off for the same reason. -/
theorem stop (reason : Stop) : C.Follows g (Matcher.stop reason) (Matcher.stop reason) := fun _ _ _ => rfl

/-- A result that is at hand is followed by that result with its causes renamed. -/
theorem ofResult (result : Except Cause α) :
    C.Follows id (Matcher.ofResult result) (Matcher.ofResult (retold C.rename result)) := by
  cases result with
  | ok value => exact C.pure value
  | error cause => exact C.fail cause

/-- Both matches are at the same offset. -/
theorem position : C.Follows id Matcher.position Matcher.position :=
  fun _ _ h => ⟨congrArg (fun source : Source => Except.ok source.pos) h.source, h⟩

/-- Both matches have the same text before them. -/
theorem source : C.Follows id Matcher.source Matcher.source := fun _ _ h => ⟨congrArg Except.ok h.source, h⟩

/-- A report is followed by the report with its references renamed. -/
theorem tell (report : Report) :
    C.Follows id (Matcher.tell report) (Matcher.tell (report.mapRefs C.rename)) :=
  fun _ _ h => ⟨rfl, h.tell report⟩

/-- An event other than the building of a body is followed by the event with its references
renamed. -/
theorem emit (event : Event) (hevent : event.built? = none) :
    C.Follows id (Matcher.emit event) (Matcher.emit (event.mapRefs C.rename)) :=
  fun _ _ h => ⟨rfl, h.emit event hevent⟩

/-- A refusal is followed by a refusal at the same offset, with message and children renamed. -/
theorem refuse (message : Message) (offset : Nat) (children : List Cause) :
    C.Follows g (Matcher.refuse message offset children : Matcher α)
      (Matcher.refuse (message.mapRefs C.rename) offset (children.map (Cause.mapRefs C.rename))) := by
  intro s s' h
  have hcause : (⟨message.mapRefs C.rename, offset, none, s'.labels.head?,
      children.map (Cause.mapRefs C.rename)⟩ : Cause)
        = Cause.mapRefs C.rename ⟨message, offset, none, s.labels.head?, children⟩ := by
    rw [h.labels, ← Cause.mapRefsAll_eq_map]
    rfl
  rw [abreast_refuse, hcause]
  exact ⟨rfl, h.tell (.recorded _)⟩

/-- Moving takes both matches to the same offset, or is misplaced in both. -/
theorem moveTo (pos : Nat) : C.Follows id (Matcher.moveTo pos) (Matcher.moveTo pos) := by
  intro s s' h
  unfold Matcher.moveTo Abreast Ensures
  dsimp only
  rw [h.source]
  cases s.source.setPos? pos with
  | none => rfl
  | some source => exact ⟨rfl, { h with source := rfl }⟩

/-- Consuming takes both matches to the same offset, or is misplaced in both. -/
theorem consume (n : Nat) : C.Follows id (Matcher.consume n) (Matcher.consume n) := by
  intro s s' h
  unfold Matcher.consume Abreast Ensures
  dsimp only
  rw [h.source]
  cases s.source.consume? n with
  | none => rfl
  | some found => exact ⟨rfl, { h with source := rfl }⟩

/-- What is captured and labelled may be changed. -/
theorem modify (change : Captures → Captures) (change' : List String → List String) :
    C.Follows id
      (Matcher.modify fun s => { s with captures := change s.captures, labels := change' s.labels })
      (Matcher.modify fun s => { s with captures := change s.captures, labels := change' s.labels }) :=
  fun _ _ h => ⟨rfl, { h with
    captures := congrArg change h.captures
    labels := congrArg change' h.labels }⟩

variable {C}

/-- How the replies of two steps go together. -/
theorem Follows.replies (h : C.Follows g step step')
    (hs : C.Alike s s') :
    (∃ reason, step s = .stopped reason ∧ step' s' = .stopped reason) ∨
    (∃ cause t t', step s = .failed cause t ∧ step' s' = .failed (cause.mapRefs C.rename) t' ∧
      C.Alike t t') ∨
    ∃ value t t', step s = .matched value t ∧ step' s' = .matched (g value) t' ∧ C.Alike t t' := by
  have hends := h s s' hs
  unfold Abreast Ensures at hends
  cases hr : step s with
  | stopped reason =>
    rw [hr] at hends
    exact .inl ⟨reason, rfl, hends⟩
  | failed cause t =>
    rw [hr] at hends
    cases hr' : step' s' with
    | stopped reason => simp [hr', unbroken] at hends
    | matched value' t' => simp [hr', Except.map] at hends
    | failed cause' t' =>
      simp only [hr'] at hends
      obtain ⟨heq, ht⟩ := hends
      cases heq
      exact .inr (.inl ⟨cause, t, t', rfl, rfl, ht⟩)
  | matched value t =>
    rw [hr] at hends
    cases hr' : step' s' with
    | stopped reason => simp [hr', unbroken] at hends
    | failed cause' t' => simp [hr', Except.map] at hends
    | matched value' t' =>
      simp only [hr'] at hends
      obtain ⟨heq, ht⟩ := hends
      cases heq
      exact .inr (.inr ⟨value, t, t', rfl, rfl, ht⟩)

/-- A step that goes on after another is followed if both are. -/
theorem Follows.bind {next next' : α → Matcher β} (h : C.Follows g step step')
    (hnext : ∀ value, C.Follows k (next value) (next' (g value))) :
    C.Follows k (step >>= next) (step' >>= next') := by
  intro s s' hs
  refine (h s s' hs).bind fun r t r' t' ht => ?_
  obtain ⟨rfl, ht⟩ := ht
  cases r with
  | error cause => exact ⟨rfl, ht⟩
  | ok value => exact hnext value t t' ht

/-- Behind steps that come to the same value. -/
theorem Follows.next {next next' : α → Matcher β} (h : C.Follows id step step')
    (hnext : ∀ value, C.Follows k (next value) (next' value)) :
    C.Follows k (step >>= next) (step' >>= next') := h.bind hnext

/-- Where a step is followed, so is one that hands its failure on as a value. -/
theorem Follows.attempt (h : C.Follows g step step') :
    C.Follows (fun r => (retold C.rename r).map g) (attempt step) (Matcher.attempt step') := by
  intro s s' hs
  refine (h s s' hs).attempt.mono fun r t r' t' ht => ?_
  obtain ⟨r₁, r₂, rfl, rfl, rfl, ht⟩ := ht
  exact ⟨rfl, ht⟩

/-- What steps come to is gone on with, whether they match or fail. -/
theorem Follows.bind_attempt {next next' : Except Cause α → Matcher β} (h : C.Follows g step step')
    (hok : ∀ value, C.Follows k (next (.ok value)) (next' (.ok (g value))))
    (herror : ∀ cause, C.Follows k (next (.error cause)) (next' (.error (cause.mapRefs C.rename)))) :
    C.Follows k (Matcher.attempt step >>= next) (Matcher.attempt step' >>= next') := by
  refine h.attempt.bind fun outcome => ?_
  cases outcome with
  | ok value => exact hok value
  | error cause => exact herror cause

/-- What steps come to whose values are the same, as a result. -/
theorem Follows.attempt_same (h : C.Follows id step step') :
    C.Follows (retold C.rename) (Matcher.attempt step) (Matcher.attempt step') := by
  have hid : (fun r : Except Cause α => (retold C.rename r).map id) = retold C.rename := by
    funext r
    cases r <;> rfl
  rw [← hid]
  exact h.attempt

/-- What follows two steps may be the same function of their values. -/
theorem Follows.map (h : C.Follows id step step') (value : α → β) :
    C.Follows id (do return value (← step)) (do return value (← step')) := h.next fun _ => C.pure _

/-- Flattening holds no references: its warnings and its trees are the same. -/
theorem flatten (named : Bool) (raw : Raw) :
    C.Follows id (Matcher.flatten named raw) (Matcher.flatten named raw) := by
  have hkeys (keys : List String) : C.Follows id (noteAllOverwritten keys) (noteAllOverwritten keys) := by
    induction keys with
    | nil => exact fun s s' h => ⟨rfl, h⟩
    | cons key rest ih =>
      exact fun s s' h => (ih _ _ (h.note key)).congr (noteAllOverwritten_cons key rest s)
        (noteAllOverwritten_cons key rest s')
  exact (hkeys _).next fun _ => C.pure _

/-- A body that is chosen at match time is chosen from text and captures, which are the same. -/
theorem dynamic {chosen chosen' : Source → Captures → Matcher Raw}
    (h : ∀ source captures, C.Follows id (chosen source captures) (chosen' source captures)) :
    C.Follows id (fun s => chosen s.source s.captures s) fun s => chosen' s.source s.captures s := by
  intro s s' hs
  refine (h s.source s.captures s s' hs).congr rfl ?_
  rw [hs.source, hs.captures]

end Steps

section Combinators

variable {body body' : Matcher Raw}

/-- Leaving the offset where it was before a failure is the same in both matches. -/
theorem guarded (h : C.Follows id body body') : C.Follows id (guarded body) (Matcher.guarded body') :=
  C.position.next fun start => h.bind_attempt
    (fun raw => C.position.next fun pos => (C.tell (.succeeded pos)).next fun _ => C.pure raw)
    fun cause => (C.moveTo start).next fun _ => C.fail cause

/-- A literal holds no references. -/
theorem literal (word : String) : C.Follows id (literal word) (Matcher.literal word) := by
  refine C.source.next fun source => ?_
  split
  · exact C.refuse .prematureEnd _ []
  · split
    · exact (C.consume _).map _
    · exact C.refuse (.expected word _) _ []

/-- A class of characters is followed by itself; only the atom its cause names is renamed. -/
theorem character (whole : Atom) (test : Char → Bool) :
    C.Follows id (character whole test) (Matcher.character (whole.mapRefs C.rename) test) := by
  refine C.source.next fun source => ?_
  split
  · exact C.refuse .prematureEnd _ []
  · split
    · exact (C.consume _).map _
    · exact C.refuse (.noMatch whole) _ []

/-- A sequence is followed part by part. -/
theorem inOrder (whole : Atom) {ι : Type} {items : List ι} {step step' : ι → Matcher Raw}
    (h : ∀ i ∈ items, C.Follows id (step i) (step' i)) :
    C.Follows id (inOrder whole (items.map step))
      (Matcher.inOrder (whole.mapRefs C.rename) (items.map step')) := by
  induction items with
  | nil => exact C.pure _
  | cons i rest ih =>
    have hrest := ih fun j hj => h j (List.mem_cons_of_mem _ hj)
    exact (h i (by simp)).bind_attempt (fun value => hrest.map _)
      fun cause => C.position.next fun pos => C.refuse (.sequence whole) pos [cause]

/-- Ordered branches are followed branch by branch, and the causes gathered so far are renamed.
-/
theorem firstOf (whole : Atom) (start : Nat) {ι : Type} {items : List ι}
    {step step' : ι → Matcher Raw} (h : ∀ i ∈ items, C.Follows id (step i) (step' i))
    (causes : List Cause) :
    C.Follows id (firstOf whole start (items.map step) causes)
      (Matcher.firstOf (whole.mapRefs C.rename) start (items.map step')
        (causes.map (Cause.mapRefs C.rename))) := by
  induction items generalizing causes with
  | nil =>
    refine (C.tell (.choiceFinished false)).next fun _ => ?_
    rw [← List.map_reverse]
    exact C.refuse (.alternatives whole) start causes.reverse
  | cons i rest ih =>
    exact (h i (by simp)).bind_attempt
      (fun value => (C.tell (.choiceFinished true)).next fun _ => C.pure value)
      fun cause => ih (fun j hj => h j (List.mem_cons_of_mem _ hj)) (cause :: causes)

/-- A choice is followed branch by branch. -/
theorem choice (whole : Atom) {ι : Type} {items : List ι} {step step' : ι → Matcher Raw}
    (h : ∀ i ∈ items, C.Follows id (step i) (step' i)) :
    C.Follows id (choice whole (items.map step))
      (Matcher.choice (whole.mapRefs C.rename) (items.map step')) :=
  C.position.next fun start => (C.tell .choiceStarted).next fun _ => firstOf whole start h []

/-- The cause that ended the rounds may hold references. -/
theorem roundsFrom (h : C.Follows id body body') (max : Option Nat) (bound count : Nat) :
    C.Follows (Prod.map id (Option.map (Cause.mapRefs C.rename))) (roundsFrom body max bound count)
      (Matcher.roundsFrom body' max bound count) := by
  induction bound generalizing count with
  | zero => exact C.stop _
  | succ bound ih =>
    rw [Matcher.roundsFrom, Matcher.roundsFrom]
    split
    · exact C.pure ([], none)
    · refine C.position.next fun before => h.bind_attempt (fun value => ?_)
        fun cause => C.pure ([], some cause)
      refine C.position.next fun now => ?_
      dsimp only [id]
      split
      · exact C.pure ([value], none)
      · exact (ih (count + 1)).bind fun rounds => C.pure (value :: rounds.1, rounds.2)

/-- A repetition is followed round by round, as its rounds end at the same offsets. -/
theorem repetition (part : Atom) (h : C.Follows id body body') (min : Nat) (max : Option Nat)
    (optional : Bool) : C.Follows id (repetition part body min max optional)
      (Matcher.repetition (part.mapRefs C.rename) body' min max optional) := by
  refine C.position.next fun start => C.source.next fun source =>
    (roundsFrom h max _ 0).bind fun rounds => ?_
  obtain ⟨values, ended⟩ := rounds
  dsimp only [Prod.map, id]
  split
  · have hended : (ended.map (Cause.mapRefs C.rename)).toList
        = ended.toList.map (Cause.mapRefs C.rename) := by cases ended <;> rfl
    rw [hended]
    exact C.refuse (.atLeast min part) start ended.toList
  · exact C.position.next fun stop =>
      (C.emit (.repetitionStopped start stop values.length) rfl).next fun _ => C.pure _

/-- A lookahead is followed if its part is, and goes back to the same offset. -/
theorem lookahead (part : Atom) (h : C.Follows id body body') (positive : Bool) :
    C.Follows id (lookahead part body positive)
      (Matcher.lookahead (part.mapRefs C.rename) body' positive) := by
  refine C.position.next fun start => h.bind_attempt
    (fun value => (C.moveTo start).next fun _ => ?_)
    fun cause => (C.moveTo start).next fun _ => ?_
  · cases positive
    · exact C.refuse (.lookahead false part) start []
    · exact C.pure _
  · cases positive
    · exact C.pure _
    · exact C.refuse (.lookahead true part) start [cause]

/-- A named part is followed if the part is. -/
theorem named (h : C.Follows id body body') (name : String) :
    C.Follows id (named body name) (Matcher.named body' name) :=
  h.next fun raw => (flatten true raw).map _

/-- A transformed part is followed if the part is: trees hold no references. -/
theorem mapped (h : C.Follows id body body') (transform : Tree → Tree) :
    C.Follows id (mapped body transform) (Matcher.mapped body' transform) :=
  h.next fun raw => (flatten false raw).map _

/-- A marked part is followed if the part is. -/
theorem marked (h : C.Follows id body body') : C.Follows id (marked body) (Matcher.marked body') :=
  C.position.next fun start => h.next fun _ => (C.moveTo start).next fun _ => C.pure _

/-- A captured part is followed if the part is, and the same text is captured. -/
theorem captured (h : C.Follows id body body') (name : String) :
    C.Follows id (captured body name) (Matcher.captured body' name) :=
  h.next fun raw => (flatten false raw).next fun value =>
    (C.modify (·.insert name value) id).next fun _ => C.pure _

/-- A scope is followed if its body is; the captures from before it are the same. -/
theorem inScope (h : C.Follows id body body') : C.Follows id (inScope body) (Matcher.inScope body') :=
  (C.modify (·.openScope) id).next fun _ => h.attempt_same.bind fun outcome =>
    (C.modify (·.closeScope) id).next fun _ => C.ofResult outcome

/-- A labelled part is followed if the part is; the label is on top for both. -/
theorem labelled (h : C.Follows id body body') (text : String) :
    C.Follows id (labelled body text) (Matcher.labelled body' text) :=
  (C.modify id (text :: ·)).next fun _ => h.attempt_same.bind fun outcome =>
    (C.modify id (·.tail)).next fun _ => C.ofResult outcome

/-- Taking in the rest of the text is followed by itself. -/
theorem halt : C.Follows id Matcher.halt Matcher.halt := C.source.next fun _ => (C.consume _).map _

/-- An operand is followed if the expression for it is. -/
theorem operand (part : Atom) (h : C.Follows id body body') :
    C.Follows id (operand part body) (Matcher.operand (part.mapRefs C.rename) body') :=
  h.bind_attempt (fun raw => flatten true raw)
    fun cause => C.position.next fun pos => C.refuse (.operandExpected part) pos [cause]

/-- The scan for an operator is followed operator by operator; precedences are not renamed. -/
theorem operator {ι : Type} (fixity : ι → Fixity) {items : List ι} {step step' : ι → Matcher Raw}
    (h : ∀ i ∈ items, C.Follows id (step i) (step' i)) :
    C.Follows id (operator (items.map fun i => (fixity i, step i)))
      (Matcher.operator (items.map fun i => (fixity i, step' i))) := by
  induction items with
  | nil => exact C.pure _
  | cons i rest ih =>
    exact (h i (by simp)).bind_attempt (fun raw => (flatten true raw).map _)
      fun _ => ih fun j hj => h j (List.mem_cons_of_mem _ hj)

/-- Climbing is followed if operand and scan are, at every depth and every floor. -/
theorem climbFrom {element element' : Matcher Tree} {next next' : Matcher (Option (Tree × Fixity))}
    (he : C.Follows id element element') (hn : C.Follows id next next')
    (combine : Tree → Tree → Tree → Tree) (bound : Nat) (floor : UInt32) (left : Tree) :
    C.Follows id (climbFrom element next combine bound floor left)
      (Matcher.climbFrom element' next' combine bound floor left) := by
  induction bound generalizing floor left with
  | zero => exact C.stop _
  | succ bound ih =>
    refine C.position.next fun before => hn.next fun found => ?_
    rcases found with _ | ⟨symbol, fixity⟩
    · exact C.pure _
    · dsimp only
      split
      · exact (C.moveTo before).next fun _ => C.pure _
      · exact he.next fun first => (ih _ first).next fun right => ih floor _

/-- An operator expression is followed if its operand and its scan are. -/
theorem operators (part : Atom) (h : C.Follows id body body') {table table' : List (Fixity × Matcher Raw)}
    (ht : C.Follows id (Matcher.operator table) (Matcher.operator table'))
    (combine : Option (Tree → Tree → Tree → Tree)) :
    C.Follows id (operators part body table combine)
      (Matcher.operators (part.mapRefs C.rename) body' table' combine) :=
  C.source.next fun _ => ((operand part h).next fun first =>
    climbFrom (operand part h) ht _ _ 0 first).map _

/-- An expression with other references follows the expression if the references in it do. -/
theorem matcher {apply apply' : RuleRef → Matcher Raw} {atom : Atom}
    (h : atom.Every fun part => ∀ ref, part = .rule ref →
      C.Follows id (apply ref) (apply' (C.rename ref))) :
    C.Follows id (atom.matcher apply) ((atom.mapRefs C.rename).matcher apply') := by
  induction h with
  | @intro atom here _ ih =>
  cases atom with
  | literal word => exact guarded (literal word)
  | char test => exact guarded (character (.char test) test.accepts)
  | halt => exact guarded halt
  | rule ref => exact guarded (here ref rfl)
  | sequence parts =>
    have horder := inOrder (.sequence parts) fun part hp => ih part (.sequence hp)
    simp only [Atom.mapRefs, Atom.mapRefsAll_eq_map, Atom.matcher, Atom.matchers_eq_map, List.map_map]
      at horder ⊢
    exact guarded (horder.map _)
  | choice branches =>
    have hchoice := choice (.choice branches) fun branch hb => ih branch (.choice hb)
    simp only [Atom.mapRefs, Atom.mapRefsAll_eq_map, Atom.matcher, Atom.matchers_eq_map, List.map_map]
      at hchoice ⊢
    exact guarded hchoice
  | repetition body min max optional =>
    exact guarded (repetition body (ih body (.repetition ..)) min max optional)
  | lookahead body positive => exact guarded (lookahead body (ih body (.lookahead ..)) positive)
  | named body name => exact guarded (named (ih body (.named ..)) name)
  | ignore body => exact guarded ((ih body (.ignore _)).map _)
  | map body transform => exact guarded (mapped (ih body (.map ..)) transform)
  | mark body => exact guarded (marked (ih body (.mark _)))
  | capture body name => exact guarded (captured (ih body (.capture ..)) name)
  | scope body => exact guarded (inScope (ih body (.scope _)))
  | dynamic pick =>
    exact guarded (dynamic fun source captures => ih _ (.dynamic pick source captures))
  | operators operand table combine =>
    have htable := operator (fun op : Fixity × Atom => op.1) fun op hop => ih op.2 (.operator _ _ hop)
    simp only [Atom.mapRefs, Atom.mapRefsTable_eq_map, Atom.matcher, Atom.operatorMatchers_eq_map,
      List.map_map]
    exact guarded (operators operand (ih operand (.operand ..)) htable combine)
  | label body text => exact guarded (labelled (ih body (.label ..)) text)

end Combinators

section Memo

variable {α : Type} {g : α → α}

/-- What is remembered may be looked at. -/
theorem memo {next next' : Memo → Matcher α}
    (h : ∀ memo memo', memo.Renamed C.rename memo' → C.Follows g (next memo) (next' memo')) :
    C.Follows g (Matcher.memo >>= next) (Matcher.memo >>= next') := by
  intro s s' hs
  rw [abreast_memo]
  exact h _ _ hs.memo s s' hs

/-- What is remembered may be changed in the same way. -/
theorem modifyMemo {change change' : Memo → Memo}
    (h : ∀ memo memo', memo.Renamed C.rename memo' → (change memo).Renamed C.rename (change' memo')) :
    C.Follows id (Matcher.modifyMemo change) (Matcher.modifyMemo change') :=
  fun _ _ hs => ⟨rfl, hs.withMemo (h _ _ hs.memo)⟩

/-- A change to a cluster names rules by their index, which the copy shares. -/
theorem modifyCluster (id' : Nat) (change : Cluster → Cluster) :
    C.Follows id (Matcher.modifyMemo (·.modifyCluster id' change))
      (Matcher.modifyMemo (·.modifyCluster id' change)) :=
  modifyMemo fun _ _ h => h.modifyCluster id' change

/-- An answer is remembered with its cause renamed. -/
theorem remember (rule start : Nat) (answer : Answer) (stop : Nat) :
    C.Follows id (remember rule start answer stop)
      (Matcher.remember rule start (answer.mapRefs C.rename) stop) :=
  modifyMemo fun _ _ h => h.remember rule start answer stop

/-- Entries are forgotten by index and start, which the copy shares. -/
theorem forget (rules : List Nat) (start : Nat) :
    C.Follows id (forget rules start) (Matcher.forget rules start) := by
  refine memo fun m m' hm => ?_
  dsimp only
  rw [hm.known]
  refine (modifyMemo fun _ _ h => h.forget _ start).next fun _ => ?_
  have hdropped (known : List Nat) {s s' : Session} (hs : C.Alike s s') : C.Alike
      { s with trace := known.foldl (fun trace rule => .entryDropped rule start :: trace) s.trace }
      { s' with trace := known.foldl (fun trace rule => .entryDropped rule start :: trace) s'.trace } := by
    induction known generalizing s s' with
    | nil => exact hs
    | cons rule rest ih => exact ih (hs.emit (.entryDropped rule start) rfl)
  exact fun s s' hs => ⟨rfl, hdropped _ hs⟩

/-- The same calls are marked as recursive, as the same rules are under way. -/
theorem markLeftRecursion (rule id' : Nat) :
    C.Follows id (markLeftRecursion rule id') (Matcher.markLeftRecursion rule id') := by
  refine memo fun m m' hm => ?_
  have hfresh : (m'.application? id').all (·.cluster.isNone)
      = (m.application? id').all (·.cluster.isNone) := by
    rw [hm.application?]
    cases m.application? id' <;> rfl
  dsimp only
  rw [hfresh]
  refine (modifyMemo fun _ _ h => h.markLeftRecursion rule id').next fun _ => ?_
  split
  · exact C.emit (.leftRecursion rule) rfl
  · exact C.pure ()

section Applying

variable {rule : Nat} {name : String} {body body' : Matcher Tree} {start cluster : Nat}

/-- What a rule has remembered is recalled in both matches, or evaluated again in both. -/
theorem remembered (h : C.Follows id body body') :
    C.Follows (Option.map (Entry.mapRefs C.rename)) (remembered ⟨rule, name, body⟩ start)
      (Matcher.remembered ⟨rule, name, body'⟩ start) := by
  refine memo fun m m' hm => ?_
  have hcounted (entry : Option Entry) : C.Follows (Option.map (Entry.mapRefs C.rename))
      (do if entry.isSome then Matcher.modifyMemo Memo.countHit
          return entry)
      (do if entry.isSome then Matcher.modifyMemo Memo.countHit
          return entry.map (Entry.mapRefs C.rename)) := by
    dsimp only
    split
    · exact (modifyMemo fun _ _ h => h.count _).next fun _ => C.pure entry
    · exact C.pure entry
  dsimp only
  rw [hm.growing?, hm.find?, Option.isSome_map, Option.isNone_map]
  split
  · exact hcounted _
  · split
    · exact C.pure (some (Entry.mk (.done (.error (RuleBody.failed ⟨rule, name, body⟩ start))) start))
    · split
      · refine (modifyCluster _ _).next fun _ => h.attempt_same.bind fun result =>
          C.position.next fun stop => ?_
        exact (remember rule start (.done result) stop).next fun _ =>
          C.pure (some (Entry.mk (.done result) stop))
      · exact hcounted _

/-- Growing ends in both matches after the same round, with the same tree. -/
theorem growFrom (h : C.Follows id body body') (bound : Nat) (best : Tree) (stop : Nat) :
    C.Follows id (growFrom ⟨rule, name, body⟩ start cluster bound best stop)
      (Matcher.growFrom ⟨rule, name, body'⟩ start cluster bound best stop) := by
  induction bound generalizing best stop with
  | zero => exact C.stop _
  | succ bound ih =>
    refine (C.moveTo start).next fun _ => (modifyCluster _ _).next fun _ =>
      h.bind_attempt (fun tree => C.position.next fun reached => ?_)
        fun cause => C.position.next fun reached => C.pure _
    dsimp only [id]
    split
    · exact (modifyMemo fun _ _ h => h.count _).next fun _ =>
        (C.emit (.seedGrew name start reached) rfl).next fun _ =>
          (remember rule start (.done (.ok tree)) reached).next fun _ => ih tree reached
    · exact C.pure _

/-- A seed is grown in both matches to the same tree. -/
theorem grow (h : C.Follows id body body') (seed : Tree) (stop : Nat) :
    C.Follows id (grow ⟨rule, name, body⟩ start cluster seed stop)
      (Matcher.grow ⟨rule, name, body'⟩ start cluster seed stop) := by
  refine memo fun m m' hm => ?_
  dsimp only
  rw [hm.growing]
  refine (modifyMemo fun _ _ h => h.grow (·.insert start cluster)).next fun _ =>
    C.source.next fun source => (growFrom h _ seed stop).next fun best => memo fun n n' hn => ?_
  have hend : C.Follows id (do Matcher.moveTo best.2; return best.1)
      (do Matcher.moveTo best.2; return best.1) := (C.moveTo best.2).next fun _ => C.pure _
  rw [hn.clusters]
  refine (modifyCluster _ _).next fun _ => ?_
  split
  · rename_i id' _
    exact (modifyMemo fun _ _ h => h.grow (·.insert start id')).next fun _ => hend
  · exact (modifyMemo fun _ _ h => h.grow (·.erase start)).next fun _ =>
      (forget _ _).next fun _ => hend

/-- The outermost rule of a cluster answers the same in both matches. -/
theorem answerCluster (h : C.Follows id body body') (seed : Except Cause Tree) :
    C.Follows id (answerCluster ⟨rule, name, body⟩ start cluster seed)
      (Matcher.answerCluster ⟨rule, name, body'⟩ start cluster (retold C.rename seed)) := by
  refine memo fun m m' hm => ?_
  dsimp only
  rw [hm.clusters]
  split
  · exact C.ofResult seed
  · split
    · exact C.ofResult seed
    · refine C.position.next fun stop => (remember rule start (.done seed) stop).next fun _ => ?_
      cases seed with
      | ok tree => exact grow h tree stop
      | error cause =>
        refine (modifyCluster _ _).next fun _ => memo fun n n' hn => ?_
        dsimp only
        rw [hn.growing]
        split
        · exact (forget _ _).next fun _ => C.fail cause
        · exact C.fail cause

/-- A rule without an entry is evaluated in both matches to the same. -/
theorem applyFresh (h : C.Follows id body body') (start : Nat) :
    C.Follows id (applyFresh ⟨rule, name, body⟩ start)
      (Matcher.applyFresh ⟨rule, name, body'⟩ start) := by
  refine (modifyMemo fun _ _ h => h.count _).next fun _ => memo fun m m' hm => ?_
  obtain ⟨hid, hpushed⟩ := hm.push rule start (.error (RuleBody.failed ⟨rule, name, body⟩ start))
  have hsize : m'.applications.size = m.applications.size := hid
  dsimp only [Memo.push] at hpushed ⊢
  rw [hsize] at hpushed ⊢
  refine (modifyMemo fun _ _ _ => hpushed).next fun _ =>
    (remember rule start (.inProgress m.applications.size) start).next fun _ =>
      h.attempt_same.bind fun result => (modifyMemo fun _ _ h => h.pop _).next fun _ =>
        C.position.next fun stop => memo fun n n' hn => ?_
  rw [hn.clusterAt]
  split
  · exact (modifyMemo fun _ _ h => h.reseed _ result).next fun _ =>
      (remember rule start (.inProgress m.applications.size) stop).next fun _ => answerCluster h result
  · exact (modifyMemo fun _ _ h => h.release _).next fun _ =>
      (remember rule start (.done result) stop).next fun _ => C.ofResult result

/-- Remembering what a rule comes to is followed if the body is, once for all rules. -/
theorem memoized (h : C.Follows id body body') :
    C.Follows id (memoized ⟨rule, name, body⟩) (Matcher.memoized ⟨rule, name, body'⟩) := by
  refine C.position.next fun start => (remembered h).bind fun found => ?_
  rcases found with _ | ⟨result | id', stop⟩
  · exact applyFresh h start
  · exact (C.moveTo stop).next fun _ => C.ofResult result
  · refine memo fun m m' hm => ?_
    dsimp only [id]
    rw [hm.isActive]
    split
    · refine (C.moveTo stop).next fun _ => (markLeftRecursion rule id').next fun _ => memo fun n n' hn => ?_
      rw [hn.application?]
      cases n.application? id' with
      | none => exact applyFresh h start
      | some application => exact C.ofResult application.seed
    · exact applyFresh h start

end Applying

end Memo

section Rules

/-- A reference that leads to the same place leads to the same body but for its references. -/
theorem resolve {α : Type} {g : α → α} (hC : C.Faithful) {ref : RuleRef} (href : C.Leads (.rule ref))
    {next next' : Option (Nat × Atom) → Matcher α} (hnone : C.Follows g (next none) (next' none))
    (hsome : ∀ index atom, C.table.bodyAt? index = some atom →
      C.Follows g (next (some (index, atom))) (next' (some (index, atom.mapRefs C.rename)))) :
    C.Follows g (C.table.resolve ref >>= next) (C.copy.resolve (C.rename ref) >>= next') := by
  intro s s' hs
  have hleads := href ref rfl
  cases hr : C.table.resolve? ref with
  | none =>
    have hstay : C.table.resolve ref s = .matched none s := by simp [RuleTable.resolve, hr]
    have hstay' : C.copy.resolve (C.rename ref) s' = .matched none s' := by
      simp [RuleTable.resolve, hleads, hr]
    exact (abreast_matched hstay hstay').2 (hnone s s' hs)
  | some index =>
    obtain ⟨atom, hatom⟩ := RuleTable.bodyAt?_isSome hr
    have hatom' : C.copy.bodyAt? index = some (atom.mapRefs C.rename) := by
      rw [hC.bodies, hatom, Option.map_some]
    obtain ⟨bodies, event?, hbody, hbodies, htold, hledger⟩ := RuleTable.exists_body? hs.bodies hatom
    obtain ⟨bodies', event?', hbody', hbodies', htold', -⟩ := RuleTable.exists_body? hs.bodies' hatom'
    have hfound : C.table.resolve ref s = .matched (some (index, atom))
        { s with bodies, trace := event?.toList ++ s.trace } := by
      simp [RuleTable.resolve, hr, hbody]
    have hfound' : C.copy.resolve (C.rename ref) s' = .matched (some (index, atom.mapRefs C.rename))
        { s' with bodies := bodies', trace := event?'.toList ++ s'.trace } := by
      simp [RuleTable.resolve, hleads, hr, hbody']
    refine (abreast_matched hfound hfound').2 (hsome index atom hatom _ _ ?_)
    refine { hs with
      trace := ?_
      bodies := hbodies
      bodies' := hbodies'
      ledger := hledger _ _ hs.ledger }
    have htrace := hs.trace
    unfold withoutBuilding at htold htold' htrace ⊢
    simp only [List.filter_append, htold, htold', htrace, List.nil_append]

/-- An undefined name is reported by itself: the copy leads nowhere under the same name. -/
theorem refuseUndefined (name : String) :
    C.Follows id (RuleTable.refuseUndefined name) (RuleTable.refuseUndefined name) := by
  have hrefuse : C.Follows id
      (do Matcher.refuse (.undefinedRule name) (← Matcher.position) [] : Matcher Raw)
      (do Matcher.refuse (.undefinedRule name) (← Matcher.position) []) :=
    C.position.next fun pos => C.refuse (.undefinedRule name) pos []
  have hnote : C.Follows id
      (Matcher.modify fun s => { s with undefined := some name, trace := .aborted name :: s.trace })
      (Matcher.modify fun s => { s with undefined := some name, trace := .aborted name :: s.trace }) :=
    fun s s' hs => ⟨rfl, { hs.emit (.aborted name) rfl with undefined := rfl }⟩
  have hcheck (undefined : Option String) : C.Follows id (do
      if undefined.isNone then
        Matcher.modify fun s => { s with undefined := some name, trace := .aborted name :: s.trace }
      Matcher.refuse (.undefinedRule name) (← Matcher.position) [] : Matcher Raw) (do
      if undefined.isNone then
        Matcher.modify fun s => { s with undefined := some name, trace := .aborted name :: s.trace }
      Matcher.refuse (.undefinedRule name) (← Matcher.position) []) := by
    dsimp only
    split
    · exact hnote.next fun _ => hrefuse
    · exact hrefuse
  intro s s' hs
  refine (hcheck s.undefined s s' hs).congr rfl ?_
  rw [← hs.undefined]
  rfl

/-- A reference that leads to the same place follows the reference. -/
theorem applyRule (hC : C.Faithful) (depth : Nat) {ref : RuleRef} (href : C.Leads (.rule ref)) :
    C.Follows id (C.table.applyRule depth ref) (C.copy.applyRule depth (C.rename ref)) := by
  induction depth generalizing ref with
  | zero => exact C.stop _
  | succ depth ih =>
    rw [RuleTable.applyRule, RuleTable.applyRule, hC.name]
    refine resolve hC href (refuseUndefined ref.name) fun index atom hatom => ?_
    have hbody := matcher ((hC.leads index atom hatom).mono fun part hpart ref href =>
      ih (href ▸ hpart))
    exact (memoized (hbody.next fun raw => flatten false raw)).map _

/-- A match with the copy follows the match with the table. -/
theorem matchEntry (hC : C.Faithful) {entry : Atom} (hentry : entry.Every C.Leads) (bytes : Nat) :
    C.Follows id (C.table.matcher bytes entry) (C.copy.matcher bytes (entry.mapRefs C.rename)) := by
  have hbound : C.copy.depthBound bytes = C.table.depthBound bytes := by
    have hlength := congrArg List.length hC.names
    simp only [RuleTable.names, List.length_map] at hlength
    unfold RuleTable.depthBound
    rw [hlength]
  unfold RuleTable.matcher
  rw [hbound]
  exact matcher (hentry.mono fun part hpart ref href => applyRule hC _ (href ▸ hpart))

/-- What is concluded from the match with the copy follows what is concluded from that with the table. -/
theorem conclude (allowRest : Bool) (outcome : Except Cause Raw) :
    C.Follows id (conclude allowRest outcome)
      (Packrat.conclude allowRest (retold C.rename outcome)) := by
  refine (C.ofResult outcome).next fun raw => C.source.next fun source => ?_
  split
  · exact (flatten false raw).next fun tree => (C.emit (.succeeded source.pos) rfl).next fun _ => C.pure tree
  · exact C.refuse (.unconsumed _) _ []

end Rules

end Copy

end Packrat
