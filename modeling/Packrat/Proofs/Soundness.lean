import Mathlib
import Packrat.Proofs.Derivation

/-!
# Every match is backed by a derivation

A session is backed if every match in its memo is a derivation, and no application on the call path has
a match for its seed. Matching keeps sessions backed and yields derivations; whether it comes to an end
plays no part here.
-/

namespace Packrat

open Matcher RuleTable

/-- All that is remembered in the session is backed by derivations. -/
structure Backed (table : RuleTable) (text : Text) (s : Session) : Prop where
  source : s.source.text = text
  boundary : text.isBoundary s.source.pos = true
  bodies : table.Knows s.bodies
  answers : ∀ index start tree stop, s.memo.find? index start = some ⟨.done (.ok tree), stop⟩ →
    table.DerivesRule text index start stop tree
  path : ∃ path, Memo.Linked s.memo.applications s.memo.top path ∧
    ∀ id ∈ path, ∀ a : Application, s.memo.applications[id]? = some a → ∃ cause, a.seed = .error cause

variable {table : RuleTable} {text : Text} {α β : Type}

variable (table text) in
/-- What a step leaves behind: a backed session, with the call path of the memo before it, and a value
of which the condition holds together with the offset behind it. -/
structure Leaves (holds : Nat → α → Prop) (memo : Memo) (result : Except Cause α) (s : Session) :
    Prop where
  backed : Backed table text s
  frame : memo.Frame s.memo
  value : ∀ value, result = .ok value → holds s.source.pos value

variable (table text) in
/-- From every backed session the step leaves a backed one, and yields values of which the condition
holds between the offsets. -/
def Yields (step : Matcher α) (holds : Nat → Nat → α → Prop) : Prop :=
  ∀ s, Backed table text s → Ensures anyhow step s (Leaves table text (holds s.source.pos) s.memo)

variable (table text) in
/-- The step yields derivations of the expression, and puts the cursor back after a failure. -/
def Sound (step : Matcher Raw) (atom : Atom) : Prop :=
  ∀ s, Backed table text s → Ensures anyhow step s fun result s' =>
    Leaves table text (table.Derives text atom s.source.pos) s.memo result s' ∧
      ∀ cause, result = .error cause → s'.source.pos = s.source.pos

/-- A sound step yields derivations. -/
theorem Sound.yields {step : Matcher Raw} {atom : Atom} (h : Sound table text step atom) :
    Yields table text step (table.Derives text atom) :=
  fun s hs => (h s hs).mono fun _ _ hl => hl.1

namespace Backed

variable {s s' : Session}

/-- A step that changes neither the source nor what is known. -/
theorem of_eq (h : Backed table text s) (hsource : s'.source = s.source) (hb : s'.bodies = s.bodies)
    (hm : s'.memo = s.memo) : Backed table text s' := by
  obtain ⟨hs, hpos, hbodies, hanswers, hpath⟩ := h
  rw [← hsource] at hs hpos
  rw [← hb] at hbodies
  rw [← hm] at hanswers hpath
  exact ⟨hs, hpos, hbodies, hanswers, hpath⟩

/-- The cursor may be moved to a boundary. -/
theorem moveTo (h : Backed table text s) {pos : Nat} (hb : s.source.text.isBoundary pos = true) :
    Backed table text { s with source.pos := pos } :=
  ⟨h.source, h.source ▸ hb, h.bodies, h.answers, h.path⟩

/-- The memo of a later session may change as long as its matches are derivations and the call path is
that of the earlier one. -/
theorem returns (h : Backed table text s) (h' : Backed table text s') {memo : Memo}
    (hframe : s.memo.Frame memo) (hanswers : ∀ index start tree stop,
      memo.find? index start = some ⟨.done (.ok tree), stop⟩ →
        table.DerivesRule text index start stop tree) : Backed table text { s' with memo } := by
  obtain ⟨path, hlinked, hseeds⟩ := h.path
  refine ⟨h'.source, h'.boundary, h'.bodies, hanswers, path,
    hframe.top.symm ▸ hframe.linked hlinked, ?_⟩
  intro id hid a ha
  obtain ⟨a', ha'⟩ := hlinked.exists_record id hid
  obtain ⟨cluster, hrecord⟩ := hframe.records id a' ha'
  rw [hrecord] at ha
  cases ha
  exact hseeds id hid a' ha'

end Backed

/-- Moving the cursor fails only where there is no boundary. -/
theorem ensures_moveTo_of {s : Session} {pos : Nat} {post : Except Cause Unit → Session → Prop}
    (h : s.source.text.isBoundary pos = true → post (.ok ()) { s with source.pos := pos }) :
    Ensures anyhow (moveTo pos) s post := by
  by_cases hb : s.source.text.isBoundary pos = true
  · exact (ensures_moveTo hb post).2 (h hb)
  · simp [Ensures, anyhow, moveTo, Source.setPos?, hb]

/-- A refusal leaves all that is backed as it is. -/
theorem ensures_refuse_backed {holds : Nat → α → Prop} {s : Session} {memo : Memo}
    (h : Backed table text s) (hframe : memo.Frame s.memo) (message : Message) (offset : Nat)
    (children : List Cause) :
    Ensures anyhow (refuse message offset children) s (Leaves table text holds memo) :=
  ⟨h.of_eq rfl rfl rfl, hframe, by simp⟩

/-- What is left behind after a further step. -/
theorem Leaves.after {holds : Nat → α → Prop} {memo memo' : Memo} {result : Except Cause α}
    {s : Session} (h : Leaves table text holds memo' result s) (hframe : memo.Frame memo') :
    Leaves table text holds memo result s := ⟨h.backed, hframe.trans h.frame, h.value⟩

/-- The guard turns a step that yields derivations into a sound one. -/
theorem Yields.guarded {step : Matcher Raw} {atom : Atom}
    (h : Yields table text step (table.Derives text atom)) :
    Sound table text (guarded step) atom := by
  intro s hs
  simp only [Matcher.guarded, ensures_bind, ensures_position, ensures_attempt]
  refine (h s hs).mono ?_
  rintro result s' ⟨hback, hframe, hvalue⟩
  cases result with
  | ok raw =>
    simp only [ensures_bind, ensures_position, ensures_tell, ensures_pure]
    exact ⟨⟨hback.of_eq rfl rfl rfl, hframe, hvalue⟩, by simp⟩
  | error cause =>
    simp only [ensures_bind]
    refine ensures_moveTo_of fun hb => ?_
    exact ⟨⟨hback.moveTo hb, hframe, by simp⟩, fun _ _ => rfl⟩

/-- One step follows the other. -/
theorem Yields.andThen {first : Matcher α} {next : α → Matcher β} {holds : Nat → Nat → α → Prop}
    {holds' : Nat → Nat → β → Prop} (h : Yields table text first holds)
    (hnext : ∀ value start s, holds start s.source.pos value → Backed table text s →
      Ensures anyhow (next value) s (Leaves table text (holds' start) s.memo)) :
    Yields table text (first >>= next) holds' := by
  intro s hs
  rw [ensures_bind]
  refine (h s hs).mono ?_
  rintro result s₁ ⟨hback, hframe, hvalue⟩
  cases result with
  | error cause => exact ⟨hback, hframe, by simp⟩
  | ok value =>
    exact (hnext value s.source.pos s₁ (hvalue value rfl) hback).mono fun _ _ hl => hl.after hframe

/-- The value of a step is changed. -/
theorem Yields.map {step : Matcher α} {holds : Nat → Nat → α → Prop} {holds' : Nat → Nat → β → Prop}
    (h : Yields table text step holds) (f : α → β)
    (hf : ∀ start stop value, holds start stop value → holds' start stop (f value)) :
    Yields table text (do return f (← step)) holds' := by
  refine h.andThen fun value start s hv hs => ?_
  refine ⟨hs, .refl _, fun value' heq => ?_⟩
  cases heq
  exact hf _ _ _ hv

/-- The value of a step is flattened. -/
theorem Yields.flat {step : Matcher Raw} {holds : Nat → Nat → Raw → Prop}
    (h : Yields table text step holds) (named : Bool) :
    Yields table text (do flatten named (← step)) fun start stop tree =>
      ∃ raw, holds start stop raw ∧ tree = (raw.flatten named).tree := by
  refine h.andThen fun raw start s hv hs => ensures_flatten _ _ _ fun overwritten trace => ?_
  refine ⟨hs.of_eq rfl rfl rfl, .refl _, fun tree heq => ?_⟩
  cases heq
  exact ⟨raw, hv, rfl⟩

section Combinators

/-- A literal that is read is derived from itself. -/
theorem yields_literal (word : String) :
    Yields table text (Matcher.literal word) (table.Derives text (.literal word)) := by
  intro s hs
  have hsource : ({ text, pos := s.source.pos } : Source).startsWith word
      = s.source.startsWith word := by
    simp only [Source.startsWith, Source.rest, hs.source]
  simp only [Matcher.literal, ensures_bind, ensures_source]
  split
  · exact ensures_refuse_backed hs (.refl _) _ _ _
  · split
    · rename_i hw
      obtain ⟨hfit, hb⟩ := Source.isBoundary_of_startsWith (hs.source ▸ hs.boundary) hw
      simp only [ensures_bind, ensures_consume hfit, ensures_pure]
      refine ⟨⟨hs.source, hs.source ▸ hb, hs.bodies, hs.answers, hs.path⟩, .refl _, ?_⟩
      rintro _ heq
      cases heq
      have hslice : s.source.slice s.source.pos word.utf8ByteSize
          = Source.slice { text } s.source.pos word.utf8ByteSize := by
        simp only [Source.slice, hs.source]
      rw [hslice]
      exact .literal (hsource.trans hw)
    · exact ensures_refuse_backed hs (.refl _) _ _ _

/-- A character that is accepted is derived from its class. -/
theorem yields_character (test : CharClass) :
    Yields table text (character (.char test) test.accepts) (table.Derives text (.char test)) := by
  intro s hs
  have hsource : ({ text, pos := s.source.pos } : Source).nextChar? = s.source.nextChar? := by
    simp only [Source.nextChar?, Source.rest, hs.source]
  simp only [character, ensures_bind, ensures_source]
  split
  · exact ensures_refuse_backed hs (.refl _) _ _ _
  · rename_i c hc
    split
    · rename_i htest
      obtain ⟨hfit, hb⟩ := Source.isBoundary_of_nextChar? (hs.source ▸ hs.boundary) hc
      simp only [ensures_bind, ensures_consume hfit, ensures_pure]
      refine ⟨⟨hs.source, hs.source ▸ hb, hs.bodies, hs.answers, hs.path⟩, .refl _, ?_⟩
      rintro _ heq
      cases heq
      have hslice : s.source.slice s.source.pos c.utf8Size
          = Source.slice { text } s.source.pos c.utf8Size := by
        simp only [Source.slice, hs.source]
      rw [hslice]
      exact .char (hsource.trans hc) htest
    · exact ensures_refuse_backed hs (.refl _) _ _ _

/-- Parts that are derived one after the other are derived together. -/
theorem yields_inOrder (whole : Atom) {step : Atom → Matcher Raw} {parts : List Atom}
    (h : ∀ a ∈ parts, Sound table text (step a) a) :
    Yields table text (inOrder whole (parts.map step)) (table.DerivesAll text parts) := by
  induction parts with
  | nil =>
    intro s hs
    refine ⟨hs, .refl _, fun values heq => ?_⟩
    cases heq
    exact .nil _
  | cons part rest ih =>
    have hrest := ih fun a ha => h a (List.mem_cons_of_mem _ ha)
    intro s hs
    simp only [List.map_cons, inOrder, ensures_bind, ensures_attempt]
    refine (h part (by simp) s hs).mono ?_
    rintro result s₁ ⟨⟨hback, hframe, hvalue⟩, -⟩
    cases result with
    | error cause =>
      simp only [ensures_bind, ensures_position]
      exact ensures_refuse_backed hback hframe _ _ _
    | ok value =>
      simp only [ensures_bind]
      refine (hrest s₁ hback).mono ?_
      rintro result s₂ ⟨hback₂, hframe₂, hvalues⟩
      cases result with
      | error cause => exact ⟨hback₂, hframe.trans hframe₂, by simp⟩
      | ok values =>
        refine ⟨hback₂, hframe.trans hframe₂, fun all heq => ?_⟩
        cases heq
        exact .cons (hvalue value rfl) (hvalues values rfl)

/-- A branch that matches is one that the choice may be derived by. -/
theorem yields_choice (whole : Atom) {step : Atom → Matcher Raw} {branches : List Atom}
    (h : ∀ a ∈ branches, Sound table text (step a) a) :
    Yields table text (choice whole (branches.map step)) (table.Derives text (.choice branches)) := by
  have hfirst (rest : List Atom) (hsub : ∀ a ∈ rest, a ∈ branches) (causes : List Cause)
      (start : Nat) (s : Session) (hpos : s.source.pos = start) (hs : Backed table text s) :
      Ensures anyhow (firstOf whole start (rest.map step) causes) s
        (Leaves table text (table.Derives text (.choice branches) start) s.memo) := by
    induction rest generalizing causes s with
    | nil =>
      simp only [List.map_nil, firstOf, ensures_bind, ensures_tell, ensures_refuse]
      exact ⟨hs.of_eq rfl rfl rfl, .refl _, by simp⟩
    | cons branch rest ih =>
      simp only [List.map_cons, firstOf, ensures_bind, ensures_attempt]
      refine (h branch (hsub branch (by simp)) s hs).mono ?_
      rintro result s₁ ⟨⟨hback, hframe, hvalue⟩, hpos₁⟩
      cases result with
      | error cause =>
        refine (ih (fun a ha => hsub a (List.mem_cons_of_mem _ ha)) _ s₁
          ((hpos₁ cause rfl).trans hpos) hback).mono ?_
        exact fun _ _ hl => hl.after hframe
      | ok value =>
        simp only [ensures_bind, ensures_tell, ensures_pure]
        refine ⟨hback.of_eq rfl rfl rfl, hframe, fun value' heq => ?_⟩
        cases heq
        rw [← hpos]
        exact .choice (hsub branch (by simp)) (hvalue value rfl)
  intro s hs
  simp only [choice, ensures_bind, ensures_position, ensures_tell]
  exact hfirst branches (fun _ ha => ha) [] s.source.pos _ rfl (hs.of_eq rfl rfl rfl)

/-- Rounds are derived one after the other, and there are no more of them than allowed. -/
theorem yields_rounds {body : Atom} {step : Matcher Raw} (h : Sound table text step body)
    (max : Option Nat) (bound count : Nat) :
    Yields table text (roundsFrom step max bound count) fun start stop rounds =>
      table.DerivesAll text (List.replicate rounds.1.length body) start stop rounds.1 ∧
        ∀ m, max = some m → rounds.1 = [] ∨ count + rounds.1.length ≤ m := by
  induction bound generalizing count with
  | zero => exact fun s hs => trivial
  | succ bound ih =>
    intro s hs
    rw [roundsFrom]
    split
    · refine ⟨hs, .refl _, fun rounds heq => ?_⟩
      cases heq
      exact ⟨.nil _, fun _ _ => .inl rfl⟩
    · rename_i hmax
      have hcount (m : Nat) (hm : max = some m) : count < m := by simpa [hm] using hmax
      simp only [ensures_bind, ensures_position, ensures_attempt]
      refine (h s hs).mono ?_
      rintro result s₁ ⟨⟨hback, hframe, hvalue⟩, hpos⟩
      cases result with
      | error cause =>
        refine ⟨hback, hframe, fun rounds heq => ?_⟩
        cases heq
        rw [hpos cause rfl]
        exact ⟨.nil _, fun _ _ => .inl rfl⟩
      | ok value =>
        have hfirst := hvalue value rfl
        simp only [ensures_bind, ensures_position]
        split
        · refine ⟨hback, hframe, fun rounds heq => ?_⟩
          cases heq
          exact ⟨.cons hfirst (.nil _), fun m hm => .inr (hcount m hm)⟩
        · simp only [ensures_bind]
          refine (ih (count + 1) s₁ hback).mono ?_
          rintro result s₂ ⟨hback₂, hframe₂, hvalues⟩
          cases result with
          | error cause => exact ⟨hback₂, hframe.trans hframe₂, by simp⟩
          | ok rounds =>
            obtain ⟨hall, hfew⟩ := hvalues rounds rfl
            refine ⟨hback₂, hframe.trans hframe₂, fun rounds' heq => ?_⟩
            cases heq
            refine ⟨.cons hfirst hall, fun m hm => .inr ?_⟩
            have := hcount m hm
            rcases hfew m hm with hnil | hle
            · simp only [hnil, List.length_cons, List.length_nil]
              omega
            · simp only [List.length_cons]
              omega

/-- A repetition is derived by as many rounds as it has made. -/
theorem yields_repetition (part : Atom) {body : Atom} {step : Matcher Raw}
    (h : Sound table text step body) (min : Nat) (max : Option Nat) (optional : Bool) :
    Yields table text (repetition part step min max optional)
      (table.Derives text (.repetition body min max optional)) := by
  intro s hs
  simp only [repetition, ensures_bind, ensures_position, ensures_source]
  refine (yields_rounds h max _ 0 s hs).mono ?_
  rintro result s₁ ⟨hback, hframe, hvalues⟩
  cases result with
  | error cause => exact ⟨hback, hframe, by simp⟩
  | ok rounds =>
    obtain ⟨hall, hfew⟩ := hvalues rounds rfl
    dsimp only
    split
    · exact ensures_refuse_backed hback hframe _ _ _
    · rename_i henough
      simp only [ensures_bind, ensures_position, ensures_emit, ensures_pure]
      refine ⟨hback.of_eq rfl rfl rfl, hframe, fun value heq => ?_⟩
      cases heq
      refine .repetition (Nat.le_of_not_lt henough) (fun m hm => ?_) hall
      rcases hfew m hm with hnil | hle
      · simp [hnil]
      · omega

/-- A lookahead is derived wherever it matches: derivations do not look ahead. -/
theorem yields_lookahead (part : Atom) {body : Atom} {step : Matcher Raw}
    (h : Sound table text step body) (positive : Bool) :
    Yields table text (lookahead part step positive)
      (table.Derives text (.lookahead body positive)) := by
  intro s hs
  simp only [lookahead, ensures_bind, ensures_position, ensures_attempt]
  refine (h s hs).mono ?_
  rintro result s₁ ⟨⟨hback, hframe, -⟩, -⟩
  refine ensures_moveTo_of fun hb => ?_
  have hback₁ := hback.moveTo hb
  have hunit : Leaves table text (table.Derives text (.lookahead body positive) s.source.pos) s.memo
      (.ok .unit) { s₁ with source.pos := s.source.pos } := by
    refine ⟨hback₁, hframe, fun value heq => ?_⟩
    cases heq
    exact .lookahead body positive _
  cases result <;> cases positive
  · exact hunit
  · exact ensures_refuse_backed hback₁ hframe _ _ _
  · exact ensures_refuse_backed hback₁ hframe _ _ _
  · exact hunit

/-- A marked part is derived as the part is. -/
theorem yields_marked {body : Atom} {step : Matcher Raw} (h : Sound table text step body) :
    Yields table text (marked step) (table.Derives text (.mark body)) := by
  intro s hs
  simp only [marked, ensures_bind, ensures_position]
  refine (h s hs).mono ?_
  rintro result s₁ ⟨⟨hback, hframe, hvalue⟩, -⟩
  cases result with
  | error cause => exact ⟨hback, hframe, by simp⟩
  | ok raw =>
    refine ensures_moveTo_of fun hb => ?_
    refine ⟨hback.moveTo hb, hframe, fun value heq => ?_⟩
    cases heq
    exact .mark (hvalue raw rfl)

/-- A named part is derived as the part is, its value under the name. -/
theorem yields_named {body : Atom} {step : Matcher Raw} (h : Sound table text step body)
    (name : String) : Yields table text (named step name) (table.Derives text (.named body name)) := by
  have hbody : named step name = (do flatten true (← step)) >>= fun value => do
      return .leaf (.map [(name, value)]) := by
    simp only [named, bind_assoc]
  rw [hbody]
  refine (h.yields.flat true).map _ ?_
  rintro start stop _ ⟨raw, hraw, rfl⟩
  exact .named name hraw

/-- A transformed part is derived as the part is, its value transformed. -/
theorem yields_mapped {body : Atom} {step : Matcher Raw} (h : Sound table text step body)
    (transform : Tree → Tree) :
    Yields table text (mapped step transform) (table.Derives text (.map body transform)) := by
  have hbody : mapped step transform = (do flatten false (← step)) >>= fun value => do
      return .leaf (transform value) := by
    simp only [mapped, bind_assoc]
  rw [hbody]
  refine (h.yields.flat false).map _ ?_
  rintro start stop _ ⟨raw, hraw, rfl⟩
  exact .map transform hraw

/-- A captured part is derived as the part is. -/
theorem yields_captured {body : Atom} {step : Matcher Raw} (h : Sound table text step body)
    (name : String) :
    Yields table text (captured step name) (table.Derives text (.capture body name)) := by
  have hbody : captured step name = (do flatten false (← step)) >>= fun value => do
      modify fun s => { s with captures := s.captures.insert name value }
      return .leaf value := by
    simp only [captured, bind_assoc]
  rw [hbody]
  refine (h.yields.flat false).andThen fun tree start s hv hs => ?_
  refine ⟨hs.of_eq rfl rfl rfl, .refl _, fun value heq => ?_⟩
  cases heq
  obtain ⟨raw, hraw, rfl⟩ := hv
  exact .capture name hraw

/-- A scope is derived as its body is. -/
theorem yields_inScope {body : Atom} {step : Matcher Raw} (h : Sound table text step body) :
    Yields table text (inScope step) (table.Derives text (.scope body)) := by
  intro s hs
  simp only [inScope, ensures_bind, ensures_modify, ensures_attempt, ensures_ofResult]
  refine (h { s with captures := s.captures.openScope } (hs.of_eq rfl rfl rfl)).mono ?_
  rintro result s₁ ⟨⟨hback, hframe, hvalue⟩, -⟩
  exact ⟨hback.of_eq rfl rfl rfl, hframe, fun value heq => .scope (hvalue value heq)⟩

/-- A labelled part is derived as the part is. -/
theorem yields_labelled {body : Atom} {step : Matcher Raw} (h : Sound table text step body)
    (label : String) :
    Yields table text (labelled step label) (table.Derives text (.label body label)) := by
  intro s hs
  simp only [labelled, ensures_bind, ensures_modify, ensures_attempt, ensures_ofResult]
  refine (h { s with labels := label :: s.labels } (hs.of_eq rfl rfl rfl)).mono ?_
  rintro result s₁ ⟨⟨hback, hframe, hvalue⟩, -⟩
  exact ⟨hback.of_eq rfl rfl rfl, hframe, fun value heq => .label label (hvalue value heq)⟩

/-- Taking in the rest is derived from the offset to the end. -/
theorem yields_halt : Yields table text Matcher.halt (table.Derives text .halt) := by
  intro s hs
  have hend : s.source.pos + s.source.remaining = text.size := by
    rw [← hs.source]
    exact Source.pos_add_remaining (hs.source ▸ hs.boundary)
  simp only [Matcher.halt, ensures_bind, ensures_source, ensures_consume (Nat.le_refl _),
    ensures_pure, hend]
  refine ⟨⟨hs.source, text.isBoundary_size, hs.bodies, hs.answers, hs.path⟩, .refl _, ?_⟩
  rintro _ heq
  cases heq
  exact .halt _

/-- An expression is matched soundly if references are. -/
theorem sound_atom {apply : RuleRef → Matcher Raw}
    (hrule : ∀ ref, Yields table text (apply ref) (table.Derives text (.rule ref))) (atom : Atom)
    (hplain : atom.Every (·.isPlain)) : Sound table text (atom.matcher apply) atom := by
  induction atom using Atom.parts_induction with
  | step atom ih =>
  have hpart (part : Atom) (hp : part.IsPart atom) := ih part hp (hplain.of_part hp)
  cases atom with
  | literal word => exact (yields_literal word).guarded
  | char test => exact (yields_character test).guarded
  | sequence parts =>
    simp only [Atom.matcher, Atom.matchers_eq_map]
    exact ((yields_inOrder _ fun a ha => hpart a (.sequence ha)).map _
      fun _ _ _ => .sequence).guarded
  | choice branches =>
    simp only [Atom.matcher, Atom.matchers_eq_map]
    exact (yields_choice _ fun a ha => hpart a (.choice ha)).guarded
  | repetition body min max optional =>
    exact (yields_repetition body (hpart body (.repetition ..)) min max optional).guarded
  | lookahead body positive =>
    exact (yields_lookahead body (hpart body (.lookahead ..)) positive).guarded
  | named body name => exact (yields_named (hpart body (.named ..)) name).guarded
  | rule ref => exact (hrule ref).guarded
  | ignore body =>
    exact ((hpart body (.ignore _)).yields.map (fun _ => Raw.unit) fun _ _ _ => .ignore).guarded
  | map body transform => exact (yields_mapped (hpart body (.map ..)) transform).guarded
  | mark body => exact (yields_marked (hpart body (.mark _))).guarded
  | capture body name => exact (yields_captured (hpart body (.capture ..)) name).guarded
  | scope body => exact (yields_inScope (hpart body (.scope _))).guarded
  | dynamic pick => cases hplain.here
  | operators operand table combine => cases hplain.here
  | label body label => exact (yields_labelled (hpart body (.label ..)) label).guarded
  | halt => exact yields_halt.guarded

end Combinators

section Rules

variable {r : RuleBody} {s : Session} {start : Nat}

/-- An answer may be remembered if it is derived, should it be a match. -/
theorem Backed.remember (h : Backed table text s) {rule start stop : Nat} {answer : Answer}
    (hanswer : ∀ tree, answer = .done (.ok tree) → table.DerivesRule text rule start stop tree) :
    Backed table text { s with memo := s.memo.remember rule start answer stop } := by
  refine h.returns h (.of_eq rfl rfl) fun index pos tree stop' he => ?_
  rw [Memo.find?_remember] at he
  split at he
  · rename_i hspot
    cases he
    rw [hspot.1, hspot.2]
    exact hanswer tree rfl
  · exact h.answers index pos tree stop' he

/-- Answers may be forgotten. -/
theorem Backed.forget (h : Backed table text s) (rules : List Nat) (start : Nat) :
    Backed table text { s with memo := s.memo.forget rules start } := by
  refine h.returns h (.of_eq (Memo.top_forget ..) (Memo.applications_forget ..)) ?_
  intro index pos tree stop he
  rw [Memo.find?_forget] at he
  split at he
  · cases he
  · exact h.answers index pos tree stop he

/-- Counts, clusters and what is grown play no part. -/
theorem Backed.of_entries (h : Backed table text s) {memo : Memo} (he : memo.entries = s.memo.entries)
    (hf : s.memo.Frame memo) : Backed table text { s with memo } := by
  refine h.returns h hf fun index start tree stop hentry => h.answers index start tree stop ?_
  rw [← hentry, Memo.find?, Memo.find?, he]

/-- Clusters play no part in what is backed. -/
theorem Backed.modifyCluster (h : Backed table text s) (id : Nat) (f : Cluster → Cluster) :
    Backed table text { s with memo := s.memo.modifyCluster id f } :=
  h.of_entries rfl (.of_eq rfl rfl)

/-- What is known about a rule, or is found out for it while a cluster is grown, is derived. -/
theorem ensures_remembered_backed (hbody : Yields table text r.body (table.DerivesRule text r.rule))
    (hs : Backed table text s) :
    Ensures anyhow (remembered r s.source.pos) s fun result s' => ∃ entry, result = .ok entry ∧
      Backed table text s' ∧ s.memo.Frame s'.memo ∧
        match entry with
        | some ⟨.done found, stop⟩ => ∀ tree, found = .ok tree →
          table.DerivesRule text r.rule s.source.pos stop tree
        | _ => s'.source.pos = s.source.pos := by
  have hknown (memo : Memo) (he : memo.entries = s.memo.entries) (hf : s.memo.Frame memo) :
      ∃ entry, Except.ok (ε := Cause) (s.memo.find? r.rule s.source.pos) = .ok entry ∧
        Backed table text { s with memo } ∧ s.memo.Frame memo ∧
          match entry with
          | some ⟨.done found, stop⟩ => ∀ tree, found = .ok tree →
            table.DerivesRule text r.rule s.source.pos stop tree
          | _ => s.source.pos = s.source.pos := by
    refine ⟨_, rfl, hs.of_entries he hf, hf, ?_⟩
    split
    · rename_i found stop heq
      rintro tree rfl
      exact hs.answers _ _ _ _ heq
    · rfl
  simp only [remembered, ensures_bind, ensures_memo]
  split
  · split
    · exact hknown _ rfl (.of_eq rfl rfl)
    · exact hknown _ rfl (.refl _)
  · rename_i id cluster _
    split
    · exact ⟨_, rfl, hs, .refl _, by simp⟩
    · split
      · simp only [ensures_bind, ensures_modifyMemo, ensures_attempt, ensures_position, Matcher.remember,
          ensures_pure]
        refine (hbody _ (hs.modifyCluster _ _)).mono ?_
        rintro result s' ⟨hback, hframe, hvalue⟩
        refine ⟨_, rfl, hback.remember fun tree heq => ?_, ⟨hframe.top, hframe.records⟩, hvalue⟩
        cases heq
        exact hvalue tree rfl
      · split
        · exact hknown _ rfl (.of_eq rfl rfl)
        · exact hknown _ rfl (.refl _)

/-- Every match that a rule is grown to is derived. -/
theorem ensures_growFrom_backed (hbody : Yields table text r.body (table.DerivesRule text r.rule))
    (cluster bound : Nat) {best : Tree} {stop : Nat}
    (hbest : table.DerivesRule text r.rule start stop best) (hs : Backed table text s) :
    Ensures anyhow (growFrom r start cluster bound best stop) s
      (Leaves table text (fun _ found => table.DerivesRule text r.rule start found.2 found.1)
        s.memo) := by
  induction bound generalizing best stop s with
  | zero => trivial
  | succ bound ih =>
    simp only [growFrom, ensures_bind]
    refine ensures_moveTo_of fun hb => ?_
    simp only [ensures_modifyMemo, ensures_attempt, ensures_position]
    refine (hbody _ ((hs.moveTo hb).modifyCluster _ _)).mono ?_
    rintro result s₁ ⟨hback, hframe, hvalue⟩
    have hkept : Leaves table text (fun _ found => table.DerivesRule text r.rule start found.2 found.1)
        s.memo (.ok (best, stop)) s₁ := by
      refine ⟨hback, ⟨hframe.top, hframe.records⟩, fun found heq => ?_⟩
      cases heq
      exact hbest
    cases result with
    | error cause => exact hkept
    | ok tree =>
      dsimp only
      split
      · have htree := hvalue tree rfl
        simp only [ensures_bind, ensures_modifyMemo, ensures_emit, Matcher.remember]
        have hcounted : Backed table text { s₁ with memo := s₁.memo.countGrowth } :=
          hback.of_entries rfl (.of_eq rfl rfl)
        have htraced : Backed table text { s₁ with
            memo := s₁.memo.countGrowth
            trace := .seedGrew r.name start s₁.source.pos :: s₁.trace } :=
          hcounted.of_eq rfl rfl rfl
        refine (ih htree (htraced.remember fun tree' heq => ?_)).mono fun _ _ hl => ?_
        · cases heq
          exact htree
        · exact hl.after ⟨hframe.top, hframe.records⟩
      · exact hkept

/-- Growing a seed that is derived yields derivations, round after round. -/
theorem ensures_grow_backed (hbody : Yields table text r.body (table.DerivesRule text r.rule))
    (cluster : Nat) {seed : Tree} {stop : Nat}
    (hseed : table.DerivesRule text r.rule start stop seed) (hs : Backed table text s) :
    Ensures anyhow (grow r start cluster seed stop) s
      (Leaves table text (table.DerivesRule text r.rule start) s.memo) := by
  simp only [grow, ensures_bind, ensures_memo, ensures_modifyMemo, ensures_source]
  have hgrowing : Backed table text { s with
      memo := { s.memo with growing := s.memo.growing.insert start cluster } } :=
    hs.of_entries rfl (.of_eq rfl rfl)
  refine (ensures_growFrom_backed hbody cluster _ hseed hgrowing).mono ?_
  rintro result s₁ ⟨hback, hframe, hfound⟩
  cases result with
  | error cause => exact ⟨hback, ⟨hframe.top, hframe.records⟩, by simp⟩
  | ok found =>
    have hsettled := hback.modifyCluster cluster fun c => { c with pending := [] }
    have hframe₁ : s.memo.Frame s₁.memo := ⟨hframe.top, hframe.records⟩
    have hvalue (tree : Tree) (heq : Except.ok (ε := Cause) found.1 = .ok tree) :
        table.DerivesRule text r.rule start found.2 tree := by
      cases heq
      exact hfound found rfl
    dsimp only
    split
    · simp only [ensures_bind, ensures_modifyMemo]
      refine ensures_moveTo_of fun hb =>
        ⟨Backed.moveTo ?_ hb, ⟨hframe₁.top, hframe₁.records⟩, hvalue⟩
      exact hsettled.of_entries rfl (.of_eq rfl rfl)
    · simp only [ensures_bind, ensures_memo, ensures_modifyMemo, forget, ensures_modify]
      refine ensures_moveTo_of fun hb => ⟨Backed.moveTo ?_ hb, ?_, hvalue⟩
      · have herased : Backed table text { s₁ with
            memo := { s₁.memo.modifyCluster cluster fun c => { c with pending := [] } with
              growing := s₁.memo.growing.erase start } } :=
          hsettled.of_entries rfl (.of_eq rfl rfl)
        exact (herased.forget _ start).of_eq rfl rfl rfl
      · exact hframe₁.trans (.of_eq (Memo.top_forget ..) (Memo.applications_forget ..))

/-- The answer of an application that belongs to a cluster is derived if its seed is. -/
theorem ensures_answerCluster_backed
    (hbody : Yields table text r.body (table.DerivesRule text r.rule)) (cluster : Nat)
    {seed : Except Cause Tree} (hs : Backed table text s)
    (hseed : ∀ tree, seed = .ok tree → table.DerivesRule text r.rule start s.source.pos tree) :
    Ensures anyhow (answerCluster r start cluster seed) s
      (Leaves table text (table.DerivesRule text r.rule start) s.memo) := by
  have hhanded : Ensures anyhow (ofResult seed) s
      (Leaves table text (table.DerivesRule text r.rule start) s.memo) :=
    (ensures_ofResult _ _).2 ⟨hs, .refl _, hseed⟩
  simp only [answerCluster, ensures_bind, ensures_memo]
  split
  · exact hhanded
  · rename_i found _
    split
    · exact hhanded
    · simp only [ensures_bind, ensures_position, Matcher.remember, ensures_modifyMemo]
      have hremembered : Backed table text { s with
          memo := s.memo.remember r.rule start (.done seed) s.source.pos } :=
        hs.remember fun tree heq => hseed tree (Answer.done.inj heq)
      cases seed with
      | ok tree =>
        refine (ensures_grow_backed hbody cluster (hseed tree rfl) hremembered).mono ?_
        exact fun _ _ hl => ⟨hl.backed, ⟨hl.frame.top, hl.frame.records⟩, hl.value⟩
      | error cause =>
        have hcleared := hremembered.modifyCluster cluster fun c => { c with involved := [] }
        simp only [ensures_bind, ensures_memo, ensures_modifyMemo]
        split
        · simp only [ensures_bind, ensures_memo, ensures_modifyMemo, forget, ensures_modify,
            ensures_fail]
          refine ⟨(hcleared.forget _ start).of_eq rfl rfl rfl, ?_, by simp⟩
          exact .of_eq (Memo.top_forget ..) (Memo.applications_forget ..)
        · exact ⟨hcleared, .of_eq rfl rfl, by simp⟩

/-- Entering a rule gives it a failure for its seed. -/
theorem Backed.enter (h : Backed table text s) (rule start : Nat) (cause : Cause) :
    Backed table text { s with memo := s.memo.enter rule start (.error cause) } := by
  obtain ⟨path, hlinked, hseeds⟩ := h.path
  refine ⟨h.source, h.boundary, h.bodies, fun index pos tree stop he => ?_,
    _, Memo.Frame.linked_enter hlinked, fun id hid a ha => ?_⟩
  · dsimp only at he
    rw [Memo.enter, Memo.find?_remember] at he
    split at he
    · cases he
    · exact h.answers index pos tree stop he
  · dsimp only at ha
    rw [Memo.applications_enter, Array.getElem?_push] at ha
    rcases List.mem_cons.1 hid with rfl | hid
    · rw [if_pos rfl] at ha
      cases ha
      exact ⟨cause, rfl⟩
    · rw [if_neg (Nat.ne_of_lt (hlinked.lt_size id hid))] at ha
      exact hseeds id hid a ha

/-- An evaluation yields derivations: what is recalled was derived, and the seed a rule starts
with is a failure. -/
theorem ensures_applyFresh_backed (hbody : Yields table text r.body (table.DerivesRule text r.rule))
    (hs : Backed table text s) :
    Ensures anyhow (applyFresh r s.source.pos) s
      (Leaves table text (table.DerivesRule text r.rule s.source.pos) s.memo) := by
  rw [ensures_applyFresh]
  refine (hbody _ (hs.enter ..)).mono ?_
  rintro result s' ⟨hback, hframe, hvalue⟩
  dsimp only
  split
  · have hleft := hframe.leaveSeeded result s'.source.pos
    have hback' : Backed table text { s' with
        memo := s'.memo.leaveSeeded s.memo.applications.size r.rule s.source.pos result
          s'.source.pos } := by
      refine hs.returns hback hleft fun index start tree stop he => ?_
      rw [Memo.leaveSeeded, Memo.find?_remember] at he
      split at he
      · cases he
      · exact hback.answers index start tree stop he
    exact (ensures_answerCluster_backed hbody _ hback' hvalue).mono fun _ _ hl => hl.after hleft
  · have hleft := hframe.leave result s'.source.pos
    refine ⟨hs.returns hback hleft fun index start tree stop he => ?_, hleft, hvalue⟩
    rw [Memo.leave, Memo.find?_remember] at he
    split at he
    · rename_i hspot
      cases he
      rw [hspot.1, hspot.2]
      exact hvalue tree rfl
    · rw [Memo.find?_release] at he
      exact hback.answers index start tree stop he

/-- Through the memo, a rule yields what it derives. -/
theorem yields_memoized (hbody : Yields table text r.body (table.DerivesRule text r.rule)) :
    Yields table text (memoized r) (table.DerivesRule text r.rule) := by
  intro s hs
  simp only [memoized, ensures_bind, ensures_position]
  refine (ensures_remembered_backed hbody hs).mono ?_
  rintro _ s' ⟨entry, rfl, hback, hframe, hentry⟩
  have hfresh (hpos : s'.source.pos = s.source.pos) : Ensures anyhow (applyFresh r s.source.pos) s'
      (Leaves table text (table.DerivesRule text r.rule s.source.pos) s.memo) := by
    rw [← hpos]
    exact (ensures_applyFresh_backed hbody hback).mono fun _ _ hl => hl.after hframe
  rcases entry with _ | ⟨found | id, stop⟩
  · exact hfresh hentry
  · simp only [ensures_bind]
    refine ensures_moveTo_of fun hb => ?_
    exact (ensures_ofResult _ _).2 ⟨hback.moveTo hb, hframe, hentry⟩
  · simp only [ensures_bind, ensures_memo]
    split
    · rename_i hactive
      simp only [ensures_bind]
      refine ensures_moveTo_of fun hb => ?_
      -- an active application has a record, and a failure for its seed
      obtain ⟨path, hlinked, hseeds⟩ := hback.path
      have hid : id ∈ path := by
        rw [Memo.isActive, Memo.callPath_eq hlinked] at hactive
        simpa using hactive
      obtain ⟨a, ha⟩ := hlinked.exists_record id hid
      obtain ⟨cause, hseed⟩ := hseeds id hid a ha
      have hmark := Memo.Frame.markLeftRecursion s'.memo r.rule id
      obtain ⟨cluster, hrecord⟩ := hmark.records id a ha
      have hmarked : Backed table text { s' with memo := s'.memo.markLeftRecursion r.rule id } :=
        hback.of_entries (Memo.entries_markLeftRecursion ..) hmark
      simp only [markLeftRecursion, ensures_bind, ensures_memo, ensures_modifyMemo]
      split <;> simp only [ensures_emit, ensures_pure, Memo.application?, hrecord, ensures_ofResult,
        hseed]
      · exact ⟨(hmarked.moveTo hb).of_eq rfl rfl rfl, hframe.trans hmark, by simp⟩
      · exact ⟨hmarked.moveTo hb, hframe.trans hmark, by simp⟩
    · exact hfresh hentry

end Rules

/-- References yield derivations of their rules. -/
theorem yields_applyRule (hplain : table.Every (·.isPlain)) (depth : Nat) (ref : RuleRef) :
    Yields table text (table.applyRule depth ref) (table.Derives text (.rule ref)) := by
  induction depth generalizing ref with
  | zero => exact fun s hs => trivial
  | succ depth ih =>
    intro s hs
    refine ensures_applyRule hs.bodies (fun undefined trace reporter hr => ?_)
      fun index body bodies trace hr hbody hbodies => ?_
    · exact ⟨hs.of_eq rfl rfl rfl, .refl _, by simp⟩
    · have hrule : Yields table text (do flatten false (← body.matcher (table.applyRule depth)))
          (table.DerivesRule text index) := by
        intro s hs
        have hflat := (sound_atom ih body (hplain index body hbody)).yields.flat false s hs
        refine hflat.mono fun result s' hl => ⟨hl.backed, hl.frame, fun tree heq => ?_⟩
        obtain ⟨raw, hraw, htree⟩ := hl.value tree heq
        exact ⟨body, raw, hbody, hraw, htree⟩
      have hback : Backed table text { s with bodies, trace } :=
        ⟨hs.source, hs.boundary, hbodies, hs.answers, hs.path⟩
      refine (yields_memoized (r := ⟨index, ref.name, _⟩) hrule _ hback).mono ?_
      rintro result s' ⟨hback', hframe, hvalue⟩
      refine ⟨hback', hframe, fun raw heq => ?_⟩
      cases result with
      | error cause => cases heq
      | ok tree =>
        cases heq
        obtain ⟨body', raw, hbody', hraw, rfl⟩ := hvalue tree rfl
        exact .rule hr hbody' hraw

/-- Every match is backed by a derivation, left recursion included: without operators and dynamic
expressions, whatever an expression matches from an offset of a text, with nothing remembered, it
derives there. -/
theorem derives_of_matched (table : RuleTable) (hplain : table.Every (·.isPlain)) (atom : Atom)
    (hatom : atom.Every (·.isPlain)) (bodies : List (Nat × Atom)) (hbodies : table.Knows bodies)
    (text : String) (options : Options) (pos : Nat)
    (hpos : (Text.ofString text).isBoundary pos = true) (raw : Raw) (s : Session)
    (hmatched : table.matcher text.utf8ByteSize atom (Session.startAt text options bodies pos)
      = .matched raw s) :
    table.Derives (Text.ofString text) atom pos s.source.pos raw := by
  have hback : Backed table (Text.ofString text) (Session.startAt text options bodies pos) :=
    ⟨rfl, hpos, hbodies, by simp [Memo.find?, Session.startAt, Session.start], [], .bottom, by simp⟩
  have hsound : Sound table (Text.ofString text) (table.matcher text.utf8ByteSize atom) atom :=
    sound_atom (yields_applyRule hplain _) atom hatom
  exact ((hsound _ hback).of_matched hmatched).1.value raw rfl

/-- The grammar of sums is one that derivations speak about. -/
theorem sumTable_isPlain : sumTable.Every (·.isPlain) := by
  intro index body h
  match index with
  | 0 =>
    cases h
    simp [Rules.rule, Atom.isPlain]
  | index + 1 => cases h

/-- Whether the step matched. -/
def Reply.isMatched : Reply α → Bool
  | .matched _ _ => true
  | _ => false

/-- A sum that is grown is derived. -/
theorem sum_derives : ∃ raw s, sumTable.matcher "n+n".utf8ByteSize (sumTable.rules.rule "sum")
    (Session.startAt "n+n" {} [] 0) = .matched raw s ∧
      sumTable.Derives (Text.ofString "n+n") (sumTable.rules.rule "sum") 0 s.source.pos raw := by
  have hmatched : (sumTable.matcher "n+n".utf8ByteSize (sumTable.rules.rule "sum")
      (Session.startAt "n+n" {} [] 0)).isMatched = true := by cbv
  cases hreply : sumTable.matcher "n+n".utf8ByteSize (sumTable.rules.rule "sum")
    (Session.startAt "n+n" {} [] 0) with
  | stopped reason =>
    rw [hreply] at hmatched
    cases hmatched
  | failed cause s =>
    rw [hreply] at hmatched
    cases hmatched
  | matched raw s =>
    exact ⟨raw, s, rfl, derives_of_matched sumTable sumTable_isPlain _ (by simp [Rules.rule, Atom.isPlain])
      [] sumTable.knows_nil "n+n" {} 0 (Text.isBoundary_zero _) raw s hreply⟩

end Packrat
