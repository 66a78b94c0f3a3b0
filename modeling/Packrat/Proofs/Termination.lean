import Packrat.Proofs.Regime

/-!
# Every parse comes to an end

However rules refer to each other, a parse is never broken off: the bounds on how deep rules are nested,
on rounds and on operators are never spent, and the cursor never leaves the boundaries of the text. The
only condition is that operators consume input.

Nothing has to be kept for that but the account of what is under way. The bare regime asks for no more, so
all its laws hold at once.
-/

namespace Packrat

open Matcher Course

/-- The regime that keeps nothing but the account of what is under way. -/
def Regime.bare (table : RuleTable) (text : Text) (lenient : Stop → Prop) (slices : Prop) :
    Regime table text where
  lenient := lenient
  slices := slices
  Holds _ _ := True
  Leads _ _ _ := True
  May _ _ _ _ := True
  Matches _ _ _ _ _ _ _ := True
  Answers _ _ _ _ _ _ _ := True
  Grows _ _ _ _ _ _ _ _ := True
  refl _ _ := trivial
  trans _ _ := trivial

/-- The bare regime asks for nothing, so every match goes on under it. -/
theorem Regime.lawful_bare (table : RuleTable) (text : Text) (lenient : Stop → Prop) (slices : Prop) :
    (Regime.bare table text lenient slices).Lawful where
  count _ _ := ⟨trivial, trivial⟩
  may_count _ _ := trivial
  answers_count _ _ := trivial
  hit _ _ _ := trivial
  refused _ _ _ := trivial
  recurs _ _ _ _ _ := ⟨trivial, trivial, trivial⟩
  redo _ := trivial
  redone _ _ _ _ _ := ⟨trivial, trivial, trivial⟩
  enter _ _ := trivial
  left _ _ := ⟨trivial, trivial, trivial⟩
  member _ _ _ _ := ⟨trivial, trivial, trivial⟩
  failed _ _ _ _ := ⟨trivial, trivial, trivial⟩
  grow _ _ _ _ _ _ := ⟨trivial, trivial⟩
  grew _ _ _ _ := ⟨trivial, trivial, trivial⟩
  settled _ _ := ⟨trivial, trivial, trivial⟩

section Bare

variable {table : RuleTable} {text : Text} {lenient : Stop → Prop} {slices : Prop}

/-- What is asked of an expression for a match with it to end. -/
def Atom.Settles (lenient : Stop → Prop) (slices : Prop) (atom : Atom) : Prop :=
  (lenient .spent ∨ atom.isTame = true) ∧ (slices → atom.TransformsIntact)

/-- What is asked of an expression and all its parts, whatever intact captures dynamic ones choose from. -/
abbrev Atom.SettlesThroughout (lenient : Stop → Prop) (slices : Prop) : Atom → Prop :=
  Atom.EveryFor (fun captures => slices → Intact captures) (Atom.Settles lenient slices)

variable {watch : Watch}
  (hwatch : ∀ u depth atom least step,
    ((Regime.bare table text lenient slices).course u depth).Takes least step →
      ((Regime.bare table text lenient slices).course u depth).Takes least (watch atom step))

include hwatch

/-- References end as long as there is room for the rules that they lead to. -/
theorem ends_applyWatched
    (htable : ∀ index body, table.bodyAt? index = some body → body.SettlesThroughout lenient slices)
    (u : Underway) (depth : Nat) (ref : RuleRef) :
    ((Regime.bare table text lenient slices).course u depth).Ends
      (table.applyWatched watch depth ref) := by
  induction depth generalizing u ref with
  | zero => exact fun s hs => absurd hs.memo.room (Nat.not_lt_zero _)
  | succ depth ih =>
    intro s hs
    have hbody (index : Nat) (atom : Atom) (hatom : table.bodyAt? index = some atom) :
        (Regime.bare table text lenient slices).Bodies u depth ⟨index, ref.name, do
          flatten false (← atom.watched watch (table.applyWatched watch depth))⟩ := by
      intro u' s' _ hs'
      have hends := (ends_watched (hwatch u' depth) id ((htable index atom hatom).mono (fun _ h => h)
        fun _ h => ⟨fun ref _ => ih u' ref, h⟩)).andThen fun raw hr => ends_flatten false hr
      exact (hends s' hs').mono fun _ _ he => ⟨he, trivial⟩
    have happlied := ensures_applyRef hs (fun _ _ _ => True)
      fun index atom bodies trace hatom hstart => (Regime.answers_memoized (Regime.lawful_bare ..)
        (hbody index atom hatom) (RuleTable.index_lt_of_bodyAt? hatom) hstart trivial).mono
          fun _ _ h => ⟨h.1, trivial⟩
    exact happlied.mono fun _ _ h => h.1

/-- A match of an expression ends. -/
theorem ends_matchWatched
    (htable : ∀ index body, table.bodyAt? index = some body → body.SettlesThroughout lenient slices)
    {entry : Atom} (hentry : entry.SettlesThroughout lenient slices) (u : Underway) (depth : Nat) :
    ((Regime.bare table text lenient slices).course u depth).Ends
      (entry.watched watch (table.applyWatched watch depth)) :=
  ends_watched (hwatch u depth) id (hentry.mono (fun _ h => h) fun _ h =>
    ⟨fun ref _ => ends_applyWatched hwatch htable u depth ref, h⟩)

end Bare

section BreakingOff

variable {table : RuleTable} {text : Text} {u : Underway} {depth : Nat}

/-- Under a regime that leaves everything open about the bodies of rules, references end or are broken
off. -/
theorem Regime.Lawful.ends_applyRule {K : Regime table text} (hK : K.Lawful)
    (hlax : ∀ u depth, (K.course u depth).Lax) (hmay : ∀ u memo rule start, K.May u memo rule start)
    (hmatches : ∀ u rule start memo result stop memo', K.Matches u rule start memo result stop memo')
    (u : Underway) (depth : Nat) (ref : RuleRef) : (K.course u depth).Ends (table.applyRule depth ref) := by
  induction depth generalizing u ref with
  | zero => exact fun s hs => absurd hs.memo.room (Nat.not_lt_zero _)
  | succ depth ih =>
    intro s hs
    have hbody (index : Nat) (atom : Atom) : K.Bodies u depth (table.ruleBody depth ref.name index atom) := by
      intro u' s' _ hs'
      have hends := (ends_matcher (hlax u' depth) (ih u') atom).andThen fun raw hr => ends_flatten false hr
      exact (hends s' hs').mono fun _ _ he => ⟨he, hmatches ..⟩
    have happlied := ensures_applyRef hs (fun _ _ _ => True)
      fun index atom bodies trace hatom hstart => (Regime.answers_memoized hK (hbody index atom)
        (RuleTable.index_lt_of_bodyAt? hatom) hstart (hmay ..)).mono fun _ _ h => ⟨h.1, trivial⟩
    rw [RuleTable.applyRule_succ]
    exact happlied.mono fun _ _ h => h.1

/-- Any expression is matched to an end, or broken off. -/
theorem Regime.lax_bare : ((Regime.bare table text anyhow False).course u depth).Lax := ⟨id, trivial, id⟩

/-- Every application of a rule keeps account of what is under way. -/
theorem ends_applyRule (table : RuleTable) (text : Text) (u : Underway) (depth : Nat) (ref : RuleRef) :
    ((Regime.bare table text anyhow False).course u depth).Ends (table.applyRule depth ref) :=
  (Regime.lawful_bare ..).ends_applyRule (fun _ _ => Regime.lax_bare) (fun _ _ _ _ => trivial)
    (fun _ _ _ _ _ _ _ => trivial) u depth ref

/-- Every body keeps account of what is under way. -/
theorem ends_ruleBody (table : RuleTable) (text : Text) (u : Underway) (depth : Nat) (name : String)
    (index : Nat) (atom : Atom) :
    ((Regime.bare table text anyhow False).course u depth).Ends (table.ruleBody depth name index atom).body :=
  (ends_matcher Regime.lax_bare (ends_applyRule table text u depth) atom).andThen fun _ hr =>
    ends_flatten false hr

/-- A rule about which nothing is known may be entered. -/
theorem Regime.entering_of_none {rule : Nat} {u : Underway} {s : Session}
    (hs : ((Regime.bare table text anyhow False).course u depth).Start s)
    (hrule : rule < table.definitions.length) (hnone : s.memo.find? rule s.source.pos = none)
    (hdue : s.memo.NotDue rule s.source.pos) (hallowed : ¬ s.memo.Refuses rule s.source.pos) :
    (Regime.bare table text anyhow False).Entering u rule s.source.pos s.memo := by
  have hstale : s.memo.Open rule s.source.pos := fun entry hentry => by
    rw [hnone] at hentry
    cases hentry
  exact ⟨⟨hs.memo.fits, hs.memo.orderly, hs.boundary, hrule, trivial⟩,
    hs.memo.fits.accounts.not_busy hstale, hdue, hallowed, hstale⟩

end BreakingOff

/-- There is room for all rules at the start of a match. -/
theorem room_lt_depthBound (table : RuleTable) (bytes : Nat) :
    ({} : Underway).room table.definitions.length bytes {} 0 < table.depthBound bytes := by
  let n := table.definitions.length
  have hspare : ({} : Underway).spare n bytes 0 ≤ n * (bytes + 1) := Underway.spare_le ..
  refine Nat.lt_succ_of_le ?_
  calc (n + 1) * ({} : Underway).spare n bytes 0 + 0
      ≤ (n + 1) * (n * (bytes + 1)) := Nat.mul_le_mul_left _ hspare
    _ ≤ (n + 1) * ((n + 1) * (bytes + 1)) :=
      Nat.mul_le_mul_left _ (Nat.mul_le_mul_right _ (Nat.le_succ n))
    _ = (bytes + 1) * ((n + 1) * (n + 1)) := by rw [← Nat.mul_assoc, Nat.mul_comm]

/-- A match starts, at whatever offset, with room for all rules and nothing under way. -/
theorem Regime.startAt_of_knows {table : RuleTable} {text : String} (K : Regime table (Text.ofString text))
    {bodies : List (Nat × Atom)} (hbodies : table.Knows bodies) (options : Options) {pos : Nat}
    (hpos : (Text.ofString text).isBoundary pos = true) (hholds : K.Holds {} {}) :
    (K.course {} (table.depthBound text.utf8ByteSize)).Start
      (Session.startAt text options bodies pos) where
  text := rfl
  boundary := hpos
  bodies := hbodies
  labels := False.elim
  memo := ⟨.nil _ _, ⟨.nil _ _, fun _ => .nil, hholds⟩, Nat.lt_of_le_of_lt
    (Underway.room_anti (.nil _ 0) (.nil _ (Text.ofString text)) (Nat.zero_le pos))
      (room_lt_depthBound table text.utf8ByteSize)⟩
  captures _ := by simp [Session.startAt, Session.start]

/-- A match starts with room for all rules and nothing under way. -/
theorem Regime.start_of_knows {table : RuleTable} {text : String} (K : Regime table (Text.ofString text))
    {bodies : List (Nat × Atom)} (hbodies : table.Knows bodies) (options : Options)
    (hholds : K.Holds {} {}) :
    (K.course {} (table.depthBound text.utf8ByteSize)).Start (Session.start text options bodies) :=
  K.startAt_of_knows hbodies options (Text.isBoundary_zero _) hholds

/-- What a match comes to settles the parse. -/
theorem settle_outcome (options : Options) (outcome : Except Cause Raw) (s : Session) :
    (∃ failure, (settle options outcome s).outcome = .rejected failure) ∨
      ∃ tree overwritten, (settle options outcome s).outcome = .accepted tree overwritten := by
  have hconclude : Ensures unbroken (conclude options.allowRest outcome) s.withStatistics
      fun _ _ => True := by
    cases outcome with
    | error cause => trivial
    | ok raw =>
      simp only [conclude, ensures_bind, ensures_ofResult, ensures_source]
      split
      · simp only [ensures_bind]
        exact ensures_flatten _ _ _ fun _ _ => trivial
      · trivial
  rw [settle]
  split
  · exact .inl ⟨_, rfl⟩
  · rcases hconclude.exists_reply with ⟨cause, s', hreply, -⟩ | ⟨tree, s', hreply, -⟩
    · rw [hreply]
      exact .inl ⟨_, rfl⟩
    · rw [hreply]
      exact .inr ⟨_, _, rfl⟩

/-- Every parse comes to an end. With rules that refer to each other in whatever way, for every text and
all options, a parse is accepted or rejected and never broken off, provided that operators are literals
other than the empty one or single characters. Whatever a dynamic expression can choose counts among the
expressions that this is asked of. Operators may have any precedence, also the highest one, behind which
the addition wraps around: what makes an end is that operators consume input, not how they bind. -/
theorem run_accepts_or_rejects (table : RuleTable) (htable : table.Every (·.isTame))
    (bodies : List (Nat × Atom)) (hbodies : table.Knows bodies) (entry : Atom)
    (hentry : entry.Every (·.isTame)) (text : String) (options : Options) :
    (∃ failure, (run table bodies entry text options).outcome = .rejected failure) ∨
      ∃ tree overwritten, (run table bodies entry text options).outcome = .accepted tree overwritten := by
  let C := (Regime.bare table (Text.ofString text) unbroken False).course {}
    (table.depthBound text.utf8ByteSize)
  have hsettles {atom : Atom} (h : atom.Every (·.isTame)) : atom.SettlesThroughout unbroken False :=
    (h.everyFor _).mono (fun _ hc => hc) fun _ htame => ⟨.inr htame, False.elim⟩
  have hends : C.Ends (table.matcher text.utf8ByteSize entry) := by
    have hwatched : C.Ends (entry.watched (fun _ => guarded)
        (table.applyWatched (fun _ => guarded) (table.depthBound text.utf8ByteSize))) :=
      ends_matchWatched (fun _ _ _ _ _ h => h.guarded)
        (fun index body hbody => hsettles (htable index body hbody)) (hsettles hentry) {} _
    rwa [RuleTable.applyWatched_guarded, Atom.watched_guarded] at hwatched
  have hstart : C.Start (Session.start text options bodies) :=
    Regime.start_of_knows _ hbodies options trivial
  rw [run, matchEntry]
  rcases (hends _ hstart).exists_reply with ⟨cause, s, hreply, -⟩ | ⟨raw, s, hreply, -⟩
  · rw [hreply]
    exact settle_outcome options _ s
  · rw [hreply]
    exact settle_outcome options _ s

/-- Rules that come back to each other at the same offset, behind nothing but an empty repetition, and one
of which matches nothing at all. -/
def tangleTable : RuleTable :=
  ⟨1, [⟨"outer", fun rules => .choice
      [.sequence [rules.rule "inner", .literal "x"], .literal "x"]⟩,
    ⟨"inner", fun rules => .sequence
      [(Atom.literal "y").many, .choice [rules.rule "outer", rules.rule "blank"]]⟩,
    ⟨"blank", fun rules => .choice [.sequence [rules.rule "blank", .literal "z"], .sequence []]⟩]⟩

/-- The tangled rules have no operators that could consume nothing. -/
theorem tangleTable_isTame : tangleTable.Every (·.isTame) := by
  intro index body h
  match index with
  | 0 | 1 | 2 =>
    cases h
    simp [Rules.rule, Atom.many, Atom.rounds, Atom.isTame]
  | index + 3 => cases h

/-- A parse with tangled rules between operators comes to an end. -/
theorem tangle_accepts_or_rejects :
    tangleTable.Every (·.isTame) ∧
      ((∃ failure, (run tangleTable [] (.operators (tangleTable.rules.rule "outer")
          [(⟨0, .left⟩, .literal "+")] none) "yxzx+xx" {}).outcome = .rejected failure) ∨
        ∃ tree overwritten, (run tangleTable [] (.operators (tangleTable.rules.rule "outer")
          [(⟨0, .left⟩, .literal "+")] none) "yxzx+xx" {}).outcome = .accepted tree overwritten) :=
  ⟨tangleTable_isTame, run_accepts_or_rejects tangleTable tangleTable_isTame [] tangleTable.knows_nil _
    (by simp [Rules.rule, Atom.isTame, Atom.isSymbol]) "yxzx+xx" {}⟩

end Packrat
