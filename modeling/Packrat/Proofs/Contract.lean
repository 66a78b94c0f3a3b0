import Packrat.Proofs.Termination

/-!
# Where expressions leave the cursor

Every expression keeps to a contract wherever it is applied in a parse: after a failure the cursor is back
where the expression started, and after a match it stands at a boundary of the text that is not before
that. Neither is the cursor ever to be moved anywhere but to a boundary, nor are more bytes consumed than
there are left. The slices in what expressions come to are cut at boundaries too, provided that functions
which transform values do not make up slices of their own.

The contract is checked by a watch. A parse that is watched in this way is the parse itself, which is to
say that the watch never finds anything to object to.
-/

namespace Packrat

open Matcher Course

/-- Whether what an expression that was applied at an offset has come to keeps to the contract. If slices
count, those in its value or in the cause of its failure have to be intact. -/
def Source.keepsContract (source : Source) (slices : Bool) (start : Nat) : Except Cause Raw → Bool
  | .error cause => decide (source.pos = start) && (!slices || decide (Intact cause))
  | .ok raw => decide (start ≤ source.pos) && decide (source.pos ≤ source.text.size) &&
    source.text.isBoundary source.pos && (!slices || decide (Intact raw))

/-- The watch that breaks a match off as soon as an expression does not keep to the contract. -/
def contractWatch (slices : Bool) : Watch := fun _ step => do
  let start ← position
  let outcome ← attempt (guarded step)
  if (← source).keepsContract slices start outcome then ofResult outcome
  else stop .misplaced

variable {slices : Bool}

/-- Breaking a step off where it does not keep to the contract cuts it. -/
theorem cuts_contractWatch (atom : Atom) {step step' : Matcher Raw} (h : Cuts .misplaced step step') :
    Cuts .misplaced (contractWatch slices atom step) (guarded step') :=
  cuts_checkingWatch (fun source => source.keepsContract slices) atom h

/-- A step that ends keeps to the contract, so it still ends if it is watched. -/
theorem takes_contractWatch {C : Course} (hslices : slices = true → C.slices) (atom : Atom) {least : Nat}
    {step : Matcher Raw} (h : C.Takes least step) : C.Takes least (contractWatch slices atom step) := by
  intro s hs
  simp only [contractWatch, ensures_bind, ensures_position, ensures_attempt, ensures_source]
  refine (h.ensures_guarded hs).mono ?_
  intro result s' hended
  obtain ⟨⟨he, htakes⟩, hback⟩ := hended
  have hkeeps : s'.source.keepsContract slices s.source.pos result = true := by
    have htext : s'.source.text = C.text := he.passes.text.trans hs.text
    have hintact : slices = true → Intact result := fun hst => he.intact (hslices hst)
    cases result with
    | error cause =>
      have hcause : slices = false ∨ Intact cause := by
        cases slices
        · exact .inl rfl
        · exact .inr (hintact rfl)
      simpa [Source.keepsContract, hback cause rfl] using hcause
    | ok raw =>
      have hraw : slices = false ∨ Intact raw := by
        cases slices
        · exact .inl rfl
        · exact .inr (hintact rfl)
      have hsize := Text.le_size_of_isBoundary he.boundary
      simpa [Source.keepsContract, htext, he.forward, he.boundary, hsize] using hraw
  rw [if_pos hkeeps, ensures_ofResult]
  exact ⟨he, htakes⟩

/-- A parse that is accepted hands on an intact tree if its match has an intact value. -/
theorem intact_of_settle (options : Options) {outcome : Except Cause Raw} {s : Session}
    (h : Intact outcome) {tree : Tree} {overwritten : List String}
    (haccepted : (settle options outcome s).outcome = .accepted tree overwritten) : Intact tree := by
  have hconclude : Ensures unbroken (conclude options.allowRest outcome) s.withStatistics
      fun result _ => ∀ tree, result = .ok tree → Intact tree := by
    cases outcome with
    | error cause => exact fun tree heq => by cases heq
    | ok raw =>
      simp only [conclude, ensures_bind, ensures_ofResult, ensures_source]
      split
      · simp only [ensures_bind, ensures_emit, ensures_pure]
        refine ensures_flatten _ _ _ fun _ _ tree heq => ?_
        cases heq
        exact raw.intact_flatten false h
      · exact fun tree heq => by cases heq
  rw [settle] at haccepted
  split at haccepted
  · cases haccepted
  · rcases hconclude.exists_reply with ⟨cause, s', hreply, -⟩ | ⟨value, s', hreply, hintact⟩
    · rw [hreply] at haccepted
      cases haccepted
    · rw [hreply] at haccepted
      cases haccepted
      exact hintact _ rfl

/-- Every expression that is applied in a parse keeps to the contract, in every state that the parse gets
into: for every table of rules, every text and all options, watching for the contract changes nothing about
the match that a parse is made of, and neither does the match nor the parse ever move the cursor to
somewhere that is not a boundary of the text or consume more than is left of it. With `slices`, what
expressions come to must be intact as well, and so is the tree of a parse that is accepted; this asks of
transformations that they make up no slices of their own. -/
theorem parse_keeps_contract (table : RuleTable) (bodies : List (Nat × Atom))
    (hbodies : table.Knows bodies) (entry : Atom) (text : String) (options : Options) (slices : Bool)
    (htransforms : slices = true → (∀ index body, table.bodyAt? index = some body →
      body.EveryFor (fun captures => Intact captures) Atom.TransformsIntact) ∧
        entry.EveryFor (fun captures => Intact captures) Atom.TransformsIntact) :
    matchWatched (contractWatch slices) table bodies entry text options
        = matchEntry table bodies entry text options ∧
      matchEntry table bodies entry text options ≠ .stopped .misplaced ∧
        (run table bodies entry text options).outcome ≠ .stopped .misplaced ∧
          (slices = true → ∀ tree overwritten,
            (run table bodies entry text options).outcome = .accepted tree overwritten →
              Intact tree) := by
  let C := (Regime.bare table (Text.ofString text) (· = .spent) (slices = true)).course {}
    (table.depthBound text.utf8ByteSize)
  have hsettles {atom : Atom}
      (h : slices = true → atom.EveryFor (fun captures => Intact captures) Atom.TransformsIntact) :
      atom.SettlesThroughout (· = .spent) (slices = true) := by
    cases slices with
    | false =>
      have hall : atom.Every fun _ => True := .of_forall (fun _ => trivial) atom
      exact (hall.everyFor _).mono (fun _ hc => hc) fun _ _ => ⟨.inl rfl, by simp⟩
    | true => exact (h rfl).mono (fun _ hc => hc rfl) fun _ hintact => ⟨.inl rfl, fun _ => hintact⟩
  have hends : C.Ends (entry.watched (contractWatch slices)
      (table.applyWatched (contractWatch slices) (table.depthBound text.utf8ByteSize))) :=
    ends_matchWatched (fun _ _ atom _ _ h => takes_contractWatch id atom h)
      (fun index body hbody => hsettles fun hst => (htransforms hst).1 index body hbody)
      (hsettles fun hst => (htransforms hst).2) {} _
  have hstart : C.Start (Session.start text options bodies) :=
    Regime.start_of_knows _ hbodies options trivial
  have hended := hends _ hstart
  have hsound : matchWatched (contractWatch slices) table bodies entry text options
      ≠ .stopped .misplaced := fun hstopped => by cases hended.of_stopped hstopped
  have heq := matchWatched_eq cuts_contractWatch table bodies entry text options hsound
  have hsettled {outcome : Except Cause Raw} {s : Session} (hintact : slices = true → Intact outcome) :
      (settle options outcome s).outcome ≠ .stopped .misplaced ∧ (slices = true →
        ∀ tree overwritten, (settle options outcome s).outcome = .accepted tree overwritten →
          Intact tree) := by
    refine ⟨?_, fun hst tree overwritten => intact_of_settle options (hintact hst)⟩
    rcases settle_outcome options outcome s with ⟨failure, hrejected⟩ | ⟨tree, overwritten, haccepted⟩
    · simp [hrejected]
    · simp [haccepted]
  refine ⟨heq, heq ▸ hsound, ?_⟩
  rw [run, ← heq]
  cases hreply : matchWatched (contractWatch slices) table bodies entry text options with
  | stopped reason =>
    rw [hreply] at hsound
    refine ⟨fun hstopped => hsound (congrArg Reply.stopped (Outcome.stopped.inj hstopped)), ?_⟩
    exact fun _ _ _ haccepted => by cases haccepted
  | failed cause s => exact hsettled (hended.of_failed hreply).intact
  | matched raw s => exact hsettled (hended.of_matched hreply).intact

/-- A rule that comes back to itself behind an empty repetition, with a transformation and a dynamic
expression, in words of several bytes each. -/
def wordsTable : RuleTable :=
  ⟨1, [⟨"words", fun rules => .choice
    [.sequence [(Atom.literal "ß").many, rules.rule "words", .literal "é"],
      .map (.capture (.literal "日") "day") fun tree => .list [tree, tree],
      .dynamic fun _ captures => .literal ((captures.get? "day").elim "é" fun _ => "日")]⟩]⟩

/-- The grammar of words transforms intact trees into intact ones. -/
theorem wordsTable_transformsIntact (index : Nat) (body : Atom) (h : wordsTable.bodyAt? index = some body) :
    body.Every Atom.TransformsIntact := by
  have hliteral (word : String) : (Atom.literal word).Every Atom.TransformsIntact := .intro trivial nofun
  have hmap : (Atom.map (.capture (.literal "日") "day") fun tree => .list [tree, tree]).Every
      Atom.TransformsIntact := by
    refine .intro (fun tree ht => by simpa using ht) fun _ hp => ?_
    cases hp
    refine .intro trivial fun _ hp => ?_
    cases hp
    exact hliteral "日"
  have hdynamic : (Atom.dynamic fun _ captures =>
      .literal ((captures.get? "day").elim "é" fun _ => "日")).Every Atom.TransformsIntact := by
    refine .intro trivial fun _ hp => ?_
    cases hp
    exact hliteral _
  match index with
  | 0 =>
    cases h
    simp [Rules.rule, Atom.many, Atom.rounds, Atom.TransformsIntact, hmap, hdynamic]
  | index + 1 => cases h

/-- A parse of characters that take several bytes keeps to the contract, slices and all. -/
theorem words_keep_contract :
    wordsTable.Knows [] ∧
      (true = true → (∀ index body, wordsTable.bodyAt? index = some body →
        body.EveryFor (fun captures => Intact captures) Atom.TransformsIntact) ∧
          (wordsTable.rules.rule "words").EveryFor (fun captures => Intact captures)
            Atom.TransformsIntact) ∧
      matchWatched (contractWatch true) wordsTable [] (wordsTable.rules.rule "words") "日éé" {}
          = matchEntry wordsTable [] (wordsTable.rules.rule "words") "日éé" {} ∧
        matchEntry wordsTable [] (wordsTable.rules.rule "words") "日éé" {} ≠ .stopped .misplaced ∧
          (run wordsTable [] (wordsTable.rules.rule "words") "日éé" {}).outcome ≠ .stopped .misplaced ∧
            (true = true → ∀ tree overwritten,
              (run wordsTable [] (wordsTable.rules.rule "words") "日éé" {}).outcome
                = .accepted tree overwritten → Intact tree) := by
  have htransforms (_ : true = true) : (∀ index body, wordsTable.bodyAt? index = some body →
      body.EveryFor (fun captures => Intact captures) Atom.TransformsIntact) ∧
        (wordsTable.rules.rule "words").EveryFor (fun captures => Intact captures)
          Atom.TransformsIntact :=
    ⟨fun index body h => (wordsTable_transformsIntact index body h).everyFor _,
      ((Atom.Every.rule_iff _ _).2 trivial).everyFor _⟩
  exact ⟨wordsTable.knows_nil, htransforms, parse_keeps_contract wordsTable [] wordsTable.knows_nil
    (wordsTable.rules.rule "words") "日éé" {} true htransforms⟩

end Packrat
