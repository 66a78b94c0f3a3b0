import Packrat.Proofs.Copying

/-!
# Calls that share a grammar

A grammar is used again and again, and the bodies that one call has built are there for the next. That is
all that a call leaves behind, and no answer depends on it: whatever calls came before, and whatever they came
to, a call is answered as it would be by a copy of the grammar that was built just now. The rules of such a
copy are told from those of the grammar by the key of its table, so this is the one thing in which the answers
may differ. No body is built twice.
-/

namespace Packrat

open Matcher

/-- What can be asked of a grammar. -/
inductive Call where
  /-- A parse of all of a text. -/
  | parse (text : String)
  /-- A parse of the start of a text. -/
  | parsePrefix (text : String)
  /-- A parse of a text with the settings given. -/
  | parseWith (text : String) (options : Options)
  /-- A parse of a text with another rule than the root. -/
  | parseRule (name text : String)
  /-- The body of a rule. -/
  | body (name : String)

/-- The answer to a call. -/
inductive Response where
  /-- What a parse has come to, and what happened in it, apart from the building of bodies. -/
  | parsed (outcome : Outcome) (trace : List Event)
  /-- The body of the rule, if there is such a rule. -/
  | body (found : Option Atom)

/-- The answer with other references. -/
def Response.mapRefs (f : RuleRef → RuleRef) : Response → Response
  | .parsed outcome trace => .parsed (outcome.mapRefs f) (trace.map (Event.mapRefs f))
  | .body found => .body (found.map (Atom.mapRefs f))

/-- A call that was answered. -/
structure Served where
  /-- The answer. -/
  response : Response
  /-- The rules whose bodies were built. -/
  built : List String
  /-- The bodies of rules built so far. -/
  bodies : List (Nat × Atom)

/-- The parse as an answered call. -/
def Run.served (run : Run) : Served :=
  ⟨.parsed run.outcome (withoutBuilding run.trace), builtIn run.trace, run.bodies⟩

namespace Grammar

/-- Answers a call, given the bodies built so far. -/
def serve (grammar : Grammar) (bodies : List (Nat × Atom)) : Call → Served
  | .parse text => (grammar.parse bodies text {}).served
  | .parsePrefix text => (grammar.parse bodies text { allowRest := true }).served
  | .parseWith text options => (grammar.parse bodies text options).served
  | .parseRule name text => (grammar.parseRule bodies name text).served
  | .body name =>
    match grammar.body? bodies name with
    | none => ⟨.body none, [], bodies⟩
    | some (atom, bodies, event?) => ⟨.body (some atom), builtIn event?.toList, bodies⟩

/-- Answers calls one after the other. -/
def serveAll (grammar : Grammar) : List (Nat × Atom) → List Call → List Served
  | _, [] => []
  | bodies, call :: rest =>
    let served := grammar.serve bodies call
    served :: grammar.serveAll served.bodies rest

end Grammar

/-- The rules built are told in reverse by a trace in reverse. -/
theorem builtIn_reverse (trace : List Event) : builtIn trace.reverse = (builtIn trace).reverse :=
  List.filterMap_reverse

/-- Leaving out what is told about building may be done before or after reversing the trace. -/
theorem withoutBuilding_reverse (trace : List Event) :
    withoutBuilding trace.reverse = (withoutBuilding trace).reverse := List.filter_reverse

/-- What was built so far was built earlier. -/
theorem RuleTable.Ledger.carry {table : RuleTable} {earlier : List String} {bodies : List (Nat × Atom)}
    {trace : List Event} (h : table.Ledger earlier bodies trace.reverse) :
    table.Ledger ((builtIn trace).reverse ++ earlier) bodies [] :=
  ⟨by rw [h.built, builtIn_reverse]; rfl, h.once⟩

/-- A rule that has a name has a body. -/
theorem RuleTable.exists_bodyAt? {table : RuleTable} {name : String} {index : Nat}
    (h : table.names.idxOf? name = some index) : ∃ atom, table.bodyAt? index = some atom := by
  have hlt : index < table.names.length := by
    obtain ⟨hlt, -⟩ := List.findIdx?_eq_some_iff_getElem.1 h
    exact hlt
  rw [names, List.length_map] at hlt
  exact ⟨table.definitions[index].build table.rules, by simp [bodyAt?, hlt]⟩

namespace Copy

variable {C : Copy} {bodies bodies' : List (Nat × Atom)} {s s' : Session}

/-- The second parse has come to the same as the first one but for references, and the first one has kept
account of the bodies that it has built. -/
structure Concludes (C : Copy) (run run' : Run) : Prop where
  outcome : run'.outcome = run.outcome.mapRefs C.rename
  trace : withoutBuilding run'.trace = (withoutBuilding run.trace).map (Event.mapRefs C.rename)
  bodies : C.table.Knows run.bodies
  ledger : C.table.Ledger C.earlier run.bodies run.trace.reverse

/-- A parse that finishes from alike sessions concludes with the same outcome but for
references. -/
theorem Alike.finish (h : C.Alike s s') (outcome : Outcome) :
    C.Concludes (s.finish outcome) (s'.finish (outcome.mapRefs C.rename)) where
  outcome := rfl
  trace := by
    simp only [Session.finish, withoutBuilding_reverse, h.trace, List.map_reverse]
  bodies := h.bodies
  ledger := by
    simp only [Session.finish, List.reverse_reverse]
    exact h.ledger

/-- A parse that is rejected picks and locates the same cause but for references. -/
theorem Alike.reject (h : C.Alike s s') (root : Cause) :
    C.Concludes (s.reject root) (s'.reject (root.mapRefs C.rename)) := by
  have hpicked : (s'.reporter.pick (root.mapRefs C.rename)).locate s'.source
      = (((s.reporter.pick root).locate s.source).1.mapRefs C.rename,
        ((s.reporter.pick root).locate s.source).2) := by
    rw [h.reporter, Reporter.pick_mapRefs, h.source, Cause.locate_mapRefs]
  unfold Session.reject
  rw [hpicked]
  have hlocated := h.relocate ((s.reporter.pick root).locate s.source).2
  have hfailed := hlocated.emit (.failed ((s.reporter.pick root).locate s.source).1) rfl
  exact hfailed.finish (.rejected (.parse ((s.reporter.pick root).locate s.source).1))

/-- The counts are the same: they do not depend on references. -/
theorem Alike.withStatistics (h : C.Alike s s') : C.Alike s.withStatistics s'.withStatistics := by
  unfold Session.withStatistics
  rw [h.memo.size, h.memo.statistics]
  exact h.emit (.statistics s.memo.entries.size s.memo.statistics) rfl

/-- A parse is settled in the same way, be it accepted, rejected or broken off. -/
theorem Alike.settle (h : C.Alike s s') (options : Options) (outcome : Except Cause Raw) :
    C.Concludes (settle options outcome s) (Packrat.settle options (retold C.rename outcome) s') := by
  have hcounted := h.withStatistics
  unfold Packrat.settle
  dsimp only
  rw [hcounted.undefined]
  cases s.withStatistics.undefined with
  | some name => exact hcounted.finish (.rejected (.grammar (.undefinedRule name)))
  | none =>
    dsimp only
    obtain ⟨reason, hr, hr'⟩ | ⟨cause, t, t', hr, hr', ht⟩ | ⟨tree, t, t', hr, hr', ht⟩ :=
      (conclude options.allowRest outcome).replies hcounted
    · rw [hr, hr']
      exact hcounted.finish (.stopped reason)
    · rw [hr, hr']
      exact ht.reject cause
    · rw [hr, hr']
      dsimp only [id]
      rw [ht.overwritten]
      exact ht.finish (.accepted tree t.overwritten.reverse)

/-- Parses of one text start alike, whatever bodies were built before. -/
theorem alike_start (hbodies : C.table.Knows bodies) (hbodies' : C.copy.Knows bodies')
    (hledger : C.table.Ledger C.earlier bodies []) (text : String) (options : Options) :
    C.Alike (Session.start text options bodies) (Session.start text options bodies') where
  source := rfl
  captures := rfl
  labels := rfl
  undefined := rfl
  warn := rfl
  overwritten := rfl
  reporter := (Reporter.mapRefs_start C.rename options.reporter).symm
  memo := Memo.renamed_empty C.rename
  trace := rfl
  bodies := hbodies
  bodies' := hbodies'
  ledger := hledger

/-- A parse with the copy concludes as the parse with the table does, whatever bodies were built before. -/
theorem run (hC : C.Faithful) {entry : Atom} (hentry : entry.Every C.Leads)
    (hbodies : C.table.Knows bodies) (hbodies' : C.copy.Knows bodies')
    (hledger : C.table.Ledger C.earlier bodies []) (text : String) (options : Options) :
    C.Concludes (run C.table bodies entry text options)
      (Packrat.run C.copy bodies' (entry.mapRefs C.rename) text options) := by
  have hstart := alike_start hbodies hbodies' hledger text options
  unfold Packrat.run Packrat.matchEntry
  obtain ⟨reason, hr, hr'⟩ | ⟨cause, t, t', hr, hr', ht⟩ | ⟨raw, t, t', hr, hr', ht⟩ :=
    (matchEntry hC hentry text.utf8ByteSize).replies hstart
  · rw [hr, hr']
    exact ⟨rfl, rfl, hbodies, hledger⟩
  · rw [hr, hr']
    exact ht.settle options (.error cause)
  · rw [hr, hr']
    exact ht.settle options (.ok raw)

/-- Where a reference by name leads does not depend on the table that made it. -/
theorem Faithful.leads_own (hC : C.Faithful) (name : String) : C.Leads (C.table.rules.rule name) := by
  have hlength := congrArg List.length hC.names
  simp only [RuleTable.names, List.length_map] at hlength
  intro ref href
  cases href
  rw [hC.own]
  simp only [RuleTable.resolve?, RuleTable.rules, Rules.ref, hC.names, hlength, if_true]

/-- The second call was answered as the first one but for references, and what was built in the first one is on
the account of the next one. -/
structure Answers (C : Copy) (served served' : Served) : Prop where
  response : served'.response = served.response.mapRefs C.rename
  bodies : C.table.Knows served.bodies
  ledger : C.table.Ledger (served.built.reverse ++ C.earlier) served.bodies []

/-- A call is answered by what the parse has concluded. -/
theorem Concludes.served {run run' : Run} (h : C.Concludes run run') : C.Answers run.served run'.served where
  response := by rw [Run.served, Run.served, Response.mapRefs, h.outcome, h.trace]
  bodies := h.bodies
  ledger := h.ledger.carry

section Serving

variable (hC : C.Faithful) (hbodies : C.table.Knows bodies) (hbodies' : C.copy.Knows bodies')
  (hledger : C.table.Ledger C.earlier bodies [])

include hC hbodies hbodies' hledger

/-- A parse with a rule of the copy concludes as the parse with the rule of that name of the table does. -/
theorem run_rule (name text : String) (options : Options) :
    C.Concludes (Packrat.run C.table bodies (C.table.rules.rule name) text options)
      (Packrat.run C.copy bodies' (C.copy.rules.rule name) text options) := by
  have hentry : (C.table.rules.rule name).mapRefs C.rename = C.copy.rules.rule name :=
    congrArg Atom.rule (hC.own name)
  rw [← hentry]
  exact run hC ((Atom.Every.rule_iff _ _).2 (hC.leads_own name)) hbodies hbodies' hledger text options

/-- A parse with the root of the copy concludes as the parse with the root of the table does. -/
theorem parse (root : Nat) (text : String) (options : Options) :
    C.Concludes (Grammar.parse ⟨C.table, root⟩ bodies text options)
      (Grammar.parse ⟨C.copy, root⟩ bodies' text options) := by
  have hname : Grammar.rootName ⟨C.copy, root⟩ = Grammar.rootName ⟨C.table, root⟩ := by
    simp only [Grammar.rootName, hC.names]
  unfold Grammar.parse Grammar.rootAtom
  rw [hname]
  exact run_rule hC hbodies hbodies' hledger _ text options

/-- The body of a rule of the copy is the body of the rule of that name of the table, if there is one. -/
theorem serve_body (root : Nat) (name : String) :
    C.Answers (Grammar.serve ⟨C.table, root⟩ bodies (.body name))
      (Grammar.serve ⟨C.copy, root⟩ bodies' (.body name)) := by
  cases hindex : C.table.names.idxOf? name with
  | none =>
    have hnone : Grammar.body? ⟨C.table, root⟩ bodies name = none := by simp [Grammar.body?, hindex]
    have hnone' : Grammar.body? ⟨C.copy, root⟩ bodies' name = none := by
      simp [Grammar.body?, hC.names, hindex]
    simp only [Grammar.serve, hnone, hnone']
    exact ⟨rfl, hbodies, hledger⟩
  | some index =>
    obtain ⟨atom, hatom⟩ := RuleTable.exists_bodyAt? hindex
    have hatom' : C.copy.bodyAt? index = some (atom.mapRefs C.rename) := by
      rw [hC.bodies, hatom, Option.map_some]
    obtain ⟨built, event?, hbody, hbuilt, -, hevent⟩ := RuleTable.exists_body? hbodies hatom
    obtain ⟨built', event?', hbody', -, -, -⟩ := RuleTable.exists_body? hbodies' hatom'
    have hfound : Grammar.body? ⟨C.table, root⟩ bodies name = some (atom, built, event?) := by
      simp [Grammar.body?, hindex, hbody]
    have hfound' : Grammar.body? ⟨C.copy, root⟩ bodies' name
        = some (atom.mapRefs C.rename, built', event?') := by
      simp [Grammar.body?, hC.names, hindex, hbody']
    simp only [Grammar.serve, hfound, hfound']
    refine ⟨rfl, hbuilt, RuleTable.Ledger.carry ?_⟩
    have hreversed : event?.toList.reverse = event?.toList ++ [] := by cases event? <;> rfl
    rw [hreversed]
    exact hevent _ _ hledger

/-- A call to a copy is answered as the call to the grammar is, whatever bodies were built before. -/
theorem serve (root : Nat) (call : Call) :
    C.Answers (Grammar.serve ⟨C.table, root⟩ bodies call) (Grammar.serve ⟨C.copy, root⟩ bodies' call) := by
  have hparse := parse hC hbodies hbodies' hledger root
  cases call with
  | parse text => exact (hparse text {}).served
  | parsePrefix text => exact (hparse text { allowRest := true }).served
  | parseWith text options => exact (hparse text options).served
  | parseRule name text => exact (run_rule hC hbodies hbodies' hledger name text {}).served
  | body name => exact serve_body hC hbodies hbodies' hledger root name

end Serving

/-- Calls to the grammar, one after the other, are answered as each of them is by a copy of which nothing was
built, and account is kept of all that is built in them. -/
theorem serveAll (hC : C.Faithful) (root : Nat) (hbodies : C.table.Knows bodies)
    (hledger : C.table.Ledger C.earlier bodies []) (calls : List Call) :
    calls.map (fun call => (Grammar.serve ⟨C.copy, root⟩ [] call).response)
        = (Grammar.serveAll ⟨C.table, root⟩ bodies calls).map (·.response.mapRefs C.rename) ∧
      ∃ bodies', C.table.Ledger
        (((Grammar.serveAll ⟨C.table, root⟩ bodies calls).flatMap (·.built)).reverse ++ C.earlier)
        bodies' [] := by
  obtain ⟨table, copy, rename, earlier⟩ := C
  induction calls generalizing bodies earlier with
  | nil => exact ⟨rfl, bodies, hledger⟩
  | cons call rest ih =>
    obtain ⟨hresponse, hknown, hcarried⟩ := serve hC hbodies copy.knows_nil hledger root call
    obtain ⟨hresponses, bodies', hledger'⟩ := ih
      ((Grammar.serve ⟨table, root⟩ bodies call).built.reverse ++ earlier)
      ⟨hC.name, hC.names, hC.own, hC.bodies, hC.leads⟩ hknown hcarried
    refine ⟨?_, bodies', ?_⟩
    · rw [List.map_cons, Grammar.serveAll, List.map_cons, hresponse, hresponses]
    · rw [Grammar.serveAll, List.flatMap_cons, List.reverse_append, List.append_assoc]
      exact hledger'

end Copy

namespace Grammar

variable {key key' : Nat} {definitions : List Definition} {root : Option String} {grammar copy : Grammar}

/-- Where no name repeats an earlier one, all names differ. -/
theorem nodup_of_firstRepeat? {seen names : List String} (h : firstRepeat? seen names = none) :
    names.Nodup ∧ ∀ name ∈ names, name ∉ seen := by
  induction names generalizing seen with
  | nil => exact ⟨List.nodup_nil, by simp⟩
  | cons name rest ih =>
    rw [firstRepeat?] at h
    split at h
    · cases h
    · rename_i hseen
      rw [List.contains_iff_mem] at hseen
      obtain ⟨hrest, hnew⟩ := ih h
      refine ⟨List.nodup_cons.2 ⟨fun hmem => hnew name hmem (by simp), hrest⟩, ?_⟩
      intro other hother
      rcases List.mem_cons.1 hother with rfl | hother
      · exact hseen
      · exact fun hmem => hnew other hother (List.mem_cons_of_mem _ hmem)

/-- A grammar that can be built has the rules that it is built of, with names that differ. -/
theorem of_build (h : build key definitions root = .ok grammar) :
    grammar.table = ⟨key, definitions⟩ ∧ (definitions.map (·.name)).Nodup ∧
      ∃ name, root = some name ∧ (definitions.map (·.name)).idxOf? name = some grammar.root := by
  unfold build at h
  cases root with
  | none => cases h
  | some name =>
    dsimp only at h
    split at h
    · cases h
    · rename_i hrepeat
      split at h
      · cases h
      · rename_i index hindex
        cases h
        exact ⟨rfl, (nodup_of_firstRepeat? hrepeat).1, name, rfl, hindex⟩

/-- Tables of the same rules whose bodies differ in the keys of references alone are a table and a copy of it,
if the key of the copy was not in use before. -/
theorem faithful_rekey
    (hpure : ∀ d ∈ definitions, d.build ⟨key', definitions.map (·.name)⟩
      = (d.build ⟨key, definitions.map (·.name)⟩).mapRefs (RuleRef.rekey key key'))
    (hfresh : ∀ d ∈ definitions, (d.build ⟨key, definitions.map (·.name)⟩).Every fun part =>
      ∀ ref, part = .rule ref → ref.table ≠ key') :
    (Copy.mk ⟨key, definitions⟩ ⟨key', definitions⟩ (RuleRef.rekey key key') []).Faithful where
  name := RuleRef.rekey_name key key'
  names := rfl
  own name := by simp [RuleRef.rekey, RuleTable.rules, Rules.ref, RuleTable.names]
  bodies index := by
    simp only [RuleTable.bodyAt?, RuleTable.rules, RuleTable.names, Option.map_map]
    refine Option.map_congr fun d hd => hpure d ?_
    exact List.mem_of_getElem? hd
  leads index body hbody := by
    obtain ⟨d, hd, rfl⟩ := Option.map_eq_some_iff.1 hbody
    refine (hfresh d (List.mem_of_getElem? hd)).mono fun part hpart ref href => ?_
    have hkey' := hpart ref href
    by_cases hkey : ref.table = key
    · simp [RuleRef.rekey, RuleTable.resolve?, hkey]
    · simp [RuleRef.rekey, RuleTable.resolve?, hkey, hkey']

/-- Whatever calls are made to a grammar, one after the other, each of them is answered as it is by a copy
that was built just now: with the same tree and the same overwritten keys, or with the same failure and the
same tree of causes, and with the same counts, whether bodies were built for earlier calls or not. The answers
differ in nothing but the key of the table that a reference was made by. And no builder is run twice.

Builders are taken to be pure, which is to say that what they build from the rules of the copy differs from
what they build from those of the grammar in that key alone, and the key of the copy is taken to be new. -/
theorem calls_answered_as_by_fresh_copy (hgrammar : build key definitions root = .ok grammar)
    (hcopy : build key' definitions root = .ok copy)
    (hpure : ∀ d ∈ definitions, d.build copy.table.rules
      = (d.build grammar.table.rules).mapRefs (RuleRef.rekey key key'))
    (hfresh : ∀ d ∈ definitions, (d.build grammar.table.rules).Every fun part =>
      ∀ ref, part = .rule ref → ref.table ≠ key') (calls : List Call) :
    calls.map (fun call => (copy.serve [] call).response)
        = (grammar.serveAll [] calls).map (·.response.mapRefs (RuleRef.rekey key key')) ∧
      ((grammar.serveAll [] calls).flatMap (·.built)).Nodup := by
  obtain ⟨htable, hnames, name, hroot, hindex⟩ := of_build hgrammar
  obtain ⟨htable', -, name', hroot', hindex'⟩ := of_build hcopy
  obtain ⟨table, start⟩ := grammar
  obtain ⟨table', start'⟩ := copy
  subst htable htable'
  have hstart : start' = start := by
    rw [hroot, Option.some.injEq] at hroot'
    rw [← hroot', hindex, Option.some.injEq] at hindex'
    exact hindex'.symm
  subst hstart
  have hC := faithful_rekey hpure hfresh
  have hledger : RuleTable.Ledger ⟨key, definitions⟩ [] [] [] := ⟨rfl, List.nodup_nil⟩
  obtain ⟨hanswers, bodies, hbuilt⟩ := Copy.serveAll hC start' (RuleTable.knows_nil _) hledger calls
  refine ⟨hanswers, ?_⟩
  have hnodup := hbuilt.nodup hnames
  simpa [builtIn] using hnodup

end Grammar

/-- Two rules, one of which refers to the other and to itself. -/
def wordRules : List Definition :=
  [⟨"words", fun rules =>
      .sequence [rules.rule "word", ((Atom.literal " ").andThen (rules.rule "words")).maybe]⟩,
    ⟨"word", fun _ => .literal "ab"⟩]

/-- Calls that fail, that succeed, that leave input behind, that start elsewhere, and that ask for a body. -/
def wordCalls : List Call :=
  [.parse "ab ", .parseWith "ab ab" { reporter := .tree }, .parsePrefix "ab c", .parseRule "word" "ab",
    .parseRule "nowhere" "ab", .body "words", .body "nowhere", .parse "ab "]

/-- A grammar of words answers as a new copy of it does. -/
theorem wordCalls_answered :
    wordCalls.map (fun call => (Grammar.serve ⟨⟨2, wordRules⟩, 0⟩ [] call).response)
        = (Grammar.serveAll ⟨⟨1, wordRules⟩, 0⟩ [] wordCalls).map
          (·.response.mapRefs (RuleRef.rekey 1 2)) ∧
      ((Grammar.serveAll ⟨⟨1, wordRules⟩, 0⟩ [] wordCalls).flatMap (·.built)).Nodup := by
  have hgrammar : Grammar.build 1 wordRules (some "words") = .ok ⟨⟨1, wordRules⟩, 0⟩ := rfl
  have hcopy : Grammar.build 2 wordRules (some "words") = .ok ⟨⟨2, wordRules⟩, 0⟩ := rfl
  refine Grammar.calls_answered_as_by_fresh_copy hgrammar hcopy ?_ ?_ wordCalls
  · exact List.forall_mem_cons.2 ⟨rfl, List.forall_mem_cons.2 ⟨rfl, by simp⟩⟩
  · simp [wordRules, RuleTable.rules, Rules.rule, Rules.ref, Atom.maybe, Atom.andThen,
      Atom.sequenceParts]

/-- Each body is built in the call that first gets to it. -/
example : (Grammar.serveAll ⟨⟨1, wordRules⟩, 0⟩ [] wordCalls).map (·.built)
    = [["words", "word"], [], [], [], [], [], [], []] := by cbv

end Packrat
