import Mathlib
import Packrat.Proofs.Deepest
import Packrat.Proofs.Settings
import Packrat.Proofs.Tagging

/-!
# What surfaces when no rule is tried again

A failure that comes out of the memo is handed on as it was: it is neither shown to the reporter again nor
tagged with the labels that have come to be around it. In a match in which no rule is applied where it has
failed before, or where it is still being applied, every failure is met for the first time. Then no cause lies
deeper than the one that the deepest reporter picks, and labels tag whatever fails within them, in rules as
well. That no rule is tried again is said by a watch, which breaks a match off before that happens.
-/

namespace Packrat

open Matcher

/-- No rule has come back to itself yet. -/
structure Memo.Unclustered (memo : Memo) : Prop where
  clusters : memo.clusters = #[]
  apart : ∀ id, memo.clusterAt? id = none

namespace Memo.Unclustered

variable {memo : Memo} {rule start : Nat}

/-- Before anything was matched, there is no cluster. -/
theorem nil : Unclustered {} := ⟨rfl, fun _ => by simp [clusterAt?, application?]⟩

/-- Nothing is being grown. -/
theorem growing? (h : memo.Unclustered) (start : Nat) : memo.growing? start = none := by
  simp [Memo.growing?, h.clusters]

/-- Without clusters, no rule is due again. -/
theorem notDue (h : memo.Unclustered) : memo.NotDue rule start := by
  intro c cluster _ hcluster
  simp [h.clusters] at hcluster

/-- Without clusters, no rule is refused because another one grows. -/
theorem not_refuses (h : memo.Unclustered) : ¬ memo.Refuses rule start := by
  rintro ⟨c, cluster, hgrowing, -⟩
  simp [h.growing? start] at hgrowing

/-- Counting a hit founds no cluster. -/
theorem countHit (h : memo.Unclustered) : memo.countHit.Unclustered := ⟨h.clusters, h.apart⟩

/-- Entering a rule founds no cluster. -/
theorem enter (h : memo.Unclustered) (rule start : Nat) (seed : Except Cause Tree) :
    (memo.enter rule start seed).Unclustered :=
  ⟨h.clusters, fun id => by rw [clusterAt?_enter, h.apart]⟩

/-- Leaving a rule founds no cluster. -/
theorem leave (h : memo.Unclustered) (id rule start : Nat) (result : Except Cause Tree) (stop : Nat) :
    (memo.leave id rule start result stop).Unclustered := by
  have hrelease : ((memo.pop id).release id).Unclustered := by
    refine ⟨(clusters_release _ id).trans h.clusters, fun id' => ?_⟩
    by_cases hid : id' = id
    · unfold release
      split
      · rename_i hlast
        rw [clusterAt?, application?, Array.getElem?_pop, if_neg (by omega)]
        rfl
      · exact h.apart id'
    · rw [clusterAt?, application?, applications_release _ hid]
      exact h.apart id'
  exact ⟨hrelease.clusters, hrelease.apart⟩

end Memo.Unclustered

/-- Whether the expression refers to a rule that has failed at the offset before or is still being applied
there. -/
def RuleTable.retries (table : RuleTable) (memo : Memo) (start : Nat) : Atom → Bool
  | .rule ref => ((table.resolve? ref).bind (memo.find? · start)).any fun entry =>
    match entry.answer with
    | .done (.ok _) => false
    | .done (.error _) => true
    | .inProgress _ => true
  | _ => false

/-- A rule that is not tried again has matched before if anything is known about it. -/
theorem RuleTable.eq_done_of_not_retries {table : RuleTable} {memo : Memo} {start index : Nat} {ref : RuleRef}
    (h : table.retries memo start (.rule ref) = false) (href : table.resolve? ref = some index) {entry : Entry}
    (hentry : memo.find? index start = some entry) : ∃ tree stop, entry = ⟨.done (.ok tree), stop⟩ := by
  obtain ⟨(_ | tree) | id, stop⟩ := entry
  · simp [retries, href, hentry] at h
  · exact ⟨tree, stop, rfl⟩
  · simp [retries, href, hentry] at h

/-- The watch that breaks a match off before a rule is applied where it has failed before or where it is still
being applied. -/
def retryWatch (table : RuleTable) : Watch := fun atom step => do
  let memo ← memo
  let start ← position
  if table.retries memo start atom then stop .misplaced else guarded step

/-- The watch cuts a match short at most: where no rule is tried again, the match is what it is
without. -/
theorem cuts_retryWatch (table : RuleTable) (atom : Atom) {step step' : Matcher Raw}
    (h : Cuts .misplaced step step') : Cuts .misplaced (retryWatch table atom step) (guarded step') := by
  have hcuts : Cuts .misplaced (retryWatch table atom step) (do
      let _ ← memo
      let _ ← position
      guarded step') := by
    refine .after _ fun memo => .after _ fun start => ?_
    split
    · exact .stop _
    · exact h.guarded
  exact hcuts

namespace Blame

variable {B : Blame} {table : RuleTable} {depth : Nat} {s : Session}

/-- A rule that nothing is known about, or one that has matched before, fails only with a cause that its body
has failed with. -/
theorem blames_memoized {r : RuleBody} (hbody : B.Blames [] r.body)
    (hfits : ∀ {memo bodies}, B.fits memo bodies ↔ memo.Unclustered ∧ table.Knows bodies)
    (hs : B.fits s.memo s.bodies)
    (hentry : ∀ entry, s.memo.find? r.rule s.source.pos = some entry →
      ∃ tree stop, entry = ⟨.done (.ok tree), stop⟩) : Ensures anyhow (memoized r) s (B.Ended s) := by
  obtain ⟨hmemo, hbodies⟩ := hfits.1 hs
  cases hfind : s.memo.find? r.rule s.source.pos with
  | some entry =>
    obtain ⟨tree, stop, rfl⟩ := hentry entry hfind
    have hremembered := remembered_of_some hfind hmemo.notDue
    rw [memoized, ensures_congr ((position_bind s _).trans (bind_of_matched hremembered)), ensures_bind]
    exact ensures_moveTo_anyhow (.of_ok (hfits.2 ⟨hmemo.countHit, hbodies⟩) (.of_eq rfl rfl))
  | none =>
    rw [ensures_congr (memoized_of_none hfind hmemo.notDue hmemo.not_refuses), ensures_applyFresh]
    have hentered := hmemo.enter r.rule s.source.pos (.error (r.failed s.source.pos))
    refine (hbody { s with memo := _ } (hfits.2 ⟨hentered, hbodies⟩) (by simp)).mono fun result s' he => ?_
    obtain ⟨hmemo', hbodies'⟩ := hfits.1 he.fits
    have hapart : (s'.memo.application? s.memo.applications.size).bind (·.cluster) = none := hmemo'.apart _
    simp only [hapart]
    exact ⟨hfits.2 ⟨hmemo'.leave _ _ _ _ _, hbodies'⟩, ⟨he.rises.labels, he.rises.choices, he.rises.kind,
      he.rises.reaches⟩, he.covers⟩

/-- A step fails under the watch with the cause it fails with. -/
theorem blames_retryWatch {atom : Atom} {step : Matcher Raw} (h : B.Blames [] step) :
    B.Blames [] (retryWatch table atom step) := by
  intro s hs _
  simp only [retryWatch, ensures_bind, ensures_memo, ensures_position]
  split
  · exact trivial
  · exact h.guarded s hs (by simp)

section Watched

variable (hfits : ∀ {memo bodies}, B.fits memo bodies ↔ memo.Unclustered ∧ table.Knows bodies)
  (hlabels : ∀ index atom, table.bodyAt? index = some atom →
    atom.Every fun part => ∀ body text, part = .label body text → B.allowed text)

include hfits hlabels

/-- What is said goes for all causes that a reference fails with, unless a rule is tried again. -/
theorem blames_applyWatched (ref : RuleRef) :
    B.Blames [] (retryWatch table (.rule ref) (table.applyWatched (retryWatch table) depth ref)) := by
  induction depth generalizing ref with
  | zero => exact blames_retryWatch (.stop _)
  | succ depth ih =>
    intro s hs _
    obtain ⟨hmemo, hbodies⟩ := hfits.1 hs
    simp only [retryWatch, ensures_bind, ensures_memo, ensures_position]
    split
    · exact trivial
    rename_i hretries
    rw [Bool.not_eq_true] at hretries
    refine Ended.guarded ?_
    simp only [RuleTable.applyWatched, RuleTable.applyWith, ensures_bind]
    refine ensures_resolve hbodies (fun _ => ?_) fun index atom bodies trace hindex hatom hknown => ?_
    · exact Blames.refuseUndefined _ s hs (by simp)
    · have hmarks : atom.Every (B.Marks (retryWatch table) (table.applyWatched (retryWatch table) depth)) :=
        (hlabels index atom hatom).mono fun _ hpart => ⟨hpart, fun ref _ => ih ref⟩
      have hbody := blames_watched (fun _ _ _ => blames_retryWatch) hmarks
      simp only [ensures_bind, ensures_pure]
      refine (blames_memoized (s := { s with bodies, trace }) (hbody.bind fun raw => .flatten false raw) hfits
        (hfits.2 ⟨hmemo, hknown⟩) fun entry => RuleTable.eq_done_of_not_retries hretries hindex).mono ?_
      intro result s' he
      have hbuilt : s.Rises { s with bodies, trace } := .of_eq rfl rfl
      cases result with
      | error cause => exact .of_error he.fits (hbuilt.trans he.rises) (he.covers cause rfl)
      | ok tree => exact .of_ok he.fits (hbuilt.trans he.rises)

/-- What is said goes for all causes that an expression fails with, unless a rule is tried again. -/
theorem blames_unretried (depth : Nat) {atom : Atom}
    (h : atom.Every fun part => ∀ body text, part = .label body text → B.allowed text) :
    B.Blames [] (atom.watched (retryWatch table) (table.applyWatched (retryWatch table) depth)) :=
  blames_watched (fun _ _ _ => blames_retryWatch)
    (h.mono fun _ hpart => ⟨hpart, fun ref _ => blames_applyWatched hfits hlabels ref⟩)

end Watched

end Blame

/-- All causes of the tree lie where the reporter reaches. -/
def Blame.surfacing (table : RuleTable) : Blame where
  allowed _ := True
  fits memo bodies := memo.Unclustered ∧ table.Knows bodies
  On _ reporter cause := ∀ node ∈ cause.nodes, reporter.Reaches node.offset
  kept hreaches h node hnode := hreaches _ (h node hnode)
  built label reporter message offset children h := by
    rw [Cause.nodes_mk]
    refine List.forall_mem_cons.2 ⟨reporter.reaches_recorded _, fun node hnode => ?_⟩
    obtain ⟨child, hchild, hnode⟩ := List.mem_flatMap.1 hnode
    exact (h child hchild node hnode).recorded _
  unlabelled _ h _ := h

/-- What a deepest reporter picks lies no less deep than anything that it reaches. -/
theorem Reporter.Reaches.le_pick {reporter : Reporter} {offset : Nat} (h : reporter.Reaches offset)
    (hkind : reporter.kind = .deepest) (root : Cause) : offset ≤ (reporter.pick root).offset := by
  cases reporter with
  | deepest state =>
    obtain ⟨cause, htracked, hle⟩ := h
    simp only [pick, Deepest.pick, htracked]
    split
    · exact hle
    · rename_i hroot
      exact Nat.le_trans hle (Nat.le_of_not_lt hroot)
  | tree => cases hkind
  | contextual state => cases hkind

/-- A tree reporter picks the root. -/
theorem Reporter.pick_of_tree {reporter : Reporter} (hkind : reporter.kind = .tree) (root : Cause) :
    reporter.pick root = root := by
  cases reporter with
  | tree => rfl
  | deepest state => cases hkind
  | contextual state => cases hkind

namespace Cause

/-- Locating a cause leaves its offset as it is. -/
theorem offset_locate (source : Source) (cause : Cause) : (cause.locate source).1.offset = cause.offset := by
  cases cause
  rfl

mutual

/-- Locating a tree of causes leaves the offsets in it as they are. -/
theorem map_offset_nodes_locate (source : Source) (cause : Cause) :
    (cause.locate source).1.nodes.map (·.offset) = cause.nodes.map (·.offset) := by
  obtain ⟨message, offset, position, label, children⟩ := cause
  rw [locate, nodes_mk, nodes_mk, List.map_cons, List.map_cons, map_offset_nodes_locateAll]

/-- Locating causes side by side leaves the offsets in their trees as they are. -/
theorem map_offset_nodes_locateAll (source : Source) (causes : List Cause) :
    ((locateAll causes source).1.flatMap nodes).map (·.offset) = (causes.flatMap nodes).map (·.offset) := by
  match causes with
  | [] => rfl
  | child :: rest =>
    rw [locateAll, List.flatMap_cons, List.flatMap_cons, List.map_append, List.map_append,
      map_offset_nodes_locate, map_offset_nodes_locateAll]

end

end Cause

/-- What is concluded from a match fails only with a cause that is built for it. -/
theorem Blame.Blames.conclude {B : Blame} (allowRest : Bool) (raw : Raw) :
    B.Blames [] (conclude allowRest (.ok raw)) := by
  refine bind (pure raw) fun raw => source.bind fun source => ?_
  split
  · exact (flatten false raw).bind fun tree => (emit _).bind fun _ => pure tree
  · exact refuse _ _

/-- A parse leaves the reporter of its kind. -/
theorem rises_parseStep (table : RuleTable) (bytes : Nat) (entry : Atom) (allowRest : Bool) :
    Within Session.Rises (table.parseStep bytes entry allowRest) :=
  Session.loose_rises.habit.bind (Session.loose_rises.habit.attempt (Session.loose_rises.matcher table _ entry))
    fun outcome => Session.loose_rises.habit.bind (fun _ => Session.Rises.of_eq rfl rfl) fun _ =>
      Session.loose_rises.habit.conclude allowRest outcome

section Parsing

variable {table : RuleTable} {bodies : List (Nat × Atom)} {entry : Atom} {text : String} {options : Options}

/-- If a parse in which no rule is tried again fails, all causes in the tree of the root lie where the reporter
reaches. -/
theorem ensures_parseStep_surfaces (hbodies : table.Knows bodies)
    (hretry : matchWatched (retryWatch table) table bodies entry text options ≠ .stopped .misplaced) :
    Ensures anyhow (table.parseStep text.utf8ByteSize entry options.allowRest)
      (Session.start text options bodies) fun result s => ∀ root, result = .error root →
        ∀ node ∈ root.nodes, s.reporter.Reaches node.offset := by
  have hlabels (atom : Atom) : atom.Every fun part => ∀ body text, part = .label body text → True :=
    .of_forall (fun _ _ _ _ => trivial) atom
  have hblames := Blame.blames_unretried (B := .surfacing table) Iff.rfl (fun _ atom _ => hlabels atom)
    (table.depthBound text.utf8ByteSize) (hlabels entry)
  have hentry := hblames (Session.start text options bodies) ⟨.nil, hbodies⟩ (by simp)
  have heq := matchWatched_eq (fun atom _ _ => cuts_retryWatch table atom) table bodies entry text options hretry
  have hmatch : Ensures anyhow (table.matcher text.utf8ByteSize entry) (Session.start text options bodies)
      ((Blame.surfacing table).Ended _) := (ensures_congr heq).1 hentry
  simp only [RuleTable.parseStep, ensures_bind, ensures_attempt, ensures_modify]
  refine hmatch.mono fun result s he => ?_
  cases result with
  | error root =>
    rintro root' heq
    cases heq
    exact he.covers root rfl
  | ok raw =>
    exact (Blame.Blames.conclude options.allowRest raw s.withStatistics he.fits (by simp)).mono
      fun _ _ he' => he'.covers

/-- The default report is the deepest failure, unless a rule is tried again. With rules that refer to each other
in whatever way, for every text: if a parse fails under the deepest reporter, and no rule was applied in it where
it had failed before or was still being applied, the cause that the caller gets lies no less deep than any cause
in the tree that the tree reporter hands out for the same input. -/
theorem deepest_surfaces (table : RuleTable) (bodies : List (Nat × Atom)) (hbodies : table.Knows bodies)
    (entry : Atom) (text : String) (allowRest warn : Bool)
    (hretry : matchWatched (retryWatch table) table bodies entry text ⟨allowRest, .deepest, warn⟩
      ≠ .stopped .misplaced) {cause root : Cause}
    (hcause : (run table bodies entry text ⟨allowRest, .deepest, warn⟩).outcome = .rejected (.parse cause))
    (hroot : (run table bodies entry text ⟨allowRest, .tree, warn⟩).outcome = .rejected (.parse root)) :
    ∀ node ∈ root.nodes, node.offset ≤ cause.offset := by
  rw [run_outcome] at hcause hroot
  obtain ⟨root₁, s, hs, rfl⟩ := Reply.outcome_eq_parse hcause
  obtain ⟨root₂, s', hs', rfl⟩ := Reply.outcome_eq_parse hroot
  -- both parses fail with the same root
  have hsame := (blind_parseStep (L := .captures) (fun _ _ h => h) table text.utf8ByteSize entry allowRest _ _
    (Session.twins_start text bodies ⟨allowRest, .deepest, warn⟩ ⟨allowRest, .tree, warn⟩)).of_failed hs
  obtain ⟨heq, -⟩ := hsame.of_failed hs'
  cases heq
  have hkind := ((rises_parseStep table text.utf8ByteSize entry allowRest _).of_failed hs).kind
  have hkind' := ((rises_parseStep table text.utf8ByteSize entry allowRest _).of_failed hs').kind
  rw [Reporter.pick_of_tree hkind']
  intro node hnode
  have hoffset : node.offset ∈ root₁.nodes.map (·.offset) := by
    rw [← Cause.map_offset_nodes_locate s'.source]
    exact List.mem_map_of_mem hnode
  obtain ⟨node₁, hnode₁, hoffset⟩ := List.mem_map.1 hoffset
  rw [Cause.offset_locate, ← hoffset]
  exact ((ensures_parseStep_surfaces hbodies hretry).of_failed hs root₁ rfl node₁ hnode₁).le_pick hkind root₁

end Parsing

/-- A word that is applied again where it has failed before: first in a choice that its first letter wins, then
behind it. -/
def retriedTable : RuleTable :=
  ⟨2, [⟨"start", fun rules => .sequence
    [.lookahead (.choice [rules.rule "word", .literal "a"]) true, rules.rule "word"]⟩,
    ⟨"word", fun _ => .sequence [.literal "a", .literal "b", .literal "c"]⟩]⟩

/-- The failure of the word is not shown to the reporter again, so that the root is picked, although a cause
below it lies deeper. -/
example : matchWatched (retryWatch retriedTable) retriedTable [] (retriedTable.rules.rule "start") "abx" {}
      = .stopped .misplaced ∧
    ∃ root s, matchEntry retriedTable [] (retriedTable.rules.rule "start") "abx" {} = .failed root s ∧
      (s.reporter.pick root).offset = 0 ∧ root.nodes.map (·.offset) = [0, 2, 2] :=
  ⟨by cbv, _, _, by cbv, by cbv, by cbv⟩

/-- Labels tag what fails within them, in rules as well, unless a rule is tried again. Wherever a labelled
expression is matched before any rule has come back to itself, it fails with its own label, with that of a
labelled expression within it, or with one of the body of a rule. -/
theorem label_tags_failures_of_rules (table : RuleTable) (depth : Nat) {inner : String → Prop}
    (hrules : ∀ index atom, table.bodyAt? index = some atom →
      atom.Every fun part => ∀ body text, part = .label body text → inner text) {body : Atom}
    (hbody : body.Every fun part => ∀ nested text, part = .label nested text → inner text) (text : String)
    (s : Session) (hmemo : s.memo.Unclustered) (hbodies : table.Knows s.bodies) :
    (Atom.label body text).watched (retryWatch table) (table.applyWatched (retryWatch table) depth) s
        = .stopped .misplaced ∨
      ∀ cause s', (Atom.label body text).matcher (table.applyRule depth) s = .failed cause s' →
        ∃ label, cause.label = some label ∧ (label = text ∨ inner label) := by
  let B : Blame := .tagging (fun label => label = text ∨ inner label)
    fun memo bodies => memo.Unclustered ∧ table.Knows bodies
  have hlabels (atom : Atom) (h : atom.Every fun part => ∀ body text, part = .label body text → inner text) :
      atom.Every fun part => ∀ body text, part = .label body text → B.allowed text :=
    h.mono fun part hpart body text heq => .inr (hpart body text heq)
  have hblames := Blame.blames_unretried (B := B) Iff.rfl
    (fun index atom hatom => hlabels atom (hrules index atom hatom)) depth (hlabels body hbody)
  have htagged : Ensures anyhow
      ((Atom.label body text).watched (retryWatch table) (table.applyWatched (retryWatch table) depth)) s
      fun result _ => ∀ cause, result = .error cause →
        cause.Tagged (fun label => label = text ∨ inner label) (some text) :=
    hblames.ensures_guarded_labelled text ⟨hmemo, hbodies⟩
  refine or_iff_not_imp_left.2 fun hretry cause s' hfailed => ?_
  have heq := (Atom.label body text).watched_eq (fun atom _ _ => cuts_retryWatch table atom) table depth hretry
  rcases htagged.of_failed (heq.trans hfailed) cause rfl with hown | hother
  · exact ⟨text, hown, .inl rfl⟩
  · exact hother

end Packrat
