import Mathlib
import Packrat.Proofs.Blaming

/-!
# Labels of failures

A cause is tagged with the innermost label there is when it is built. Most expressions build the cause that
they fail with, and some hand on that of a part of theirs. So a labelled expression fails with a cause that
carries its own label or that of a labelled expression within it, unless it hands on what a rule has failed
with: that may have been built under other labels, or without looking at them.
-/

namespace Packrat

open Matcher

/-- The cause is tagged with the innermost label or with another one that is allowed. -/
def Cause.Tagged (allowed : String → Prop) (innermost : Option String) (cause : Cause) : Prop :=
  cause.label = innermost ∨ ∃ label, cause.label = some label ∧ allowed label

/-- Every cause is tagged, whatever the reporter tracks. -/
def Blame.tagging (allowed : String → Prop) (fits : Memo → List (Nat × Atom) → Prop) : Blame where
  allowed := allowed
  fits := fits
  On innermost _ cause := cause.Tagged allowed innermost
  kept _ h := h
  built _ _ _ _ _ _ := .inl rfl
  unlabelled := by
    rintro text _ cause htext (hown | hother) label
    · exact .inr ⟨text, hown, htext⟩
    · exact .inr hother

/-- The cause of a failure, if there is one, carries one of the labels. -/
def isTagged (labels : String → Bool) : Except Cause Raw → Bool
  | .error cause => cause.label.any labels
  | .ok _ => true

/-- The watch that breaks a match off as soon as a reference fails with a cause that carries none of the
labels. -/
def taggingWatch (labels : String → Bool) : Watch
  | .rule ref, step => checkingWatch (fun _ _ => isTagged labels) (.rule ref) step
  | _, step => guarded step

/-- Only references are checked for their labels. -/
theorem taggingWatch_eq (labels : String → Bool) {atom : Atom} (hatom : ∀ ref, atom ≠ .rule ref)
    (step : Matcher Raw) : taggingWatch labels atom step = guarded step := by
  cases atom with
  | rule ref => exact absurd rfl (hatom ref)
  | _ => rfl

/-- Breaking a match off at references that fail with other causes cuts it. -/
theorem cuts_taggingWatch (labels : String → Bool) (atom : Atom) {step step' : Matcher Raw}
    (h : Cuts .misplaced step step') : Cuts .misplaced (taggingWatch labels atom step) (guarded step') := by
  by_cases hatom : ∃ ref, atom = .rule ref
  · obtain ⟨ref, rfl⟩ := hatom
    exact cuts_checkingWatch _ (.rule ref) h
  · rw [taggingWatch_eq labels fun ref heq => hatom ⟨ref, heq⟩]
    exact h.guarded

namespace Blame

variable (table : RuleTable) (depth : Nat) (labels : String → Bool)

/-- A reference that is watched fails with tagged causes only. -/
theorem blames_taggingWatch (ref : RuleRef) : (tagging (labels · = true) fun _ _ => True).Blames []
    (taggingWatch labels (.rule ref) (table.applyRule depth ref)) := by
  intro s _ _
  simp only [taggingWatch, checkingWatch, ensures_bind, ensures_position, ensures_attempt, ensures_source]
  refine (Session.loose_rises.matcher table depth (.rule ref) s).mono fun result s' hr => ?_
  split
  · rename_i htagged
    rw [ensures_ofResult]
    refine ⟨trivial, hr, ?_⟩
    rintro cause rfl
    exact .inr ((Option.any_eq_true ..).1 htagged)
  · exact trivial

/-- An expression fails with tagged causes only if its references are watched. -/
theorem tagging_watched {atom : Atom}
    (h : atom.Every fun part => ∀ body text, part = .label body text → labels text = true) :
    (tagging (labels · = true) fun _ _ => True).Blames []
      (atom.watched (taggingWatch labels) (table.applyRule depth)) :=
  blames_watched (fun _ _ hatom hstep => taggingWatch_eq labels hatom _ ▸ hstep.guarded)
    (h.mono fun _ hpart => ⟨hpart, fun ref _ => blames_taggingWatch table depth labels ref⟩)

end Blame

namespace RuleTable

/-- A labelled expression tags its failures. Wherever it is matched, with whatever rules, memo and labels
around it, it fails with its own label or with that of a labelled expression within it, unless a rule that it
refers to has failed in it with a cause that carries none of these. Without references in it, its failures are
always tagged. -/
theorem label_tags_failures (table : RuleTable) (depth : Nat) {inner : String → Bool} {body : Atom}
    (hbody : body.Every fun part => ∀ nested text, part = .label nested text → inner text = true)
    (text : String) (s : Session) :
    (Atom.label body text).watched (taggingWatch fun label => label == text || inner label)
        (table.applyRule depth) s = .stopped .misplaced ∨
      ∀ cause s', (Atom.label body text).matcher (table.applyRule depth) s = .failed cause s' →
        ∃ label, cause.label = some label ∧ (label = text ∨ inner label = true) := by
  let labels : String → Bool := fun label => label == text || inner label
  have hblames := Blame.tagging_watched table depth labels
    (hbody.mono fun part hpart nested label heq => by simp [labels, hpart nested label heq])
  have htagged : Ensures anyhow ((Atom.label body text).watched (taggingWatch labels) (table.applyRule depth)) s
      fun result _ => ∀ cause, result = .error cause → cause.Tagged (labels · = true) (some text) :=
    hblames.ensures_guarded_labelled text trivial
  have hcuts : Cuts .misplaced ((Atom.label body text).watched (taggingWatch labels) (table.applyRule depth))
      ((Atom.label body text).watched (fun _ => guarded) (table.applyRule depth)) :=
    (Cuts.bond .misplaced).watched (fun atom _ _ h => cuts_taggingWatch labels atom h)
      (fun ref => .refl (table.applyRule depth ref)) (Atom.label body text)
  rw [Atom.watched_guarded] at hcuts
  refine (hcuts s).imp_right fun heq cause s' hfailed => ?_
  rcases htagged.of_failed (heq.trans hfailed) cause rfl with hown | ⟨label, hlabel, hallowed⟩
  · exact ⟨text, hown, .inl rfl⟩
  · exact ⟨label, hlabel, by simpa [labels] using hallowed⟩

end RuleTable

/-- A rule that comes back to itself within a label. -/
def seededTable : RuleTable :=
  ⟨1, [⟨"word", fun rules => .choice
    [.sequence [.label (rules.rule "word") "start", .literal "a"], .literal "b"]⟩]⟩

/-- The cause within the sequence is handed on by the label: it is the seed of the rule and not tagged. -/
example : ∃ root s, matchEntry seededTable [] (seededTable.rules.rule "word") "c" {} = .failed root s ∧
    root.children.map (fun cause => cause.children.map (·.label)) = [[none], []] :=
  ⟨_, _, by cbv, by cbv⟩

end Packrat
