import Packrat.Proofs.Calls

/-!
# The records of applications

Records are given back from the end of their array and their numbers are used again, while entries go on naming
the numbers of applications that have long returned and records go on naming the ones below them. It never comes
to confusion: an entry that names a record names that of the application that made it, links lead down to earlier
records, every cluster that is named has been found, and whether a record is on the call path is whether the
application is.

This is so whenever an expression is about to be applied and whenever it has come to something, be it in a body
that is matched because its rule was entered, in a round of growing, or because the rule is applied again. What is
done to the memo between two such moments is one step: giving a record back and overwriting the entry that names
it, say, happens together. Whether an application is active is asked, and applications join clusters, only where a
reference is about to be applied.
-/

namespace Packrat

open Matcher Course

namespace Memo

/-- Every record is linked to an earlier one, and names no cluster but one that was found. -/
structure WellLinked (memo : Memo) : Prop where
  /-- Numbers below that of a record are those of records too. -/
  below : ∀ (id : Nat) (a : Application), memo.application? id = some a → ∀ b, a.below = some b → b < id
  /-- The cluster that an application has joined was found. -/
  cluster : ∀ (id : Nat) (a : Application), memo.application? id = some a →
    ∀ c, a.cluster = some c → c < memo.clusters.size

namespace WellLinked

variable {memo memo' : Memo}

/-- Where there are no records, none is linked wrongly. -/
theorem nil : ({} : Memo).WellLinked := ⟨by simp [application?], by simp [application?]⟩

/-- Records may be dropped, and may join clusters that were found. -/
theorem of_records (h : memo.WellLinked) (hsize : memo.clusters.size ≤ memo'.clusters.size)
    (hrecords : ∀ (id : Nat) (a' : Application), memo'.application? id = some a' →
      ∃ a, memo.application? id = some a ∧ a'.below = a.below ∧
        ∀ c, a'.cluster = some c → a.cluster = some c ∨ c < memo'.clusters.size) : memo'.WellLinked where
  below id a' ha' b hb := by
    obtain ⟨a, ha, hbelow, -⟩ := hrecords id a' ha'
    exact h.below id a ha b (hbelow ▸ hb)
  cluster id a' ha' c hc := by
    obtain ⟨a, ha, -, hcluster⟩ := hrecords id a' ha'
    rcases hcluster c hc with hkept | hlt
    · exact (h.cluster id a ha c hkept).trans_le hsize
    · exact hlt

/-- A step that leaves the records alone and takes no cluster back. -/
theorem of_eq (h : memo.WellLinked) (ha : memo'.applications = memo.applications)
    (hsize : memo'.clusters.size = memo.clusters.size) : memo'.WellLinked :=
  h.of_records hsize.ge fun id a' ha' => ⟨a', by rwa [application?, ha] at ha', rfl, fun _ => .inl⟩

/-- Changing a cluster relinks no record. -/
theorem modifyCluster (h : memo.WellLinked) (c : Nat) (f : Cluster → Cluster) :
    (memo.modifyCluster c f).WellLinked := h.of_eq rfl Array.size_modify

/-- A record may be changed if it stays linked as it is and joins no cluster but one that was found. -/
theorem modifyApplication (h : memo.WellLinked) (id : Nat) {f : Application → Application}
    (hbelow : ∀ a, (f a).below = a.below)
    (hcluster : ∀ a c, (f a).cluster = some c → a.cluster = some c ∨ c < memo.clusters.size) :
    (memo.modifyApplication id f).WellLinked := by
  refine h.of_records le_rfl fun id' a' ha' => ?_
  rw [application?, Memo.modifyApplication, Array.getElem?_modify] at ha'
  split at ha'
  · obtain ⟨a, ha, rfl⟩ := Option.map_eq_some_iff.1 ha'
    exact ⟨a, ha, hbelow a, hcluster a⟩
  · exact ⟨a', ha', rfl, fun _ => .inl⟩

/-- Forgetting entries relinks no record. -/
theorem forget (h : memo.WellLinked) (rules : List Nat) (start : Nat) : (memo.forget rules start).WellLinked :=
  h.of_eq (applications_forget ..) (congrArg Array.size (clusters_forget ..))

/-- A rule that is entered is linked to what was on top. -/
theorem enter (h : memo.WellLinked) (htop : ∀ id, memo.top = some id → id < memo.applications.size)
    (rule start : Nat) (seed : Except Cause Tree) : (memo.enter rule start seed).WellLinked := by
  have hrecord (id : Nat) (a : Application) (ha : (memo.enter rule start seed).application? id = some a) :
      id = memo.applications.size ∧ a = ⟨rule, start, seed, none, memo.top⟩ ∨ memo.application? id = some a := by
    rw [application?, applications_enter, Array.getElem?_push] at ha
    split at ha
    · rename_i heq
      exact .inl ⟨heq, (Option.some.inj ha).symm⟩
    · exact .inr ha
  constructor
  · intro id a ha b hb
    rcases hrecord id a ha with ⟨rfl, rfl⟩ | hold
    · exact htop b hb
    · exact h.below id a hold b hb
  · intro id a ha c hc
    rcases hrecord id a ha with ⟨rfl, rfl⟩ | hold
    · cases hc
    · exact h.cluster id a hold c hc

/-- Leaving a rule drops its record or keeps it as it is. -/
theorem leave (h : memo.WellLinked) (id rule start : Nat) (result : Except Cause Tree) (stop : Nat) :
    (memo.leave id rule start result stop).WellLinked := by
  have hclusters : (memo.leave id rule start result stop).clusters = memo.clusters :=
    clusters_release (memo.pop id) id
  refine h.of_records (by rw [hclusters]) fun id' a ha => ⟨a, ?_, rfl, fun _ => .inl⟩
  change ((memo.pop id).release id).applications[id']? = some a at ha
  unfold release at ha
  split at ha
  · rw [Array.getElem?_pop] at ha
    split at ha
    · exact ha
    · cases ha
  · exact ha

/-- A rule that is left with its seed keeps its record, linked as before. -/
theorem leaveSeeded (h : memo.WellLinked) (id rule start : Nat) (seed : Except Cause Tree) (stop : Nat) :
    (memo.leaveSeeded id rule start seed stop).WellLinked := by
  have hpopped : (memo.pop id).WellLinked := h.of_eq rfl rfl
  exact (hpopped.modifyApplication id (f := fun a => { a with seed }) (fun _ => rfl) fun _ _ => .inl).of_eq rfl rfl

/-- What an application belongs to, or comes to belong to, is a cluster that was found. -/
theorem clusterOf (h : memo.WellLinked) (rule id : Nat) :
    (memo.clusterOf rule id).2.WellLinked ∧ (memo.clusterOf rule id).1 < (memo.clusterOf rule id).2.clusters.size := by
  cases hc : (memo.application? id).bind (·.cluster) with
  | some c =>
    obtain ⟨a, ha, hac⟩ := Option.bind_eq_some_iff.1 hc
    rw [clusterOf_of_some _ hc]
    exact ⟨h, h.cluster id a ha c hac⟩
  | none =>
    have hpushed : ({ memo with clusters := memo.clusters.push { head := rule } } : Memo).WellLinked :=
      h.of_records (by simp) fun _ a ha => ⟨a, ha, rfl, fun _ => .inl⟩
    rw [clusterOf_of_none _ hc]
    refine ⟨WellLinked.of_eq (hpushed.modifyApplication id (f := fun a =>
      { a with cluster := some memo.clusters.size }) (fun _ => rfl) fun a c heq => .inr ?_) rfl rfl, ?_⟩
    · cases heq
      simp
    · simp [Memo.modifyApplication, count]

/-- An application may join a cluster that was found. -/
theorem join (h : memo.WellLinked) {c : Nat} (hc : c < memo.clusters.size) (id : Nat) :
    (memo.join c id).WellLinked ∧ c < (memo.join c id).clusters.size := by
  unfold Memo.join
  split
  · exact ⟨h, hc⟩
  · have hjoined := h.modifyApplication id (f := fun a => { a with cluster := some c }) (fun _ => rfl)
      fun _ _ heq => .inr (by cases heq; exact hc)
    refine ⟨hjoined.modifyCluster .., ?_⟩
    rw [Memo.modifyCluster, Array.size_modify]
    exact hc

/-- Marking a left recursion relinks no record and names no cluster but one that was found. -/
theorem markLeftRecursion (h : memo.WellLinked) (rule id : Nat) :
    (memo.markLeftRecursion rule id).WellLinked := by
  have hjoins (c : Nat) (members : List Nat) (memo : Memo) (h : memo.WellLinked) (hc : c < memo.clusters.size) :
      (members.foldl (fun memo member => memo.join c member) memo).WellLinked := by
    induction members generalizing memo with
    | nil => exact h
    | cons member rest ih =>
      obtain ⟨hjoined, hc'⟩ := h.join hc member
      exact ih _ hjoined hc'
  obtain ⟨hfound, hc⟩ := h.clusterOf rule id
  exact hjoins _ _ _ hfound hc

/-- The failure of a head relinks no record. -/
theorem failHead (h : memo.WellLinked) (rule start stop c : Nat) (involved : List Nat) (cause : Cause) :
    (memo.failHead rule start stop c involved cause).WellLinked := by
  have hremembered : (memo.remember rule start (.done (.error cause)) stop).WellLinked := h.of_eq rfl rfl
  unfold Memo.failHead
  dsimp only
  split
  · exact hremembered.modifyCluster ..
  · exact (hremembered.modifyCluster ..).forget ..

/-- The end of growing relinks no record. -/
theorem endGrowth (h : memo.WellLinked) (start c : Nat) (outer : Option Nat) :
    (memo.endGrowth start c outer).WellLinked := by
  have hcleared : (memo.clearDue c).WellLinked := h.modifyCluster ..
  cases outer with
  | some id => exact hcleared.of_eq rfl rfl
  | none =>
    apply WellLinked.forget
    exact hcleared.of_eq rfl rfl

end WellLinked

/-- The application on top of the path has a record. -/
theorem Linked.top_lt {applications : Array Application} {id : Nat} {path : List Nat}
    (h : Linked applications (some id) path) : id < applications.size := by
  cases h with
  | above record below earlier => exact (Array.getElem?_eq_some_iff.1 record).1

/-- What the memo says about applications is so, if these are the ones that have not returned. -/
structure Accurate (calls : Calls) (memo : Memo) : Prop extends WellLinked memo where
  /-- An entry about an application names a record that was made for that rule at that offset. -/
  named : ∀ rule start id stop, memo.find? rule start = some ⟨.inProgress id, stop⟩ →
    ∃ a, memo.application? id = some a ∧ a.rule = rule ∧ a.start = start
  /-- What is on top of the call path has a record. -/
  top : ∀ id, memo.top = some id → ∃ a, memo.application? id = some a
  /-- Every cluster that is registered at an offset was found. -/
  growing : ∀ start c : Nat, memo.growing[start]? = some c → c < memo.clusters.size
  /-- The records that are met on the way down from the top are those of the applications on the call path. -/
  walk : memo.callPath = calls.path.map (·.id)
  /-- The application that an entry is about is active just if it is on the call path. It is none of those whose
  matches are being grown, so if it is not on the call path, it has returned. -/
  active : ∀ rule start id stop, memo.find? rule start = some ⟨.inProgress id, stop⟩ →
    (memo.isActive id = true ↔ ⟨id, rule, start⟩ ∈ calls.path) ∧ ⟨id, rule, start⟩ ∉ calls.grown

end Memo

section Accounting

variable {rules : Nat} {text : Text} {u : Underway} {memo : Memo} {calls : Calls}

namespace Accounts

/-- The application on top has a record as long as the memo accounts for what is under way. -/
theorem top_lt (h : Accounts rules text u memo) {id : Nat} (htop : memo.top = some id) :
    id < memo.applications.size := by
  have hlinked := h.linked
  rw [htop] at hlinked
  exact hlinked.top_lt

/-- The application that an entry is about is active just if it waits itself, not merely one with its record. -/
theorem isActive_iff_mem (h : Accounts rules text u memo) {rule start id stop : Nat}
    (hentry : memo.find? rule start = some ⟨.inProgress id, stop⟩) :
    memo.isActive id = true ↔ ⟨id, rule, start⟩ ∈ u.path := by
  rw [h.isActive_iff]
  constructor
  · rintro ⟨w, hw, rfl⟩
    obtain ⟨a, ha, rfl, rfl⟩ := h.records _ _ _ _ hentry
    obtain ⟨a', ha', hrule, hstart⟩ := h.record hw
    rw [ha] at ha'
    cases ha'
    rw [hrule, hstart]
    exact hw
  · exact fun hmem => ⟨_, hmem, rfl⟩

/-- What accounts for all that is under way is accurate about the calls. -/
theorem accurate (h : Accounts rules text u memo) (hlinked : memo.WellLinked) (ht : u.Tells calls) :
    memo.Accurate calls where
  toWellLinked := hlinked
  named := h.records
  top id htop := ⟨_, Array.getElem?_eq_getElem (h.top_lt htop)⟩
  growing start c hc := by
    obtain ⟨g, hg, -, rfl⟩ := h.exists_growth hc
    obtain ⟨-, cluster, hcluster⟩ := h.grown g hg
    exact (Array.getElem?_eq_some_iff.1 hcluster).1
  walk := by
    rw [Memo.callPath_eq h.linked, ht.path]
  active rule start id stop hentry := by
    refine ⟨ht.path ▸ h.isActive_iff_mem hentry, fun hmem => ?_⟩
    -- what is being grown is remembered, so no entry says that it is in progress
    obtain ⟨g, hg, rfl, rfl⟩ := ht.grown _ hmem
    obtain ⟨⟨result, stop', hknown⟩, -⟩ := h.grown g hg
    rw [hknown] at hentry
    cases hentry

end Accounts

end Accounting

/-- The regime under which records stay well linked. -/
def Regime.linking (table : RuleTable) (text : Text) : Regime table text where
  lenient := (· = .spent)
  slices := False
  Holds _ memo := memo.WellLinked
  Leads _ _ _ := True
  May _ _ _ _ := True
  Matches _ _ _ _ _ _ _ := True
  Answers _ _ _ _ _ _ _ := True
  Grows _ _ _ _ _ _ _ _ := True
  refl _ _ := trivial
  trans _ _ := trivial

/-- Every match goes on under the regime of linked records. -/
theorem Regime.lawful_linking (table : RuleTable) (text : Text) : (Regime.linking table text).Lawful where
  count _ h := ⟨h.of_eq rfl rfl, trivial⟩
  may_count _ _ := trivial
  answers_count _ _ := trivial
  hit _ _ _ := trivial
  refused _ _ _ := trivial
  recurs ha _ _ _ _ := ⟨ha.fits.holds.markLeftRecursion .., trivial, trivial⟩
  redo h := h.fits.holds.modifyCluster ..
  redone _ _ _ hgoes _ := ⟨hgoes.fits.holds.of_eq rfl rfl, trivial, trivial⟩
  enter _ h := h.fits.holds.enter (fun _ => h.fits.accounts.top_lt) ..
  left h _ := ⟨h.goes.fits.holds.leave .., trivial, trivial⟩
  member h _ _ _ := ⟨h.goes.fits.holds.leaveSeeded .., trivial, trivial⟩
  failed h _ _ _ := ⟨(h.goes.fits.holds.leaveSeeded ..).failHead .., trivial, trivial⟩
  grow := by
    rintro u rule start memo cause tree stop memo' c found h - - - grown rfl
    have hleft := h.goes.fits.holds.leaveSeeded memo.applications.size rule start (.ok tree) stop
    exact ⟨hleft.of_eq rfl Array.size_modify, trivial⟩
  grew := by
    rintro u rule start c memo best stop before tree reached after h - refilled rfl
    have hlonger : (after.longer rule start tree reached).WellLinked := h.goes.fits.holds.of_eq rfl rfl
    exact ⟨hlonger.modifyCluster .., trivial, trivial⟩
  settled h _ := ⟨h.goes.fits.holds.endGrowth .., trivial, trivial⟩

open Classical in
/-- Breaks the match off unless the memo is accurate about the calls. -/
noncomputable def Matcher.audit (calls : Calls) : Matcher Unit := do
  if (← memo).Accurate calls then return () else stop .misplaced

/-- The watch that breaks a match off as soon as the memo is not accurate about the calls, where an expression is
about to be applied or where it has come to something. -/
noncomputable def auditWatch (calls : Calls) : Watch := fun _ step => do
  audit calls
  let outcome ← attempt (guarded step)
  audit calls
  ofResult outcome

/-- The audit cuts a match short at most: where it never finds fault, the match is what it is
without. -/
theorem Matcher.cuts_auditWatch (calls : Calls) (atom : Atom) {step step' : Matcher Raw}
    (h : Cuts .misplaced step step') : Cuts .misplaced (auditWatch calls atom step) (guarded step') :=
  cuts_insistingWatch (·.Accurate calls) atom h

/-- Under the regime no audit ever breaks a match off. -/
theorem Regime.takes_auditWatch {table : RuleTable} {text : Text} {u : Underway} {depth : Nat} {calls : Calls}
    (ht : u.Tells calls) (atom : Atom) {least : Nat} {step : Matcher Raw}
    (h : ((Regime.linking table text).course u depth).Takes least step) :
    ((Regime.linking table text).course u depth).Takes least (auditWatch calls atom step) :=
  h.insisting (fun hs => hs.memo.fits.accounts.accurate hs.memo.fits.holds ht) atom

/-- In every state that a match gets into, the memo is accurate about the applications that have not returned: for
every table of rules, every expression and every text, auditing it wherever an expression is about to be applied or
has come to something changes nothing about the match that a parse is made of. -/
theorem matchEntry_keeps_records (table : RuleTable) (bodies : List (Nat × Atom)) (hbodies : table.Knows bodies)
    (entry : Atom) (text : String) (options : Options) :
    matchTold auditWatch table bodies entry text options = matchEntry table bodies entry text options ∧
      matchEntry table bodies entry text options ≠ .stopped .misplaced := by
  exact (Regime.lawful_linking table (Text.ofString text)).matchAttended_eq (fun _ _ => ⟨id, rfl, id⟩)
    (fun _ _ _ _ => trivial) (fun _ _ _ _ _ _ _ => trivial) Regime.idles_none
    (fun _ _ _ ht atom _ _ h => Regime.takes_auditWatch ht atom h) (by rintro ⟨⟩)
    (fun calls atom _ _ => cuts_auditWatch calls atom) (fun _ => Bond.heeds_none _) hbodies Memo.WellLinked.nil
    entry options

/-- Records are kept in a match in which clusters are found inside each other. -/
theorem tangle_keeps_records :
    tangleTable.Knows [] ∧
      matchTold auditWatch tangleTable [] (tangleTable.rules.rule "outer") "yxzxx" {}
          = matchEntry tangleTable [] (tangleTable.rules.rule "outer") "yxzxx" {} ∧
        matchEntry tangleTable [] (tangleTable.rules.rule "outer") "yxzxx" {} ≠ .stopped .misplaced :=
  ⟨tangleTable.knows_nil, matchEntry_keeps_records tangleTable [] tangleTable.knows_nil
    (tangleTable.rules.rule "outer") "yxzxx" {}⟩

end Packrat
