import Packrat.Proofs.Underway

/-!
# The memo accounts for what is under way

The invariant of applying rules, and what each operation on the memo does to it. A rule that waits at an
offset has an entry that says so, and the head of a cluster that is grown there has one that says what it
has matched so far. The entries of other rules may be overwritten and dropped; that members of clusters
are among these is the part of the invariant that has to do with clusters.
-/

namespace Packrat

/-- The cluster that an application belongs to. -/
def Memo.clusterAt? (memo : Memo) (id : Nat) : Option Nat := (memo.application? id).bind (·.cluster)

/-- An application that is entered belongs to no cluster, and the others to what they belonged
to. -/
@[simp] theorem Memo.clusterAt?_enter (memo : Memo) (rule start : Nat) (seed : Except Cause Tree)
    (id : Nat) : (memo.enter rule start seed).clusterAt? id = memo.clusterAt? id := by
  rw [clusterAt?, application?, applications_enter, Array.getElem?_push]
  split
  · rename_i heq
    rw [clusterAt?, application?, heq, Array.getElem?_eq_none (Nat.le_refl _)]
    rfl
  · rfl

/-- Giving an application another seed leaves it in its cluster. -/
@[simp] theorem Memo.clusterAt?_seed (memo : Memo) (id : Nat) (seed : Except Cause Tree) (id' : Nat) :
    (memo.modifyApplication id fun a => { a with seed }).clusterAt? id' = memo.clusterAt? id' := by
  rw [clusterAt?, application?, modifyApplication, Array.getElem?_modify]
  split
  · rename_i heq
    rw [clusterAt?, application?, ← heq]
    cases memo.applications[id]? <;> rfl
  · rfl

/-- The rule is not about to be applied again in the round of growing at the offset. -/
def Memo.NotDue (memo : Memo) (rule start : Nat) : Prop :=
  ∀ (c : Nat) (cluster : Cluster), memo.growing[start]? = some c → memo.clusters[c]? = some cluster →
    rule ∉ cluster.pending

/-- The clusters of the applications that wait are in order. -/
structure Clusters (rules : Nat) (u : Underway) (memo : Memo) : Prop where
  /-- A cluster on the call path is not being grown yet, and its head waits on the call path. -/
  clustered : ∀ w ∈ u.path, ∀ c, memo.clusterAt? w.id = some c → (∀ g ∈ u.grown, g.cluster ≠ c) ∧
    ∃ cluster, memo.clusters[c]? = some cluster ∧ ∃ h ∈ u.path, h.id ≤ w.id ∧
      memo.clusterAt? h.id = some c ∧ h.rule = cluster.head ∧ h.start = w.start
  /-- Below its head, no application belongs to a cluster, and none of its members waits there. -/
  apart : ∀ h ∈ u.path, ∀ c cluster, memo.clusterAt? h.id = some c → memo.clusters[c]? = some cluster →
    h.rule = cluster.head → ∀ w ∈ u.path, w.id < h.id →
      memo.clusterAt? w.id ≠ some c ∧ (w.start = h.start → w.rule ∉ cluster.involved)
  /-- Members are listed in ascending order. -/
  members : ∀ (c : Nat) (cluster : Cluster), memo.clusters[c]? = some cluster →
    Ascending rules cluster.involved ∧ Ascending rules cluster.pending

/-- The memo is that of a match in which just this is under way. -/
structure Accounts (rules : Nat) (text : Text) (u : Underway) (memo : Memo) : Prop
    extends Clusters rules u memo where
  /-- The call path is the one recorded. -/
  linked : Memo.Linked memo.applications memo.top (u.path.map (·.id))
  /-- The entry of a rule that waits says so. -/
  waits : ∀ w ∈ u.path, memo.find? w.rule w.start = some ⟨.inProgress w.id, w.start⟩
  /-- Every entry leads on to a boundary. -/
  stops : ∀ rule start entry, memo.find? rule start = some entry →
    start ≤ entry.stop ∧ text.isBoundary entry.stop = true
  /-- An entry about an application belongs to the rule and the offset of its record. -/
  records : ∀ rule start id stop, memo.find? rule start = some ⟨.inProgress id, stop⟩ →
    ∃ a : Application, memo.applications[id]? = some a ∧ a.rule = rule ∧ a.start = start
  /-- What the head of a cluster that is grown has matched so far is remembered. -/
  grown : ∀ g ∈ u.grown, memo.Knows g.head g.start ∧ ∃ cluster, memo.clusters[g.cluster]? = some cluster
  /-- At every offset the latest cluster that is grown there is registered. -/
  growing : ∀ start : Nat,
    memo.growing[start]? = (u.grown.find? (·.start = start)).map (·.cluster)
  /-- No rule that waits is about to be applied again. -/
  pending : ∀ (start c : Nat) (cluster : Cluster), memo.growing[start]? = some c →
    memo.clusters[c]? = some cluster → ∀ w ∈ u.path, w.start = start → w.rule ∉ cluster.pending

namespace Clusters

variable {rules : Nat} {u : Underway} {memo memo' : Memo}

/-- Only the clusters and which of them the waiting applications belong to matter. -/
theorem congr (h : Clusters rules u memo)
    (hat : ∀ w ∈ u.path, memo'.clusterAt? w.id = memo.clusterAt? w.id)
    (hclusters : memo'.clusters = memo.clusters) : Clusters rules u memo' where
  clustered w hw c hc := by
    rw [hat w hw] at hc
    obtain ⟨hgrown, cluster, hcluster, head, hhead, hle, hc', hrest⟩ := h.clustered w hw c hc
    refine ⟨hgrown, cluster, by rw [hclusters, hcluster], head, hhead, hle, ?_, hrest⟩
    rw [hat head hhead, hc']
  apart head hhead c cluster hc hcluster heq w hw := by
    rw [hat head hhead] at hc
    rw [hclusters] at hcluster
    rw [hat w hw]
    exact h.apart head hhead c cluster hc hcluster heq w hw
  members := by
    rw [hclusters]
    exact h.members

/-- A rule that is entered belongs to no cluster. -/
theorem enter (h : Clusters rules u memo) (hid : ∀ w ∈ u.path, w.id < memo.applications.size)
    (rule start : Nat) (seed : Except Cause Tree) :
    Clusters rules (u.enter memo.applications.size rule start) (memo.enter rule start seed) where
  clustered := by
    simp only [Memo.clusterAt?_enter]
    rintro w (_ | ⟨_, hw⟩) c hc
    · simp [Memo.clusterAt?, Memo.application?] at hc
    · obtain ⟨hgrown, cluster, hcluster, head, hhead, hrest⟩ := h.clustered w hw c hc
      exact ⟨hgrown, cluster, hcluster, head, List.mem_cons_of_mem _ hhead, hrest⟩
  apart := by
    simp only [Memo.clusterAt?_enter]
    rintro head (_ | ⟨_, hhead⟩) c cluster hc hcluster heq w hw hlt
    · simp [Memo.clusterAt?, Memo.application?] at hc
    · rcases hw with _ | ⟨_, hw⟩
      · exact absurd (hid head hhead) (Nat.lt_asymm hlt)
      · exact h.apart head hhead c cluster hc hcluster heq w hw hlt
  members := h.members

/-- The application on top is the head of none but its own cluster. -/
theorem leave {id rule start : Nat} (h : Clusters rules (u.enter id rule start) memo)
    (hid : ∀ w ∈ u.path, w.id < id) : Clusters rules u memo where
  clustered w hw c hc := by
    obtain ⟨hgrown, cluster, hcluster, head, hhead, hle, hrest⟩ :=
      h.clustered w (List.mem_cons_of_mem _ hw) c hc
    rcases hhead with _ | ⟨_, hhead⟩
    · exact absurd (hid w hw) (Nat.not_lt.2 hle)
    · exact ⟨hgrown, cluster, hcluster, head, hhead, hle, hrest⟩
  apart head hhead c cluster hc hcluster heq w hw :=
    h.apart head (List.mem_cons_of_mem _ hhead) c cluster hc hcluster heq w (List.mem_cons_of_mem _ hw)
  members := h.members

end Clusters

namespace Accounts

variable {rules : Nat} {text : Text} {u : Underway} {memo memo' : Memo}

/-- An empty memo accounts for nothing under way. -/
theorem nil (rules : Nat) (text : Text) : Accounts rules text {} {} where
  clustered := by simp
  apart := by simp
  members := by simp
  linked := .bottom
  waits := by simp
  stops := by simp [Memo.find?]
  records := by simp [Memo.find?]
  grown := by simp
  growing := by simp
  pending := by simp

/-- That a member of a cluster is applied again plays no part. -/
theorem redo_iff {rule start : Nat} :
    Accounts rules text (u.redo rule start) memo ↔ Accounts rules text u memo := by
  constructor <;> intro h
  all_goals exact ⟨⟨h.clustered, h.apart, h.members⟩, h.linked, h.waits, h.stops, h.records, h.grown,
    h.growing, h.pending⟩

/-- Two applications that wait at the same spot are the same. -/
theorem id_eq (h : Accounts rules text u memo) {w w' : Waiting} (hw : w ∈ u.path) (hw' : w' ∈ u.path)
    (hrule : w.rule = w'.rule) (hstart : w.start = w'.start) : w.id = w'.id := by
  have hentry := h.waits w hw
  rw [hrule, hstart, h.waits w' hw'] at hentry
  simp only [Option.some.injEq, Entry.mk.injEq, Answer.inProgress.injEq] at hentry
  exact hentry.1.symm

/-- An application that waits has a record of its rule and its offset. -/
theorem record (h : Accounts rules text u memo) {w : Waiting} (hw : w ∈ u.path) :
    ∃ a : Application, memo.applications[w.id]? = some a ∧ a.rule = w.rule ∧ a.start = w.start :=
  h.records _ _ _ _ (h.waits w hw)

/-- An application that waits has a number below that of the next record. -/
theorem lt_size (h : Accounts rules text u memo) {w : Waiting} (hw : w ∈ u.path) :
    w.id < memo.applications.size :=
  h.linked.lt_size w.id (List.mem_map_of_mem hw)

/-- An application is active just if it waits. -/
theorem isActive_iff (h : Accounts rules text u memo) {id : Nat} :
    memo.isActive id = true ↔ ∃ w ∈ u.path, w.id = id := by
  rw [Memo.isActive, Memo.callPath_eq h.linked, List.contains_iff_mem, List.mem_map]

/-- A rule without an entry, or with a stale one, is not busy. -/
theorem not_busy (h : Accounts rules text u memo) {rule start : Nat}
    (hentry : ∀ entry, memo.find? rule start = some entry →
      ∃ id stop, entry = ⟨.inProgress id, stop⟩ ∧ memo.isActive id = false) :
    ¬ u.Busy rule start := by
  rintro (⟨w, hw, rfl, rfl⟩ | ⟨g, hg, rfl, rfl⟩)
  · obtain ⟨id, stop, heq, hactive⟩ := hentry _ (h.waits w hw)
    cases heq
    rw [h.isActive_iff.2 ⟨w, hw, rfl⟩] at hactive
    cases hactive
  · obtain ⟨⟨result, stop, hknown⟩, -⟩ := h.grown g hg
    obtain ⟨id, stop', heq, -⟩ := hentry _ hknown
    cases heq

/-- A cluster that is registered is being grown. -/
theorem exists_growth (h : Accounts rules text u memo) {start c : Nat}
    (hg : memo.growing[start]? = some c) : ∃ g ∈ u.grown, g.start = start ∧ g.cluster = c := by
  rw [h.growing] at hg
  obtain ⟨g, hfind, hc⟩ := Option.map_eq_some_iff.1 hg
  exact ⟨g, List.mem_of_find?_eq_some hfind, by simpa using List.find?_some hfind, hc⟩

/-- Where no cluster is registered, none is being grown. -/
theorem start_ne (h : Accounts rules text u memo) {start : Nat} (hg : memo.growing[start]? = none) :
    ∀ g ∈ u.grown, g.start ≠ start := by
  rw [h.growing, Option.map_eq_none_iff, List.find?_eq_none] at hg
  exact fun g hmem => by simpa using hg g hmem

section Entries

/-- The counts play no part. -/
theorem count (h : Accounts rules text u memo) (f : Statistics → Statistics) :
    Accounts rules text u (memo.count f) :=
  ⟨h.toClusters.congr (fun _ _ => rfl) rfl, h.linked, h.waits, h.stops, h.records, h.grown, h.growing,
    h.pending⟩

/-- An answer may be remembered at a spot where no rule waits. That an application is under way may be
remembered only if it has a record, and not in place of what is being grown. -/
theorem remember (h : Accounts rules text u memo) {rule start stop : Nat} {answer : Answer}
    (hspot : ∀ w ∈ u.path, ¬ (w.rule = rule ∧ w.start = start))
    (hanswer : ∀ id, answer = .inProgress id →
      (∃ a : Application, memo.applications[id]? = some a ∧ a.rule = rule ∧ a.start = start) ∧
        ∀ g ∈ u.grown, ¬ (g.head = rule ∧ g.start = start))
    (hle : start ≤ stop) (hb : text.isBoundary stop = true) :
    Accounts rules text u (memo.remember rule start answer stop) where
  toClusters := h.toClusters.congr (fun _ _ => rfl) rfl
  linked := h.linked
  waits w hw := by
    rw [Memo.find?_remember_of_ne _ _ _ (hspot w hw)]
    exact h.waits w hw
  stops rule' start' entry he := by
    rw [Memo.find?_remember] at he
    split at he
    · rename_i hspot
      cases he
      rw [hspot.2]
      exact ⟨hle, hb⟩
    · exact h.stops rule' start' entry he
  records rule' start' id stop' he := by
    rw [Memo.find?_remember] at he
    split at he
    · rename_i hspot
      cases he
      rw [hspot.1, hspot.2]
      exact (hanswer id rfl).1
    · exact h.records rule' start' id stop' he
  grown g hg := by
    obtain ⟨⟨result, stop', hknown⟩, hcluster⟩ := h.grown g hg
    refine ⟨?_, hcluster⟩
    unfold Memo.Knows
    rw [Memo.find?_remember]
    split
    · rename_i hspot
      cases answer with
      | done result => exact ⟨result, stop, rfl⟩
      | inProgress id => exact absurd hspot ((hanswer id rfl).2 g hg)
    · exact ⟨result, stop', hknown⟩
  growing := h.growing
  pending := h.pending

/-- What a rule came to may be remembered where it does not wait. -/
theorem remember_done (h : Accounts rules text u memo) {rule start stop : Nat}
    (hspot : ∀ w ∈ u.path, ¬ (w.rule = rule ∧ w.start = start)) (result : Except Cause Tree)
    (hle : start ≤ stop) (hb : text.isBoundary stop = true) :
    Accounts rules text u (memo.remember rule start (.done result) stop) :=
  h.remember hspot (by simp) hle hb

/-- Entries may be dropped at an offset where nothing is grown, unless their rules wait there. -/
theorem forget (h : Accounts rules text u memo) {dropped : List Nat} {start : Nat}
    (hspot : ∀ w ∈ u.path, w.start = start → w.rule ∉ dropped)
    (hgrown : ∀ g ∈ u.grown, g.start ≠ start) :
    Accounts rules text u (memo.forget dropped start) where
  toClusters := by
    refine h.toClusters.congr (fun w _ => ?_) (Memo.clusters_forget ..)
    rw [Memo.clusterAt?, Memo.application?, Memo.applications_forget]
    rfl
  linked := by
    rw [Memo.applications_forget, Memo.top_forget]
    exact h.linked
  waits w hw := by
    rw [Memo.find?_forget, if_neg fun hd => hspot w hw hd.2 hd.1]
    exact h.waits w hw
  stops rule start' entry he := by
    rw [Memo.find?_forget] at he
    split at he
    · cases he
    · exact h.stops rule start' entry he
  records rule start' id stop he := by
    rw [Memo.find?_forget] at he
    rw [Memo.applications_forget]
    split at he
    · cases he
    · exact h.records rule start' id stop he
  grown g hg := by
    unfold Memo.Knows
    rw [Memo.find?_forget, if_neg fun hd => hgrown g hg hd.2, Memo.clusters_forget]
    exact h.grown g hg
  growing := by
    rw [Memo.growing_forget]
    exact h.growing
  pending := by
    rw [Memo.growing_forget, Memo.clusters_forget]
    exact h.pending

end Entries

section Path

variable {id rule start : Nat}

/-- A rule may be entered where it is not busy and is not about to be applied again. -/
theorem enter (h : Accounts rules text u memo) (hfree : ¬ u.Busy rule start)
    (hdue : memo.NotDue rule start)
    (hb : text.isBoundary start = true) (seed : Except Cause Tree) :
    Accounts rules text (u.enter memo.applications.size rule start) (memo.enter rule start seed) := by
  have hspot (w : Waiting) (hw : w ∈ u.path) : ¬ (w.rule = rule ∧ w.start = start) :=
    fun heq => hfree (.inl ⟨w, hw, heq⟩)
  have hentry {rule' start' : Nat} (hne : ¬ (rule' = rule ∧ start' = start)) :
      (memo.enter rule start seed).find? rule' start' = memo.find? rule' start' :=
    Memo.find?_remember_of_ne _ _ _ hne
  constructor
  case toClusters => exact h.toClusters.enter (fun _ => h.lt_size) rule start seed
  case linked => exact Memo.Frame.linked_enter h.linked
  case waits =>
    rintro w (_ | ⟨_, hw⟩)
    · exact Memo.find?_remember_self ..
    · rw [hentry (hspot w hw)]
      exact h.waits w hw
  case stops =>
    intro rule' start' entry he
    rw [Memo.enter, Memo.find?_remember] at he
    split at he
    · rename_i heq
      cases he
      rw [heq.2]
      exact ⟨Nat.le_refl _, hb⟩
    · exact h.stops rule' start' entry he
  case records =>
    intro rule' start' id stop he
    rw [Memo.enter, Memo.find?_remember] at he
    rw [Memo.applications_enter, Array.getElem?_push]
    split at he
    · rename_i heq
      cases he
      rw [if_pos rfl, heq.1, heq.2]
      exact ⟨_, rfl, rfl, rfl⟩
    · obtain ⟨a, ha, hspot⟩ := h.records rule' start' id stop he
      rw [if_neg (Nat.ne_of_lt (Array.getElem?_eq_some_iff.1 ha).1)]
      exact ⟨a, ha, hspot⟩
  case grown =>
    intro g hg
    unfold Memo.Knows
    rw [hentry fun heq => hfree (.inr ⟨g, hg, heq⟩)]
    exact h.grown g hg
  case growing => exact h.growing
  case pending =>
    rintro start' c cluster hg hcluster w (_ | ⟨_, hw⟩) heq
    · subst heq
      exact hdue c cluster hg hcluster
    · exact h.pending start' c cluster hg hcluster w hw heq

variable (h : Accounts rules text (u.enter id rule start) memo)

include h

/-- What waits below the application entered last has a smaller number. -/
theorem lt_of_enter {w : Waiting} (hw : w ∈ u.path) : w.id < id :=
  h.linked.rest_below.2 w.id (List.mem_map_of_mem hw)

/-- No other application waits at the same spot. -/
theorem spot_ne_of_enter : ∀ w ∈ u.path, ¬ (w.rule = rule ∧ w.start = start) := by
  intro w hw heq
  have hid := h.id_eq (List.mem_cons_of_mem _ hw) List.mem_cons_self heq.1 heq.2
  exact absurd (h.lt_of_enter hw) (Nat.lt_irrefl _ <| hid ▸ ·)

/-- Nothing is grown at the spot either. -/
theorem head_ne_of_enter : ∀ g ∈ u.grown, ¬ (g.head = rule ∧ g.start = start) := by
  rintro g hg ⟨rfl, rfl⟩
  obtain ⟨⟨result, stop, hknown⟩, -⟩ := h.grown g hg
  rw [h.waits _ List.mem_cons_self] at hknown
  cases hknown

/-- The application on top may be taken off the path. -/
theorem pop : Accounts rules text u (memo.pop id) where
  toClusters := (h.toClusters.leave fun _ => h.lt_of_enter).congr (fun _ _ => rfl) rfl
  linked := by
    obtain ⟨⟨a, ha, hbelow⟩, -⟩ := h.linked.rest_below
    rw [Memo.pop, Memo.application?, ha]
    exact hbelow
  waits w hw := h.waits w (List.mem_cons_of_mem _ hw)
  stops := h.stops
  records := h.records
  grown := h.grown
  growing := h.growing
  pending start' c cluster hg hcluster w hw :=
    h.pending start' c cluster hg hcluster w (List.mem_cons_of_mem _ hw)

omit h

/-- The record of an application that does not wait may be given back if no entry is about it. -/
theorem release (h : Accounts rules text u memo) (hpath : ∀ w ∈ u.path, w.id ≠ id)
    (hentry : ∀ rule start stop, memo.find? rule start ≠ some ⟨.inProgress id, stop⟩) :
    Accounts rules text u (memo.release id) := by
  constructor
  case toClusters =>
    refine h.toClusters.congr (fun w hw => ?_) (Memo.clusters_release ..)
    rw [Memo.clusterAt?, Memo.application?, Memo.applications_release _ (hpath w hw)]
    rfl
  case linked =>
    rw [Memo.top_release]
    refine h.linked.congr fun id' hid a ha => ⟨a, ?_, rfl⟩
    obtain ⟨w, hw, rfl⟩ := List.mem_map.1 hid
    rw [Memo.applications_release _ (hpath w hw), ha]
  case records =>
    intro rule start id' stop he
    rw [Memo.find?_release] at he
    have hne : id' ≠ id := fun heq => hentry rule start stop (heq ▸ he)
    rw [Memo.applications_release _ hne]
    exact h.records rule start id' stop he
  all_goals simp only [Memo.Knows, Memo.find?_release, Memo.clusters_release, Memo.growing_release]
  case waits => exact h.waits
  case stops => exact h.stops
  case grown => exact h.grown
  case growing => exact h.growing
  case pending => exact h.pending

/-- The seed of an application plays no part. -/
theorem seed (h : Accounts rules text u memo) (seed : Except Cause Tree) :
    Accounts rules text u (memo.modifyApplication id fun a => { a with seed }) := by
  have hrecord {id' : Nat} {a : Application} (ha : memo.applications[id']? = some a) :
      ∃ seed', (memo.modifyApplication id fun a => { a with seed }).applications[id']?
        = some { a with seed := seed' } := by
    rw [Memo.modifyApplication, Array.getElem?_modify, ha]
    split
    · exact ⟨seed, rfl⟩
    · exact ⟨a.seed, rfl⟩
  constructor
  case toClusters => exact h.toClusters.congr (fun w _ => Memo.clusterAt?_seed ..) rfl
  case linked =>
    refine h.linked.congr fun id' _ a ha => ?_
    obtain ⟨seed', ha'⟩ := hrecord ha
    exact ⟨_, ha', rfl⟩
  case records =>
    intro rule start id' stop he
    obtain ⟨a, ha, hspot⟩ := h.records rule start id' stop he
    obtain ⟨seed', ha'⟩ := hrecord ha
    exact ⟨_, ha', hspot⟩
  case waits => exact h.waits
  case stops => exact h.stops
  case grown => exact h.grown
  case growing => exact h.growing
  case pending => exact h.pending

/-- A rule may be left with what it came to. -/
theorem leave (h : Accounts rules text (u.enter id rule start) memo) (result : Except Cause Tree)
    {stop : Nat} (hle : start ≤ stop) (hb : text.isBoundary stop = true) :
    Accounts rules text u (memo.leave id rule start result stop) := by
  rw [Memo.leave, Memo.release_remember]
  refine (h.pop.remember_done h.spot_ne_of_enter result hle hb).release
    (fun w hw => Nat.ne_of_lt (h.lt_of_enter hw)) fun rule' start' stop' he => ?_
  -- the only entry about the application was the one that has just been overwritten
  rw [Memo.find?_remember] at he
  split at he
  · cases he
  · rename_i hne
    obtain ⟨a, ha, hrule, hstart⟩ := h.record (w := ⟨id, rule, start⟩) List.mem_cons_self
    obtain ⟨a', ha', hrule', hstart'⟩ := h.records rule' start' id stop' he
    rw [ha] at ha'
    cases ha'
    exact hne ⟨hrule'.symm.trans hrule, hstart'.symm.trans hstart⟩

/-- A rule that belongs to a cluster may be left with its match for a seed. -/
theorem leaveSeeded (h : Accounts rules text (u.enter id rule start) memo) (result : Except Cause Tree)
    {stop : Nat} (hle : start ≤ stop) (hb : text.isBoundary stop = true) :
    Accounts rules text u (memo.leaveSeeded id rule start result stop) := by
  refine (h.pop.seed result).remember h.spot_ne_of_enter (fun id' heq => ?_) hle hb
  cases heq
  refine ⟨?_, h.head_ne_of_enter⟩
  obtain ⟨a, ha, hspot⟩ := h.record (w := ⟨id, rule, start⟩) List.mem_cons_self
  refine ⟨{ a with seed := result }, ?_, hspot⟩
  rw [Memo.modifyApplication, Array.getElem?_modify, if_pos rfl]
  exact congrArg (Option.map _) ha

/-- The head of a cluster may be left with its match remembered. -/
theorem leaveHead (h : Accounts rules text (u.enter id rule start) memo) (tree : Tree) {stop : Nat}
    (hle : start ≤ stop) (hb : text.isBoundary stop = true) :
    Accounts rules text u (memo.leaveHead id rule start tree stop) :=
  (h.leaveSeeded (.ok tree) hle hb).remember_done h.spot_ne_of_enter (.ok tree) hle hb

end Path

end Accounts

/-- Where nothing is grown, no cluster is said to be. -/
theorem Accounts.growing_eq_none {rules : Nat} {text : Text} {u : Underway} {memo : Memo}
    (h : Accounts rules text u memo) {start : Nat} (hne : ∀ g ∈ u.grown, g.start ≠ start) :
    memo.growing[start]? = none := by
  rw [h.growing, Option.map_eq_none_iff, List.find?_eq_none]
  exact fun g hg => by simpa using hne g hg

end Packrat
