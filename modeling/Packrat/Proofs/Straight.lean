import Mathlib
import Packrat.Proofs.Noting
import Packrat.Proofs.Termination

/-!
# Without left recursion every body is matched once

As long as no rule has come back to itself, the memo is plain: nothing is forgotten, every rule that was
entered has an entry, and an entry is unfinished only while its rule waits. So a rule that is applied again
finds its answer, or has come back to itself. At the end of such a match there is one entry for every miss,
and one for every body that was matched, so no body was matched twice at the same offset.
-/

namespace Packrat

open Matcher Course

/-- The offsets at which a character starts or the text ends. -/
def Text.boundaries (text : Text) : List Nat := (List.range (text.size + 1)).filter text.isBoundary

/-- The boundaries of a text are all listed. -/
theorem Text.mem_boundaries {text : Text} {pos : Nat} :
    pos ∈ text.boundaries ↔ text.isBoundary pos = true := by
  rw [boundaries, List.mem_filter, List.mem_range, and_iff_right_iff_imp]
  exact fun hb => Nat.lt_succ_of_le (Text.le_size_of_isBoundary hb)

namespace Memo

variable {rules : Nat} {text : Text} {u : Underway} {memo : Memo} {id rule start : Nat}

/-- A rule is known at an offset just if there is an entry. -/
theorem mem_entries {spot : Spot} : spot ∈ memo.entries ↔ (memo.find? spot.rule spot.start).isSome = true :=
  Std.TreeMap.mem_iff_isSome_getElem?

/-- The memo of a match in which no rule has come back to itself. There is no cluster and no round of growing,
entries are unfinished only for rules that wait, and there are as many entries as misses. -/
structure Plain (rules : Nat) (text : Text) (u : Underway) (memo : Memo) : Prop where
  clusters : memo.clusters = #[]
  waits : ∀ rule start id stop, memo.find? rule start = some ⟨.inProgress id, stop⟩ →
    ∃ w ∈ u.path, w.id = id ∧ w.rule = rule ∧ w.start = start
  spots : ∀ rule start found, memo.find? rule start = some found →
    rule < rules ∧ text.isBoundary start = true
  misses : memo.statistics.misses = memo.entries.size
  growthRounds : memo.statistics.growthRounds = 0

namespace Plain

/-- The memo is plain before anything was matched. -/
theorem nil (rules : Nat) (text : Text) : ({} : Memo).Plain rules text {} where
  clusters := rfl
  waits := by simp [find?]
  spots := by simp [find?]
  misses := rfl
  growthRounds := rfl

/-- No number is that of a cluster. -/
theorem not_found (h : memo.Plain rules text u) (c : Nat) (cluster : Cluster) :
    memo.clusters[c]? ≠ some cluster := by
  rw [h.clusters]
  simp

/-- A plain memo has no entry for a rule that it is open for: one that is out of date would be of a rule that
waits no longer. -/
theorem find?_of_open (h : memo.Plain rules text u) (ha : Accounts rules text u memo)
    (hopen : memo.Open rule start) : memo.find? rule start = none := by
  rw [Option.eq_none_iff_forall_ne_some]
  intro entry hentry
  obtain ⟨id, stop, rfl, hstale⟩ := hopen entry hentry
  obtain ⟨w, hw, hid, -⟩ := h.waits rule start id stop hentry
  rw [ha.isActive_iff.2 ⟨w, hw, hid⟩] at hstale
  cases hstale

/-- How often the memo was of use plays no part. -/
theorem hitAgain (h : memo.Plain rules text u) (n : Nat) : (memo.hitAgain n).Plain rules text u :=
  ⟨h.clusters, h.waits, h.spots, h.misses, h.growthRounds⟩

/-- A rule that is entered for the first time has an entry of its own. -/
theorem enter (h : memo.Plain rules text u) (hnone : memo.find? rule start = none) (hrule : rule < rules)
    (hb : text.isBoundary start = true) (seed : Except Cause Tree) :
    (memo.enter rule start seed).Plain rules text (u.enter memo.applications.size rule start) where
  clusters := h.clusters
  waits rule' start' id' stop' hentry := by
    rw [Memo.enter, find?_remember] at hentry
    split at hentry
    · rename_i hspot
      cases hentry
      exact ⟨_, List.mem_cons_self, rfl, hspot.1.symm, hspot.2.symm⟩
    · obtain ⟨w, hw, hspot⟩ := h.waits rule' start' id' stop' hentry
      exact ⟨w, List.mem_cons_of_mem _ hw, hspot⟩
  spots rule' start' found hentry := by
    rw [Memo.enter, find?_remember] at hentry
    split at hentry
    · rename_i hspot
      rw [hspot.1, hspot.2]
      exact ⟨hrule, hb⟩
    · exact h.spots rule' start' found hentry
  misses := by
    have hnew : ¬ (⟨start, rule⟩ ∈ memo.entries) := by
      rw [mem_entries, hnone]
      simp
    have hsize : (memo.enter rule start seed).entries.size = memo.entries.size + 1 := by
      refine Std.TreeMap.size_insert.trans (if_neg ?_)
      rwa [← Std.TreeMap.mem_iff_contains]
    rw [hsize, ← h.misses]
    rfl
  growthRounds := h.growthRounds

/-- A rule that is left has its entry finished. -/
theorem leave (h : memo.Plain rules text (u.enter id rule start))
    (ha : Accounts rules text (u.enter id rule start) memo) (result : Except Cause Tree) (stop : Nat) :
    (memo.leave id rule start result stop).Plain rules text u := by
  have hwaits : memo.find? rule start = some ⟨.inProgress id, start⟩ :=
    ha.waits ⟨id, rule, start⟩ List.mem_cons_self
  have hentries : (memo.leave id rule start result stop).entries
      = memo.entries.insert ⟨start, rule⟩ ⟨.done result, stop⟩ :=
    congrArg (Std.TreeMap.insert · _ _) (entries_release (memo.pop id) id)
  constructor
  case clusters => exact (clusters_release _ id).trans h.clusters
  case waits =>
    intro rule' start' id' stop' hentry
    rw [Memo.leave, find?_remember] at hentry
    split at hentry
    · cases hentry
    · rename_i hother
      rw [find?_release, find?_pop] at hentry
      obtain ⟨w, hw, hid, hspot⟩ := h.waits rule' start' id' stop' hentry
      rcases List.mem_cons.1 hw with rfl | hw
      · exact absurd ⟨hspot.1.symm, hspot.2.symm⟩ hother
      · exact ⟨w, hw, hid, hspot⟩
  case spots =>
    intro rule' start' found hentry
    rw [Memo.leave, find?_remember] at hentry
    split at hentry
    · rename_i hspot
      rw [hspot.1, hspot.2]
      exact h.spots rule start _ hwaits
    · rw [find?_release, find?_pop] at hentry
      exact h.spots rule' start' found hentry
  case misses =>
    have hknown : ⟨start, rule⟩ ∈ memo.entries := by
      rw [mem_entries, hwaits]
      rfl
    have hsize : (memo.leave id rule start result stop).entries.size = memo.entries.size := by
      rw [hentries]
      exact Std.TreeMap.size_insert.trans (if_pos (Std.TreeMap.mem_iff_contains.1 hknown))
    rw [statistics_leave, hsize]
    exact h.misses
  case growthRounds =>
    rw [statistics_leave]
    exact h.growthRounds

/-- At the end nothing waits, so every entry is finished. -/
theorem done (h : memo.Plain rules text {}) {found : Entry} (hentry : memo.find? rule start = some found) :
    ∃ answer, found.answer = .done answer := by
  rcases found with ⟨answer | id, stop⟩
  · exact ⟨answer, rfl⟩
  · obtain ⟨w, hw, -⟩ := h.waits rule start id stop hentry
    exact absurd hw List.not_mem_nil

/-- Every miss is of another rule or at another boundary. -/
theorem misses_le (h : memo.Plain rules text u) :
    memo.statistics.misses ≤ rules * text.boundaries.length := by
  let spots := (text.boundaries ×ˢ List.range rules).map fun spot => Spot.mk spot.1 spot.2
  have hsub : memo.entries.keys ⊆ spots := by
    rintro ⟨start, rule⟩ hmem
    obtain ⟨found, hentry⟩ := Option.isSome_iff_exists.1 (mem_entries.1 (Std.TreeMap.mem_keys.1 hmem))
    obtain ⟨hrule, hb⟩ := h.spots rule start found hentry
    have hpair := List.mem_product.2 ⟨Text.mem_boundaries.2 hb, List.mem_range.2 hrule⟩
    exact List.mem_map.2 ⟨(start, rule), hpair, rfl⟩
  calc memo.statistics.misses
      = memo.entries.keys.length := by rw [h.misses, Std.TreeMap.length_keys]
    _ ≤ spots.length := (List.subperm_of_subset Std.TreeMap.nodup_keys hsub).length_le
    _ = rules * text.boundaries.length := by
      rw [List.length_map, List.length_product, List.length_range, Nat.mul_comm]

/-- What has been logged is what is known, each once. -/
theorem log_perm (h : memo.Plain rules text u) {log : List Spot} (hlogged : memo.Logged log) :
    memo.entries.keys.Perm log := by
  have hsub : memo.entries.keys ⊆ log := by
    rintro ⟨start, rule⟩ hmem
    have hknown := mem_entries.1 (Std.TreeMap.mem_keys.1 hmem)
    exact hlogged.known rule start (Option.isSome_iff_ne_none.1 hknown)
  refine (List.subperm_of_subset Std.TreeMap.nodup_keys hsub).perm_of_length_le (le_of_eq ?_)
  rw [Std.TreeMap.length_keys, hlogged.misses, h.misses]

end Plain

end Memo

/-- The regime that keeps the memo plain until a rule comes back to itself. -/
def Regime.straight (table : RuleTable) (text : Text) : Regime table text where
  lenient := anyhow
  slices := False
  Holds u memo := memo.Straight → memo.Plain table.definitions.length text u
  Leads _ _ _ := True
  May _ _ _ _ := True
  Matches _ _ _ _ _ _ _ := True
  Answers _ _ _ _ _ _ _ := True
  Grows _ _ _ _ _ _ _ _ := True
  refl _ _ := trivial
  trans _ _ := trivial

section Lawful

variable {table : RuleTable} {text : Text} {u : Underway} {memo : Memo}

/-- Where there is a cluster, a rule has come back to itself. -/
theorem Regime.Fits.astray_of_found (h : (Regime.straight table text).Fits u memo) {c : Nat} {cluster : Cluster}
    (hfound : memo.clusters[c]? = some cluster) : ¬ memo.Straight :=
  fun hs => (h.holds hs).not_found c cluster hfound

/-- Where a cluster is grown, a rule has come back to itself. -/
theorem Regime.Fits.astray_of_grown (h : (Regime.straight table text).Fits u memo) {g : Growth}
    (hg : g ∈ u.grown) : ¬ memo.Straight := by
  obtain ⟨-, cluster, hfound⟩ := h.accounts.grown g hg
  exact h.astray_of_found hfound

/-- The failure of a head is not counted. -/
theorem Memo.statistics_failHead (memo : Memo) (rule start stop c : Nat) (involved : List Nat) (cause : Cause) :
    (memo.failHead rule start stop c involved cause).statistics = memo.statistics := by
  unfold failHead
  dsimp only
  split
  · rfl
  · rw [statistics_forget]
    rfl

/-- The end of growing is not counted. -/
theorem Memo.statistics_endGrowth (memo : Memo) (start c : Nat) (outer : Option Nat) :
    (memo.endGrowth start c outer).statistics = memo.statistics := by
  cases outer with
  | some id => rfl
  | none => exact Memo.statistics_forget ..

/-- Every match goes on under the regime of plain memos, until a rule comes back to itself. -/
theorem Regime.lawful_straight (table : RuleTable) (text : Text) : (Regime.straight table text).Lawful where
  count n h := ⟨fun hs => (h hs).hitAgain n, trivial⟩
  may_count _ _ := trivial
  answers_count _ _ := trivial
  hit _ _ _ := trivial
  refused _ _ _ := trivial
  recurs := by
    intro u rule start memo w a h hw _ _ _
    have hastray : ¬ (memo.markLeftRecursion rule w.id).Straight := by
      refine Memo.not_straight_markLeftRecursion (fun hs => ?_) rule
      rw [Option.eq_none_iff_forall_ne_some]
      intro c hc
      obtain ⟨-, cluster, hfound, -⟩ := h.fits.accounts.clustered w hw c hc
      exact h.fits.astray_of_found hfound hs
    exact ⟨fun hs => absurd hs hastray, trivial, trivial⟩
  redo h := fun hs => absurd hs (h.fits.astray_of_found h.found)
  redone := by
    intro u rule start c cluster memo result stop memo' h _ _ hgoes _
    obtain ⟨g, hg, -⟩ := h.fits.accounts.exists_growth h.growing
    have hastray : ¬ memo'.Straight := hgoes.fits.astray_of_grown (u := u.redo rule start) hg
    exact ⟨fun hs => absurd hs hastray, trivial, trivial⟩
  enter r h := fun hs =>
    have hplain := h.fits.holds hs
    hplain.enter (hplain.find?_of_open h.fits.accounts h.stale) h.rule_lt h.boundary _
  left := by
    intro u rule start memo cause result stop memo' h _
    refine ⟨fun hs => ?_, trivial, trivial⟩
    rw [Memo.Straight, Memo.statistics_leave] at hs
    exact (h.goes.fits.holds hs).leave h.goes.fits.accounts result stop
  member h _ hfound _ := ⟨fun hs => absurd hs (h.goes.fits.astray_of_found hfound), trivial, trivial⟩
  failed := by
    intro u rule start memo cause cause' stop memo' c found h _ hfound _
    refine ⟨fun hs => ?_, trivial, trivial⟩
    rw [Memo.Straight, Memo.statistics_failHead] at hs
    exact absurd hs (h.goes.fits.astray_of_found hfound)
  grow := by
    intro u rule start memo cause tree stop memo' c found h _ hfound _ grown hgrown
    subst hgrown
    exact ⟨fun hs => absurd hs (h.goes.fits.astray_of_found hfound), trivial⟩
  grew := by
    intro u rule start c memo best stop before tree reached after h _ refilled hrefilled
    subst hrefilled
    exact ⟨fun hs => absurd hs (h.goes.fits.astray_of_grown List.mem_cons_self), trivial, trivial⟩
  settled := by
    intro u rule start c memo best stop before result reached after h _
    refine ⟨fun hs => ?_, trivial, trivial⟩
    rw [Memo.Straight, Memo.statistics_endGrowth] at hs
    exact absurd hs (h.goes.fits.astray_of_grown List.mem_cons_self)

end Lawful

/-- Without left recursion the memo is plain at the end of a match, with nothing under way. -/
theorem plain_of_ends {table : RuleTable} {bodies : List (Nat × Atom)} (hbodies : table.Knows bodies)
    {entry : Atom} {text : String} {options : Options} {result : Except Cause Raw} {s : Session}
    (hends : matchEntry table bodies entry text options = ofResult result s) (hstraight : s.memo.Straight) :
    s.memo.Plain table.definitions.length (Text.ofString text) {} := by
  let K := Regime.straight table (Text.ofString text)
  have hstart : (K.course {} (table.depthBound text.utf8ByteSize)).Start (Session.start text options bodies) :=
    Regime.start_of_knows K hbodies options fun _ => .nil _ _
  have hrules := (Regime.lawful_straight table (Text.ofString text)).ends_applyRule
    (fun _ _ => ⟨id, trivial, id⟩) (fun _ _ _ _ => trivial) fun _ _ _ _ _ _ _ => trivial
  have hmatch := ends_matcher (C := K.course {} _) ⟨id, trivial, id⟩ (hrules {} _) entry _ hstart
  have hended := hmatch.of_ends hends
  exact (hended.passes.memo hstart.memo.fits).fits.holds hstraight

/-- Without left recursion no body is matched twice at the same offset. For every table of rules, every text
and all options, if a match ends without a rule having come back to itself, then matching with notes comes to
the same, and the notes it leaves are one for each of the spots that the memo has an entry for. There are as
many misses as entries, all of which are finished, no match has grown, and there are at most as many misses as
rules times boundaries of the text. -/
theorem bodies_matched_once (table : RuleTable) (bodies : List (Nat × Atom)) (hbodies : table.Knows bodies)
    (entry : Atom) (text : String) (options : Options) (result : Except Cause Raw) (s : Session)
    (hends : matchEntry table bodies entry text options = ofResult result s)
    (hstraight : s.memo.statistics.leftRecursions = 0) :
    (s.memo.entries.keys.Nodup ∧ ∀ note, ∃ trace,
        matchNoting note table bodies entry text options = ofResult result { s with trace } ∧
          trace.Perm (s.memo.entries.keys.map note ++ s.trace)) ∧
      s.memo.statistics.misses = s.memo.entries.size ∧ s.memo.statistics.growthRounds = 0 ∧
        (∀ rule start found, s.memo.find? rule start = some found →
          ∃ answer, found.answer = .done answer) ∧
          s.memo.statistics.misses ≤ table.definitions.length * (Text.ofString text).boundaries.length := by
  have hplain := plain_of_ends hbodies hends hstraight
  refine ⟨⟨Std.TreeMap.nodup_keys, fun note => ?_⟩, hplain.misses, hplain.growthRounds,
    fun rule start found => hplain.done, hplain.misses_le⟩
  obtain ⟨trace, log, hnoting, htrace, hlogged⟩ := matchNoting_of_ends note hends
  have hnotes := (hplain.log_perm (hlogged hstraight)).map note
  exact ⟨trace, hnoting, htrace.trans (hnotes.symm.append_right s.trace)⟩

/-- Words of which the longer one refers to the shorter one. -/
def wordTable : RuleTable :=
  ⟨1, [⟨"word", fun rules => .sequence [rules.rule "letter", .literal "ö"]⟩,
    ⟨"letter", fun _ => .literal "a"⟩]⟩

/-- A word that is tried again for the second branch, and the letter at its start for the third. -/
def wordEntry : Atom :=
  .choice [.sequence [wordTable.rules.rule "word", .literal "?"],
    .sequence [wordTable.rules.rule "word", .literal "!"], wordTable.rules.rule "letter"]

/-- Neither the word nor its letter is matched again when the second and the third branch come to it. -/
theorem words_matched_once : wordTable.Knows [] ∧
    ∃ raw s, matchEntry wordTable [] wordEntry "aö." {} = .matched raw s ∧
      s.memo.statistics = ⟨2, 2, 0, 0⟩ ∧ s.memo.entries.keys = [⟨0, 0⟩, ⟨0, 1⟩] ∧
        ∀ note, ∃ trace, matchNoting note wordTable [] wordEntry "aö." {} = .matched raw { s with trace } ∧
          trace.Perm (s.memo.entries.keys.map note ++ s.trace) := by
  obtain ⟨raw, s, hmatched, hcounts, hkeys⟩ : ∃ raw s,
      matchEntry wordTable [] wordEntry "aö." {} = .matched raw s ∧
        s.memo.statistics = ⟨2, 2, 0, 0⟩ ∧ s.memo.entries.keys = [⟨0, 0⟩, ⟨0, 1⟩] :=
    ⟨_, _, by cbv, by cbv, by cbv⟩
  have hstraight : s.memo.statistics.leftRecursions = 0 := by rw [hcounts]
  have honce := bodies_matched_once wordTable [] wordTable.knows_nil wordEntry "aö." {} (.ok raw) s hmatched
    hstraight
  exact ⟨wordTable.knows_nil, raw, s, hmatched, hcounts, hkeys, honce.1.2⟩

end Packrat
