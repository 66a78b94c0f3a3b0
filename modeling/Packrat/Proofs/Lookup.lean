import Packrat.Proofs.Accounts

/-!
# Looking rules up

What applying a rule through the memo comes to, by what is known about the rule at the cursor and by what
is being grown there: an answer that is remembered, the seed of a rule that came back to itself, the
failure of a rule that is refused, or the body, matched for the first time or again.
-/

namespace Packrat

/-- No entry is about the rule at the offset, and neither is it at the head nor a member of the cluster
that is being grown there. -/
def Memo.Refuses (memo : Memo) (rule start : Nat) : Prop :=
  ∃ c cluster, memo.growing? start = some (c, cluster) ∧ memo.find? rule start = none ∧
    rule ≠ cluster.head ∧ rule ∉ cluster.involved

/-- The rule has no entry at the offset, or one that says that it was being applied and is out of date. -/
def Memo.Open (memo : Memo) (rule start : Nat) : Prop :=
  ∀ entry, memo.find? rule start = some entry →
    ∃ id stop, entry = ⟨.inProgress id, stop⟩ ∧ memo.isActive id = false

namespace Matcher

variable {r : RuleBody} {s : Session} {result : Except Cause Tree} {stop : Nat}

section Steps

variable {α : Type} (s : Session)

/-- What asks for the memo goes on with it. -/
@[simp] theorem memo_bind (next : Memo → Matcher α) : (memo >>= next) s = next s.memo s := rfl

/-- What asks for the offset goes on with it. -/
@[simp] theorem position_bind (next : Nat → Matcher α) : (position >>= next) s = next s.source.pos s := rfl

/-- A step behind a change of the memo finds it changed. -/
@[simp] theorem modifyMemo_bind (f : Memo → Memo) (next : Unit → Matcher α) :
    (modifyMemo f >>= next) s = next () { s with memo := f s.memo } := rfl

/-- A step behind an event finds it in the trace. -/
@[simp] theorem emit_bind (event : Event) (next : Unit → Matcher α) :
    (emit event >>= next) s = next () { s with trace := event :: s.trace } := rfl

variable {s} in
/-- A step behind a move to a boundary finds the cursor there. -/
theorem moveTo_bind {pos : Nat} (hb : s.source.text.isBoundary pos = true) (next : Unit → Matcher α) :
    (moveTo pos >>= next) s = next () { s with source.pos := pos } :=
  bind_of_matched (by simp [moveTo, Source.setPos?, hb])

end Steps

/-- A growth that is registered has its number and its cluster. -/
theorem growing?_eq_some {memo : Memo} {start c : Nat} {cluster : Cluster} :
    memo.growing? start = some (c, cluster) ↔
      memo.growing[start]? = some c ∧ memo.clusters[c]? = some cluster := by
  unfold Memo.growing?
  rw [Option.bind_eq_some_iff]
  constructor
  · rintro ⟨c', hg, hmap⟩
    obtain ⟨cluster', hcluster, heq⟩ := Option.map_eq_some_iff.1 hmap
    cases heq
    exact ⟨hg, hcluster⟩
  · rintro ⟨hg, hcluster⟩
    exact ⟨c, hg, by rw [hcluster, Option.map_some]⟩

section Remembered

variable {start : Nat}

/-- What is known is counted as a hit, unless the rule is to be applied again. -/
theorem remembered_of_some {entry : Entry} (hentry : s.memo.find? r.rule start = some entry)
    (hdue : s.memo.NotDue r.rule start) :
    remembered r start s = .matched (some entry) { s with memo := s.memo.countHit } := by
  rw [remembered, memo_bind]
  cases hgrowing : s.memo.growing? start with
  | none =>
    simp only [hentry]
    rfl
  | some found =>
    obtain ⟨c, cluster⟩ := found
    obtain ⟨hg, hcluster⟩ := growing?_eq_some.1 hgrowing
    have hpending : cluster.pending.contains r.rule = false := by simpa using hdue c cluster hg hcluster
    simp only [hentry, hpending]
    rfl

/-- Nothing is known about a rule without an entry, unless it is refused or to be applied again. -/
theorem remembered_of_none (hentry : s.memo.find? r.rule start = none)
    (hdue : s.memo.NotDue r.rule start) (hallowed : ¬ s.memo.Refuses r.rule start) :
    remembered r start s = .matched none s := by
  rw [remembered, memo_bind]
  cases hgrowing : s.memo.growing? start with
  | none =>
    simp only [hentry]
    rfl
  | some found =>
    obtain ⟨c, cluster⟩ := found
    obtain ⟨hg, hcluster⟩ := growing?_eq_some.1 hgrowing
    have hpending : cluster.pending.contains r.rule = false := by simpa using hdue c cluster hg hcluster
    have hmember : (r.rule != cluster.head && !cluster.involved.contains r.rule) = false := by
      rw [Bool.eq_false_iff]
      intro hrefused
      simp only [Bool.and_eq_true, bne_iff_ne, ne_eq, Bool.not_eq_true', List.contains_eq_mem,
        decide_eq_false_iff_not] at hrefused
      exact hallowed ⟨c, cluster, hgrowing, hentry, hrefused⟩
    simp only [hentry, hpending, Option.isNone_none, Bool.true_and, hmember]
    rfl

/-- A rule that is refused has failed. -/
theorem remembered_of_refuses (hrefuses : s.memo.Refuses r.rule start) :
    remembered r start s = .matched (some ⟨.done (.error (r.failed start)), start⟩) s := by
  obtain ⟨c, cluster, hgrowing, hentry, hhead, hmember⟩ := hrefuses
  have hrefused : (r.rule != cluster.head && !cluster.involved.contains r.rule) = true := by
    simp [hhead, hmember]
  rw [remembered, memo_bind]
  simp only [hgrowing, hentry, Option.isNone_none, Bool.true_and, hrefused, if_true]
  rfl

/-- A member of a cluster that was not applied in this round is applied now. -/
theorem remembered_of_due {c : Nat} {cluster : Cluster} (hg : s.memo.growing[start]? = some c)
    (hcluster : s.memo.clusters[c]? = some cluster) (hdue : r.rule ∈ cluster.pending)
    (hmember : r.rule ∈ cluster.involved) :
    remembered r start s = (do
      let result ← attempt r.body
      let stop ← position
      remember r.rule start (.done result) stop
      return some (Entry.mk (.done result) stop)) { s with memo := s.memo.redo c r.rule } := by
  have hgrowing := growing?_eq_some.2 ⟨hg, hcluster⟩
  have hmember : (!cluster.involved.contains r.rule) = false := by simpa using hmember
  have hdue : cluster.pending.contains r.rule = true := by simpa using hdue
  rw [remembered, memo_bind]
  simp only [hgrowing, hmember, hdue, Bool.and_false, Bool.false_eq_true, if_false, if_true]
  rfl

end Remembered

section Memoized

/-- A remembered answer is given again. -/
theorem memoized_of_done (hentry : s.memo.find? r.rule s.source.pos = some ⟨.done result, stop⟩)
    (hdue : s.memo.NotDue r.rule s.source.pos) (hb : s.source.text.isBoundary stop = true) :
    memoized r s = ofResult result { s with source.pos := stop, memo := s.memo.countHit } := by
  rw [memoized, position_bind, bind_of_matched (remembered_of_some hentry hdue)]
  exact moveTo_bind (s := { s with memo := s.memo.countHit }) hb _

/-- A rule that is refused fails where it stands. -/
theorem memoized_of_refuses (hrefuses : s.memo.Refuses r.rule s.source.pos)
    (hb : s.source.text.isBoundary s.source.pos = true) :
    memoized r s = .failed (r.failed s.source.pos) s := by
  rw [memoized, position_bind, bind_of_matched (remembered_of_refuses hrefuses)]
  exact moveTo_bind hb _

/-- A rule about which nothing is known is applied afresh. -/
theorem memoized_of_none (hentry : s.memo.find? r.rule s.source.pos = none)
    (hdue : s.memo.NotDue r.rule s.source.pos) (hallowed : ¬ s.memo.Refuses r.rule s.source.pos) :
    memoized r s = applyFresh r s.source.pos s := by
  rw [memoized, position_bind, bind_of_matched (remembered_of_none hentry hdue hallowed)]

/-- A rule whose entry is out of date is applied afresh. -/
theorem memoized_of_stale {id : Nat}
    (hentry : s.memo.find? r.rule s.source.pos = some ⟨.inProgress id, stop⟩)
    (hdue : s.memo.NotDue r.rule s.source.pos) (hstale : s.memo.isActive id = false) :
    memoized r s = applyFresh r s.source.pos { s with memo := s.memo.countHit } := by
  have hstale : s.memo.countHit.isActive id = false := hstale
  rw [memoized, position_bind, bind_of_matched (remembered_of_some hentry hdue)]
  simp only [memo_bind, hstale, Bool.false_eq_true, if_false]

/-- A rule that has come back to itself answers with its seed, whatever its body is. -/
theorem memoized_of_active {id : Nat} {a : Application}
    (hentry : s.memo.find? r.rule s.source.pos = some ⟨.inProgress id, stop⟩)
    (hdue : s.memo.NotDue r.rule s.source.pos) (hactive : s.memo.isActive id = true)
    (hb : s.source.text.isBoundary stop = true) (ha : s.memo.applications[id]? = some a) :
    ∃ trace, ∀ body, memoized { r with body } s = ofResult a.seed
      { s with
        source.pos := stop
        memo := s.memo.countHit.markLeftRecursion r.rule id
        trace } := by
  have hactive : s.memo.countHit.isActive id = true := hactive
  obtain ⟨cluster, hafter⟩ :=
    (Memo.Frame.markLeftRecursion s.memo.countHit r.rule id).records id a ha
  refine ⟨if (s.memo.countHit.application? id).all (·.cluster.isNone) then .leftRecursion r.rule :: s.trace
    else s.trace, fun body => ?_⟩
  have hlooked : remembered { r with body } s.source.pos s
      = .matched (some ⟨.inProgress id, stop⟩) { s with memo := s.memo.countHit } :=
    remembered_of_some hentry hdue
  rw [memoized, position_bind, bind_of_matched hlooked]
  simp only [memo_bind, hactive, if_true]
  rw [moveTo_bind (s := { s with memo := s.memo.countHit }) hb]
  simp only [markLeftRecursion, memo_bind, modifyMemo_bind, bind_assoc]
  split
  · simp only [emit_bind, memo_bind, Memo.application?, hafter]
  · simp only [pure_bind, memo_bind, Memo.application?, hafter]

/-- A member of a cluster that was not applied in this round is applied again. -/
theorem memoized_of_due {c : Nat} {cluster : Cluster} (hg : s.memo.growing[s.source.pos]? = some c)
    (hcluster : s.memo.clusters[c]? = some cluster) (hdue : r.rule ∈ cluster.pending)
    (hmember : r.rule ∈ cluster.involved) :
    memoized r s = (do
      let result ← attempt r.body
      let stop ← position
      remember r.rule s.source.pos (.done result) stop
      moveTo stop
      ofResult result) { s with memo := s.memo.redo c r.rule } := by
  have hlooked := remembered_of_due hg hcluster hdue hmember
  rw [memoized, position_bind]
  rw [bind_congr hlooked]
  simp only [bind_assoc, pure_bind]

end Memoized

end Matcher

end Packrat
