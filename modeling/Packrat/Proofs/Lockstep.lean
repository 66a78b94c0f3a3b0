import Packrat.Proofs.Abreast
import Packrat.Proofs.Accounts

/-!
# Rules applied abreast

What has to be shown for two rules to be applied abreast, each through its own memo: that their bodies
can be matched abreast, and that what is done on leaving leads on. A cluster is grown abreast if each of
its rounds either makes both matches longer or is the last one on both sides.
-/

namespace Packrat

open Matcher

variable {r₁ r₂ : RuleBody} {start₁ start₂ c₁ c₂ : Nat} {s₁ s₂ : Session}
  {post : Except Cause Tree → Session → Except Cause Tree → Session → Prop}

/-- The session after the rule was left that is not left-recursive. -/
def Session.leave (s : Session) (id rule start : Nat) (result : Except Cause Tree) : Session :=
  { s with memo := s.memo.leave id rule start result s.source.pos }

/-- The session after the body of a left-recursive rule was matched. -/
def Session.leaveSeeded (s : Session) (id rule start : Nat) (result : Except Cause Tree) : Session :=
  { s with memo := s.memo.leaveSeeded id rule start result s.source.pos }

/-- The session in which the body of a rule that is entered is matched. -/
def Session.enter (s : Session) (r : RuleBody) (start : Nat) : Session :=
  { s with memo := s.memo.enter r.rule start (.error (r.failed start)) }

/-- The session in which the body of the head of a cluster is matched in a round of growing. -/
def Session.round (s : Session) (start c : Nat) : Session :=
  { s with
    source.pos := start
    memo := s.memo.refill c }

/-- The session after a round in which the match has become longer. -/
def Session.grew (s : Session) (rule start : Nat) (tree : Tree) : Session :=
  { s with memo := s.memo.longer rule start tree s.source.pos }

namespace Matcher

/-- What two rules are left abreast for: either both belong to clusters, and what they answer leads on, or
neither does. -/
def LeftAbreast (r₁ r₂ : RuleBody) (start₁ start₂ id₁ id₂ : Nat)
    (post : Except Cause Tree → Session → Except Cause Tree → Session → Prop)
    (result₁ : Except Cause Tree) (t₁ : Session) (result₂ : Except Cause Tree) (t₂ : Session) : Prop :=
  match t₁.memo.clusterAt? id₁, t₂.memo.clusterAt? id₂ with
  | some c₁, some c₂ =>
    Abreast (answerCluster r₁ start₁ c₁ result₁) (answerCluster r₂ start₂ c₂ result₂)
      (t₁.leaveSeeded id₁ r₁.rule start₁ result₁) (t₂.leaveSeeded id₂ r₂.rule start₂ result₂) post
  | none, none =>
    post result₁ (t₁.leave id₁ r₁.rule start₁ result₁) result₂ (t₂.leave id₂ r₂.rule start₂ result₂)
  | _, _ => False

/-- Rules are applied abreast by matching their bodies. -/
theorem abreast_applyFresh
    (h : Abreast r₁.body r₂.body (s₁.enter r₁ start₁) (s₂.enter r₂ start₂)
      (LeftAbreast r₁ r₂ start₁ start₂ s₁.memo.applications.size s₂.memo.applications.size post)) :
    Abreast (applyFresh r₁ start₁) (applyFresh r₂ start₂) s₁ s₂ post := by
  simp only [applyFresh, remember, abreast_modifyMemo, abreast_memo]
  refine h.bind_attempt fun result₁ t₁ result₂ t₂ hleft => ?_
  have hid₁ : (s₁.memo.countMiss.push r₁.rule start₁ (.error (r₁.failed start₁))).1
      = s₁.memo.applications.size := rfl
  have hid₂ : (s₂.memo.countMiss.push r₂.rule start₂ (.error (r₂.failed start₂))).1
      = s₂.memo.applications.size := rfl
  simp only [abreast_modifyMemo, abreast_position, abreast_memo, hid₁, hid₂]
  unfold LeftAbreast at hleft
  split at hleft
  · rename_i c₁ c₂ hc₁ hc₂
    change ((t₁.memo.pop s₁.memo.applications.size).application? _).bind (·.cluster) = some c₁ at hc₁
    change ((t₂.memo.pop s₂.memo.applications.size).application? _).bind (·.cluster) = some c₂ at hc₂
    simp only [hc₁, hc₂, abreast_modifyMemo]
    exact hleft
  · rename_i hc₁ hc₂
    change ((t₁.memo.pop s₁.memo.applications.size).application? _).bind (·.cluster) = none at hc₁
    change ((t₂.memo.pop s₂.memo.applications.size).application? _).bind (·.cluster) = none at hc₂
    simp only [hc₁, hc₂, abreast_modifyMemo, abreast_ofResult]
    exact hleft
  · exact hleft.elim

/-- A rule may be entered on the second side only. -/
theorem abreast_applyFresh_second {α : Type} {step : Matcher α} {r : RuleBody} {start : Nat}
    {post : Except Cause α → Session → Except Cause Tree → Session → Prop}
    (h : Abreast step r.body s₁ (s₂.enter r start) fun result₁ t₁ result₂ t₂ =>
      match t₂.memo.clusterAt? s₂.memo.applications.size with
      | some c => Ensures unbroken (answerCluster r start c result₂)
          (t₂.leaveSeeded s₂.memo.applications.size r.rule start result₂) (post result₁ t₁)
      | none => post result₁ t₁ result₂ (t₂.leave s₂.memo.applications.size r.rule start result₂)) :
    Abreast step (applyFresh r start) s₁ s₂ post := by
  refine Ensures.imp h (fun reason hstopped => ?_) fun result₁ t₁ hends => ?_
  · have hbody : Ensures (· = reason) (applyFresh r start) s₂ fun _ _ => False := by
      rw [ensures_applyFresh]
      change Ensures _ r.body (s₂.enter r start) _
      rw [Ensures, hstopped]
    obtain ⟨_, rfl, hfresh⟩ := hbody.exists_stop
    exact hfresh
  · rw [ensures_applyFresh]
    exact hends

/-- The heads of two clusters grow their matches abreast. -/
theorem abreast_answerCluster_ok {found₁ found₂ : Cluster} {tree₁ tree₂ : Tree}
    (hfound₁ : s₁.memo.clusters[c₁]? = some found₁) (hhead₁ : found₁.head = r₁.rule)
    (hfound₂ : s₂.memo.clusters[c₂]? = some found₂) (hhead₂ : found₂.head = r₂.rule) :
    Abreast (answerCluster r₁ start₁ c₁ (.ok tree₁)) (answerCluster r₂ start₂ c₂ (.ok tree₂)) s₁ s₂ post ↔
      Abreast (grow r₁ start₁ c₁ tree₁ s₁.source.pos) (grow r₂ start₂ c₂ tree₂ s₂.source.pos)
        { s₁ with memo := s₁.memo.remember r₁.rule start₁ (.done (.ok tree₁)) s₁.source.pos }
        { s₂ with memo := s₂.memo.remember r₂.rule start₂ (.done (.ok tree₂)) s₂.source.pos } post := by
  simp only [answerCluster, remember, abreast_memo, hfound₁, hfound₂, hhead₁, hhead₂, bne_self_eq_false,
    Bool.false_eq_true, if_false, abreast_position, abreast_modifyMemo]

/-- The heads of two clusters fail abreast. -/
theorem abreast_answerCluster_failed {found₁ found₂ : Cluster} {cause₁ cause₂ : Cause}
    (hfound₁ : s₁.memo.clusters[c₁]? = some found₁) (hhead₁ : found₁.head = r₁.rule)
    (hfound₂ : s₂.memo.clusters[c₂]? = some found₂) (hhead₂ : found₂.head = r₂.rule)
    (h : ∀ trace₁ trace₂, post
      (.error cause₁) { s₁ with
        memo := s₁.memo.failHead r₁.rule start₁ s₁.source.pos c₁ found₁.involved cause₁
        trace := trace₁ }
      (.error cause₂) { s₂ with
        memo := s₂.memo.failHead r₂.rule start₂ s₂.source.pos c₂ found₂.involved cause₂
        trace := trace₂ }) :
    Abreast (answerCluster r₁ start₁ c₁ (.error cause₁)) (answerCluster r₂ start₂ c₂ (.error cause₂))
      s₁ s₂ post :=
  ensures_answerCluster_failed hfound₁ hhead₁ fun trace₁ =>
    ensures_answerCluster_failed hfound₂ hhead₂ fun trace₂ => h trace₁ trace₂

/-- Clusters are grown abreast, given what holds before each round, if from there the bodies are matched
abreast, and either both matches have become longer and the same holds before the next round, or neither
has and growing is over on both sides. -/
theorem abreast_growFrom (before : Tree → Nat → Session → Tree → Nat → Session → Prop)
    {post : Except Cause (Tree × Nat) → Session → Except Cause (Tree × Nat) → Session → Prop}
    (hround : ∀ best₁ stop₁ s₁ best₂ stop₂ s₂, before best₁ stop₁ s₁ best₂ stop₂ s₂ →
      s₁.source.text.isBoundary start₁ = true ∧ s₂.source.text.isBoundary start₂ = true ∧
        Abreast r₁.body r₂.body (s₁.round start₁ c₁) (s₂.round start₂ c₂) fun result₁ t₁ result₂ t₂ =>
          (∃ tree₁ tree₂, result₁ = .ok tree₁ ∧ result₂ = .ok tree₂ ∧ stop₁ < t₁.source.pos ∧
            stop₂ < t₂.source.pos ∧ ∀ trace₁ trace₂, before tree₁ t₁.source.pos
              { t₁.grew r₁.rule start₁ tree₁ with trace := trace₁ } tree₂ t₂.source.pos
              { t₂.grew r₂.rule start₂ tree₂ with trace := trace₂ }) ∨
          (∀ tree, result₁ = .ok tree → t₁.source.pos ≤ stop₁) ∧
            (∀ tree, result₂ = .ok tree → t₂.source.pos ≤ stop₂) ∧
              post (.ok (best₁, stop₁)) t₁ (.ok (best₂, stop₂)) t₂)
    (bound : Nat) {best₁ best₂ : Tree} {stop₁ stop₂ : Nat}
    (hbefore : before best₁ stop₁ s₁ best₂ stop₂ s₂) :
    Abreast (growFrom r₁ start₁ c₁ bound best₁ stop₁) (growFrom r₂ start₂ c₂ bound best₂ stop₂) s₁ s₂
      post := by
  induction bound generalizing s₁ s₂ best₁ best₂ stop₁ stop₂ with
  | zero => exact abreast_stop _
  | succ bound ih =>
    obtain ⟨hb₁, hb₂, hbody⟩ := hround _ _ _ _ _ _ hbefore
    simp only [growFrom, abreast_moveTo hb₁ hb₂, abreast_modifyMemo]
    refine hbody.bind_attempt fun result₁ t₁ result₂ t₂ hends => ?_
    simp only [abreast_position]
    rcases hends with ⟨tree₁, tree₂, rfl, rfl, hlt₁, hlt₂, hnext⟩ | ⟨hle₁, hle₂, hpost⟩
    · simp only [if_pos hlt₁, if_pos hlt₂, remember, abreast_modifyMemo, abreast_emit]
      exact ih (hnext _ _)
    · cases result₁ with
      | error cause₁ =>
        cases result₂ with
        | error cause₂ => exact hpost
        | ok tree₂ =>
          dsimp only
          rw [if_neg (Nat.not_lt.2 (hle₂ tree₂ rfl))]
          exact hpost
      | ok tree₁ =>
        dsimp only
        rw [if_neg (Nat.not_lt.2 (hle₁ tree₁ rfl))]
        cases result₂ with
        | error cause₂ => exact hpost
        | ok tree₂ =>
          dsimp only
          rw [if_neg (Nat.not_lt.2 (hle₂ tree₂ rfl))]
          exact hpost

/-- Each side goes on after forgetting its own entries and telling of it in its own trace. -/
theorem abreast_forget {α β : Type} {post : Except Cause α → Session → Except Cause β → Session → Prop}
    (rules₁ rules₂ : List Nat) {next₁ : Unit → Matcher α} {next₂ : Unit → Matcher β}
    (h : ∀ trace₁ trace₂, Abreast (next₁ ()) (next₂ ())
      { s₁ with
        memo := s₁.memo.forget (s₁.memo.known rules₁ start₁) start₁
        trace := trace₁ }
      { s₂ with
        memo := s₂.memo.forget (s₂.memo.known rules₂ start₂) start₂
        trace := trace₂ } post) :
    Abreast (forget rules₁ start₁ >>= next₁) (forget rules₂ start₂ >>= next₂) s₁ s₂ post :=
  (abreast_matched rfl rfl).2 (h _ _)

/-- Growing where nothing is grown yet comes to the rounds of growing, on both sides. -/
theorem abreast_grow {tree₁ tree₂ : Tree} {stop₁ stop₂ : Nat} (hsource : s₂.source = s₁.source)
    (hnone₁ : s₁.memo.growing[start₁]? = none) (hnone₂ : s₂.memo.growing[start₂]? = none)
    (h : Abreast (growFrom r₁ start₁ c₁ (s₁.source.text.size + 1) tree₁ stop₁)
      (growFrom r₂ start₂ c₂ (s₁.source.text.size + 1) tree₂ stop₂)
      { s₁ with memo := { s₁.memo with growing := s₁.memo.growing.insert start₁ c₁ } }
      { s₂ with memo := { s₂.memo with growing := s₂.memo.growing.insert start₂ c₂ } }
      fun result₁ t₁ result₂ t₂ => ∃ best₁ best₂ stop₁ stop₂, result₁ = .ok (best₁, stop₁) ∧
        result₂ = .ok (best₂, stop₂) ∧ t₁.source.text.isBoundary stop₁ = true ∧
          t₂.source.text.isBoundary stop₂ = true ∧ ∀ trace₁ trace₂, post
            (.ok best₁) { t₁ with
              source.pos := stop₁
              memo := t₁.memo.endGrowth start₁ c₁ none
              trace := trace₁ }
            (.ok best₂) { t₂ with
              source.pos := stop₂
              memo := t₂.memo.endGrowth start₂ c₂ none
              trace := trace₂ }) :
    Abreast (grow r₁ start₁ c₁ tree₁ stop₁) (grow r₂ start₂ c₂ tree₂ stop₂) s₁ s₂ post := by
  have hsize : s₂.source.text.size = s₁.source.text.size := by rw [hsource]
  simp only [grow, abreast_memo, abreast_modifyMemo]
  refine abreast_source.2 ?_
  dsimp only
  rw [hsize]
  refine h.bind fun result₁ t₁ result₂ t₂ hends => ?_
  obtain ⟨best₁, best₂, stop₁, stop₂, rfl, rfl, hb₁, hb₂, hpost⟩ := hends
  simp only [hnone₁, hnone₂, abreast_memo, abreast_modifyMemo]
  refine abreast_forget _ _ fun trace₁ trace₂ => ?_
  rw [abreast_moveTo, abreast_pure]
  · exact hpost trace₁ trace₂
  · exact hb₁
  · exact hb₂

end Matcher

end Packrat
