import Packrat.Proofs.Regime

/-!
# What rules yield

If whatever the body of a rule comes to meets a condition, and so does the failure of a rule whose body was
not tried, then whatever the rule comes to through the memo meets the condition: what is remembered was come
to by the body at some time, growing hands on what one of its rounds has matched, and a rule that comes back
to itself gets the seed with which it was entered. The condition may depend on the rule, the tree or the
cause, and both offsets, but not on the memo.
-/

namespace Packrat

open Matcher Course

variable {holds : Nat → Nat → Except Cause Tree → Nat → Prop}

/-- Everything that is remembered meets the condition. -/
structure Memo.Yields (holds : Nat → Nat → Except Cause Tree → Nat → Prop) (memo : Memo) : Prop where
  entries : ∀ rule start result stop, memo.find? rule start = some ⟨.done result, stop⟩ →
    holds rule start result stop

/-- The seeds of all applications that wait meet the condition where the rules were entered. -/
structure Memo.Seeded (holds : Nat → Nat → Except Cause Tree → Nat → Prop) (u : Underway) (memo : Memo) :
    Prop where
  seeds : ∀ w ∈ u.path, ∀ a, memo.applications[w.id]? = some a → holds w.rule w.start a.seed w.start

namespace Memo

variable {memo memo' : Memo} {u : Underway}

namespace Yields

/-- Entries may be dropped. -/
theorem of_le (h : memo.Yields holds) (hle : ∀ rule start result stop,
    memo'.find? rule start = some ⟨.done result, stop⟩ →
      memo.find? rule start = some ⟨.done result, stop⟩) : memo'.Yields holds :=
  ⟨fun rule start result stop hf => h.entries rule start result stop (hle rule start result stop hf)⟩

/-- A step that leaves the entries alone. -/
theorem of_eq (h : memo.Yields holds) (he : memo'.entries = memo.entries) : memo'.Yields holds :=
  h.of_le fun rule start result stop hf => by rwa [Memo.find?, he] at hf

/-- An answer may be remembered if the result in it meets the condition. -/
theorem remember (h : memo.Yields holds) {rule start stop : Nat} {answer : Answer}
    (ha : ∀ result, answer = .done result → holds rule start result stop) :
    (memo.remember rule start answer stop).Yields holds := by
  refine ⟨fun rule' start' result stop' hf => ?_⟩
  rw [find?_remember] at hf
  split at hf
  · rename_i hspot
    obtain ⟨rfl, rfl⟩ := hspot
    cases hf
    exact ha result rfl
  · exact h.entries rule' start' result stop' hf

/-- A result that meets the condition may be remembered. -/
theorem remember_done (h : memo.Yields holds) {rule start stop : Nat} {result : Except Cause Tree}
    (hr : holds rule start result stop) : (memo.remember rule start (.done result) stop).Yields holds := by
  refine h.remember fun result' heq => ?_
  cases heq
  exact hr

/-- That a rule is in progress may be remembered, as that is no result. -/
theorem remember_inProgress (h : memo.Yields holds) (rule start id stop : Nat) :
    (memo.remember rule start (.inProgress id) stop).Yields holds :=
  h.remember fun _ heq => by cases heq

/-- Entries may be forgotten. -/
theorem forget (h : memo.Yields holds) (rules : List Nat) (start : Nat) :
    (memo.forget rules start).Yields holds := by
  refine h.of_le fun rule start' result stop hf => ?_
  rw [find?_forget] at hf
  split at hf
  · cases hf
  · exact hf

/-- A rule may be entered: so far it has no result. -/
theorem enter (h : memo.Yields holds) (rule start : Nat) (seed : Except Cause Tree) :
    (memo.enter rule start seed).Yields holds := by
  have hpushed : (memo.countMiss.push rule start seed).2.Yields holds := h.of_eq rfl
  exact hpushed.remember_inProgress ..

/-- A rule may be left with a result that meets the condition. -/
theorem leave (h : memo.Yields holds) (id : Nat) {rule start stop : Nat} {result : Except Cause Tree}
    (hr : holds rule start result stop) : (memo.leave id rule start result stop).Yields holds := by
  have hreleased : ((memo.pop id).release id).Yields holds :=
    h.of_le fun rule start result stop hf => by rwa [find?_release] at hf
  exact hreleased.remember_done hr

/-- A rule may be left with its seed and in progress. -/
theorem leaveSeeded (h : memo.Yields holds) (id rule start : Nat) (seed : Except Cause Tree)
    (stop : Nat) : (memo.leaveSeeded id rule start seed stop).Yields holds := by
  have hpopped : ((memo.pop id).modifyApplication id fun a => { a with seed }).Yields holds := h.of_eq rfl
  exact hpopped.remember_inProgress ..

/-- The head of a cluster may be left with a tree that meets the condition. -/
theorem leaveHead (h : memo.Yields holds) (id : Nat) {rule start stop : Nat} {tree : Tree}
    (ht : holds rule start (.ok tree) stop) : (memo.leaveHead id rule start tree stop).Yields holds :=
  (h.leaveSeeded id rule start (.ok tree) stop).remember_done ht

/-- The head of a cluster may be left with a failure that meets the condition. -/
theorem failHead (h : memo.Yields holds) {rule start stop : Nat} (c : Nat) (involved : List Nat)
    {cause : Cause} (hc : holds rule start (.error cause) stop) :
    (memo.failHead rule start stop c involved cause).Yields holds := by
  have hfailed : (memo.remember rule start (.done (.error cause)) stop).Yields holds := h.remember_done hc
  unfold Memo.failHead
  dsimp only
  split
  · exact hfailed.of_eq rfl
  · apply Yields.forget
    exact hfailed.of_eq rfl

/-- Growing may end: it only drops entries. -/
theorem endGrowth (h : memo.Yields holds) (start c : Nat) (outer : Option Nat) :
    (memo.endGrowth start c outer).Yields holds := by
  cases outer with
  | some id => exact h.of_eq rfl
  | none =>
    apply Yields.forget
    exact h.of_eq rfl

end Yields

namespace Seeded

/-- The records of the applications that wait may be changed as long as their seeds stay. -/
theorem of_seeds (h : memo.Seeded holds u) (hs : ∀ w ∈ u.path, ∀ a, memo'.applications[w.id]? = some a →
    ∃ a', memo.applications[w.id]? = some a' ∧ a'.seed = a.seed) : memo'.Seeded holds u := by
  refine ⟨fun w hw a ha => ?_⟩
  obtain ⟨a', ha', hseed⟩ := hs w hw a ha
  exact hseed ▸ h.seeds w hw a' ha'

/-- A step that leaves the records alone. -/
theorem of_eq (h : memo.Seeded holds u) {u' : Underway} (hp : u'.path = u.path)
    (ha : memo'.applications = memo.applications) : memo'.Seeded holds u' :=
  ⟨by rw [hp, ha]; exact h.seeds⟩

/-- A rule may be entered with a seed that meets the condition there. -/
theorem enter (h : memo.Seeded holds u) (hlt : ∀ w ∈ u.path, w.id < memo.applications.size)
    {rule start : Nat} {seed : Except Cause Tree} (hseed : holds rule start seed start) :
    (memo.enter rule start seed).Seeded holds (u.enter memo.applications.size rule start) := by
  refine ⟨fun w hw a ha => ?_⟩
  rw [applications_enter, Array.getElem?_push] at ha
  rcases List.mem_cons.1 hw with rfl | hw
  · rw [if_pos rfl] at ha
    cases ha
    exact hseed
  · have := hlt w hw
    rw [if_neg (by omega)] at ha
    exact h.seeds w hw a ha

/-- The application on top may be taken off the call path. -/
theorem pop {id rule start : Nat} (h : memo.Seeded holds (u.enter id rule start)) : memo.Seeded holds u :=
  ⟨fun w hw => h.seeds w (List.mem_cons_of_mem _ hw)⟩

/-- The innermost application may be left with a result. -/
theorem leave {id rule start : Nat} (h : memo.Seeded holds (u.enter id rule start))
    (hne : ∀ w ∈ u.path, w.id ≠ id) (result : Except Cause Tree) (stop : Nat) :
    (memo.leave id rule start result stop).Seeded holds u := by
  refine h.pop.of_seeds fun w hw a ha => ⟨a, ?_, rfl⟩
  have happ : (memo.leave id rule start result stop).applications = ((memo.pop id).release id).applications :=
    rfl
  rwa [happ, applications_release _ (hne w hw)] at ha

/-- The innermost application may be left with a seed, which then is no longer that of one that
waits. -/
theorem leaveSeeded {id rule start : Nat} (h : memo.Seeded holds (u.enter id rule start))
    (hne : ∀ w ∈ u.path, w.id ≠ id) (seed : Except Cause Tree) (stop : Nat) :
    (memo.leaveSeeded id rule start seed stop).Seeded holds u := by
  refine h.pop.of_seeds fun w hw a ha => ⟨a, ?_, rfl⟩
  have happ : (memo.leaveSeeded id rule start seed stop).applications
      = memo.applications.modify id fun a => { a with seed } := rfl
  rwa [happ, Array.getElem?_modify, if_neg (hne w hw).symm] at ha

/-- Forgetting entries changes no seed. -/
theorem forget (h : memo.Seeded holds u) (rules : List Nat) (start : Nat) :
    (memo.forget rules start).Seeded holds u := h.of_eq rfl (applications_forget ..)

/-- The failure of a head changes no seed. -/
theorem failHead (h : memo.Seeded holds u) (rule start stop c : Nat) (involved : List Nat)
    (cause : Cause) : (memo.failHead rule start stop c involved cause).Seeded holds u := by
  unfold Memo.failHead
  dsimp only
  split
  · exact h.of_eq rfl rfl
  · apply Seeded.forget
    exact h.of_eq rfl rfl

/-- The end of growing changes no seed. -/
theorem endGrowth (h : memo.Seeded holds u) (start c : Nat) (outer : Option Nat) :
    (memo.endGrowth start c outer).Seeded holds u := by
  cases outer with
  | some id => exact h.of_eq rfl rfl
  | none =>
    apply Seeded.forget
    exact h.of_eq rfl rfl

/-- Marking a left recursion gives records other clusters, but no other seeds. -/
theorem markLeftRecursion (h : memo.Seeded holds u)
    (hrecords : ∀ w ∈ u.path, ∃ a, memo.applications[w.id]? = some a) (rule id : Nat) :
    (memo.markLeftRecursion rule id).Seeded holds u := by
  refine h.of_seeds fun w hw a ha => ?_
  obtain ⟨a', ha'⟩ := hrecords w hw
  obtain ⟨cluster, hafter⟩ := (Memo.Frame.markLeftRecursion memo rule id).records w.id a' ha'
  rw [hafter] at ha
  cases ha
  exact ⟨a', ha', rfl⟩

end Seeded

end Memo

/-- The regime under which everything that a rule comes to meets the condition. -/
def Regime.yielding (table : RuleTable) (text : Text) (lenient : Stop → Prop)
    (holds : Nat → Nat → Except Cause Tree → Nat → Prop) : Regime table text where
  lenient := lenient
  slices := False
  Holds u memo := memo.Yields holds ∧ memo.Seeded holds u
  Leads _ _ _ := True
  May _ _ _ _ := True
  Matches _ rule start _ result stop _ := holds rule start result stop
  Answers _ rule start _ result stop _ := holds rule start result stop
  Grows _ rule start _ _ tree stop _ := holds rule start (.ok tree) stop
  refl _ _ := trivial
  trans _ _ := trivial

/-- A rule yields what its body yields, if the failure of a rule whose body was not tried will do. -/
theorem Regime.lawful_yielding (table : RuleTable) (text : Text) (lenient : Stop → Prop)
    (hfailed : ∀ (r : RuleBody) start, text.isBoundary start = true →
      holds r.rule start (.error (r.failed start)) start) :
    (Regime.yielding table text lenient holds).Lawful where
  count _ h := ⟨⟨h.1.of_eq rfl, h.2.of_eq rfl rfl⟩, trivial⟩
  may_count _ _ := trivial
  answers_count _ h := h
  hit ha _ hf := ha.fits.holds.1.entries _ _ _ _ hf
  refused r ha _ := hfailed r _ ha.boundary
  recurs := by
    rintro u rule start memo w a ha hw rfl rfl hrecord
    obtain ⟨hyields, hseeded⟩ := ha.fits.holds
    refine ⟨⟨hyields.of_eq (Memo.entries_markLeftRecursion ..), hseeded.markLeftRecursion
      (fun w hw => ?_) _ _⟩, trivial, hseeded.seeds w hw a hrecord⟩
    obtain ⟨a, ha', -⟩ := ha.fits.accounts.record hw
    exact ⟨a, ha'⟩
  redo h := ⟨h.fits.holds.1.of_eq rfl, Memo.Seeded.of_eq h.fits.holds.2 rfl rfl⟩
  redone _ _ _ hgoes hbody :=
    ⟨⟨hgoes.fits.holds.1.remember_done hbody, Memo.Seeded.of_eq hgoes.fits.holds.2 rfl rfl⟩, trivial,
      hbody⟩
  enter r h := ⟨h.fits.holds.1.enter .., h.fits.holds.2.enter (fun _ hw =>
    h.fits.accounts.lt_size hw) (hfailed r _ h.boundary)⟩
  left h _ := by
    have hne := fun w hw => Nat.ne_of_lt (h.goes.fits.accounts.lt_of_enter (w := w) hw)
    exact ⟨⟨h.goes.fits.holds.1.leave _ h.body, h.goes.fits.holds.2.leave hne _ _⟩, trivial, h.body⟩
  member h _ _ _ := by
    have hne := fun w hw => Nat.ne_of_lt (h.goes.fits.accounts.lt_of_enter (w := w) hw)
    exact ⟨⟨h.goes.fits.holds.1.leaveSeeded .., h.goes.fits.holds.2.leaveSeeded hne _ _⟩, trivial, h.body⟩
  failed h _ _ _ := by
    have hne := fun w hw => Nat.ne_of_lt (h.goes.fits.accounts.lt_of_enter (w := w) hw)
    exact ⟨⟨(h.goes.fits.holds.1.leaveSeeded ..).failHead _ _ h.body, (h.goes.fits.holds.2.leaveSeeded hne _ _
      ).failHead ..⟩, trivial, h.body⟩
  grow := by
    intro u rule start memo cause tree stop memo' c found h _ _ _ grown hgrown
    obtain ⟨hyields, hseeded⟩ := h.goes.fits.holds
    have hne := fun w hw => Nat.ne_of_lt (h.goes.fits.accounts.lt_of_enter (w := w) hw)
    have hleft : (memo'.leaveHead memo.applications.size rule start tree stop).Seeded holds u :=
      Memo.Seeded.of_eq (hseeded.leaveSeeded hne (.ok tree) stop) rfl rfl
    subst hgrown
    exact ⟨⟨(hyields.leaveHead _ h.body).of_eq rfl, hleft.of_eq rfl rfl⟩, h.body⟩
  grew h _ refilled heq := by
    subst heq
    obtain ⟨hyields, hseeded⟩ := h.goes.fits.holds
    refine ⟨⟨Memo.Yields.of_eq (Memo.Yields.remember_done (Memo.Yields.of_eq hyields rfl) h.body) rfl,
      hseeded.of_eq rfl rfl⟩, trivial, h.body⟩
  settled := by
    intro u rule start c memo best stop before result reached after h _
    obtain ⟨hyields, hseeded⟩ := h.goes.fits.holds
    have hafter : after.Seeded holds u := hseeded.of_eq rfl rfl
    exact ⟨⟨hyields.endGrowth .., hafter.endGrowth ..⟩, trivial, h.grows⟩

end Packrat
