import Packrat.Proofs.Sharing

/-!
# Which definitions make a grammar

Definitions make a grammar if a root is given, no two of them have the same name, and one of them has the name
of the root. Otherwise the first of these conditions that is not met is what the error is about, and a repeated
name is reported as soon as it is come across. In the grammar the place of a rule and its name determine each
other, so that references by name lead to the rule that is meant, or nowhere.
-/

namespace Packrat

namespace RuleTable

variable {table : RuleTable} {name : String}

/-- A reference by name leads to the place at which the name is found. -/
theorem resolve?_ref (table : RuleTable) (name : String) :
    table.resolve? (table.rules.ref name) = table.names.idxOf? name := by
  unfold resolve?
  rw [if_pos (show (table.rules.ref name).table = table.key from rfl)]
  change (table.names.idxOf? name).filter _ = _
  cases hindex : table.names.idxOf? name with
  | none => rfl
  | some index =>
    obtain ⟨hlt, -⟩ := List.idxOf?_eq_some_iff.1 hindex
    simpa [names] using hlt

/-- Where names differ, a reference leads to the one place that has the name. -/
theorem resolve?_ref_eq_some_iff (h : table.names.Nodup) {index : Nat} :
    table.resolve? (table.rules.ref name) = some index ↔ table.names[index]? = some name := by
  rw [resolve?_ref, List.idxOf?_eq_some_iff]
  constructor
  · rintro ⟨hlt, hname, -⟩
    rw [List.getElem?_eq_getElem hlt, hname]
  · intro hname
    obtain ⟨hlt, hget⟩ := List.getElem?_eq_some_iff.1 hname
    refine ⟨hlt, hget, fun earlier hearlier heq => Nat.ne_of_lt hearlier ?_⟩
    exact h.getElem_inj_iff.1 (heq.trans hget.symm)

/-- A reference leads nowhere just if no rule has the name. -/
theorem resolve?_ref_eq_none_iff :
    table.resolve? (table.rules.ref name) = none ↔ name ∉ table.names := by
  rw [resolve?_ref, List.idxOf?_eq_none_iff]

/-- Where names differ, one that occurs has one place. -/
theorem existsUnique_place (h : table.names.Nodup) (hname : name ∈ table.names) :
    ∃! index : Nat, table.names[index]? = some name := by
  obtain ⟨index, hindex⟩ := List.mem_iff_getElem?.1 hname
  refine ⟨index, hindex, fun other (hother : table.names[other]? = some name) => ?_⟩
  have hlt := (List.getElem?_eq_some_iff.1 hother).1
  exact (List.getElem?_inj hlt h).1 (hother.trans hindex.symm)

/-- The rules of the table have these names, one after the other, and references by name lead to the one rule of
that name, or nowhere if there is none. -/
structure Indexes (table : RuleTable) (names : List String) : Prop where
  names_eq : table.names = names
  leads : ∀ name index, table.resolve? (table.rules.ref name) = some index ↔ names[index]? = some name
  unique : ∀ name ∈ names, ∃! index : Nat, names[index]? = some name
  astray : ∀ name, table.resolve? (table.rules.ref name) = none ↔ name ∉ names

/-- Where names differ, references by name lead just where the names say. -/
theorem indexes_names (h : table.names.Nodup) : table.Indexes table.names where
  names_eq := rfl
  leads _ _ := resolve?_ref_eq_some_iff h
  unique _ hname := existsUnique_place h hname
  astray _ := resolve?_ref_eq_none_iff

end RuleTable

namespace Grammar

variable {names : List String} {name : String}

/-- The name is the first of the names that repeats an earlier one. -/
def FirstRepeat (name : String) (names : List String) : Prop :=
  ∃ earlier later, names = earlier ++ name :: later ∧ name ∈ earlier ∧ earlier.Nodup

/-- Names among which one repeats another do not all differ. -/
theorem FirstRepeat.not_nodup (h : FirstRepeat name names) : ¬ names.Nodup := by
  obtain ⟨earlier, later, rfl, hmem, -⟩ := h
  intro hnodup
  exact (List.nodup_append.1 hnodup).2.2 name hmem name List.mem_cons_self rfl

/-- There is only one first repeat. -/
theorem FirstRepeat.unique {other : String} (h : FirstRepeat name names) (h' : FirstRepeat other names) :
    name = other := by
  obtain ⟨earlier, later, rfl, hmem, hnodup⟩ := h
  obtain ⟨earlier', later', heq, hmem', hnodup'⟩ := h'
  -- a name that repeats an earlier one cannot be among the names before the first repeat
  rcases List.append_eq_append_iff.1 heq with ⟨between, hsplit, hrest⟩ | ⟨between, hsplit, hrest⟩
  all_goals rcases between with _ | ⟨first, between⟩
  · exact (List.cons.inj hrest).1
  · obtain ⟨rfl, -⟩ := List.cons.inj hrest
    exact absurd hnodup' (FirstRepeat.not_nodup ⟨earlier, between, hsplit, hmem, hnodup⟩)
  · exact (List.cons.inj hrest).1.symm
  · obtain ⟨rfl, -⟩ := List.cons.inj hrest
    exact absurd hnodup (FirstRepeat.not_nodup ⟨earlier', between, hsplit, hmem', hnodup'⟩)

/-- The search for a name that repeats an earlier one, or one that was seen before, stops at the first. -/
theorem firstRepeat?_eq_some {seen : List String} (h : firstRepeat? seen names = some name) :
    ∃ earlier later, names = earlier ++ name :: later ∧ (name ∈ earlier ∨ name ∈ seen) ∧ earlier.Nodup ∧
      ∀ other ∈ earlier, other ∉ seen := by
  induction names generalizing seen with
  | nil => cases h
  | cons first rest ih =>
    rw [firstRepeat?] at h
    split at h
    · rename_i hseen
      cases h
      exact ⟨[], rest, rfl, .inr (List.contains_iff_mem.1 hseen), List.nodup_nil, by simp⟩
    · rename_i hseen
      rw [List.contains_iff_mem] at hseen
      obtain ⟨earlier, later, rfl, hrepeats, hnodup, hnew⟩ := ih h
      refine ⟨first :: earlier, later, rfl, ?_, List.nodup_cons.2 ⟨fun hmem => ?_, hnodup⟩, ?_⟩
      · rcases hrepeats with hmem | hmem
        · exact .inl (List.mem_cons_of_mem _ hmem)
        · rcases List.mem_cons.1 hmem with rfl | hmem
          · exact .inl List.mem_cons_self
          · exact .inr hmem
      · exact hnew first hmem List.mem_cons_self
      · refine List.forall_mem_cons.2 ⟨hseen, fun other hother hmem => ?_⟩
        exact hnew other hother (List.mem_cons_of_mem _ hmem)

/-- The search for a name that repeats an earlier one finds the first such. -/
theorem firstRepeat_of_firstRepeat? (h : firstRepeat? [] names = some name) : FirstRepeat name names := by
  obtain ⟨earlier, later, hsplit, hrepeats, hearlier, -⟩ := firstRepeat?_eq_some h
  exact ⟨earlier, later, hsplit, by simpa using hrepeats, hearlier⟩

/-- Some name is the first repeat just if names do not all differ. -/
theorem exists_firstRepeat_iff : (∃ name, FirstRepeat name names) ↔ ¬ names.Nodup := by
  refine ⟨fun ⟨_, h⟩ => h.not_nodup, fun hnodup => ?_⟩
  cases h : firstRepeat? [] names with
  | none => exact absurd (nodup_of_firstRepeat? h).1 hnodup
  | some name => exact ⟨name, firstRepeat_of_firstRepeat? h⟩

/-- What can become of definitions and a root. -/
inductive Verdict (key : Nat) (definitions : List Definition) :
    Option String → Except GrammarError Grammar → Prop where
  /-- There is no root. -/
  | missing : Verdict key definitions none (.error .missingRoot)
  /-- A name repeats an earlier one. -/
  | repeated {root name : String} (hrepeat : FirstRepeat name (definitions.map (·.name))) :
    Verdict key definitions (some root) (.error (.duplicateRule name))
  /-- The root is not defined. -/
  | undefined {root : String} (hnodup : (definitions.map (·.name)).Nodup)
    (hroot : root ∉ definitions.map (·.name)) : Verdict key definitions (some root) (.error (.undefinedRoot root))
  /-- The grammar starts where the name of the root is found. -/
  | built {root : String} {index : Nat} (hnodup : (definitions.map (·.name)).Nodup)
    (hroot : (definitions.map (·.name))[index]? = some root) :
    Verdict key definitions (some root) (.ok ⟨⟨key, definitions⟩, index⟩)

/-- What comes of definitions and a root is what the verdict on them says. -/
theorem verdict_build (key : Nat) (definitions : List Definition) (root : Option String) :
    Verdict key definitions root (build key definitions root) := by
  unfold build
  cases root with
  | none => exact .missing
  | some root =>
    dsimp only
    split
    · rename_i hrepeat
      exact .repeated (firstRepeat_of_firstRepeat? hrepeat)
    · rename_i hrepeat
      have hnodup := (nodup_of_firstRepeat? hrepeat).1
      split
      · rename_i hroot
        exact .undefined hnodup (List.idxOf?_eq_none_iff.1 hroot)
      · rename_i index hindex
        obtain ⟨hlt, hroot, -⟩ := List.idxOf?_eq_some_iff.1 hindex
        exact .built hnodup (List.getElem?_eq_some_iff.2 ⟨hlt, hroot⟩)

/-- There is only one verdict. -/
theorem Verdict.unique {key : Nat} {definitions : List Definition} {root : Option String}
    {outcome outcome' : Except GrammarError Grammar} (h : Verdict key definitions root outcome)
    (h' : Verdict key definitions root outcome') : outcome = outcome' := by
  cases h with
  | missing =>
    cases h'
    rfl
  | repeated hrepeat =>
    cases h' with
    | repeated hrepeat' => rw [hrepeat.unique hrepeat']
    | undefined hnodup' | built hnodup' => exact absurd hnodup' hrepeat.not_nodup
  | undefined hnodup hroot =>
    cases h' with
    | repeated hrepeat' => exact absurd hnodup hrepeat'.not_nodup
    | undefined => rfl
    | built _ hroot' => exact absurd (List.mem_of_getElem? hroot') hroot
  | built hnodup hroot =>
    cases h' with
    | repeated hrepeat' => exact absurd hnodup hrepeat'.not_nodup
    | undefined _ hroot' => exact absurd (List.mem_of_getElem? hroot) hroot'
    | built _ hroot' =>
      have hlt := (List.getElem?_eq_some_iff.1 hroot).1
      rw [(List.getElem?_inj hlt hnodup).1 (hroot.trans hroot'.symm)]

/-- The verdict says which of the errors there is, or which grammar comes of it. -/
theorem build_eq_iff {key : Nat} {definitions : List Definition} {root : Option String}
    {outcome : Except GrammarError Grammar} :
    build key definitions root = outcome ↔ Verdict key definitions root outcome :=
  ⟨fun h => h ▸ verdict_build key definitions root, fun h => (verdict_build key definitions root).unique h⟩

/-- The root of a grammar that was built has the name that was given for it. -/
theorem rootName_built {key index : Nat} {definitions : List Definition} {root : String}
    (hroot : (definitions.map (·.name))[index]? = some root) :
    rootName ⟨⟨key, definitions⟩, index⟩ = root := by
  change ((definitions.map (·.name))[index]?).getD "" = root
  rw [hroot, Option.getD_some]

/-- Definitions make a grammar just if a root is given, their names differ and the root is among them. Else it
is reported that there is no root; or if there is one, the first name that repeats an earlier one; or if there
is none, the root. The grammar has the rules in the order in which they were defined, and references by name lead
to the one rule of that name, or nowhere if there is none. -/
theorem build_accepts_well_formed (key : Nat) (definitions : List Definition) (root : Option String) :
    (build key definitions root = .error .missingRoot ↔ root = none) ∧
      (∀ name, build key definitions root = .error (.duplicateRule name) ↔
        root ≠ none ∧ FirstRepeat name (definitions.map (·.name))) ∧
      ((∃ name, FirstRepeat name (definitions.map (·.name))) ↔ ¬ (definitions.map (·.name)).Nodup) ∧
      (∀ name, build key definitions root = .error (.undefinedRoot name) ↔
        root = some name ∧ (definitions.map (·.name)).Nodup ∧ name ∉ definitions.map (·.name)) ∧
      ∀ name, (root = some name ∧ (definitions.map (·.name)).Nodup ∧ name ∈ definitions.map (·.name)) ↔
        ∃ grammar, build key definitions root = .ok grammar ∧ grammar.table = ⟨key, definitions⟩ ∧
          grammar.rootName = name ∧ grammar.table.Indexes (definitions.map (·.name)) := by
  simp only [build_eq_iff]
  refine ⟨⟨fun h => ?_, fun h => ?_⟩, fun name => ⟨fun h => ?_, fun h => ?_⟩, exists_firstRepeat_iff,
    fun name => ⟨fun h => ?_, fun h => ?_⟩, fun name => ⟨fun h => ?_, fun h => ?_⟩⟩
  · cases h
    rfl
  · rw [h]
    exact .missing
  · cases h with
    | repeated hrepeat => exact ⟨Option.some_ne_none _, hrepeat⟩
  · obtain ⟨hroot, hrepeat⟩ := h
    obtain ⟨root, rfl⟩ := Option.ne_none_iff_exists'.1 hroot
    exact .repeated hrepeat
  · cases h with
    | undefined hnodup hroot => exact ⟨rfl, hnodup, hroot⟩
  · obtain ⟨rfl, hnodup, hroot⟩ := h
    exact .undefined hnodup hroot
  · obtain ⟨rfl, hnodup, hname⟩ := h
    obtain ⟨index, hindex⟩ := List.mem_iff_getElem?.1 hname
    exact ⟨_, .built hnodup hindex, rfl, rootName_built hindex, RuleTable.indexes_names hnodup⟩
  · obtain ⟨grammar, hverdict, -, rfl, -⟩ := h
    cases hverdict with
    | built hnodup hroot =>
      rw [rootName_built hroot]
      exact ⟨rfl, hnodup, List.mem_of_getElem? hroot⟩

/-- Of several repeats the first one is reported, also if the root is not defined. -/
example : build 1 (["a", "b", "b", "a"].map fun name => ⟨name, fun _ => .halt⟩) (some "c")
    = .error (.duplicateRule "b") := rfl

end Grammar

end Packrat
