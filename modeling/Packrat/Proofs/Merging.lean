import Mathlib.Data.List.Induction
import Mathlib.Data.List.TakeWhile
import Mathlib.Data.String.Basic
import Packrat.Proofs.Indifference
import Packrat.Proofs.Joining

/-!
# What sequences are merged to

The values of a sequence are merged one after the other, and merging is not associative: what comes of
them depends on the order in which unit, texts, maps and lists stand. It can be told from the values all
the same. Without maps and lists, the texts are joined. Without lists, the maps make up one map. As soon
as there is a list, everything behind it becomes items of it, and the maps in front of it, which have been
put together by then, become its first item.

The maps in front of the first list are also the only ones whose keys can be overwritten.
-/

namespace Packrat

namespace Tree

variable {key : String} {value : Tree} {entries : List (String × Tree)} {trees : List Tree}

/-- The keys are in ascending order, each once. -/
def Ascending (entries : List (String × Tree)) : Prop := (entries.map (·.1)).Pairwise (· < ·)

instance : Decidable (Ascending entries) := inferInstanceAs (Decidable (List.Pairwise _ _))

/-- A text has its characters, and the keys of a map are in order. -/
def IsProper : Tree → Prop
  | .str slice => slice.isIntact = true
  | .map entries => Ascending entries
  | _ => True

instance (tree : Tree) : Decidable tree.IsProper :=
  match tree with
  | .str slice => inferInstanceAs (Decidable (slice.isIntact = true))
  | .map entries => inferInstanceAs (Decidable (Ascending entries))
  | .unit | .list _ => isTrue trivial

/-- The maps among the values. -/
def mapsOf (trees : List Tree) : List (List (String × Tree)) := trees.filterMap entries?

/-- The texts among the values. -/
def textsOf (trees : List Tree) : List Slice := trees.filterMap slice?

/-- The values in front of the first list. -/
def beforeList (trees : List Tree) : List Tree := trees.takeWhile (!·.isList)

/-- The first list and the values behind it. -/
def fromList (trees : List Tree) : List Tree := trees.dropWhile (!·.isList)

/-- What a value adds to a list: a list its items, a map itself, and anything else nothing. -/
def itemsOf : Tree → List Tree
  | .list items => items
  | .map entries => [.map entries]
  | _ => []

/-- The entries are those of the maps; the last map that has a key gives the value. -/
structure IsUnion (maps : List (List (String × Tree))) (entries : List (String × Tree)) : Prop where
  ascending : Ascending entries
  lookup : ∀ key, entries.lookup key = maps.reverse.findSome? (·.lookup key)

/-- For each map, the keys in order that one of the maps in front of it has as well. -/
def repeatedKeys (maps : List (List (String × Tree))) : List String :=
  maps.zipIdx.flatMap fun (entries, place) =>
    (entries.map (·.1)).filter fun key => (maps.take place).any fun earlier => (earlier.lookup key).isSome

section Union

/-- An entry is passed over where another key is looked up. -/
theorem lookup_cons_ne {other : String} (h : other ≠ key) :
    ((key, value) :: entries).lookup other = entries.lookup other := by
  rw [List.lookup_cons, beq_false_of_ne h]

/-- The value that was inserted is found under its key, and every other key as before. -/
theorem lookup_insertEntry (key other : String) (value : Tree) (entries : List (String × Tree)) :
    (insertEntry key value entries).lookup other
      = if other = key then some value else entries.lookup other := by
  induction entries with
  | nil =>
    by_cases h : other = key
    · simp [insertEntry, h]
    · simp [insertEntry, h, lookup_cons_ne h]
  | cons entry rest ih =>
    obtain ⟨k, v⟩ := entry
    rw [insertEntry]
    cases hc : compare key k with
    | lt =>
      by_cases h : other = key
      · simp [h]
      · simp [h, lookup_cons_ne h]
    | eq =>
      obtain rfl := compare_eq_iff_eq.1 hc
      by_cases h : other = key
      · simp [h]
      · simp [h, lookup_cons_ne h]
    | gt =>
      have hne : k ≠ key := (compare_gt_iff_gt.1 hc).ne
      by_cases hk : other = k
      · simp [hk, hne]
      · simp [lookup_cons_ne hk, ih]

/-- No key comes in but the one that was inserted. -/
theorem mem_keys_insertEntry (h : key ∈ (insertEntry other value entries).map (·.1)) :
    key = other ∨ key ∈ entries.map (·.1) := by
  induction entries with
  | nil => simpa [insertEntry] using h
  | cons entry rest ih =>
    obtain ⟨k, v⟩ := entry
    rw [insertEntry] at h
    split at h
    · simpa using h
    · rw [List.map_cons, List.mem_cons] at h
      exact h.imp id (List.mem_cons_of_mem _)
    · rw [List.map_cons, List.mem_cons] at h ⊢
      rcases h with h | h
      · exact .inr (.inl h)
      · exact (ih h).imp id .inr

/-- A key is inserted at its place. -/
theorem ascending_insertEntry (h : Ascending entries) (key : String) (value : Tree) :
    Ascending (insertEntry key value entries) := by
  induction entries with
  | nil => simp [Ascending, insertEntry]
  | cons entry rest ih =>
    obtain ⟨k, v⟩ := entry
    obtain ⟨hfirst, hrest⟩ := List.pairwise_cons.1 h
    rw [insertEntry]
    cases hc : compare key k with
    | lt =>
      have hlt : key < k := compare_lt_iff_lt.1 hc
      refine List.pairwise_cons.2 ⟨fun other hother => ?_, h⟩
      rcases List.mem_cons.1 hother with rfl | hother
      · exact hlt
      · exact hlt.trans (hfirst other hother)
    | eq =>
      obtain rfl := compare_eq_iff_eq.1 hc
      exact List.pairwise_cons.2 ⟨hfirst, hrest⟩
    | gt =>
      have hlt : k < key := compare_gt_iff_gt.1 hc
      refine List.pairwise_cons.2 ⟨fun other hother => ?_, ih hrest⟩
      rcases mem_keys_insertEntry hother with rfl | hother
      · exact hlt
      · exact hfirst other hother

/-- A key in front of all others is not among them. -/
theorem lookup_eq_none_of_lt (h : ∀ other ∈ entries.map (·.1), key < other) : entries.lookup key = none := by
  rw [List.lookup_eq_none_iff]
  intro entry hentry
  have hlt := h entry.1 (List.mem_map_of_mem hentry)
  simpa using hlt.ne

/-- The later value of a key wins. -/
theorem lookup_insertEntries {more : List (String × Tree)} (h : Ascending more) :
    (insertEntries entries more).lookup key = (more.lookup key).or (entries.lookup key) := by
  induction more generalizing entries with
  | nil => rfl
  | cons entry rest ih =>
    obtain ⟨k, v⟩ := entry
    obtain ⟨hfirst, hrest⟩ := List.pairwise_cons.1 h
    have hstep : insertEntries entries ((k, v) :: rest) = insertEntries (insertEntry k v entries) rest := rfl
    rw [hstep, ih hrest, lookup_insertEntry]
    by_cases hk : key = k
    · subst hk
      simp [lookup_eq_none_of_lt hfirst]
    · simp [hk, lookup_cons_ne hk]

/-- Keys stay in order, however many entries are inserted. -/
theorem ascending_insertEntries (h : Ascending entries) (more : List (String × Tree)) :
    Ascending (insertEntries entries more) := by
  induction more generalizing entries with
  | nil => exact h
  | cons entry rest ih => exact ih (ascending_insertEntry h entry.1 entry.2)

variable {maps : List (List (String × Tree))}

/-- One map in order is the union of itself. -/
theorem isUnion_singleton (h : Ascending entries) : IsUnion [entries] entries where
  ascending := h
  lookup key := by cases hl : entries.lookup key <;> simp [hl]

/-- One more map is put over the union of the others. -/
theorem IsUnion.concat (h : IsUnion maps entries) {more : List (String × Tree)} (hmore : Ascending more) :
    IsUnion (maps ++ [more]) (insertEntries entries more) where
  ascending := ascending_insertEntries h.ascending more
  lookup key := by
    rw [lookup_insertEntries hmore, h.lookup, List.reverse_append, List.findSome?_append,
      List.reverse_singleton, List.findSome?_singleton]

/-- A union has the keys of all its maps and no others. -/
theorem IsUnion.lookup_isSome (h : IsUnion maps entries) (key : String) :
    (entries.lookup key).isSome = maps.any fun earlier => (earlier.lookup key).isSome := by
  rw [h.lookup, Bool.eq_iff_iff]
  simp [List.findSome?_isSome_iff]

/-- The keys that one more map overwrites are those that it repeats. -/
theorem repeatedKeys_concat (h : IsUnion maps entries) (more : List (String × Tree)) :
    repeatedKeys (maps ++ [more]) = repeatedKeys maps ++ sharedKeys entries more := by
  have hbefore : (maps.zipIdx.flatMap fun (m, place) => (m.map (·.1)).filter fun key =>
        ((maps ++ [more]).take place).any fun earlier => (earlier.lookup key).isSome) = repeatedKeys maps := by
    refine List.flatMap_congr fun entry hentry => ?_
    obtain ⟨m, place⟩ := entry
    obtain ⟨-, hplace, -⟩ := List.mem_zipIdx hentry
    dsimp only
    rw [List.take_append_of_le_length (by omega)]
  rw [repeatedKeys, List.zipIdx_append, List.flatMap_append, hbefore]
  simp [sharedKeys, h.lookup_isSome]

end Union

section Values

variable {tree next : Tree}

/-- The maps among values are found from front to back. -/
theorem mapsOf_concat (trees : List Tree) (next : Tree) :
    mapsOf (trees ++ [next]) = mapsOf trees ++ next.entries?.toList := by
  rw [mapsOf, List.filterMap_append]
  cases next <;> rfl

/-- The texts among values are found from front to back. -/
theorem textsOf_concat (trees : List Tree) (next : Tree) :
    textsOf (trees ++ [next]) = textsOf trees ++ next.slice?.toList := by
  rw [textsOf, List.filterMap_append]
  cases next <;> rfl

/-- Where no value is a map, there are no maps. -/
theorem mapsOf_eq_nil (h : ∀ t ∈ trees, t.isMap = false) : mapsOf trees = [] := by
  refine List.filterMap_eq_nil_iff.2 fun t ht => ?_
  have hmap := h t ht
  cases t with
  | map entries => cases hmap
  | _ => rfl

/-- As long as there is no list, every value stands in front of the first one. -/
theorem beforeList_eq (h : ∀ t ∈ trees, t.isList = false) : beforeList trees = trees :=
  List.takeWhile_eq_self_iff.2 fun t ht => by simp [h t ht]

/-- Values behind the first list do not count among those in front of it. -/
theorem beforeList_concat (h : ∃ t ∈ trees, t.isList = true) (next : Tree) :
    beforeList (trees ++ [next]) = beforeList trees := by
  obtain ⟨t, ht, hlist⟩ := h
  have hne : ¬ (trees.takeWhile (!·.isList)).length = trees.length := fun hlength => by
    have hself := (List.takeWhile_sublist fun t : Tree => !t.isList).eq_of_length hlength
    have hnot := List.takeWhile_eq_self_iff.1 hself t ht
    simp [hlist] at hnot
  rw [beforeList, List.takeWhile_append, if_neg hne]
  rfl

/-- What follows the first list ends with the last value. -/
theorem fromList_concat (h : ∃ t ∈ trees, t.isList = true) (next : Tree) :
    fromList (trees ++ [next]) = fromList trees ++ [next] := by
  obtain ⟨t, ht, hlist⟩ := h
  have hne : ¬ (trees.dropWhile (!·.isList)).isEmpty = true := fun hempty => by
    have hnot := List.dropWhile_eq_nil_iff.1 (List.isEmpty_iff.1 hempty) t ht
    simp [hlist] at hnot
  rw [fromList, List.dropWhile_append, if_neg hne]
  rfl

/-- What the maps in front of the first list come to: one item, if there are any. -/
def IsLead (maps : List (List (String × Tree))) (lead : List Tree) : Prop :=
  (maps = [] ∧ lead = []) ∨ maps ≠ [] ∧ ∃ entries, IsUnion maps entries ∧ lead = [.map entries]

/-- What values are merged to, by which kinds of values there are. -/
inductive Merged : List Tree → Tree → Prop where
  /-- There is nothing but unit. -/
  | unit {trees : List Tree} (units : ∀ t ∈ trees, t = .unit) : Merged trees .unit
  /-- There are texts, and no maps and lists. -/
  | text {trees : List Tree} {first : Slice} {rest : List Slice} {slice : Slice}
    (plain : ∀ t ∈ trees, t.isMap = false ∧ t.isList = false) (texts : textsOf trees = first :: rest)
    (intact : slice.isIntact = true) (text : slice.text = String.join ((textsOf trees).map Slice.text))
    (offset : slice.offset = first.offset) : Merged trees (.str slice)
  /-- There are maps and no lists. -/
  | map {trees : List Tree} {entries : List (String × Tree)} (lists : ∀ t ∈ trees, t.isList = false)
    (maps : mapsOf trees ≠ []) (union : IsUnion (mapsOf trees) entries) : Merged trees (.map entries)
  /-- There are lists. -/
  | list {trees lead : List Tree} (lists : ∃ t ∈ trees, t.isList = true)
    (leading : IsLead (mapsOf (beforeList trees)) lead) :
    Merged trees (.list (lead ++ (fromList trees).flatMap itemsOf))

/-- A first list takes in what the values in front of it were merged to. -/
theorem Merged.first (hlists : ∀ t ∈ trees, t.isList = false) {lead : List Tree}
    (hlead : IsLead (mapsOf trees) lead) (items : List Tree) :
    Merged (trees ++ [.list items]) (.list (lead ++ items)) := by
  have hbefore : beforeList (trees ++ [.list items]) = trees := by
    rw [beforeList, List.takeWhile_append_of_pos fun t ht => by simp [hlists t ht]]
    simp [isList]
  have hfrom : fromList (trees ++ [.list items]) = [.list items] := by
    rw [fromList, List.dropWhile_append_of_pos fun t ht => by simp [hlists t ht]]
    simp [isList]
  have hmerged : Merged (trees ++ [.list items])
      (.list (lead ++ (fromList (trees ++ [.list items])).flatMap itemsOf)) :=
    .list ⟨.list items, by simp, rfl⟩ (by rwa [hbefore])
  rwa [hfrom, List.flatMap_singleton] at hmerged

/-- Behind a first list, a value adds its items. -/
theorem Merged.further {lead : List Tree} (hlists : ∃ t ∈ trees, t.isList = true)
    (hlead : IsLead (mapsOf (beforeList trees)) lead) (next : Tree) :
    Merged (trees ++ [next]) (.list (lead ++ (fromList trees).flatMap itemsOf ++ itemsOf next)) := by
  obtain ⟨t, ht, hlist⟩ := hlists
  have hmerged : Merged (trees ++ [next])
      (.list (lead ++ (fromList (trees ++ [next])).flatMap itemsOf)) :=
    .list ⟨t, by simp [ht], hlist⟩ (by rwa [beforeList_concat ⟨t, ht, hlist⟩])
  rwa [fromList_concat ⟨t, ht, hlist⟩, List.flatMap_append, List.flatMap_singleton, ← List.append_assoc]
    at hmerged

/-- Values without a list stay so with one more that is none. -/
theorem no_list_concat (h : ∀ t ∈ trees, t.isList = false) (hnext : next.isList = false) :
    ∀ t ∈ trees ++ [next], t.isList = false :=
  List.forall_mem_append.2 ⟨h, List.forall_mem_singleton.2 hnext⟩

/-- Values without map and list stay so with one more that is neither. -/
theorem plain_concat (h : ∀ t ∈ trees, t.isMap = false ∧ t.isList = false) (hmap : next.isMap = false)
    (hlist : next.isList = false) : ∀ t ∈ trees ++ [next], t.isMap = false ∧ t.isList = false :=
  List.forall_mem_append.2 ⟨h, List.forall_mem_singleton.2 ⟨hmap, hlist⟩⟩

/-- One more value is merged to what the values in front of it were merged to. -/
theorem Merged.concat (h : Merged trees tree) (hnext : next.IsProper) :
    Merged (trees ++ [next]) (merge tree next).tree := by
  cases h with
  | unit hunits =>
    have hplain : ∀ t ∈ trees, t.isMap = false ∧ t.isList = false := fun t ht => by
      simp [hunits t ht, isMap, isList]
    have hmaps := mapsOf_eq_nil fun t ht => (hplain t ht).1
    have htexts : textsOf trees = [] := List.filterMap_eq_nil_iff.2 fun t ht => by simp [hunits t ht, slice?]
    cases next with
    | unit => exact .unit (List.forall_mem_append.2 ⟨hunits, List.forall_mem_singleton.2 rfl⟩)
    | str slice =>
      have htexts' : textsOf (trees ++ [.str slice]) = [slice] := by
        rw [textsOf_concat, htexts]
        rfl
      exact .text (plain_concat hplain rfl rfl) htexts' hnext (by simp [htexts']) rfl
    | list items => exact .first (fun t ht => (hplain t ht).2) (.inl ⟨hmaps, rfl⟩) items
    | map entries =>
      have hmaps' : mapsOf (trees ++ [.map entries]) = [entries] := by
        rw [mapsOf_concat, hmaps]
        rfl
      refine .map (no_list_concat (fun t ht => (hplain t ht).2) rfl) (by simp [hmaps']) ?_
      rw [hmaps']
      exact isUnion_singleton hnext
  | @text first rest slice hplain htexts hintact htext hoffset =>
    have hmaps := mapsOf_eq_nil fun t ht => (hplain t ht).1
    have hlists : ∀ t ∈ trees, t.isList = false := fun t ht => (hplain t ht).2
    cases next with
    | unit =>
      have htexts' : textsOf (trees ++ [.unit]) = textsOf trees := by simp [textsOf_concat, slice?]
      exact .text (plain_concat hplain rfl rfl) (htexts'.trans htexts) hintact (by rw [htexts', htext]) hoffset
    | str more =>
      have htexts' : textsOf (trees ++ [.str more]) = textsOf trees ++ [more] :=
        textsOf_concat trees (.str more)
      refine .text (plain_concat hplain rfl rfl) (htexts'.trans (congrArg (· ++ [more]) htexts))
        (Slice.isIntact_concat hintact hnext) ?_ ((Slice.offset_concat slice more).trans hoffset)
      rw [Slice.text_concat hintact hnext, htext, htexts']
      simp
    | list items => exact .first hlists (.inl ⟨hmaps, rfl⟩) items
    | map entries =>
      have hmaps' : mapsOf (trees ++ [.map entries]) = [entries] := by
        rw [mapsOf_concat, hmaps]
        rfl
      refine .map (no_list_concat hlists rfl) (by simp [hmaps']) ?_
      rw [hmaps']
      exact isUnion_singleton hnext
  | @map entries hlists hmaps hunion =>
    have hsame (h : next.entries? = none) : mapsOf (trees ++ [next]) = mapsOf trees := by
      simp [mapsOf_concat, h]
    cases next with
    | unit => exact .map (no_list_concat hlists rfl) (by rwa [hsame rfl]) (by rwa [hsame rfl])
    | str more => exact .map (no_list_concat hlists rfl) (by rwa [hsame rfl]) (by rwa [hsame rfl])
    | list items => exact .first hlists (.inr ⟨hmaps, entries, hunion, rfl⟩) items
    | map more =>
      have hmaps' : mapsOf (trees ++ [.map more]) = mapsOf trees ++ [more] := mapsOf_concat trees (.map more)
      refine .map (no_list_concat hlists rfl) (by simp [hmaps']) ?_
      rw [hmaps']
      exact hunion.concat hnext
  | @list lead hlists hlead =>
    have hfurther := Merged.further hlists hlead next
    cases next with
    | list items => exact hfurther
    | map entries => exact hfurther
    | unit | str more =>
      rw [show ∀ items : List Tree, items ++ itemsOf _ = items from List.append_nil] at hfurther
      exact hfurther

/-- A value that is no map overwrites nothing. -/
theorem overwritten_merge (hnext : next.entries? = none) : (merge tree next).overwritten = [] := by
  cases next with
  | map entries => cases hnext
  | _ => cases tree <;> rfl

/-- Neither does a value that is merged to anything but a map. -/
theorem overwritten_merge_left (htree : tree.entries? = none) : (merge tree next).overwritten = [] := by
  cases tree with
  | map entries => cases htree
  | _ => cases next <;> rfl

/-- As long as there is no list, one more map counts. -/
theorem mapsOf_beforeList_concat (h : ∀ t ∈ trees, t.isList = false) (next : Tree) :
    mapsOf (beforeList (trees ++ [next])) = mapsOf trees ++ next.entries?.toList := by
  rw [beforeList, List.takeWhile_append_of_pos fun t ht => by simp [h t ht], ← mapsOf_concat]
  cases next <;> simp [isList, mapsOf, entries?]

/-- A first map overwrites nothing. -/
theorem repeatedKeys_first (hlists : ∀ t ∈ trees, t.isList = false) (hmaps : ∀ t ∈ trees, t.isMap = false)
    (htree : tree.entries? = none) (next : Tree) : repeatedKeys (mapsOf (beforeList (trees ++ [next])))
      = repeatedKeys (mapsOf (beforeList trees)) ++ (merge tree next).overwritten := by
  rw [mapsOf_beforeList_concat hlists, beforeList_eq hlists, mapsOf_eq_nil hmaps, overwritten_merge_left htree]
  cases next.entries? <;> simp [repeatedKeys]

/-- The keys that one more value overwrites are those that it repeats as a map in front of the first list. -/
theorem Merged.overwritten (h : Merged trees tree) (next : Tree) :
    repeatedKeys (mapsOf (beforeList (trees ++ [next])))
      = repeatedKeys (mapsOf (beforeList trees)) ++ (merge tree next).overwritten := by
  cases h with
  | unit hunits =>
    exact repeatedKeys_first (fun t ht => by rw [hunits t ht]; rfl) (fun t ht => by rw [hunits t ht]; rfl)
      rfl next
  | text hplain =>
    exact repeatedKeys_first (fun t ht => (hplain t ht).2) (fun t ht => (hplain t ht).1) rfl next
  | @map entries hlists hmaps hunion =>
    rw [mapsOf_beforeList_concat hlists, beforeList_eq hlists]
    cases next with
    | map more => exact repeatedKeys_concat hunion more
    | _ =>
      rw [overwritten_merge rfl, List.append_nil]
      exact congrArg repeatedKeys (List.append_nil _)
  | list hlists => rw [beforeList_concat hlists, overwritten_merge_left rfl, List.append_nil]

/-- The last of several values is merged into what the others have come to, and its warnings
come last. -/
theorem mergeInto_concat (tree : Tree) (trees : List Tree) (next : Tree) :
    mergeInto tree (trees ++ [next])
      = ⟨(merge (mergeInto tree trees).tree next).tree,
          (mergeInto tree trees).overwritten ++ (merge (mergeInto tree trees).tree next).overwritten⟩ := by
  induction trees generalizing tree with
  | nil => simp [mergeInto]
  | cons first rest ih => simp [mergeInto, ih]

/-- The values of a sequence are merged to what their kinds say, and the keys that are overwritten are those that
are repeated by the maps in front of the first list. -/
theorem merged_mergeAll (hproper : ∀ t ∈ trees, t.IsProper) : Merged trees (mergeAll trees).tree ∧
    (mergeAll trees).overwritten = repeatedKeys (mapsOf (beforeList trees)) := by
  induction trees using List.reverseRecOn with
  | nil => exact ⟨.unit (by simp), rfl⟩
  | append_singleton trees next ih =>
    obtain ⟨hrest, hnext⟩ := List.forall_mem_append.1 hproper
    rw [List.forall_mem_singleton] at hnext
    obtain ⟨hmerged, hkeys⟩ := ih hrest
    rw [mergeAll] at hmerged hkeys
    rw [mergeAll, mergeInto_concat, hkeys]
    exact ⟨hmerged.concat hnext, (hmerged.overwritten next).symm⟩

/-- Without maps and lists, the texts are joined, if there are any. -/
theorem Merged.of_plain (h : Merged trees tree) (hplain : ∀ t ∈ trees, t.isMap = false ∧ t.isList = false) :
    ((∀ t ∈ trees, t = .unit) → tree = .unit) ∧
      (¬ (∀ t ∈ trees, t = .unit) → ∃ first slice, (textsOf trees).head? = some first ∧ tree = .str slice ∧
        slice.text = String.join ((textsOf trees).map Slice.text) ∧ slice.offset = first.offset) := by
  cases h with
  | unit hunits => exact ⟨fun _ => rfl, fun hnot => absurd hunits hnot⟩
  | @text first rest slice _ htexts _ htext hoffset =>
    refine ⟨fun hunits => ?_, fun _ => ⟨first, slice, by rw [htexts]; rfl, rfl, htext, hoffset⟩⟩
    have hnil : textsOf trees = [] := List.filterMap_eq_nil_iff.2 fun t ht => by rw [hunits t ht]; rfl
    rw [hnil] at htexts
    cases htexts
  | map _ hmaps => exact absurd (mapsOf_eq_nil fun t ht => (hplain t ht).1) hmaps
  | list hlists =>
    obtain ⟨t, ht, hlist⟩ := hlists
    rw [(hplain t ht).2] at hlist
    cases hlist

/-- Without lists, the maps make up one map. -/
theorem Merged.of_maps (h : Merged trees tree) (hlists : ∀ t ∈ trees, t.isList = false)
    (hmaps : ∃ t ∈ trees, t.isMap = true) :
    ∃ entries, tree = .map entries ∧ IsUnion (mapsOf trees) entries := by
  obtain ⟨t, ht, hmap⟩ := hmaps
  cases h with
  | unit hunits =>
    rw [hunits t ht] at hmap
    cases hmap
  | text hplain =>
    rw [(hplain t ht).1] at hmap
    cases hmap
  | map _ _ hunion => exact ⟨_, rfl, hunion⟩
  | list hlist =>
    obtain ⟨t, ht, hlist⟩ := hlist
    rw [hlists t ht] at hlist
    cases hlist

/-- With a list, the values behind it are its items, and the maps in front of it are put together. -/
theorem Merged.of_list (h : Merged trees tree) (hlist : ∃ t ∈ trees, t.isList = true) :
    ∃ lead, tree = .list (lead ++ (fromList trees).flatMap itemsOf) ∧
      IsLead (mapsOf (beforeList trees)) lead := by
  obtain ⟨t, ht, hlist⟩ := hlist
  cases h with
  | unit hunits =>
    rw [hunits t ht] at hlist
    cases hlist
  | text hplain =>
    rw [(hplain t ht).2] at hlist
    cases hlist
  | map hlists =>
    rw [hlists t ht] at hlist
    cases hlist
  | list _ hlead => exact ⟨_, rfl, hlead⟩

end Values

end Tree

/-- Parts are flattened one by one, and their warnings follow one another. -/
theorem Raw.flattenAll_eq (parts : List Raw) :
    Raw.flattenAll parts = (parts.map fun part => (part.flatten false).tree,
      parts.flatMap fun part => (part.flatten false).overwritten) := by
  induction parts with
  | nil => rfl
  | cons part rest ih => rw [flattenAll, ih, List.map_cons, List.flatMap_cons]

/-- The session with overwritten keys noted, if they are to be noted. -/
def Session.noteAll (s : Session) (keys : List String) : Session :=
  if s.warn then
    { s with
      overwritten := keys.reverse ++ s.overwritten
      trace := keys.reverse.map Event.keyOverwritten ++ s.trace }
  else s

namespace Matcher

/-- All overwritten keys are noted, in order. -/
theorem noteAllOverwritten_eq (keys : List String) (s : Session) :
    noteAllOverwritten keys s = .matched () (s.noteAll keys) := by
  induction keys generalizing s with
  | nil => simp [noteAllOverwritten, Matcher.pure, Session.noteAll]
  | cons key rest ih =>
    have hnote : (s.note key).noteAll rest = s.noteAll (key :: rest) := by
      unfold Session.note Session.noteAll
      by_cases hw : s.warn = true <;> simp [hw]
    rw [noteAllOverwritten_cons, ih, hnote]

open Packrat.Tree

/-- A sequence is flattened to what the kinds of its values say. If there are no maps and lists, it is unit where
all values are, and else the texts joined, found where the first was found. If there are maps and no lists, it
is the union of the maps. If there are lists, it is a list: first the union of the maps in front of the first
list, if there are any, and then the items of all lists and each later map, in order.

The keys noted are those of the values, and behind them, for each map in front of the first list, those that
one of the maps in front of that has as well. -/
theorem flatten_sequence_by_kinds (parts : List Raw) (named : Bool) (s : Session) (trees : List Tree)
    (htrees : trees = parts.map fun part => (part.flatten false).tree) (hproper : ∀ t ∈ trees, t.IsProper) :
    ∃ tree, flatten named (.sequence parts) s
        = .matched tree (s.noteAll ((parts.flatMap fun part => (part.flatten false).overwritten)
          ++ repeatedKeys (mapsOf (beforeList trees)))) ∧
      ((∀ t ∈ trees, t.isMap = false ∧ t.isList = false) →
        ((∀ t ∈ trees, t = .unit) → tree = .unit) ∧
        (¬ (∀ t ∈ trees, t = .unit) → ∃ first slice, (textsOf trees).head? = some first ∧ tree = .str slice ∧
          slice.text = String.join ((textsOf trees).map Slice.text) ∧ slice.offset = first.offset)) ∧
      ((∃ t ∈ trees, t.isMap = true) → (∀ t ∈ trees, t.isList = false) →
        ∃ entries, tree = .map entries ∧ IsUnion (mapsOf trees) entries) ∧
      ((∃ t ∈ trees, t.isList = true) → ∃ lead, tree = .list (lead ++ (fromList trees).flatMap itemsOf) ∧
        IsLead (mapsOf (beforeList trees)) lead) := by
  obtain ⟨hmerged, hkeys⟩ := merged_mergeAll hproper
  refine ⟨(mergeAll trees).tree, ?_, hmerged.of_plain, fun hmaps hlists => hmerged.of_maps hlists hmaps,
    hmerged.of_list⟩
  have hflat : (Raw.sequence parts).flatten named
      = ⟨(mergeAll trees).tree, (parts.flatMap fun part => (part.flatten false).overwritten)
          ++ repeatedKeys (mapsOf (beforeList trees))⟩ := by
    rw [Raw.flatten, Raw.flattenAll_eq, ← hkeys, htrees]
  change Matcher.bind (noteAllOverwritten ((Raw.sequence parts).flatten named).overwritten) _ s = _
  rw [Matcher.bind, hflat, noteAllOverwritten_eq]
  rfl

/-- A sequence in which a sequence of its own repeats a key, and then maps, a text and lists follow. -/
def mixedParts : List Raw :=
  [.sequence [.leaf (.map [("k", .unit)]), .leaf (.map [("k", .ofString "1")])], .leaf (.ofString "x"),
    .leaf (.map [("a", .ofString "2"), ("k", .ofString "3")]), .optional none, .leaf (.list [.ofString "4"]),
    .leaf (.map [("a", .ofString "5")]), .leaf (.list [])]

/-- What stands in front of the first list becomes one map, its first item; the repeated key is
noted once for the inner sequence and once for the outer one. -/
theorem mixedParts_flattened :
    (∀ t ∈ mixedParts.map fun part => (part.flatten false).tree, t.IsProper) ∧
      ∃ entries, flatten false (.sequence mixedParts) { source := .ofString "x4", reporter := .tree }
          = .matched (.list [.map entries, .ofString "4", .map [("a", .ofString "5")]])
            (Session.noteAll { source := .ofString "x4", reporter := .tree } ["k", "k"]) ∧
        IsUnion [[("k", .ofString "1")], [("a", .ofString "2"), ("k", .ofString "3")]] entries := by
  have hinner : (Tree.mergeAll [.map [("k", .unit)], .map [("k", .ofString "1")]])
      = ⟨.map [("k", .ofString "1")], ["k"]⟩ := by
    simp [mergeAll, mergeInto, merge, insertEntries, insertEntry, sharedKeys]
  have htrees : [.map [("k", .ofString "1")], .ofString "x", .map [("a", .ofString "2"), ("k", .ofString "3")],
      .unit, .list [.ofString "4"], .map [("a", .ofString "5")], .list []]
        = mixedParts.map fun part => (part.flatten false).tree := by
    simp [mixedParts, Raw.flatten, Raw.flattenAll, hinner]
  have hown : (mixedParts.flatMap fun part => (part.flatten false).overwritten) = ["k"] := by
    simp [mixedParts, Raw.flatten, Raw.flattenAll, hinner]
  have hproper : ∀ t ∈ mixedParts.map fun part => (part.flatten false).tree, t.IsProper := by
    rw [← htrees]
    decide
  refine ⟨hproper, ?_⟩
  obtain ⟨tree, hflat, -, -, hlist⟩ :=
    flatten_sequence_by_kinds mixedParts false { source := .ofString "x4", reporter := .tree } _ htrees
      (htrees ▸ hproper)
  have hrepeated : repeatedKeys [[("k", .ofString "1")], [("a", .ofString "2"), ("k", .ofString "3")]]
      = ["k"] := by decide
  obtain ⟨lead, rfl, ⟨hnone, -⟩ | ⟨-, entries, hunion, rfl⟩⟩ := hlist (by decide)
  · cases hnone
  · refine ⟨entries, hflat.trans ?_, hunion⟩
    rw [hown]
    exact congrArg (fun keys => Reply.matched _ (Session.noteAll _ (["k"] ++ keys))) hrepeated

end Matcher

end Packrat
