import RemoteCall.SortedMap
/-!
# Entries of sorted maps

A map finds exactly its entries (`find?_eq_some_iff`), and of the entries put into it the last one with each key
(`find?_insertAll_eq_some_iff`). Entries with keys of their own are all there (`find?_insertAll`), in whatever
order they came (`insertAll_empty_perm`), and if their keys are new, they make the map larger by their number
(`size_insertAll`).
-/

namespace RemoteCall

namespace SortedMap

variable {K V : Type} [Ord K] [Std.TransOrd K]

/-- An entry with a new key makes a list longer, one with a known key does not. -/
theorem length_place {k : K} {v : V} {l : List (K × V)} (h : l.Pairwise fun a b => compare a.1 b.1 = .lt) :
    (place k v l).length = if (l.find? fun e => compare k e.1 == .eq).isSome then l.length else l.length + 1 := by
  induction l with
  | nil => rfl
  | cons head rest ih =>
    obtain ⟨k', v'⟩ := head
    obtain ⟨hhead, hrest⟩ := List.pairwise_cons.1 h
    rw [place, List.find?_cons]
    dsimp only
    cases hk : compare k k' with
    | lt =>
      -- all further keys are larger still
      have hnone : rest.find? (fun e => compare k e.1 == .eq) = none := by
        rw [List.find?_eq_none]
        intro e he
        have hlt : compare k e.1 = .lt := Std.TransCmp.lt_trans hk (hhead e he)
        simp [hlt]
      simp [hnone]
    | eq => simp
    | gt =>
      have hlength := ih hrest
      by_cases hsome : (rest.find? fun e => compare k e.1 == .eq).isSome
      · rw [if_pos hsome] at hlength
        simp [hsome, hlength]
      · rw [if_neg hsome] at hlength
        simp [hsome, hlength]

theorem size_insert_of_new {m : SortedMap K V} {k : K} (h : m.contains k = false) (v : V) :
    (m.insert k v).size = m.size + 1 := by
  unfold contains find? at h
  rw [Option.isSome_map] at h
  show (place k v m.entries).length = _
  rw [length_place m.ascending, h]
  rfl

/-- Puts entries into a map, one after another. -/
def insertAll (m : SortedMap K V) (l : List (K × V)) : SortedMap K V := l.foldl (fun m e => m.insert e.1 e.2) m

omit [Std.TransOrd K] in
theorem contains_eq_false_iff {m : SortedMap K V} {k : K} : m.contains k = false ↔ m.find? k = none := by
  unfold contains
  rw [Option.isSome_eq_false_iff, Option.isNone_iff_eq_none]

variable [Std.LawfulEqOrd K]

theorem find?_insert_of_ne (m : SortedMap K V) {k q : K} (v : V) (h : q ≠ k) :
    (m.insert k v).find? q = m.find? q := by
  have hcompare : compare q k ≠ .eq := fun heq => h (Std.LawfulEqCmp.compare_eq_iff_eq.1 heq)
  rw [find?_insert, if_neg hcompare]

/-- A key is new to a map with one more entry if it is new to the map and not that of the entry. -/
theorem contains_insert_eq_false_iff {m : SortedMap K V} {k q : K} {v : V} :
    (m.insert k v).contains q = false ↔ k ≠ q ∧ m.contains q = false := by
  simp only [contains_eq_false_iff]
  by_cases hq : k = q
  · subst hq
    simp
  · simp [find?_insert_of_ne m v (Ne.symm hq), hq]

omit [Std.TransOrd K] in
/-- A map finds its entries and nothing else. -/
theorem find?_eq_some_iff {m : SortedMap K V} {k : K} {v : V} : m.find? k = some v ↔ (k, v) ∈ m.toList := by
  obtain ⟨l, hl⟩ := m
  show (l.find? fun e => compare k e.1 == .eq).map Prod.snd = some v ↔ (k, v) ∈ l
  induction l with
  | nil => simp
  | cons head rest ih =>
    obtain ⟨k', v'⟩ := head
    obtain ⟨hhead, hrest⟩ := List.pairwise_cons.1 hl
    by_cases hk : k = k'
    · subst hk
      have hnot : (k, v) ∉ rest := by
        intro hmem
        exact absurd (hhead _ hmem) (by simp [Std.ReflCmp.compare_self])
      simp [hnot, Std.ReflCmp.compare_self, eq_comm]
    · have hcompare : compare k k' ≠ .eq := fun heq => hk (Std.LawfulEqCmp.compare_eq_iff_eq.1 heq)
      simp [hcompare, hk, ih hrest]

/-! ## Entries put into a map -/

/-- The last of the entries with key `k` has value `v`. -/
def IsLast (l : List (K × V)) (k : K) (v : V) : Prop :=
  ∃ before after, l = before ++ (k, v) :: after ∧ ∀ e ∈ after, e.1 ≠ k

omit [Ord K] [Std.TransOrd K] [Std.LawfulEqOrd K] in
theorem isLast_cons_iff {e : K × V} {l : List (K × V)} {k : K} {v : V} :
    IsLast (e :: l) k v ↔ IsLast l k v ∨ (∀ e' ∈ l, e'.1 ≠ k) ∧ e = (k, v) := by
  constructor
  · rintro ⟨before, after, hl, hafter⟩
    rcases before with _ | ⟨e', before⟩ <;> cases hl
    · exact .inr ⟨hafter, rfl⟩
    · exact .inl ⟨before, after, rfl, hafter⟩
  · rintro (⟨before, after, rfl, hafter⟩ | ⟨hafter, rfl⟩)
    · exact ⟨e :: before, after, rfl, hafter⟩
    · exact ⟨[], l, rfl, hafter⟩

/-- Of the entries put into a map the last one with a key counts, and only without any the one before. -/
theorem find?_insertAll_eq_some_iff {m : SortedMap K V} {l : List (K × V)} {k : K} {v : V} :
    (m.insertAll l).find? k = some v ↔ IsLast l k v ∨ (∀ e ∈ l, e.1 ≠ k) ∧ m.find? k = some v := by
  induction l generalizing m with
  | nil => simp [insertAll, IsLast]
  | cons e l ih =>
    obtain ⟨k', w⟩ := e
    show ((m.insert k' w).insertAll l).find? k = some v ↔ _
    rw [ih, isLast_cons_iff, List.forall_mem_cons]
    by_cases hk : k = k'
    · subst hk
      simp
    · simp [find?_insert_of_ne m w hk, Ne.symm hk]

omit [Ord K] [Std.TransOrd K] [Std.LawfulEqOrd K] in
/-- Among entries with keys of their own each is the last one with its key. -/
theorem isLast_iff_mem {l : List (K × V)} (h : l.Pairwise fun a b => a.1 ≠ b.1) {k : K} {v : V} :
    IsLast l k v ↔ (k, v) ∈ l := by
  constructor
  · rintro ⟨before, after, rfl, -⟩
    exact List.mem_append_right before List.mem_cons_self
  · intro hmem
    obtain ⟨before, after, rfl⟩ := List.append_of_mem hmem
    have hafter := (List.pairwise_cons.1 (List.pairwise_append.1 h).2.1).1
    exact ⟨before, after, rfl, fun e he => (hafter e he).symm⟩

/-- Entries with keys of their own are all found, and of the others what was there before. -/
theorem find?_insertAll {m : SortedMap K V} {l : List (K × V)} (h : l.Pairwise fun a b => a.1 ≠ b.1) {q : K}
    {v : V} :
    (m.insertAll l).find? q = some v ↔ (q, v) ∈ l ∨ (∀ e ∈ l, e.1 ≠ q) ∧ m.find? q = some v := by
  rw [find?_insertAll_eq_some_iff, isLast_iff_mem h]

/-! ## New keys -/

/-- The keys of the entries differ from each other and from those of the map. -/
structure NewKeys (m : SortedMap K V) (l : List (K × V)) : Prop where
  differ : l.Pairwise fun a b => a.1 ≠ b.1
  new : ∀ e ∈ l, m.contains e.1 = false

omit [Std.TransOrd K] [Std.LawfulEqOrd K] in
theorem newKeys_nil (m : SortedMap K V) : m.NewKeys [] := ⟨.nil, by simp⟩

omit [Std.TransOrd K] [Std.LawfulEqOrd K] in
theorem newKeys_empty_iff {l : List (K × V)} : NewKeys empty l ↔ l.Pairwise fun a b => a.1 ≠ b.1 :=
  ⟨NewKeys.differ, fun h => ⟨h, fun _ _ => rfl⟩⟩

/-- Entries have new keys if the first one does, and the others with it in the map. -/
theorem newKeys_cons_iff {m : SortedMap K V} {e : K × V} {l : List (K × V)} :
    m.NewKeys (e :: l) ↔ m.contains e.1 = false ∧ (m.insert e.1 e.2).NewKeys l := by
  constructor
  · rintro ⟨hdiffer, hnew⟩
    obtain ⟨hhead, htail⟩ := List.pairwise_cons.1 hdiffer
    obtain ⟨he, hl⟩ := List.forall_mem_cons.1 hnew
    exact ⟨he, htail, fun e' he' => contains_insert_eq_false_iff.2 ⟨hhead e' he', hl e' he'⟩⟩
  · rintro ⟨he, hdiffer, hnew⟩
    have hboth := fun e' he' => contains_insert_eq_false_iff.1 (hnew e' he')
    exact ⟨List.pairwise_cons.2 ⟨fun e' he' => (hboth e' he').1, hdiffer⟩,
      List.forall_mem_cons.2 ⟨he, fun e' he' => (hboth e' he').2⟩⟩

/-- Entries with keys of their own that are new to a map make it larger by their number. -/
theorem size_insertAll {m : SortedMap K V} {l : List (K × V)} (h : l.Pairwise fun a b => a.1 ≠ b.1)
    (hnew : ∀ e ∈ l, m.contains e.1 = false) : (m.insertAll l).size = m.size + l.length := by
  induction l generalizing m with
  | nil => rfl
  | cons e l ih =>
    obtain ⟨he, hrest⟩ := newKeys_cons_iff.1 ⟨h, hnew⟩
    show ((m.insert e.1 e.2).insertAll l).size = _
    rw [ih hrest.differ hrest.new, size_insert_of_new he, List.length_cons]
    omega

/-! ## Maps made of entries -/

omit [Std.TransOrd K] in
/-- The entries of a map have keys of their own. -/
theorem toList_keys_ne (m : SortedMap K V) : m.toList.Pairwise fun a b => a.1 ≠ b.1 := by
  refine m.ascending.imp fun {a b} h heq => ?_
  rw [heq] at h
  exact absurd h (by simp [Std.ReflCmp.compare_self])

omit [Ord K] [Std.TransOrd K] [Std.LawfulEqOrd K] in
theorem nodup_of_keys_ne {l : List (K × V)} (h : l.Pairwise fun a b => a.1 ≠ b.1) : l.Nodup :=
  h.imp fun hkey heq => hkey (congrArg Prod.fst heq)

/-- A map is known by its entries. -/
theorem eq_of_mem_iff {m n : SortedMap K V} (h : ∀ e, e ∈ m.toList ↔ e ∈ n.toList) : m = n := by
  have hperm : m.toList.Perm n.toList :=
    (List.perm_ext_iff_of_nodup (nodup_of_keys_ne m.toList_keys_ne) (nodup_of_keys_ne n.toList_keys_ne)).2 h
  -- two lists of the same entries in ascending order are one
  refine ext (hperm.eq_of_pairwise (fun a b _ _ hab hba => ?_) m.ascending n.ascending)
  have hgt : compare a.1 b.1 = .gt := Std.OrientedCmp.gt_of_lt hba
  rw [hab] at hgt
  cases hgt

/-- Entries make a map of the last one with each key. -/
theorem mem_insertAll_empty_iff {l : List (K × V)} {k : K} {v : V} :
    (k, v) ∈ (empty.insertAll l).toList ↔ IsLast l k v := by
  rw [← find?_eq_some_iff, find?_insertAll_eq_some_iff]
  simp [find?, empty]

/-- They make no other map than the one that holds just these. -/
theorem eq_insertAll_empty_iff {m : SortedMap K V} {l : List (K × V)} :
    m = empty.insertAll l ↔ ∀ k v, (k, v) ∈ m.toList ↔ IsLast l k v := by
  constructor
  · rintro rfl k v
    exact mem_insertAll_empty_iff
  · intro h
    exact eq_of_mem_iff fun e => (h e.1 e.2).trans mem_insertAll_empty_iff.symm

/-- Entries with keys of their own make a map just of these entries, whatever their order. -/
theorem insertAll_empty_eq_iff {l : List (K × V)} (h : l.Pairwise fun a b => a.1 ≠ b.1) {m : SortedMap K V} :
    empty.insertAll l = m ↔ m.toList.Perm l := by
  have hmem (e : K × V) : e ∈ (empty.insertAll l).toList ↔ e ∈ l :=
    mem_insertAll_empty_iff.trans (isLast_iff_mem h)
  constructor
  · rintro rfl
    exact (List.perm_ext_iff_of_nodup (nodup_of_keys_ne (toList_keys_ne _)) (nodup_of_keys_ne h)).2 hmem
  · intro hm
    exact eq_of_mem_iff fun e => (hmem e).trans hm.mem_iff.symm

/-- The order in which entries with keys of their own are put into a map does not matter. -/
theorem insertAll_empty_perm {l l' : List (K × V)} (h : l.Pairwise fun a b => a.1 ≠ b.1) (hperm : l'.Perm l) :
    empty.insertAll l' = empty.insertAll l := by
  have h' : l'.Pairwise fun a b => a.1 ≠ b.1 := hperm.symm.pairwise h fun hne => Ne.symm hne
  exact (insertAll_empty_eq_iff h').2 (((insertAll_empty_eq_iff h).1 rfl).trans hperm.symm)

end SortedMap

end RemoteCall
