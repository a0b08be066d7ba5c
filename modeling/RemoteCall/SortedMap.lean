/-!
# Maps in key order

A `SortedMap` is a list of entries whose keys ascend strictly, so that a map has one representation and its
list of entries is the order in which it is written. Main statements: `find?_insert` (an insertion changes
one key and no other) and `ofList_toList` (a map is rebuilt from its entries).
-/

namespace RemoteCall

/-- A finite map, listed by ascending key. -/
structure SortedMap (K V : Type) [Ord K] where
  entries : List (K × V)
  ascending : entries.Pairwise (fun a b => compare a.1 b.1 = .lt)

namespace SortedMap

variable {K V W : Type} [Ord K]

theorem ext {m n : SortedMap K V} (h : m.entries = n.entries) : m = n := by
  cases m; cases n; cases h; rfl

def empty : SortedMap K V := ⟨[], .nil⟩

instance : Inhabited (SortedMap K V) := ⟨empty⟩

def toList (m : SortedMap K V) : List (K × V) := m.entries

def size (m : SortedMap K V) : Nat := m.entries.length

def keys (m : SortedMap K V) : List K := m.entries.map Prod.fst

/-- The value of the entry with key `k`. -/
def find? (m : SortedMap K V) (k : K) : Option V :=
  (m.entries.find? (fun e => compare k e.1 == .eq)).map Prod.snd

def contains (m : SortedMap K V) (k : K) : Bool := (m.find? k).isSome

/-- Places an entry before the first larger key, in the stead of an equal one. -/
def place (k : K) (v : V) : List (K × V) → List (K × V)
  | [] => [(k, v)]
  | (k', v') :: rest =>
    match compare k k' with
    | .lt => (k, v) :: (k', v') :: rest
    | .eq => (k', v) :: rest
    | .gt => (k', v') :: place k v rest

theorem mem_place {k : K} {v : V} {l : List (K × V)} {e : K × V} (h : e ∈ place k v l) :
    e.1 = k ∨ ∃ e' ∈ l, e.1 = e'.1 := by
  induction l with
  | nil => simp_all [place]
  | cons head rest ih =>
    obtain ⟨k', v'⟩ := head
    unfold place at h
    split at h
    · rcases List.mem_cons.1 h with rfl | h
      · exact .inl rfl
      · exact .inr ⟨e, h, rfl⟩
    · rcases List.mem_cons.1 h with rfl | h
      · exact .inr ⟨(k', v'), by simp, rfl⟩
      · exact .inr ⟨e, by simp [h], rfl⟩
    · rcases List.mem_cons.1 h with rfl | h
      · exact .inr ⟨_, by simp, rfl⟩
      · rcases ih h with h | ⟨e', he, h⟩
        · exact .inl h
        · exact .inr ⟨e', by simp [he], h⟩

variable [Std.TransOrd K]

theorem place_ascending {k : K} {v : V} {l : List (K × V)}
    (h : l.Pairwise (fun a b => compare a.1 b.1 = .lt)) :
    (place k v l).Pairwise (fun a b => compare a.1 b.1 = .lt) := by
  induction l with
  | nil => simp [place]
  | cons head rest ih =>
    obtain ⟨k', v'⟩ := head
    rw [List.pairwise_cons] at h
    unfold place
    split
    · rename_i hk
      refine List.pairwise_cons.2 ⟨?_, List.pairwise_cons.2 h⟩
      intro e he
      rcases List.mem_cons.1 he with rfl | he
      · exact hk
      · exact Std.TransCmp.lt_trans hk (h.1 e he)
    · exact List.pairwise_cons.2 h
    · rename_i hk
      refine List.pairwise_cons.2 ⟨?_, ih h.2⟩
      intro e he
      rcases mem_place he with hek | ⟨e', he', hee⟩
      · rw [hek]
        exact Std.OrientedCmp.gt_iff_lt.1 hk
      · rw [hee]
        exact h.1 e' he'

/-- Adds an entry, or replaces the value of an equal key. -/
def insert (m : SortedMap K V) (k : K) (v : V) : SortedMap K V :=
  ⟨place k v m.entries, place_ascending m.ascending⟩

/-- Inserts entries one after another; of entries with one key the last wins. -/
def ofList (l : List (K × V)) : SortedMap K V :=
  l.foldl (fun m e => m.insert e.1 e.2) empty

/-- Removes the entry with key `k`. -/
def erase (m : SortedMap K V) (k : K) : SortedMap K V :=
  ⟨m.entries.filter (fun e => compare k e.1 != .eq), m.ascending.filter _⟩

/-- The same keys with other values. -/
def mapValues (f : K → V → W) (m : SortedMap K V) : SortedMap K W :=
  ⟨m.entries.map (fun e => (e.1, f e.1 e.2)), by
    rw [List.pairwise_map]
    exact m.ascending⟩

omit [Std.TransOrd K] in
@[simp] theorem find?_mapValues (g : V → W) (m : SortedMap K V) (k : K) :
    (m.mapValues fun _ => g).find? k = (m.find? k).map g := by
  unfold find? mapValues
  rw [List.find?_map, Option.map_map, Option.map_map]
  rfl

private theorem find?_place {k q : K} {v : V} {l : List (K × V)} :
    ((place k v l).find? (fun e => compare q e.1 == .eq)).map Prod.snd =
      if compare q k = .eq then some v
      else (l.find? (fun e => compare q e.1 == .eq)).map Prod.snd := by
  induction l with
  | nil => by_cases h : compare q k = .eq <;> simp [place, h]
  | cons head rest ih =>
    obtain ⟨k', v'⟩ := head
    unfold place
    split
    · by_cases h : compare q k = .eq <;> simp [h]
    · rename_i hk
      have hq : compare q k = compare q k' := Std.TransCmp.congr_right hk
      by_cases h : compare q k' = .eq <;> simp [hq, h]
    · rename_i hk
      by_cases h : compare q k' = .eq
      · have hq : compare q k ≠ .eq := by
          intro hqk
          have hkq : compare k q = .eq := Std.OrientedCmp.eq_symm hqk
          have hkk : compare k k' = compare q k' := Std.TransCmp.congr_left hkq
          rw [hk, h] at hkk
          cases hkk
        simp [h, hq]
      · have hb : (compare q k' == .eq) = false := by simpa using h
        simp only [List.find?_cons, hb, ih]

/-- An insertion changes the value of its own key and of no other. -/
@[simp] theorem find?_insert (m : SortedMap K V) (k q : K) (v : V) :
    (m.insert k v).find? q = if compare q k = .eq then some v else m.find? q :=
  find?_place

theorem find?_insert_self (m : SortedMap K V) (k : K) (v : V) : (m.insert k v).find? k = some v := by
  rw [find?_insert, if_pos Std.ReflCmp.compare_self]

private theorem place_last {k : K} {v : V} {l : List (K × V)} (h : ∀ e ∈ l, compare e.1 k = .lt) :
    place k v l = l ++ [(k, v)] := by
  induction l with
  | nil => rfl
  | cons head rest ih =>
    obtain ⟨k', v'⟩ := head
    have hk : compare k k' = .gt := Std.OrientedCmp.gt_iff_lt.2 (h (k', v') (by simp))
    simp [place, hk, ih (fun e he => h e (by simp [he]))]

private theorem foldl_insert {m : SortedMap K V} {l : List (K × V)}
    (h : (m.entries ++ l).Pairwise (fun a b => compare a.1 b.1 = .lt)) :
    (l.foldl (fun m e => m.insert e.1 e.2) m).entries = m.entries ++ l := by
  induction l generalizing m with
  | nil => simp
  | cons e l ih =>
    have hm : (m.insert e.1 e.2).entries = m.entries ++ [e] := by
      refine place_last fun e' he' => ?_
      exact (List.pairwise_append.1 h).2.2 e' he' e (by simp)
    rw [List.foldl_cons, ih (by rw [hm]; simpa using h), hm]
    simp

/-- Inserting the entries of a map one by one gives the map back. -/
theorem ofList_toList (m : SortedMap K V) : ofList m.toList = m := by
  apply ext
  rw [ofList, foldl_insert (by simpa [empty, toList] using m.ascending)]
  rfl

end SortedMap

end RemoteCall
