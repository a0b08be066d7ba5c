import RemoteCall.Proofs.Codec.Sequence
/-!
# How deep values nest

The depth of a list, a map or a record is bounded by `n` exactly if what it holds lies below `n`,
which is how the induction on levels goes through values. `Codec.values` lists the values inside a
place of any codec; each of them starts its own count of levels.
-/

namespace RemoteCall

namespace Value

theorem depthItems_le_iff {n : Nat} (items : List Value) :
    depthItems items ≤ n ↔ ∀ v ∈ items, v.depth < n := by
  induction items with
  | nil => simp [depthItems]
  | cons v rest ih =>
    rw [depthItems, List.forall_mem_cons, ← ih]
    omega

theorem depthEntries_le_iff {n : Nat} (entries : List (Value × Value)) :
    depthEntries entries ≤ n ↔ ∀ e ∈ entries, e.1.depth < n ∧ e.2.depth < n := by
  induction entries with
  | nil => simp [depthEntries]
  | cons e rest ih =>
    rw [depthEntries, List.forall_mem_cons, ← ih]
    omega

theorem depthFields_le_iff {n : Nat} (fields : List (String × Value)) :
    depthFields fields ≤ n ↔ ∀ f ∈ fields, f.2.depth < n := by
  induction fields with
  | nil => simp [depthFields]
  | cons f rest ih =>
    rw [depthFields, List.forall_mem_cons, ← ih]
    omega

end Value

namespace Codec

/-! ## The encodings of values, item by item -/

theorem encodeItems_eq_each (items : List Value) : encodeItems items = .each encodeValue items := by
  induction items with
  | nil => rfl
  | cons v rest ih => rw [encodeItems, ih, Encoding.each_cons, encodeValue]

/-- An entry of a map value. -/
def encodeEntry (e : Value × Value) : Encoding := (encodeValue e.1).andThen (encodeValue e.2)

theorem toExcept_encodeEntries (entries : List (Value × Value)) :
    (encodeEntries entries).toExcept = (Encoding.each encodeEntry entries).toExcept := by
  induction entries with
  | nil => rfl
  | cons e rest ih =>
    rw [encodeEntries, Encoding.each_cons, encodeEntry, Encoding.toExcept_andThen_assoc]
    exact Encoding.toExcept_andThen_congr rfl (Encoding.toExcept_andThen_congr rfl ih)

/-- A field of a record value. -/
def encodeField (f : String × Value) : Encoding := (encodeText f.1).andThen (encodeValue f.2)

theorem toExcept_encodeFields (fields : List (String × Value)) :
    (encodeFields fields).toExcept = (Encoding.each encodeField fields).toExcept := by
  induction fields with
  | nil => rfl
  | cons f rest ih =>
    rw [encodeFields, Encoding.each_cons, encodeField, Encoding.toExcept_andThen_assoc]
    exact Encoding.toExcept_andThen_congr rfl (Encoding.toExcept_andThen_congr rfl ih)

/-! ## The values inside a place -/

/-- All values inside a place, in the order in which they are written. -/
def values : {α : Type} → Codec α → α → List Value
  | _, value => fun v => [v]
  | _, list item => fun xs => xs.flatMap item.values
  | _, option item => fun x? => x?.elim [] item.values
  | _, map key content => fun m => m.toList.flatMap fun e => key.values e.1 ++ content.values e.2
  | _, pair first second => fun x => first.values x.1 ++ second.values x.2
  | _, layout l fields => fun x => fields.values (l.fields x)
  | _, _ => fun _ => []

/-- Whether all values inside a place can be received. -/
def WithinDepth {α : Type} (c : Codec α) (x : α) : Prop := ∀ v ∈ c.values x, v.depth ≤ maxDepth

variable {α β K V : Type}

theorem true_iff_withinDepth {c : Codec α} {x : α} (h : c.values x = []) : True ↔ c.WithinDepth x := by
  simp [WithinDepth, h]

theorem withinDepth_value (v : Value) : value.WithinDepth v ↔ v.depth ≤ maxDepth := by
  simp [WithinDepth, values]

theorem withinDepth_list (item : Codec α) (xs : List α) :
    (list item).WithinDepth xs ↔ ∀ x ∈ xs, item.WithinDepth x := by
  simp only [WithinDepth, values, List.mem_flatMap]
  grind

theorem withinDepth_values (vs : List Value) : (list value).WithinDepth vs ↔ ∀ v ∈ vs, v.depth ≤ 64 := by
  simp only [withinDepth_list, withinDepth_value, maxDepth]

theorem withinDepth_option (item : Codec α) (x? : Option α) :
    (option item).WithinDepth x? ↔ ∀ x ∈ x?, item.WithinDepth x := by
  cases x? <;> simp [WithinDepth, values]

theorem withinDepth_map [Ord K] [Std.TransOrd K] [Std.LawfulEqOrd K] (key : Codec K) (content : Codec V)
    (m : SortedMap K V) :
    (map key content).WithinDepth m ↔
      ∀ e ∈ m.toList, key.WithinDepth e.1 ∧ content.WithinDepth e.2 := by
  simp only [WithinDepth, values, List.mem_flatMap, List.mem_append]
  constructor
  · intro h e he
    exact ⟨fun v hv => h v ⟨e, he, .inl hv⟩, fun v hv => h v ⟨e, he, .inr hv⟩⟩
  · rintro h v ⟨e, he, hv | hv⟩
    · exact (h e he).1 v hv
    · exact (h e he).2 v hv

theorem withinDepth_pair (first : Codec α) (second : Codec β) (x : α × β) :
    (pair first second).WithinDepth x ↔ first.WithinDepth x.1 ∧ second.WithinDepth x.2 := by
  simp only [WithinDepth, values, List.mem_append]
  grind

theorem withinDepth_layout (l : Layout α β) (fields : Codec β) (x : α) :
    (layout l fields).WithinDepth x ↔ fields.WithinDepth (l.fields x) := Iff.rfl

end Codec

end RemoteCall
