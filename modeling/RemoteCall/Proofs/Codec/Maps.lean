import RemoteCall.Proofs.Codec.Spelling
/-!
# Maps on the wire

A map is decoded from a count and its entries, in whatever order they come. Entries with keys of their own give
one map in every order, and a key that comes twice is refused however far apart the two are:
`Written.decode_counted` and `Written.decode_counted_of_repeated`. A map is encoded with its keys ascending, and
that takes as many bytes as any other way of writing it: `fills_of_spelling`. The main result,
`decode_map_normalizes`, puts the three together.
-/

namespace RemoteCall

/-! ## How long encodings are -/

namespace Encoding

variable {α : Type}

/-- The encoding comes to its end, with so many bytes. -/
def Fills (e : Encoding) (length : Nat) : Prop := ∃ bs, e.toExcept = .ok bs ∧ bs.length = length

theorem Fills.of_eq_ok {e : Encoding} {bs : Bytes} (h : e.toExcept = .ok bs) : e.Fills bs.length := ⟨bs, h, rfl⟩

theorem fills_empty {length : Nat} : empty.Fills length ↔ length = 0 := by
  simp [Fills, eq_comm]

theorem fills_andThen {first next : Encoding} {length : Nat} :
    (first.andThen next).Fills length ↔ ∃ m n, first.Fills m ∧ next.Fills n ∧ length = m + n := by
  constructor
  · rintro ⟨bs, h, rfl⟩
    obtain ⟨a, b, ha, hb, rfl⟩ := toExcept_andThen_eq_ok.1 h
    exact ⟨a.length, b.length, .of_eq_ok ha, .of_eq_ok hb, List.length_append⟩
  · rintro ⟨_, _, ⟨a, ha, rfl⟩, ⟨b, hb, rfl⟩, rfl⟩
    exact ⟨a ++ b, toExcept_andThen_eq_ok.2 ⟨a, b, ha, hb, rfl⟩, List.length_append⟩

theorem Fills.andThen {first next : Encoding} {m n : Nat} (hf : first.Fills m) (hn : next.Fills n) :
    (first.andThen next).Fills (m + n) := fills_andThen.2 ⟨m, n, hf, hn, rfl⟩

/-- The order of items does not change how long they are together. -/
theorem Fills.each_perm {encode : α → Encoding} {xs ys : List α} (h : xs.Perm ys) {length : Nat}
    (hxs : (Encoding.each encode xs).Fills length) : (Encoding.each encode ys).Fills length := by
  induction h generalizing length with
  | nil => exact hxs
  | cons x _ ih =>
    obtain ⟨m, n, hx, hrest, rfl⟩ := fills_andThen.1 hxs
    exact hx.andThen (ih hrest)
  | swap x y xs =>
    obtain ⟨m, _, hy, hnext, rfl⟩ := fills_andThen.1 hxs
    obtain ⟨n, k, hx, hrest, rfl⟩ := fills_andThen.1 hnext
    rw [Nat.add_left_comm]
    exact hx.andThen (hy.andThen hrest)
  | trans _ _ ih ih' => exact ih' (ih hxs)

/-- Items are as long together as their spellings in a row, if each is as long as its spelling. -/
theorem Fills.each_of_row {encode : α → Encoding} {p : α → Bytes → Prop}
    (h : ∀ x bs, p x bs → (encode x).Fills bs.length) {xs : List α} {bs : Bytes} (hrow : Decoder.Row p xs bs) :
    (Encoding.each encode xs).Fills bs.length := by
  induction hrow with
  | nil => exact fills_empty.2 rfl
  | cons head _ ih =>
    rw [List.length_append]
    exact (h _ _ head).andThen ih

end Encoding

theorem Decoder.Row.exists_of_mem {α : Type} {p : α → Bytes → Prop} {xs : List α} {bs : Bytes}
    (h : Decoder.Row p xs bs) {x : α} (hx : x ∈ xs) : ∃ b, p x b := by
  induction h with
  | nil => cases hx
  | @cons y ys a b head _ ih =>
    rcases List.mem_cons.1 hx with rfl | hx
    · exact ⟨a, head⟩
    · exact ih hx

namespace Codec

open Decoder Encoding

variable {α K V : Type}

/-- A value that can be spelled can be encoded, in as many bytes. -/
theorem fills_of_spelling (c : Codec α) {x : α} {bs : Bytes} (h : c.Spelling x bs) : (c.encode x).Fills bs.length := by
  induction c generalizing bs with
  | unit | bool | int32 | int64 | uint32 | uint64 | float | bytes | text | enumeration | error | value =>
    exact .of_eq_ok h.1
  | list item ih =>
    obtain ⟨a, b, ha, hrow, rfl⟩ := h
    rw [List.length_append]
    exact (Fills.of_eq_ok ha).andThen (Fills.each_of_row (fun _ _ hy => ih hy) hrow)
  | option item ih =>
    cases x with
    | none => exact .of_eq_ok h
    | some x =>
      obtain ⟨a, b, ha, hb, rfl⟩ := h
      rw [List.length_append]
      exact (Fills.of_eq_ok ha).andThen (ih hb)
  | map key content ihkey ihcontent =>
    obtain ⟨a, b, ha, ⟨entries, hperm, hrow⟩, rfl⟩ := h
    have hentry : ∀ e bs, Both key.Spelling content.Spelling e bs →
        ((key.encode e.1).andThen (content.encode e.2)).Fills bs.length := by
      rintro e _ ⟨a, b, ha, hb, rfl⟩
      rw [List.length_append]
      exact (ihkey ha).andThen (ihcontent hb)
    -- the entries are as long in the order of the spelling as in that of their keys
    have hentries := (Fills.each_of_row hentry hrow).each_perm hperm.symm
    rw [List.length_append]
    exact (Fills.of_eq_ok ha).andThen hentries
  | pair first second ihfirst ihsecond =>
    obtain ⟨a, b, ha, hb, rfl⟩ := h
    rw [List.length_append]
    exact (ihfirst ha).andThen (ihsecond hb)
  | layout l fields ih => exact ih h

/-- What can be spelled can be received. -/
theorem withinDepth_of_spelling (c : Codec α) {x : α} {bs : Bytes} (h : c.Spelling x bs) : c.WithinDepth x := by
  induction c generalizing bs with
  | unit | bool | int32 | int64 | uint32 | uint64 | float | bytes | text | enumeration | error | value => exact h.2
  | list item ih =>
    obtain ⟨_, _, -, hrow, -⟩ := h
    refine (withinDepth_list item x).2 fun y hy => ?_
    obtain ⟨b, hb⟩ := hrow.exists_of_mem hy
    exact ih hb
  | option item ih =>
    refine (withinDepth_option item x).2 fun y hy => ?_
    cases hy
    obtain ⟨_, b, -, hb, -⟩ := h
    exact ih hb
  | map key content ihkey ihcontent =>
    obtain ⟨_, _, -, ⟨entries, hperm, hrow⟩, -⟩ := h
    refine (withinDepth_map key content x).2 fun e he => ?_
    obtain ⟨_, _, _, hkey, hcontent, -⟩ := hrow.exists_of_mem (hperm.mem_iff.1 he)
    exact ⟨ihkey hkey, ihcontent hcontent⟩
  | pair first second ihfirst ihsecond =>
    obtain ⟨_, _, hfirst, hsecond, -⟩ := h
    exact (withinDepth_pair first second x).2 ⟨ihfirst hfirst, ihsecond hsecond⟩
  | layout l fields ih => exact ih h

/-! ## Entries in a row -/

/-- A value together with bytes that it is decoded from. -/
structure Written (c : Codec α) where
  value : α
  bytes : Bytes
  reads : c.decode.Reads bytes value

namespace Written

/-- A count, and behind it as many values as they are written. -/
def counted {c : Codec α} (l : List (Written c)) : Bytes := bigEndian 4 l.length ++ l.flatMap Written.bytes

/-- What is encoded and not nested too deep is written. -/
def ofEncode {c : Codec α} {x : α} {bs : Bytes} (h : (c.encode x).toExcept = .ok bs) (hdepth : c.WithinDepth x) :
    Written c := ⟨x, bs, (c.decode_undoes x).reads h hdepth⟩

/-- Bytes that are decoded as a whole are written, whatever follows them. -/
def ofDecode {c : Codec α} {x : α} {bs : Bytes} (h : c.decode bs = (.ok x, [])) : Written c where
  value := x
  bytes := bs
  reads _ := (c.decode_accepts _ _ _).2 ⟨bs, decodeWhole_eq_ok_iff.1 (decodeWhole_eq_ok.2 h), rfl⟩

/-- Values that are encoded one after another are written one after another. -/
theorem exists_of_each {c : Codec α} {xs : List α} {bs : Bytes} (h : (Encoding.each c.encode xs).toExcept = .ok bs)
    (hdepth : ∀ x ∈ xs, c.WithinDepth x) :
    ∃ l : List (Written c), l.map Written.value = xs ∧ l.flatMap Written.bytes = bs ∧
      ∀ e ∈ l, (c.encode e.value).toExcept = .ok e.bytes := by
  induction xs generalizing bs with
  | nil =>
    rw [each_nil, toExcept_empty] at h
    cases h
    exact ⟨[], rfl, rfl, by simp⟩
  | cons x xs ih =>
    obtain ⟨a, b, ha, hb, rfl⟩ := toExcept_andThen_eq_ok.1 h
    obtain ⟨hx, hxs⟩ := List.forall_mem_cons.1 hdepth
    obtain ⟨l, rfl, rfl, hl⟩ := ih hb hxs
    exact ⟨ofEncode ha hx :: l, rfl, rfl, List.forall_mem_cons.2 ⟨ha, hl⟩⟩

variable [Ord K] [Std.TransOrd K] [Std.LawfulEqOrd K] {key : Codec K} {content : Codec V}

/-- The keys of the entries differ. -/
def Distinct (l : List (Written (pair key content))) : Prop := l.Pairwise fun a b => a.value.1 ≠ b.value.1

omit [Std.LawfulEqOrd K] in
/-- A written entry goes into the map, if its key is new to it, and stops the map otherwise. -/
theorem decodeEntries_succ (e : Written (pair key content)) (count : Nat) (m : SortedMap K V) (rest : Bytes) :
    decodeEntries key.decode content.decode (count + 1) m (e.bytes ++ rest) =
      if m.contains e.value.1 then (.error .duplicateKey, rest)
      else decodeEntries key.decode content.decode count (m.insert e.value.1 e.value.2) rest := by
  have hreads := e.reads rest
  rw [decode_pair] at hreads
  obtain ⟨k, mid, hk, hnext⟩ := bind_eq_ok.1 hreads
  obtain ⟨v, left, hv, hpair⟩ := bind_eq_ok.1 hnext
  obtain ⟨hvalue, rfl⟩ := pure_eq_ok.1 hpair
  rw [decodeEntries, bind_apply, hk, ← hvalue]
  simp only [bind_apply, hv]
  split <;> rfl

/-- Entries with new keys go into the map, one after another. -/
theorem decodeEntries_eq (l : List (Written (pair key content))) (m : SortedMap K V)
    (h : m.NewKeys (l.map Written.value)) (rest : Bytes) :
    decodeEntries key.decode content.decode l.length m (l.flatMap Written.bytes ++ rest) =
      (.ok (m.insertAll (l.map Written.value)), rest) := by
  induction l generalizing m with
  | nil => rfl
  | cons e l ih =>
    obtain ⟨hnew, hrest⟩ := SortedMap.newKeys_cons_iff.1 h
    rw [List.flatMap_cons, List.append_assoc, List.length_cons, decodeEntries_succ, hnew]
    exact ih _ hrest

/-- Among entries of which one has a key that came before, the first such one stops the map. -/
theorem decodeEntries_of_repeated (l : List (Written (pair key content))) (m : SortedMap K V)
    (h : ¬m.NewKeys (l.map Written.value)) (rest : Bytes) :
    ∃ left, decodeEntries key.decode content.decode l.length m (l.flatMap Written.bytes ++ rest) =
      (.error .duplicateKey, left) := by
  induction l generalizing m with
  | nil => exact absurd m.newKeys_nil h
  | cons e l ih =>
    rw [List.flatMap_cons, List.append_assoc, List.length_cons, decodeEntries_succ]
    by_cases hnew : m.contains e.value.1
    · exact ⟨_, if_pos hnew⟩
    · rw [if_neg hnew]
      rw [Bool.not_eq_true] at hnew
      exact ih _ fun hrest => h (SortedMap.newKeys_cons_iff.2 ⟨hnew, hrest⟩)

/-- A map is decoded from its count and its entries. -/
theorem decode_counted_eq {l : List (Written (pair key content))} (hcount : l.length < 0x100000000) (rest : Bytes) :
    (map key content).decode (counted l ++ rest) =
      decodeEntries key.decode content.decode l.length .empty (l.flatMap Written.bytes ++ rest) := by
  have hword : (UInt32.ofNat l.length).toNat = l.length := UInt32.toNat_ofNat_of_lt' hcount
  have hreads := decodeWord_reads (UInt32.ofNat l.length) (l.flatMap Written.bytes ++ rest)
  rw [hword] at hreads
  rw [decode_map, bind_apply, counted, List.append_assoc, hreads]
  simp only [hword]

/-- Entries with keys of their own are decoded to a map of just these entries. -/
theorem decode_counted {l : List (Written (pair key content))} (hcount : l.length < 0x100000000)
    (h : Distinct l) (rest : Bytes) :
    (map key content).decode (counted l ++ rest) = (.ok (SortedMap.empty.insertAll (l.map Written.value)), rest) := by
  rw [decode_counted_eq hcount]
  exact decodeEntries_eq l .empty (SortedMap.newKeys_empty_iff.2 (List.pairwise_map.2 h)) rest

/-- Entries of which two have one key are refused, however far apart the two are. -/
theorem decode_counted_of_repeated {l : List (Written (pair key content))} (hcount : l.length < 0x100000000)
    (h : ¬Distinct l) (rest : Bytes) :
    ∃ left, (map key content).decode (counted l ++ rest) = (.error .duplicateKey, left) := by
  have hrepeated : ¬SortedMap.empty.NewKeys (l.map Written.value) := by
    rw [SortedMap.newKeys_empty_iff, List.pairwise_map]
    exact h
  rw [decode_counted_eq hcount]
  exact decodeEntries_of_repeated l .empty hrepeated rest

end Written

/-- Written entries with keys of their own are decoded to one map, in whatever order they come, and entries of
which two have one key are refused. A map that was decoded is encoded with its keys ascending, in as many bytes
as were read for it, and these are decoded to the same map. -/
theorem decode_map_normalizes [Ord K] [Std.TransOrd K] [Std.LawfulEqOrd K] (key : Codec K) (content : Codec V) :
    (∀ l : List (Written (pair key content)), l.length < 0x100000000 →
      (Written.Distinct l → ∃ m : SortedMap K V, m.toList.Perm (l.map Written.value) ∧
        ∀ l', l'.Perm l → ∀ rest, (map key content).decode (Written.counted l' ++ rest) = (.ok m, rest)) ∧
      (¬Written.Distinct l → ∀ rest, ∃ f left,
        (map key content).decode (Written.counted l ++ rest) = (.error f, left) ∧
          f.kind = .invalidData ∧ f.message = "Duplicate key in map")) ∧
    ∀ bs m rest, (map key content).decode bs = (.ok m, rest) →
      ∃ (used : Bytes) (l : List (Written (pair key content))), bs = used ++ rest ∧
        l.map Written.value = m.toList ∧ l.Pairwise (fun a b => compare a.value.1 b.value.1 = .lt) ∧
        (∀ e ∈ l, ((pair key content).encode e.value).toExcept = .ok e.bytes) ∧
        ((map key content).encode m).toExcept = .ok (Written.counted l) ∧
        (Written.counted l).length = used.length ∧
        ∀ more, (map key content).decode (Written.counted l ++ more) = (.ok m, more) := by
  refine ⟨fun l hcount => ⟨?_, ?_⟩, ?_⟩
  · intro hdistinct
    have hkeys : (l.map Written.value).Pairwise fun a b => a.1 ≠ b.1 := List.pairwise_map.2 hdistinct
    refine ⟨SortedMap.empty.insertAll (l.map Written.value), (SortedMap.insertAll_empty_eq_iff hkeys).1 rfl, ?_⟩
    intro l' hperm rest
    have hcount' : l'.length < 0x100000000 := hperm.length_eq ▸ hcount
    have hdistinct' : Written.Distinct l' := hperm.symm.pairwise hdistinct fun hne => Ne.symm hne
    rw [Written.decode_counted hcount' hdistinct', SortedMap.insertAll_empty_perm hkeys (hperm.map _)]
  · intro hrepeated rest
    obtain ⟨left, hleft⟩ := Written.decode_counted_of_repeated hcount hrepeated rest
    exact ⟨.duplicateKey, left, hleft, rfl, rfl⟩
  · intro bs m rest h
    obtain ⟨used, hspelling, rfl⟩ := (decode_accepts _ _ _ _).1 h
    obtain ⟨again, hagain, hlength⟩ := fills_of_spelling _ hspelling
    have hdepth := withinDepth_of_spelling _ hspelling
    obtain ⟨a, b, ha, hb, rfl⟩ := toExcept_andThen_eq_ok.1 hagain
    obtain ⟨-, rfl⟩ := encodeCount_eq_ok.1 ha
    -- the entries are encoded one by one, as pairs
    obtain ⟨l, hl, rfl, hencode⟩ := Written.exists_of_each (c := pair key content) hb fun e he =>
      (withinDepth_pair key content e).2 ((withinDepth_map key content m).1 hdepth e he)
    have hcounted : bigEndian 4 m.size ++ l.flatMap Written.bytes = Written.counted l := by
      rw [Written.counted, ← List.length_map Written.value, hl]
      rfl
    rw [hcounted] at hagain hlength
    refine ⟨used, l, rfl, hl, ?_, hencode, hagain, hlength, ?_⟩
    · have hascending := m.ascending
      rw [← SortedMap.toList, ← hl] at hascending
      exact List.pairwise_map.1 hascending
    · exact (decode_undoes _ m).reads hagain hdepth

/-- Two entries, the first with the larger key and with a map whose larger key comes first: in either order they
make one map, which is encoded again in as many bytes; with the first one repeated at the end they are refused. -/
theorem decode_map_normalizes_descending :
    let c : Codec (SortedMap UInt32 (SortedMap Bool UInt32)) := map .uint32 (map .bool .uint32)
    let larger : Bytes := [0, 0, 0, 2, 0, 0, 0, 2, 0, 0, 0, 1, 0, 0, 0, 9, 0, 0, 0, 0, 0, 0, 0, 8]
    let smaller : Bytes := [0, 0, 0, 1, 0, 0, 0, 0]
    (∃ m, c.decode ([0, 0, 0, 2] ++ (larger ++ smaller) ++ [7]) = (.ok m, [7]) ∧
      c.decode ([0, 0, 0, 2] ++ (smaller ++ larger) ++ [7]) = (.ok m, [7]) ∧
      ∃ again, (c.encode m).toExcept = .ok again ∧ again.length = 36 ∧ c.decode (again ++ [7]) = (.ok m, [7])) ∧
    ∃ f left, c.decode ([0, 0, 0, 3] ++ (larger ++ (smaller ++ larger)) ++ [7]) = (.error f, left) ∧
      f.message = "Duplicate key in map" := by
  have hlarger : (pair .uint32 (map .bool .uint32)).decode
      [0, 0, 0, 2, 0, 0, 0, 2, 0, 0, 0, 1, 0, 0, 0, 9, 0, 0, 0, 0, 0, 0, 0, 8] =
      (.ok (2, .ofList [(true, 9), (false, 8)]), []) := rfl
  have hsmaller : (pair .uint32 (map .bool .uint32)).decode [0, 0, 0, 1, 0, 0, 0, 0] = (.ok (1, .empty), []) := rfl
  intro c larger smaller
  let first := Written.ofDecode hlarger
  let second := Written.ofDecode hsmaller
  have h := decode_map_normalizes .uint32 (map .bool .uint32)
  have htwo : bigEndian 4 2 = [0, 0, 0, 2] := by decide
  have hthree : bigEndian 4 3 = [0, 0, 0, 3] := by decide
  have hdescending : bigEndian 4 2 ++ (larger ++ smaller) = Written.counted [first, second] := rfl
  have hascending : bigEndian 4 2 ++ (smaller ++ larger) = Written.counted [second, first] := rfl
  have hrepeated : bigEndian 4 3 ++ (larger ++ (smaller ++ larger)) = Written.counted [first, second, first] := rfl
  rw [← htwo, ← hthree, hdescending, hascending, hrepeated]
  constructor
  · obtain ⟨m, -, hm⟩ := (h.1 [first, second] (show 2 < 0x100000000 by decide)).1
      (by simp [Written.Distinct, first, second, Written.ofDecode])
    have hread := hm [first, second] (.refl _) [7]
    obtain ⟨used, l, hused, -, -, -, hencode, hlength, hagain⟩ := h.2 _ m [7] hread
    obtain rfl := List.append_cancel_right hused
    exact ⟨m, hread, hm [second, first] (.swap _ _ _) [7], _, hencode, hlength, hagain [7]⟩
  · obtain ⟨f, left, hf, -, hmessage⟩ := (h.1 [first, second, first] (show 3 < 0x100000000 by decide)).2
      (by simp [Written.Distinct, first, second, Written.ofDecode]) [7]
    exact ⟨f, left, hf, hmessage⟩

end Codec

end RemoteCall
