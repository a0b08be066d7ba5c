import RemoteCall.Proofs.Codec.Sequence
import RemoteCall.Proofs.SortedMap.Entries
/-!
# What places hold

Receiving goes into a place that may hold a value already. That value makes no difference to how receiving ends:
`result_receive`, and `receive_forgets` for any two places. It makes a difference to what the place holds after a
failure: `Codec.Leaves` says for each codec what that is, and `receive_fails_iff` that it is so.
-/

namespace RemoteCall

namespace Decoder

variable {α : Type}

theorem times_zero_eq_ok {d : Decoder α} {bs mid : Bytes} : d.times 0 bs = (.ok [], mid) ↔ bs = mid := by
  rw [times, pure_eq_ok]
  simp

theorem times_succ_eq_ok {d : Decoder α} {count : Nat} {bs mid : Bytes} {x : α} {xs : List α} :
    d.times (count + 1) bs = (.ok (x :: xs), mid) ↔
      ∃ rest, d bs = (.ok x, rest) ∧ d.times count rest = (.ok xs, mid) := by
  simp only [times, bind_eq_ok, pure_eq_ok]
  grind

end Decoder

namespace Received

variable {α : Type}

theorem result_eq_ok {r : Received α} {x : α} {rest : Bytes} : r.result = (.ok x, rest) ↔ r = ⟨x, rest, none⟩ := by
  rcases r with ⟨y, left, _ | f⟩ <;> simp [result]

theorem result_eq_error {r : Received α} {f : Fault} {rest : Bytes} :
    r.result = (.error f, rest) ↔ r.fault? = some f ∧ r.rest = rest := by
  rcases r with ⟨y, left, _ | g⟩ <;> simp [result]

theorem fault?_eq_some_iff {r : Received α} {f : Fault} : r.fault? = some f ↔ ∃ rest, r.result = (.error f, rest) := by
  simp [result_eq_error]

end Received

namespace Codec

open Decoder

variable {α β K V : Type}

/-! ## How receiving ends -/

/-- How receiving ends does not depend on what the place held before. -/
theorem result_receive (c : Codec α) (old : α) (bs : Bytes) : (c.receive old bs).result = c.decode bs := by
  induction c generalizing bs with
  | unit => rfl
  | bool | int32 | int64 | uint32 | uint64 | float | text | enumeration | error | value | option =>
    exact (Received.result_whole _ _).trans (Received.result_whole _ _).symm
  | bytes =>
    simp only [receive, decode, receiveBytes]
    rcases decodeWord bs with ⟨f | length, rest⟩ <;> rfl
  | list item =>
    simp only [receive, decode]
    rcases decodeWord bs with ⟨f | count, rest⟩ <;> rfl
  | map key content =>
    simp only [receive, decode]
    rcases decodeWord bs with ⟨f | count, rest⟩ <;> rfl
  | pair first second ihfirst ihsecond =>
    rw [decode_pair, bind_apply, ← ihfirst old.1 bs]
    simp only [receive]
    rcases first.receive old.1 bs with ⟨x, rest, _ | f⟩
    · simp only [Received.result, bind_apply]
      rw [← ihsecond old.2 rest]
      rcases second.receive old.2 rest with ⟨y, left, _ | f⟩ <;> rfl
    · rfl
  | layout l fields ih =>
    rw [decode_layout, map_apply, ← ih (l.fields old) bs]
    simp only [receive]
    rcases fields.receive (l.fields old) bs with ⟨x, rest, _ | f⟩ <;> rfl

theorem fault?_receive (c : Codec α) (old : α) (bs : Bytes) {f : Fault} :
    (c.receive old bs).fault? = some f ↔ ∃ rest, c.decode bs = (.error f, rest) := by
  rw [Received.fault?_eq_some_iff, result_receive]

/-- Two places of the same type are received into with the same result: both hold the same value in the end, which
is also that of a fresh place, or both fail with the same fault, and the same bytes are left. -/
theorem receive_forgets (c : Codec α) (a b : α) (bs : Bytes) :
    (∃ x rest, c.receive a bs = ⟨x, rest, none⟩ ∧ c.receive b bs = ⟨x, rest, none⟩ ∧
      c.decode bs = (.ok x, rest)) ∨
    ∃ f rest, ((c.receive a bs).fault? = some f ∧ (c.receive a bs).rest = rest) ∧
      ((c.receive b bs).fault? = some f ∧ (c.receive b bs).rest = rest) ∧ c.decode bs = (.error f, rest) := by
  have ha := c.result_receive a bs
  have hb := c.result_receive b bs
  rcases hdecode : c.decode bs with ⟨f | x, rest⟩ <;> rw [hdecode] at ha hb
  · exact .inr ⟨f, rest, Received.result_eq_error.1 ha, Received.result_eq_error.1 hb, rfl⟩
  · exact .inl ⟨x, rest, Received.result_eq_ok.1 ha, Received.result_eq_ok.1 hb, rfl⟩

/-! ## What is complete before a failure -/

/-- A list is left with the items before the failing one. -/
theorem receiveItems_fails_iff (item : Decoder α) (count : Nat) (bs : Bytes) (f : Fault) (xs : List α) :
    (receiveItems item count bs).fault? = some f ∧ (receiveItems item count bs).place = xs ↔
      xs.length < count ∧ ∃ mid, item.times xs.length bs = (.ok xs, mid) ∧ ∃ left, item mid = (.error f, left) := by
  induction count generalizing bs xs with
  | zero => simp [receiveItems]
  | succ count ih =>
    rw [receiveItems]
    rcases hitem : item bs with ⟨g | x, rest⟩ <;> dsimp only
    · -- nothing is complete if the first item fails
      cases xs with
      | nil => simp [times_zero_eq_ok, hitem]
      | cons y ys => simp [times_succ_eq_ok, hitem]
    · cases xs with
      | nil => simp [times_zero_eq_ok, hitem]
      | cons y ys =>
        have hrest := ih rest ys
        simp only [List.length_cons, times_succ_eq_ok, hitem, List.cons.injEq, Nat.add_lt_add_iff_right]
        grind

section Map

variable [Ord K] [Std.TransOrd K]

/-- These entries are complete, of `count` ones that go into the map, and no more: the next one fails with `f`, or
the last of them has a key that was there before it. -/
def Stops (entry : Decoder (K × V)) (count : Nat) (m : SortedMap K V) (entries : List (K × V)) (mid : Bytes)
    (f : Fault) : Prop :=
  (entries.length < count ∧ m.NewKeys entries ∧ ∃ left, entry mid = (.error f, left)) ∨
    (entries.length ≤ count ∧ m.NewKeys entries.dropLast ∧ ¬m.NewKeys entries ∧ f = .duplicateKey)

omit [Std.TransOrd K] in
theorem not_stops_zero {entry : Decoder (K × V)} {m : SortedMap K V} {entries : List (K × V)} {mid : Bytes}
    {f : Fault} : ¬Stops entry 0 m entries mid f := by
  rintro (⟨hlength, -⟩ | ⟨hlength, -, hrepeated, -⟩)
  · exact Nat.not_lt_zero _ hlength
  · rw [Nat.le_zero, List.length_eq_zero_iff] at hlength
    subst hlength
    exact hrepeated m.newKeys_nil

omit [Std.TransOrd K] in
theorem stops_nil_iff {entry : Decoder (K × V)} {count : Nat} {m : SortedMap K V} {mid : Bytes} {f : Fault} :
    Stops entry (count + 1) m [] mid f ↔ ∃ left, entry mid = (.error f, left) := by
  simp [Stops, m.newKeys_nil]

variable [Std.LawfulEqOrd K]

theorem stops_cons_iff {entry : Decoder (K × V)} {count : Nat} {m : SortedMap K V} {e : K × V}
    {entries : List (K × V)} {mid : Bytes} {f : Fault} :
    Stops entry (count + 1) m (e :: entries) mid f ↔
      if m.contains e.1 then entries = [] ∧ f = .duplicateKey
      else Stops entry count (m.insert e.1 e.2) entries mid f := by
  by_cases hknown : m.contains e.1
  · cases entries with
    | nil => simp [Stops, SortedMap.newKeys_cons_iff, hknown, m.newKeys_nil]
    | cons e' entries => simp [Stops, SortedMap.newKeys_cons_iff, hknown]
  · cases entries with
    | nil => simp [Stops, SortedMap.newKeys_cons_iff, hknown, SortedMap.newKeys_nil]
    | cons e' entries => simp [Stops, SortedMap.newKeys_cons_iff, hknown]

/-- Of `count` entries that go into `m` those that are complete make it `place`, and with `f` there are no more. -/
def StopsAt (entry : Decoder (K × V)) (count : Nat) (m : SortedMap K V) (bs : Bytes) (f : Fault)
    (place : SortedMap K V) : Prop :=
  ∃ entries mid, entry.times entries.length bs = (.ok entries, mid) ∧ place = m.insertAll entries ∧
    Stops entry count m entries mid f

omit [Std.LawfulEqOrd K] in
theorem stopsAt_of_error {entry : Decoder (K × V)} {count : Nat} {m : SortedMap K V} {bs rest : Bytes} {f g : Fault}
    {place : SortedMap K V} (h : entry bs = (.error g, rest)) :
    StopsAt entry (count + 1) m bs f place ↔ g = f ∧ m = place := by
  constructor
  · rintro ⟨_ | ⟨e, entries⟩, mid, htimes, rfl, hstops⟩
    · obtain rfl := times_zero_eq_ok.1 htimes
      obtain ⟨left, hleft⟩ := stops_nil_iff.1 hstops
      rw [h] at hleft
      cases hleft
      exact ⟨rfl, rfl⟩
    · obtain ⟨_, he, -⟩ := times_succ_eq_ok.1 htimes
      rw [h] at he
      cases he
  · rintro ⟨rfl, rfl⟩
    exact ⟨[], bs, times_zero_eq_ok.2 rfl, rfl, stops_nil_iff.2 ⟨rest, h⟩⟩

theorem stopsAt_of_ok {entry : Decoder (K × V)} {count : Nat} {m : SortedMap K V} {bs rest : Bytes} {e : K × V}
    {f : Fault} {place : SortedMap K V} (h : entry bs = (.ok e, rest)) :
    StopsAt entry (count + 1) m bs f place ↔
      if m.contains e.1 then f = .duplicateKey ∧ m.insert e.1 e.2 = place
      else StopsAt entry count (m.insert e.1 e.2) rest f place := by
  have hcons : StopsAt entry (count + 1) m bs f place ↔ ∃ entries mid,
      entry.times entries.length rest = (.ok entries, mid) ∧ place = (m.insert e.1 e.2).insertAll entries ∧
        Stops entry (count + 1) m (e :: entries) mid f := by
    constructor
    · rintro ⟨_ | ⟨e', entries⟩, mid, htimes, hplace, hstops⟩
      · obtain rfl := times_zero_eq_ok.1 htimes
        obtain ⟨left, hleft⟩ := stops_nil_iff.1 hstops
        rw [h] at hleft
        cases hleft
      · obtain ⟨_, he, hrest⟩ := times_succ_eq_ok.1 htimes
        rw [h] at he
        cases he
        exact ⟨entries, mid, hrest, hplace, hstops⟩
    · rintro ⟨entries, mid, htimes, hplace, hstops⟩
      exact ⟨e :: entries, mid, times_succ_eq_ok.2 ⟨rest, h, htimes⟩, hplace, hstops⟩
  rw [hcons]
  simp only [stops_cons_iff]
  split
  · constructor
    · rintro ⟨_, mid, -, rfl, rfl, rfl⟩
      exact ⟨rfl, rfl⟩
    · rintro ⟨rfl, rfl⟩
      exact ⟨[], rest, times_zero_eq_ok.2 rfl, rfl, rfl, rfl⟩
  · exact Iff.rfl

omit [Std.LawfulEqOrd K] in
/-- The entries of a map are received one after another. -/
theorem receiveEntries_succ (key : Codec K) (content : Codec V) (count : Nat) (m : SortedMap K V) (bs : Bytes) :
    receiveEntries key.decode content.decode (count + 1) m bs =
      match (pair key content).decode bs with
      | (.error f, rest) => ⟨m, rest, some f⟩
      | (.ok e, rest) =>
        if m.contains e.1 then ⟨m.insert e.1 e.2, rest, some .duplicateKey⟩
        else receiveEntries key.decode content.decode count (m.insert e.1 e.2) rest := by
  rw [receiveEntries, decode_pair, bind_apply]
  rcases key.decode bs with ⟨f | k, rest⟩
  · rfl
  · dsimp only
    rw [bind_apply]
    rcases content.decode rest with ⟨f | v, left⟩ <;> rfl

/-- A map is left with the complete entries, of which the last one may have replaced another. -/
theorem receiveEntries_fails_iff (key : Codec K) (content : Codec V) (count : Nat) (m : SortedMap K V) (bs : Bytes)
    (f : Fault) (place : SortedMap K V) :
    (receiveEntries key.decode content.decode count m bs).fault? = some f ∧
        (receiveEntries key.decode content.decode count m bs).place = place ↔
      StopsAt (pair key content).decode count m bs f place := by
  induction count generalizing m bs with
  | zero =>
    constructor
    · rintro ⟨hfault, -⟩
      cases hfault
    · rintro ⟨entries, mid, -, -, hstops⟩
      exact absurd hstops not_stops_zero
  | succ count ih =>
    rw [receiveEntries_succ]
    rcases hentry : (pair key content).decode bs with ⟨g | e, rest⟩ <;> dsimp only
    · rw [stopsAt_of_error hentry, Option.some.injEq]
    · rw [stopsAt_of_ok hentry]
      split
      · rw [Option.some.injEq, eq_comm (a := f)]
      · exact ih _ _

end Map

/-! ## What a failure leaves -/

/-- Receiving into a place that holds `old` fails with `f` and leaves `place` there. What is put in place only if it
is complete stays what it was. A byte string, a list and a map stay what they were as long as their length is not
known, and hold afterwards what was complete before the failure. Of a pair the first part may fail, or it is
received and the second one fails. -/
def Leaves : {α : Type} → Codec α → α → Bytes → Fault → α → Prop
  | _, bytes => fun old bs f place =>
    match decodeWord bs with
    | (.error g, _) => f = g ∧ place = old
    | (.ok length, data) => (∃ left, bytes.decode bs = (.error f, left)) ∧ place = data.take length.toNat
  | _, list item => fun old bs f place =>
    match decodeWord bs with
    | (.error g, _) => f = g ∧ place = old
    | (.ok count, data) => place.length < count.toNat ∧ ∃ mid,
      item.decode.times place.length data = (.ok place, mid) ∧ ∃ left, item.decode mid = (.error f, left)
  | _, map key content => fun old bs f place =>
    match decodeWord bs with
    | (.error g, _) => f = g ∧ place = old
    | (.ok count, data) => ∃ entries mid,
      (pair key content).decode.times entries.length data = (.ok entries, mid) ∧
        (∀ k v, (k, v) ∈ place.toList ↔ SortedMap.IsLast entries k v) ∧
        Stops (pair key content).decode count.toNat .empty entries mid f
  | _, pair first second => fun old bs f place =>
    (first.Leaves old.1 bs f place.1 ∧ place.2 = old.2) ∨
      ∃ rest, first.decode bs = (.ok place.1, rest) ∧ second.Leaves old.2 rest f place.2
  | _, layout l fields => fun old bs f place => fields.Leaves (l.fields old) bs f (l.fields place)
  | _, c => fun old bs f place => (∃ left, c.decode bs = (.error f, left)) ∧ place = old

theorem place_receiveBytes {old bs data : Bytes} {length : UInt32} (h : decodeWord bs = (.ok length, data)) :
    (receiveBytes old bs).place = data.take length.toNat := by
  rw [receiveBytes, h]
  dsimp only
  split
  · rcases decodePadding length.toNat (data.drop length.toNat) with ⟨f | u, left⟩ <;> rfl
  · rfl

/-- What is put in place only if it is complete stays what it was. -/
theorem fails_iff_of_whole {c : Codec α} {r : Bytes → Except Fault α × Bytes}
    (h : ∀ old bs, c.receive old bs = .whole old (r bs)) {old place : α} {bs : Bytes} {f : Fault} :
    (c.receive old bs).fault? = some f ∧ (c.receive old bs).place = place ↔
      (∃ left, c.decode bs = (.error f, left)) ∧ place = old := by
  have hdecode : c.decode bs = r bs := by rw [decode, h, Received.result_whole]
  rw [h, hdecode]
  rcases r bs with ⟨g | x, rest⟩ <;> simp [Received.whole, eq_comm]

/-- Receiving into a place fails, and leaves something there, just as it is said for the codec. -/
theorem receive_fails_iff (c : Codec α) (old : α) (bs : Bytes) (f : Fault) (place : α) :
    (c.receive old bs).fault? = some f ∧ (c.receive old bs).place = place ↔ c.Leaves old bs f place := by
  induction c generalizing bs with
  | unit => exact fails_iff_of_whole (r := fun bs => (.ok (), bs)) fun _ _ => rfl
  | bool | int32 | int64 | uint32 | uint64 | float | text | enumeration | error | value | option =>
    exact fails_iff_of_whole fun _ _ => rfl
  | bytes =>
    simp only [Leaves, ← fault?_receive bytes old bs]
    rcases hlength : decodeWord bs with ⟨g | length, data⟩ <;> dsimp only [receive]
    · rw [receiveBytes, hlength, Option.some.injEq, eq_comm (a := g), eq_comm (a := place)]
    · rw [place_receiveBytes hlength, eq_comm (a := place)]
  | list item ih =>
    simp only [Leaves, receive]
    rcases decodeWord bs with ⟨g | count, data⟩ <;> dsimp only
    · rw [Option.some.injEq, eq_comm (a := g), eq_comm (a := place)]
    · exact receiveItems_fails_iff item.decode count.toNat data f place
  | map key content ihkey ihcontent =>
    simp only [Leaves, receive]
    rcases decodeWord bs with ⟨g | count, data⟩ <;> dsimp only
    · rw [Option.some.injEq, eq_comm (a := g), eq_comm (a := place)]
    · simp only [← SortedMap.eq_insertAll_empty_iff]
      exact receiveEntries_fails_iff key content count.toNat .empty data f place
  | pair first second ihfirst ihsecond =>
    obtain ⟨x, y⟩ := place
    simp only [Leaves, ← ihfirst, ← ihsecond, ← first.result_receive old.1 bs, receive]
    rcases first.receive old.1 bs with ⟨x', rest, _ | g⟩
    · -- the first part is there, so what the second one comes to counts
      simp only [Received.result, Prod.mk.injEq, Except.ok.injEq, reduceCtorEq, false_and, false_or]
      constructor
      · rintro ⟨hfault, rfl, hplace⟩
        exact ⟨rest, ⟨rfl, rfl⟩, hfault, hplace⟩
      · rintro ⟨_, ⟨rfl, rfl⟩, hfault, hplace⟩
        exact ⟨hfault, rfl, hplace⟩
    · simp only [Received.result, Prod.mk.injEq, reduceCtorEq, false_and, exists_false, or_false, and_assoc,
        eq_comm (a := y)]
  | layout l fields ih =>
    have hbuild (x : _) : l.build x = place ↔ x = l.fields place :=
      ⟨fun h => by rw [← h, l.fields_build], fun h => by rw [h, l.build_fields]⟩
    simp only [Leaves, ← ih, receive, hbuild]

/-- A list whose second item is no boolean is left with the first one, and the number behind it is not touched. -/
example : (pair (list bool) uint32).receive ([true, true], 7) [0, 0, 0, 2, 0, 0, 0, 0, 0, 0, 0, 9] =
    ⟨([false], 7), [], some .badBool⟩ := rfl

end Codec

end RemoteCall
