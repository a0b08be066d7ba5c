import RemoteCall.Codec.Encode
import RemoteCall.Codec.Decode
/-!
# Encodings and decoders in sequence

What two encodings write behind each other, and what two decoders read behind each other.
`Codec.decode` is defined by receiving into a place; the equations `decode_list`, `decode_map`,
`decode_pair` and so on say that, from a fresh place, it is the decoders of the parts one after
another. Everything about decoding rests on these equations.
-/

namespace RemoteCall

/-! ## Encodings -/

namespace Encoding

theorem toExcept_eq (e : Encoding) :
    e.toExcept = match e.fault? with
      | none => .ok e.bytes
      | some f => .error f := by
  rw [toExcept, bytes, writes, fault?]
  rcases run [e] [] with ⟨ws, _ | f⟩ <;> rfl

@[simp] theorem toExcept_empty : empty.toExcept = .ok [] := by
  simp [toExcept_eq, bytes]

@[simp] theorem toExcept_write (bs : Bytes) : (write bs).toExcept = .ok bs := by
  simp [toExcept_eq, bytes]

@[simp] theorem toExcept_fail (f : Fault) : (fail f).toExcept = .error f := by
  simp [toExcept_eq]

/-- An encoding behind another one: the first fault, or the bytes of both. -/
theorem toExcept_andThen (first next : Encoding) :
    (first.andThen next).toExcept = match first.toExcept, next.toExcept with
      | .error f, _ => .error f
      | .ok _, .error f => .error f
      | .ok a, .ok b => .ok (a ++ b) := by
  simp only [toExcept_eq, fault?_andThen, bytes, writes_andThen]
  cases first.fault? <;> cases next.fault? <;> simp

theorem toExcept_andThen_eq_ok {first next : Encoding} {bs : Bytes} :
    (first.andThen next).toExcept = .ok bs ↔
      ∃ a b, first.toExcept = .ok a ∧ next.toExcept = .ok b ∧ bs = a ++ b := by
  rw [toExcept_andThen]
  cases first.toExcept <;> cases next.toExcept <;> simp [eq_comm]

/-- How encodings are grouped does not matter. -/
theorem toExcept_andThen_assoc (a b c : Encoding) :
    ((a.andThen b).andThen c).toExcept = (a.andThen (b.andThen c)).toExcept := by
  simp only [toExcept_andThen]
  cases a.toExcept <;> cases b.toExcept <;> cases c.toExcept <;> simp

/-- A part of a sequence may be replaced by one that comes to the same. -/
theorem toExcept_andThen_congr {a a' b b' : Encoding} (ha : a.toExcept = a'.toExcept)
    (hb : b.toExcept = b'.toExcept) : (a.andThen b).toExcept = (a'.andThen b').toExcept := by
  rw [toExcept_andThen, toExcept_andThen, ha, hb]

@[simp] theorem each_nil {α : Type} (encode : α → Encoding) : each encode [] = empty := rfl

@[simp] theorem each_cons {α : Type} (encode : α → Encoding) (x : α) (xs : List α) :
    each encode (x :: xs) = (encode x).andThen (each encode xs) := rfl

end Encoding

/-! ## Decoders -/

namespace Decoder

variable {α β : Type}

theorem pure_apply (x : α) (bs : Bytes) : (pure x : Decoder α) bs = (.ok x, bs) := rfl

theorem bind_apply (d : Decoder α) (next : α → Decoder β) (bs : Bytes) :
    (d >>= next) bs = match d bs with
      | (.ok x, rest) => next x rest
      | (.error f, rest) => (.error f, rest) := rfl

theorem map_apply (d : Decoder α) (g : α → β) (bs : Bytes) :
    (g <$> d) bs = match d bs with
      | (.ok x, rest) => (.ok (g x), rest)
      | (.error f, rest) => (.error f, rest) := rfl

theorem fail_apply (f : Fault) (bs : Bytes) : (fail f : Decoder α) bs = (.error f, bs) := rfl

theorem pure_eq_ok {x y : α} {bs rest : Bytes} :
    (pure x : Decoder α) bs = (.ok y, rest) ↔ x = y ∧ bs = rest := by
  rw [pure_apply]
  simp

theorem bind_eq_ok {d : Decoder α} {next : α → Decoder β} {bs rest : Bytes} {y : β} :
    (d >>= next) bs = (.ok y, rest) ↔ ∃ x mid, d bs = (.ok x, mid) ∧ next x mid = (.ok y, rest) := by
  rw [bind_apply]
  rcases d bs with ⟨f | x, mid⟩ <;> grind

theorem map_eq_ok {d : Decoder α} {g : α → β} {bs rest : Bytes} {y : β} :
    (g <$> d) bs = (.ok y, rest) ↔ ∃ x, d bs = (.ok x, rest) ∧ g x = y := by
  rw [map_apply]
  rcases d bs with ⟨f | x, mid⟩ <;> grind

/-- A function on the result may be applied at the end. -/
theorem bind_map {γ : Type} (d : Decoder α) (next : α → Decoder β) (g : β → γ) :
    (d >>= fun x => g <$> next x) = g <$> (d >>= next) := by
  funext bs
  simp only [bind_apply, map_apply]
  rcases d bs with ⟨f | x, mid⟩ <;> rfl

end Decoder

/-! ## Receiving from a fresh place -/

@[simp] theorem Received.result_whole {α : Type} (old : α) (r : Except Fault α × Bytes) :
    (Received.whole old r).result = r := by
  rcases r with ⟨f | x, rest⟩ <;> rfl

namespace Codec

variable {α β K V : Type}

@[simp] theorem decode_unit : unit.decode = pure () := rfl

@[simp] theorem decode_bool : bool.decode = decodeBool := by
  funext bs
  exact Received.result_whole _ _

@[simp] theorem decode_int32 : int32.decode = UInt32.toInt32 <$> decodeWord := by
  funext bs
  exact Received.result_whole _ _

@[simp] theorem decode_int64 : int64.decode = UInt64.toInt64 <$> decodeLongWord := by
  funext bs
  exact Received.result_whole _ _

@[simp] theorem decode_uint32 : uint32.decode = decodeWord := by
  funext bs
  exact Received.result_whole _ _

@[simp] theorem decode_uint64 : uint64.decode = decodeLongWord := by
  funext bs
  exact Received.result_whole _ _

@[simp] theorem decode_float : float.decode = Double.mk <$> decodeLongWord := by
  funext bs
  exact Received.result_whole _ _

@[simp] theorem decode_bytes : bytes.decode = decodeBytes := rfl

@[simp] theorem decode_text : text.decode = decodeText := by
  funext bs
  exact Received.result_whole _ _

@[simp] theorem decode_error : error.decode = decodeError := by
  funext bs
  exact Received.result_whole _ _

@[simp] theorem decode_value : value.decode = decodeValue := by
  funext bs
  exact Received.result_whole _ _

/-- The variant that a number stands for, if there is one. -/
def decodeVariant (e : Enumeration α) : Decoder α := do
  let code ← decodeWord
  match e.variant? code.toInt32 with
  | some v => return v
  | none => .fail (.unknownVariant code.toInt32)

@[simp] theorem decode_enumeration (e : Enumeration α) : (enumeration e).decode = decodeVariant e := by
  funext bs
  exact Received.result_whole _ _

@[simp] theorem decode_option (item : Codec α) : (option item).decode = decodeOption item.decode := by
  funext bs
  exact Received.result_whole _ _

/-- Items that are received up to the first incomplete one are read one after another. -/
theorem result_receiveItems (item : Decoder α) (count : Nat) (bs : Bytes) :
    (receiveItems item count bs).result = item.times count bs := by
  induction count generalizing bs with
  | zero => rfl
  | succ count ih =>
    rw [receiveItems, Decoder.times, Decoder.bind_apply]
    rcases item bs with ⟨f | x, rest⟩
    · rfl
    · simp only [Decoder.bind_apply]
      rw [← ih rest]
      rcases receiveItems item count rest with ⟨place, left, _ | f⟩ <;> rfl

@[simp] theorem decode_list (item : Codec α) :
    (list item).decode = (do let count ← decodeWord; item.decode.times count.toNat) := by
  funext bs
  simp only [decode, receive, Decoder.bind_apply]
  rcases decodeWord bs with ⟨f | count, rest⟩
  · rfl
  · exact result_receiveItems _ _ _

section Map

variable [Ord K] [Std.TransOrd K] [Std.LawfulEqOrd K]

/-- So many entries into a map; a repeated key is refused. -/
def decodeEntries (key : Decoder K) (content : Decoder V) :
    Nat → SortedMap K V → Decoder (SortedMap K V)
  | 0, m => pure m
  | count + 1, m => do
    let k ← key
    let v ← content
    if m.contains k then .fail .duplicateKey else decodeEntries key content count (m.insert k v)

omit [Std.LawfulEqOrd K] in
theorem result_receiveEntries (key : Decoder K) (content : Decoder V) (count : Nat)
    (m : SortedMap K V) (bs : Bytes) :
    (receiveEntries key content count m bs).result = decodeEntries key content count m bs := by
  induction count generalizing m bs with
  | zero => rfl
  | succ count ih =>
    rw [receiveEntries, decodeEntries, Decoder.bind_apply]
    rcases key bs with ⟨f | k, rest⟩
    · rfl
    · simp only [Decoder.bind_apply]
      rcases content rest with ⟨f | v, left⟩
      · rfl
      · by_cases h : m.contains k
        · simp [h, Received.result, Decoder.fail_apply]
        · simp [h, ih]

@[simp] theorem decode_map (key : Codec K) (content : Codec V) :
    (map key content).decode =
      (do let count ← decodeWord; decodeEntries key.decode content.decode count.toNat .empty) := by
  funext bs
  simp only [decode, receive, Decoder.bind_apply]
  rcases decodeWord bs with ⟨f | count, rest⟩
  · rfl
  · exact result_receiveEntries _ _ _ _ _

end Map

@[simp] theorem decode_pair (first : Codec α) (second : Codec β) :
    (pair first second).decode =
      (do let x ← first.decode; let y ← second.decode; return (x, y)) := by
  funext bs
  simp only [decode, receive, initial, Decoder.bind_apply]
  rcases first.receive first.initial bs with ⟨x, rest, _ | f⟩
  · simp only [Received.result]
    rcases second.receive second.initial rest with ⟨y, left, _ | f⟩ <;> rfl
  · rfl

@[simp] theorem decode_layout (l : Layout α β) (fields : Codec β) :
    (layout l fields).decode = l.build <$> fields.decode := by
  funext bs
  -- the fresh place of a layout is built from the fresh places of its fields
  simp only [decode, receive, initial, l.fields_build, Decoder.map_apply]
  rcases fields.receive fields.initial bs with ⟨x, rest, _ | f⟩ <;> rfl

/-- A whole byte string is decoded if nothing is left of it. -/
theorem decodeWhole_eq_ok {c : Codec α} {bs : Bytes} {x : α} :
    c.decodeWhole bs = .ok x ↔ c.decode bs = (.ok x, []) := by
  unfold decodeWhole
  rcases c.decode bs with ⟨f | y, _ | ⟨b, rest⟩⟩ <;> simp

end Codec

end RemoteCall
