import RemoteCall.Codec.Basic
import RemoteCall.Fault
/-!
# Decoding

Decoding reads a value off the front of a byte string into a place that already holds a value, and ends
with that place, the bytes left, and the fault that stopped it, if any. Words, texts, options, values and
errors are put in place only when they are complete; byte strings, lists and maps are emptied once their
length is known and then grow; pairs and structures are received field by field.
-/

namespace RemoteCall

/-- Reads a result, or a fault, off the front of a byte string; the rest is left. -/
def Decoder (α : Type) : Type := Bytes → Except Fault α × Bytes

namespace Decoder

variable {α β : Type}

protected def pure (x : α) : Decoder α := fun bs => (.ok x, bs)

protected def bind (d : Decoder α) (next : α → Decoder β) : Decoder β := fun bs =>
  match d bs with
  | (.ok x, rest) => next x rest
  | (.error f, rest) => (.error f, rest)

instance : Monad Decoder where
  pure := Decoder.pure
  bind := Decoder.bind

def fail (f : Fault) : Decoder α := fun bs => (.error f, bs)

/-- The same decoder `count` times. -/
def times (d : Decoder α) : Nat → Decoder (List α)
  | 0 => pure []
  | count + 1 => do
    let x ← d
    let xs ← d.times count
    return x :: xs

end Decoder

/-- How receiving into a place ended: what the place holds, the bytes left, and what stopped it. -/
structure Received (α : Type) where
  place : α
  rest : Bytes
  fault? : Option Fault
deriving Inhabited

namespace Received

variable {α β : Type}

/-- A result that is put in place only if it is complete. -/
def whole (old : α) : Except Fault α × Bytes → Received α
  | (.ok x, rest) => ⟨x, rest, none⟩
  | (.error f, rest) => ⟨old, rest, some f⟩

/-- What was received, or what stopped it. -/
def result (r : Received α) : Except Fault α × Bytes :=
  match r.fault? with
  | none => (.ok r.place, r.rest)
  | some f => (.error f, r.rest)

end Received

namespace Codec

/-- A number of `width` bytes; a short one uses the input up. -/
def decodeNumber (width : Nat) : Decoder Nat := fun bs =>
  let word := bs.take width
  if word.length = width then (.ok (ofBigEndian word), bs.drop width) else (.error .shortWord, [])

def decodeWord : Decoder UInt32 := do
  return UInt32.ofNat (← decodeNumber 4)

def decodeLongWord : Decoder UInt64 := do
  return UInt64.ofNat (← decodeNumber 8)

def decodeBool : Decoder Bool := do
  match (← decodeWord).toNat with
  | 0 => return false
  | 1 => return true
  | _ => .fail .badBool

/-- The zero bytes that fill up `length` bytes. -/
def decodePadding (length : Nat) : Decoder Unit := fun bs =>
  let padding := bs.take (paddingLength length)
  if padding.length = paddingLength length then
    (if padding.all (· == 0) then .ok () else .error .dirtyPadding, bs.drop (paddingLength length))
  else (.error .shortWord, [])

/-- A byte string into its place, which is emptied once the length is known and keeps what was there to
read. -/
def receiveBytes (old : Bytes) (bs : Bytes) : Received Bytes :=
  match decodeWord bs with
  | (.error f, rest) => ⟨old, rest, some f⟩
  | (.ok length, rest) =>
    let got := rest.take length.toNat
    if got.length = length.toNat then
      match decodePadding length.toNat (rest.drop length.toNat) with
      | (.ok (), rest) => ⟨got, rest, none⟩
      | (.error f, rest) => ⟨got, rest, some f⟩
    else ⟨got, [], some (.shortBytes got.length length.toNat)⟩

def decodeBytes : Decoder Bytes := fun bs => (receiveBytes [] bs).result

def decodeText : Decoder String := do
  match utf8? (← decodeBytes) with
  | some s => return s
  | none => .fail .notUtf8

def decodeOption {α : Type} (d : Decoder α) : Decoder (Option α) := do
  if ← decodeBool then return some (← d) else return none

def decodeError : Decoder AppError := do
  return ⟨← decodeOption decodeText⟩

/-- The sort of value that a number stands for. -/
def kindOfCode? : Nat → Option Value.Kind
  | 0 => some .nil
  | 1 => some .bool
  | 2 => some .int
  | 3 => some .uint
  | 4 => some .float
  | 5 => some .text
  | 6 => some .bytes
  | 7 => some .list
  | 8 => some .map
  | 9 => some .record
  | 10 => some .error
  | _ => none

def decodeKind : Decoder Value.Kind := do
  let code ← decodeWord
  match kindOfCode? code.toNat with
  | some k => return k
  | none => .fail (.unknownVariant code.toInt32)

/-- What follows the number of a value's sort; `inner` reads the values one level below. -/
def decodeContent (inner : Decoder Value) : Value.Kind → Decoder Value
  | .nil => return .nil
  | .bool => return .bool (← decodeBool)
  | .int => return .int (← decodeLongWord).toInt64
  | .uint => return .uint (← decodeLongWord)
  | .float => return .float ⟨← decodeLongWord⟩
  | .text => return .text (← decodeText)
  | .bytes => return .bytes (← decodeBytes)
  | .list => do
    let count ← decodeWord
    return .list (← inner.times count.toNat)
  | .map => do
    let count ← decodeWord
    let entry : Decoder (Value × Value) := do
      let k ← inner
      let v ← inner
      return (k, v)
    return .map (← entry.times count.toNat)
  | .record => do
    let count ← decodeWord
    let field : Decoder (String × Value) := do
      let k ← decodeText
      let v ← inner
      return (k, v)
    return .record (← field.times count.toNat)
  | .error => return .error (← decodeError)

/-- A value of which at most `levels` levels are taken; one level more is refused before it is read. -/
def decodeLevels : Nat → Decoder Value
  | 0 => .fail (.tooDeep maxDepth)
  | levels + 1 => do
    let kind ← decodeKind
    decodeContent (decodeLevels levels) kind

def decodeValue : Decoder Value := decodeLevels (maxDepth + 1)

/-- Items one after another, up to the first that is not complete. -/
def receiveItems {α : Type} (item : Decoder α) : Nat → Bytes → Received (List α)
  | 0, bs => ⟨[], bs, none⟩
  | count + 1, bs =>
    match item bs with
    | (.error f, rest) => ⟨[], rest, some f⟩
    | (.ok x, rest) =>
      let more := receiveItems item count rest
      ⟨x :: more.place, more.rest, more.fault?⟩

/-- Entries one after another; a repeated key replaces its value and stops the map. -/
def receiveEntries {K V : Type} [Ord K] [Std.TransOrd K] (key : Decoder K) (content : Decoder V) :
    Nat → SortedMap K V → Bytes → Received (SortedMap K V)
  | 0, m, bs => ⟨m, bs, none⟩
  | count + 1, m, bs =>
    match key bs with
    | (.error f, rest) => ⟨m, rest, some f⟩
    | (.ok k, rest) =>
      match content rest with
      | (.error f, rest) => ⟨m, rest, some f⟩
      | (.ok v, rest) =>
        if m.contains k then ⟨m.insert k v, rest, some .duplicateKey⟩
        else receiveEntries key content count (m.insert k v) rest

/-- Decodes into a place that holds `old`. -/
def receive : {α : Type} → Codec α → α → Bytes → Received α
  | _, unit => fun old bs => ⟨old, bs, none⟩
  | _, bool => fun old bs => .whole old (decodeBool bs)
  | _, int32 => fun old bs => .whole old ((UInt32.toInt32 <$> decodeWord : Decoder Int32) bs)
  | _, int64 => fun old bs => .whole old ((UInt64.toInt64 <$> decodeLongWord : Decoder Int64) bs)
  | _, uint32 => fun old bs => .whole old (decodeWord bs)
  | _, uint64 => fun old bs => .whole old (decodeLongWord bs)
  | _, float => fun old bs => .whole old ((Double.mk <$> decodeLongWord : Decoder Double) bs)
  | _, bytes => receiveBytes
  | _, text => fun old bs => .whole old (decodeText bs)
  | _, enumeration e => fun old bs =>
    .whole old <| (do
      let n := (← decodeWord).toInt32
      match e.variant? n with
      | some v => return v
      | none => .fail (.unknownVariant n) : Decoder _) bs
  | _, error => fun old bs => .whole old (decodeError bs)
  | _, value => fun old bs => .whole old (decodeValue bs)
  | _, list item => fun old bs =>
    match decodeWord bs with
    | (.error f, rest) => ⟨old, rest, some f⟩
    | (.ok count, rest) =>
      receiveItems (fun bs => (item.receive item.initial bs).result) count.toNat rest
  | _, option item => fun old bs =>
    .whole old (decodeOption (fun bs => (item.receive item.initial bs).result) bs)
  | _, map key content => fun old bs =>
    match decodeWord bs with
    | (.error f, rest) => ⟨old, rest, some f⟩
    | (.ok count, rest) =>
      receiveEntries (fun bs => (key.receive key.initial bs).result)
        (fun bs => (content.receive content.initial bs).result) count.toNat .empty rest
  | _, pair first second => fun old bs =>
    let a := first.receive old.1 bs
    match a.fault? with
    | some f => ⟨(a.place, old.2), a.rest, some f⟩
    | none =>
      let b := second.receive old.2 a.rest
      ⟨(a.place, b.place), b.rest, b.fault?⟩
  | _, layout l fields => fun old bs =>
    let r := fields.receive (l.fields old) bs
    ⟨l.build r.place, r.rest, r.fault?⟩

/-- Decodes into a fresh place. -/
def decode {α : Type} (c : Codec α) : Decoder α := fun bs => (c.receive c.initial bs).result

/-- Decodes a byte string that holds one value and nothing else. -/
def decodeWhole {α : Type} (c : Codec α) (bs : Bytes) : Except Fault α :=
  match c.decode bs with
  | (.ok x, []) => .ok x
  | (.ok _, rest) => .error (.trailing rest.length)
  | (.error f, _) => .error f

end Codec

end RemoteCall
