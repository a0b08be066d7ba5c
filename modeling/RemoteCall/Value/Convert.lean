import RemoteCall.Value
/-!
# Values and native types

`ToValue` turns what a method computes with into values, `FromValue` reads values back. Integers keep their
mathematical value or are refused, and an error given as an argument is passed on as it is.
-/

namespace RemoteCall

/-- Why a value cannot be read as a native type. -/
inductive Misfit
  | wrongKind (expected : String) (got : Value.Kind)
  | outOfRange (n : Int) (target : String)
deriving DecidableEq, Repr

def Misfit.message : Misfit → String
  | wrongKind expected got => s!"expected {expected}, got {got.name}"
  | outOfRange n target => s!"{n} out of range for {target}"

/-- A misfit as the error that a method reports. -/
def Misfit.toError (m : Misfit) : AppError := .ofMessage m.message

/-- A number of things that fit the memory of a machine of 64 bits. -/
structure Size where
  toUInt64 : UInt64
deriving DecidableEq, Repr

/-- Types whose elements are values. -/
class ToValue (α : Type) where
  toValue : α → Value

export ToValue (toValue)

/-- Types that values can be read as. -/
class FromValue (α : Type) where
  fromValue : Value → Except AppError α

export FromValue (fromValue)

namespace Value

/-- A list of anything that is a value. -/
def ofItems {α : Type} [ToValue α] (items : List α) : Value := .list (items.map toValue)

/-- A record of named fields. -/
def ofFields {α : Type} [ToValue α] (fields : List (String × α)) : Value :=
  .record (fields.map (fun f => (f.1, toValue f.2)))

end Value

section ToValue

instance : ToValue Value := ⟨id⟩
instance : ToValue Bool := ⟨.bool⟩
instance : ToValue Int32 := ⟨fun n => .int n.toInt64⟩
instance : ToValue Int64 := ⟨.int⟩
instance : ToValue UInt32 := ⟨fun n => .uint n.toUInt64⟩
instance : ToValue UInt64 := ⟨.uint⟩
instance : ToValue Size := ⟨fun n => .uint n.toUInt64⟩
instance : ToValue Double := ⟨.float⟩
instance : ToValue String := ⟨.text⟩
instance : ToValue Bytes := ⟨.bytes⟩
instance : ToValue (List Value) := ⟨.list⟩
instance : ToValue AppError := ⟨.error⟩

/-- What is absent is the nil value. -/
instance {α : Type} [ToValue α] : ToValue (Option α) where
  toValue
    | some x => toValue x
    | none => .nil

end ToValue

/-- The integer that a value holds, for a target with the given name. -/
def Value.integer (target : String) : Value → Except AppError Int
  | .int n => .ok n.toInt
  | .uint n => .ok n.toNat
  | .error e => .error e
  | v => .error (Misfit.wrongKind target v.kind).toError

/-- Refuses a number below `low` or from `bound` on. -/
def inRange (target : String) (low bound : Int) (n : Int) : Except AppError Int :=
  if low ≤ n ∧ n < bound then .ok n else .error (Misfit.outOfRange n target).toError

/-- An integer of 64 bits with a sign. -/
def Value.signed (v : Value) : Except AppError Int := do
  inRange "int" (-0x8000000000000000) 0x8000000000000000 (← v.integer "int")

/-- An integer of 64 bits without a sign. -/
def Value.unsigned (v : Value) : Except AppError Int := do
  inRange "uint" 0 0x10000000000000000 (← v.integer "uint")

/-- Any value but the expected one: an error as it is, all else as a misfit. -/
def Value.refuse {α : Type} (expected : String) : Value → Except AppError α
  | .error e => .error e
  | v => .error (Misfit.wrongKind expected v.kind).toError

section FromValue

instance : FromValue Bool where
  fromValue
    | .bool b => .ok b
    | v => v.refuse "bool"

instance : FromValue Int64 where
  fromValue v := return Int64.ofInt (← v.signed)

/-- The range of 64 bits is checked first, under its own name. -/
instance : FromValue Int32 where
  fromValue v := do
    let n ← inRange "i32" (-0x80000000) 0x80000000 (← v.signed)
    return Int32.ofInt n

instance : FromValue UInt64 where
  fromValue v := return UInt64.ofInt (← v.unsigned)

/-- The range of 64 bits is checked first, under its own name. -/
instance : FromValue UInt32 where
  fromValue v := do
    let n ← inRange "u32" 0 0x100000000 (← v.unsigned)
    return UInt32.ofInt n

/-- The range of 64 bits is checked first, and so the second check refuses nothing. -/
instance : FromValue Size where
  fromValue v := do
    let n ← inRange "usize" 0 0x10000000000000000 (← v.unsigned)
    return ⟨UInt64.ofInt n⟩

instance : FromValue Double where
  fromValue
    | .float x => .ok x
    | v => v.refuse "float"

instance : FromValue String where
  fromValue
    | .text s => .ok s
    | v => v.refuse "string"

instance : FromValue Bytes where
  fromValue
    | .bytes bs => .ok bs
    | v => v.refuse "bytes"

instance : FromValue (List Value) where
  fromValue
    | .list items => .ok items
    | v => v.refuse "list"

/-- A given error is the result here, not a failure, and nil stands for no error. -/
instance : FromValue AppError where
  fromValue
    | .error e => .ok e
    | .nil => .ok .nil
    | v => v.refuse "error"

end FromValue

end RemoteCall
