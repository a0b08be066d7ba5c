import RemoteCall.Bytes
/-!
# Values

What calls take and answer: a closed union of scalars, texts, byte strings, lists, maps, records and
application errors. Maps and records keep the order in which they were built, and a key may be any value.
-/

namespace RemoteCall

/-- The error that a method reports, or `nil`, which stands for no error. -/
structure AppError where
  message? : Option String
deriving DecidableEq, Repr, Inhabited

namespace AppError

def nil : AppError := ⟨none⟩

def ofMessage (message : String) : AppError := ⟨some message⟩

def isNil (e : AppError) : Bool := e.message?.isNone

/-- The text of an error; that of `nil` stands in angle brackets. -/
def display (e : AppError) : String := e.message?.getD "<nil>"

/-- An error other than `nil` is a failure. -/
def toExcept (e : AppError) : Except AppError Unit :=
  if e.isNil then .ok () else .error e

end AppError

/-- A number in the 64-bit binary format of IEEE 754, by its bits. -/
structure Double where
  bits : UInt64
deriving DecidableEq, Repr, Inhabited

namespace Double

/-- The value of the bit that tells the sign. -/
def signBit : Nat := 0x8000000000000000

/-- The bits without the sign. -/
def magnitude (x : Double) : Nat := x.bits.toNat % signBit

def isNegative (x : Double) : Bool := signBit ≤ x.bits.toNat

def isNaN (x : Double) : Bool := 0x7ff0000000000000 < x.magnitude

def isInfinite (x : Double) : Bool := x.magnitude == 0x7ff0000000000000

/-- Numerical equality: not-a-number equals nothing, and the two zeros are equal. -/
def equal (x y : Double) : Bool :=
  !x.isNaN && !y.isNaN && (x.bits == y.bits || x.magnitude == 0 && y.magnitude == 0)

end Double

/-- An argument or an answer of a call. -/
inductive Value
  | nil
  | bool (b : Bool)
  | int (n : Int64)
  | uint (n : UInt64)
  | float (x : Double)
  | text (s : String)
  | bytes (bs : Bytes)
  | list (items : List Value)
  | map (entries : List (Value × Value))
  | record (fields : List (String × Value))
  | error (e : AppError)
deriving Inhabited

namespace Value

/-- The sorts of values. -/
inductive Kind
  | nil | bool | int | uint | float | text | bytes | list | map | record | error
deriving DecidableEq, Repr, Inhabited

def Kind.name : Kind → String
  | nil => "nil"
  | bool => "bool"
  | int => "int"
  | uint => "uint"
  | float => "float"
  | text => "string"
  | bytes => "bytes"
  | list => "list"
  | map => "map"
  | record => "struct"
  | error => "error"

def kind : Value → Kind
  | nil => .nil
  | bool _ => .bool
  | int _ => .int
  | uint _ => .uint
  | float _ => .float
  | text _ => .text
  | bytes _ => .bytes
  | list _ => .list
  | map _ => .map
  | record _ => .record
  | error _ => .error

def isNil : Value → Bool
  | nil => true
  | _ => false

/-- The first field with this name; only records have fields. -/
def field? (name : String) : Value → Option Value
  | record fields => (fields.find? (fun f => f.1 == name)).map Prod.snd
  | _ => none

mutual

/-- Equality of values, in which floats compare as numbers. -/
def equal : Value → Value → Bool
  | nil, nil => true
  | bool a, bool b => a == b
  | int a, int b => a == b
  | uint a, uint b => a == b
  | float a, float b => a.equal b
  | text a, text b => a == b
  | bytes a, bytes b => a == b
  | list a, list b => equalItems a b
  | map a, map b => equalEntries a b
  | record a, record b => equalFields a b
  | error a, error b => a == b
  | _, _ => false

def equalItems : List Value → List Value → Bool
  | [], [] => true
  | a :: as, b :: bs => equal a b && equalItems as bs
  | _, _ => false

def equalEntries : List (Value × Value) → List (Value × Value) → Bool
  | [], [] => true
  | (k, a) :: as, (l, b) :: bs => equal k l && equal a b && equalEntries as bs
  | _, _ => false

def equalFields : List (String × Value) → List (String × Value) → Bool
  | [], [] => true
  | (k, a) :: as, (l, b) :: bs => k == l && equal a b && equalFields as bs
  | _, _ => false

end

mutual

/-- How many levels of values lie below the outermost one. -/
def depth : Value → Nat
  | list items => depthItems items
  | map entries => depthEntries entries
  | record fields => depthFields fields
  | _ => 0

def depthItems : List Value → Nat
  | [] => 0
  | v :: rest => max (depth v + 1) (depthItems rest)

def depthEntries : List (Value × Value) → Nat
  | [] => 0
  | (k, v) :: rest => max (max (depth k + 1) (depth v + 1)) (depthEntries rest)

def depthFields : List (String × Value) → Nat
  | [] => 0
  | (_, v) :: rest => max (depth v + 1) (depthFields rest)

end

end Value

end RemoteCall
