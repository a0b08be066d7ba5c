import RemoteCall.Codec.Basic
import RemoteCall.Fault
/-!
# Encoding

Encoding a value is a sequence of writes that may end early with a fault. The writes are kept apart because
a destination of limited size takes the start of the write that it cannot hold. There is no limit on the
depth of what is encoded. `Encoding.writes` and `Encoding.fault?` are what can be seen of an encoding; their
equations say that `andThen` puts writes behind each other.
-/

namespace RemoteCall

/-- The writes that encoding makes, one after another, until a fault ends them early. -/
inductive Encoding
  | empty
  | write (bs : Bytes)
  | fail (f : Fault)
  /-- Goes on with `next`, unless a fault came before. -/
  | andThen (first next : Encoding)
deriving Inhabited

namespace Encoding

/-- The encodings of the items, one after another. -/
def each {α : Type} (encode : α → Encoding) (items : List α) : Encoding :=
  items.foldr (fun x e => (encode x).andThen e) empty

/-- How many nodes an encoding has. -/
def size : Encoding → Nat
  | andThen first next => first.size + next.size + 1
  | _ => 1

/-- How many nodes some encodings have together. -/
def totalSize : List Encoding → Nat
  | [] => 0
  | e :: es => e.size + totalSize es

theorem totalSize_lt_empty (es : List Encoding) : totalSize es < totalSize (empty :: es) := by
  simp only [totalSize, size]
  omega

theorem totalSize_lt_write (bs : Bytes) (es : List Encoding) :
    totalSize es < totalSize (write bs :: es) := by
  simp only [totalSize, size]
  omega

theorem totalSize_lt_andThen (first next : Encoding) (es : List Encoding) :
    totalSize (first :: next :: es) < totalSize (andThen first next :: es) := by
  simp only [totalSize, size]
  omega

/-- All writes of some encodings in a row, behind those made before, of which the last comes first; and the
fault that ended them early. -/
def run : List Encoding → List Bytes → List Bytes × Option Fault
  | [], made => (made.reverse, none)
  | empty :: rest, made => run rest made
  | write bs :: rest, made => run rest (bs :: made)
  | fail f :: _, made => (made.reverse, some f)
  | andThen first next :: rest, made => run (first :: next :: rest) made
termination_by es => totalSize es
decreasing_by
  · exact totalSize_lt_empty _
  · exact totalSize_lt_write _ _
  · exact totalSize_lt_andThen _ _ _

/-- The writes in order. -/
def writes (e : Encoding) : List Bytes := (run [e] []).1

/-- The fault that ended the writes early. -/
def fault? (e : Encoding) : Option Fault := (run [e] []).2

/-- Writes made earlier stand in front. -/
theorem run_append (es : List Encoding) (made earlier : List Bytes) :
    run es (made ++ earlier) = (earlier.reverse ++ (run es made).1, (run es made).2) := by
  fun_induction run es made with
  | case1 => simp [run]
  | case2 made es ih => rw [run, ih]
  | case3 made es bs ih =>
    rw [run]
    exact ih
  | case4 => simp [run]
  | case5 made es first next ih => rw [run, ih]

/-- The writes made before stand in front. -/
theorem run_eq (es : List Encoding) (made : List Bytes) :
    run es made = (made.reverse ++ (run es []).1, (run es []).2) :=
  run_append es [] made

@[simp] theorem writes_empty : empty.writes = [] := by simp [writes, run]

@[simp] theorem writes_write (bs : Bytes) : (write bs).writes = [bs] := by simp [writes, run]

@[simp] theorem writes_fail (f : Fault) : (fail f).writes = [] := by simp [writes, run]

@[simp] theorem fault?_empty : empty.fault? = none := by simp [fault?, run]

@[simp] theorem fault?_write (bs : Bytes) : (write bs).fault? = none := by simp [fault?, run]

@[simp] theorem fault?_fail (f : Fault) : (fail f).fault? = some f := by simp [fault?, run]

/-- A row of encodings goes on behind its first one, unless that ends with a fault. -/
theorem run_cons (e : Encoding) (rest : List Encoding) :
    run (e :: rest) [] =
      match e.fault? with
      | none => (e.writes ++ (run rest []).1, (run rest []).2)
      | some f => (e.writes, some f) := by
  induction e generalizing rest with
  | empty => simp [run]
  | write bs => simp [run, run_eq rest [bs]]
  | fail f => simp [run]
  | andThen first next ihf ihn =>
    have hw : (first.andThen next).writes = (run [first, next] []).1 := by rw [writes, run]
    have hf : (first.andThen next).fault? = (run [first, next] []).2 := by rw [fault?, run]
    rw [hw, hf, run, ihf, ihf, ihn, ihn]
    cases first.fault? <;> cases next.fault? <;> simp [run]

/-- What follows is written behind, unless a fault came before. -/
theorem writes_andThen (first next : Encoding) :
    (first.andThen next).writes =
      if first.fault?.isNone then first.writes ++ next.writes else first.writes := by
  rw [writes, run, run_cons]
  cases first.fault? <;> simp [writes]

/-- The first fault is told. -/
@[simp] theorem fault?_andThen (first next : Encoding) :
    (first.andThen next).fault? = first.fault?.or next.fault? := by
  rw [fault?, run, run_cons]
  cases first.fault? <;> simp [fault?]

/-- All bytes written, when the destination has room for them. -/
def bytes (e : Encoding) : Bytes := e.writes.flatten

/-- The bytes of an encoding that came to its end. -/
def toExcept (e : Encoding) : Except Fault Bytes :=
  match run [e] [] with
  | (writes, none) => .ok writes.flatten
  | (_, some f) => .error f

/-- Writes into a buffer of fixed size: a write larger than the room left fills the room and fails. -/
def intoBuffer (limit : Nat) (e : Encoding) : Bytes × Option Fault :=
  let (writes, fault?) := run [e] []
  go fault? limit [] writes
where
  /-- The writes before stand in `made`, the last one first. -/
  go (fault? : Option Fault) (room : Nat) (made : List Bytes) : List Bytes → Bytes × Option Fault
    | [] => (made.reverse.flatten, fault?)
    | w :: rest =>
      if w.length ≤ room then go fault? (room - w.length) (w :: made) rest
      else ((w.take room :: made).reverse.flatten, some .bufferFull)

end Encoding

namespace Codec

/-- A word of four bytes. -/
def encodeWord (n : UInt32) : Encoding := .write (bigEndian 4 n.toNat)

/-- A word of eight bytes. -/
def encodeLongWord (n : UInt64) : Encoding := .write (bigEndian 8 n.toNat)

/-- The number of items that follow. -/
def encodeCount (n : Nat) : Encoding :=
  if n < 0x100000000 then encodeWord (UInt32.ofNat n) else .fail .tooMany

def encodeBool (b : Bool) : Encoding := encodeWord (if b then 1 else 0)

/-- A byte string: its length, its bytes, and the padding where there is any. -/
def encodeBytes (bs : Bytes) : Encoding :=
  (encodeCount bs.length).andThen <| (Encoding.write bs).andThen <|
    if paddingLength bs.length = 0 then .empty
    else .write (List.replicate (paddingLength bs.length) 0)

def encodeText (s : String) : Encoding := encodeBytes (utf8 s)

def encodeOption {α : Type} (encode : α → Encoding) : Option α → Encoding
  | none => encodeBool false
  | some x => (encodeBool true).andThen (encode x)

def encodeError (e : AppError) : Encoding := encodeOption encodeText e.message?

/-- The number that tells the sorts of values apart. -/
def kindCode : Value.Kind → UInt32
  | .nil => 0
  | .bool => 1
  | .int => 2
  | .uint => 3
  | .float => 4
  | .text => 5
  | .bytes => 6
  | .list => 7
  | .map => 8
  | .record => 9
  | .error => 10

/-- A value's content behind the number of its sort. -/
def encodeKinded (v : Value) (content : Encoding) : Encoding :=
  (encodeWord (kindCode v.kind)).andThen content

mutual

/-- What follows the number of a value's sort. -/
def encodeContent : Value → Encoding
  | .nil => .empty
  | .bool b => encodeBool b
  | .int n => encodeLongWord n.toUInt64
  | .uint n => encodeLongWord n
  | .float x => encodeLongWord x.bits
  | .text s => encodeText s
  | .bytes bs => encodeBytes bs
  | .list items => (encodeCount items.length).andThen (encodeItems items)
  | .map entries => (encodeCount entries.length).andThen (encodeEntries entries)
  | .record fields => (encodeCount fields.length).andThen (encodeFields fields)
  | .error e => encodeError e

def encodeItems : List Value → Encoding
  | [] => .empty
  | v :: rest => (encodeKinded v (encodeContent v)).andThen (encodeItems rest)

def encodeEntries : List (Value × Value) → Encoding
  | [] => .empty
  | (k, v) :: rest =>
    (encodeKinded k (encodeContent k)).andThen <|
      (encodeKinded v (encodeContent v)).andThen (encodeEntries rest)

def encodeFields : List (String × Value) → Encoding
  | [] => .empty
  | (k, v) :: rest =>
    (encodeText k).andThen ((encodeKinded v (encodeContent v)).andThen (encodeFields rest))

end

/-- A value: the number of its sort, then its content. -/
def encodeValue (v : Value) : Encoding := encodeKinded v (encodeContent v)

/-- The wire form of a value of the codec's type. -/
def encode : {α : Type} → Codec α → α → Encoding
  | _, unit => fun _ => .empty
  | _, bool => encodeBool
  | _, int32 => fun n => encodeWord n.toUInt32
  | _, int64 => fun n => encodeLongWord n.toUInt64
  | _, uint32 => encodeWord
  | _, uint64 => encodeLongWord
  | _, float => fun x => encodeLongWord x.bits
  | _, bytes => encodeBytes
  | _, text => encodeText
  | _, enumeration e => fun v =>
    match int32? (e.code v) with
    | some n => encodeWord n.toUInt32
    | none => .fail .wideVariant
  | _, error => encodeError
  | _, value => encodeValue
  | _, list item => fun xs => (encodeCount xs.length).andThen (Encoding.each item.encode xs)
  | _, option item => encodeOption item.encode
  | _, map key content => fun m =>
    (encodeCount m.size).andThen
      (Encoding.each (fun e => (key.encode e.1).andThen (content.encode e.2)) m.toList)
  | _, pair first second => fun x => (first.encode x.1).andThen (second.encode x.2)
  | _, layout l fields => fun x => fields.encode (l.fields x)

end Codec

end RemoteCall
