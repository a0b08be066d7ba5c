import RemoteCall.Exchange
import RemoteCall.Codec.Encode
import RemoteCall.Codec.Decode
/-!
# Messages

What the two sides say to each other: a tag that opens a connection, values in records of their own, and
the envelope of a call. A receiver reads a message and nothing behind it, so messages follow each other
without further separation and raw bytes may follow the last one.
-/

namespace RemoteCall

/-- What a connection is for, by its first byte. -/
inductive Tag
  | call
  | handshake
deriving DecidableEq, Repr, Inhabited

def Tag.code : Tag → UInt8
  | call => 1
  | handshake => 2

def Tag.ofCode? (code : UInt8) : Option Tag :=
  if code = 1 then some call else if code = 2 then some handshake else none

/-- A call: the qualified name of a method and the arguments. -/
structure Envelope where
  method : String
  arguments : List Value

/-- Equality of envelopes, in which floats compare as numbers. -/
def Envelope.equal (a b : Envelope) : Bool :=
  a.method == b.method && Value.equalItems a.arguments b.arguments

/-- The longest record that is taken unless another limit is set. -/
def defaultRecordLimit : Nat := 16 * 1024 * 1024

namespace Attempt

variable {σ α : Type}

def sendTag (tag : Tag) : Attempt σ Unit := send [tag.code]

def receiveTag : Attempt σ Tag := do
  let code ← receiveByte
  match Tag.ofCode? code with
  | some tag => return tag
  | none => throw (.unknownTag code)

/-- Sends some byte strings one after another. -/
def sendAll : List Bytes → Attempt σ Unit
  | [] => return
  | bs :: rest => do
    send bs
    sendAll rest

/-- Sends a value as one record; nothing is sent of a value that cannot be encoded. -/
def sendValue (c : Codec α) (x : α) : Attempt σ Unit := do
  match (c.encode x).toExcept with
  | .ok body =>
    sendAll (Record.fragments body)
    flush
  | .error f => throw f

/-- Receives one record and the value that it consists of. -/
def receiveValue (limit : Nat) (c : Codec α) : Attempt σ α := do
  let body ← receiveRecord limit
  match c.decodeWhole body with
  | .ok x => return x
  | .error f => throw f

/-- Sends a call: the tag, the name in a record, and the arguments in a record. -/
def sendCall (call : Envelope) : Attempt σ Unit := do
  sendTag .call
  sendValue .text call.method
  sendValue (.list .value) call.arguments

end Attempt

end RemoteCall
