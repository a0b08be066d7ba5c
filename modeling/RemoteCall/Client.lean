import RemoteCall.Message
import RemoteCall.CallClass
/-!
# Clients

A client learns the capabilities of a server once, in a handshake. Each call then has a connection of its
own; a method that is unknown, or called by another class than its own, is refused without one.
-/

namespace RemoteCall

/-- Why a call did not succeed. -/
inductive CallError
  | transport (f : Fault)
  /-- The other side does not follow the protocol. -/
  | protocol (message : String)
  | methodNotFound (name : String)
  | wrongClass (method : String) (expected actual : CallClass)
  | arityMismatch (method : String) (expected actual : Nat)
  /-- The error of the method itself. -/
  | application (e : AppError)
  | cancelled
deriving DecidableEq, Repr

namespace CallError

/-- Malformed data breaks the protocol; all other faults are the transport's. -/
def ofFault (f : Fault) : CallError :=
  if f.kind = .invalidData then protocol f.message else transport f

def message : CallError → String
  | transport f => s!"transport error: {f.message}"
  | protocol message => s!"protocol error: {message}"
  | methodNotFound name => s!"method not found: {name}"
  | wrongClass method expected actual =>
    s!"method {method} is a {actual.display} rpc, called as {expected.display}"
  | arityMismatch method expected actual => s!"method {method} returned {actual} values, expected {expected}"
  | application e => e.display
  | cancelled => "call cancelled"

end CallError

/-- What a client knows of its server. -/
structure Client where
  capabilities : Capabilities
  /-- The longest reply that is taken. -/
  recordLimit : Nat

namespace Client

variable {σ : Type}

/-- Asks a server for its capabilities. -/
def handshake (recordLimit : Nat) : Attempt σ Client := do
  Attempt.sendTag .handshake
  let capabilities ← Attempt.receiveValue recordLimit Capabilities.codec
  return ⟨capabilities, recordLimit⟩

def classOf? (c : Client) (method : String) : Option CallClass := c.capabilities.find? method

/-- Refuses a method that is not known under a class. -/
def expectClass (c : Client) (method : String) (expected : CallClass) : Except CallError Unit :=
  match c.classOf? method with
  | none => .error (.methodNotFound method)
  | some actual => if actual = expected then .ok () else .error (.wrongClass method expected actual)

/-- A call of a normal method: all values of its reply. -/
def callValues (c : Client) (method : String) (inputs : List Value) :
    Except CallError (Attempt σ (List Value)) := do
  c.expectClass method .normal
  return do
    Attempt.sendCall ⟨method, inputs⟩
    Attempt.receiveValue c.recordLimit (.list .value)

/-- The error that ends a reply, unless it is nil. -/
def failure? (values : List Value) : Option AppError :=
  match values.getLast? with
  | some (.error e) => if e.isNil then none else some e
  | _ => none

/-- Writes values into places, one after another. -/
def assign : List Value → List Value → List Value
  | _ :: places, v :: vs => v :: assign places vs
  | places, _ => places

/-- What a call does that has places for the values of the reply, once all values are there or an error instead
of them. The error that ends the reply is the call's; if there is none, there have to be as many values as
places, which are written last. -/
def fill (method : String) (reply : Except CallError (List Value)) :
    ExceptT CallError (StateM (List Value)) Unit := do
  let values ← MonadExcept.ofExcept reply
  if let some e := failure? values then throw (.application e)
  let places ← get
  unless values.length = places.length do
    throw (.arityMismatch method places.length values.length)
  modify (assign · values)

/-- A call of a method that sends bytes: they follow on the connection. -/
def callRead (c : Client) (method : String) (inputs : List Value) : Except CallError (Attempt σ Unit) := do
  c.expectClass method .readStream
  return do
    Attempt.sendCall ⟨method, inputs⟩
    Attempt.shutdown

/-- A call of a method that takes bytes: they are to be written to the connection. -/
def callWrite (c : Client) (method : String) (inputs : List Value) : Except CallError (Attempt σ Unit) := do
  c.expectClass method .writeStream
  return Attempt.sendCall ⟨method, inputs⟩

end Client

end RemoteCall
