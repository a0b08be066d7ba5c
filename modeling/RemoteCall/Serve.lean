import RemoteCall.Message
import RemoteCall.Registry
/-!
# Serving a connection

A server reads the tag of a connection, then either answers with its capabilities or looks a method up,
reads the arguments, and follows the class of the method. A request that breaks the protocol is not
answered. Nothing is read past the arguments before the method is invoked.
-/

namespace RemoteCall

/-- The size of the buffer through which streams are copied, unless another is set. -/
def defaultCopyBuffer : Nat := 32 * 1024

/-- What is needed to serve a connection. -/
structure Context (σ : Type) where
  /-- The address of the other end. -/
  peer : String
  registry : Registry σ
  recordLimit : Nat
  copyBuffer : Nat

/-- One line that names a context. -/
def Context.display {σ : Type} (c : Context σ) : String :=
  s!"rpc::Context \x7b client_addr: {Text.quote c.peer}, methods: {c.registry.size}, " ++
    s!"coder: Coder \x7b max_record_length: {c.recordLimit} \x7d, copy_buffer_size: {c.copyBuffer} \x7d"

/-- Why serving a connection failed. -/
inductive ServeError
  | fault (f : Fault)
  | methodNotFound (name : String)
deriving DecidableEq, Repr

def ServeError.message : ServeError → String
  | fault f => f.message
  | methodNotFound name => s!"method not found: {name}"

/-- One side of a connection on the server. -/
abbrev Serving (σ α : Type) : Type := ExceptT ServeError (Exchange σ) α

namespace Serving

variable {σ α : Type}

/-- Goes on unless there is a fault. -/
def attempt (a : Attempt σ α) : Serving σ α := a.adapt .fault

/-- Invokes a method: the host's state changes, and its verdict decides what follows. -/
def invoke {β : Type} (run : Arguments → σ → Verdict β × σ) (args : Arguments) :
    Serving σ (Except AppError β) :=
  .mk <| .consult
    (fun host =>
      match (run args host).1 with
      | .ok b => .done (.ok (.ok b))
      | .failed e => .done (.ok (.error e))
      | .never => .stall)
    (fun host => (run args host).2)

/-- Answers a handshake. -/
def handshake (ctx : Context σ) : Serving σ Unit := attempt do
  Attempt.sendValue Capabilities.codec ctx.registry.capabilities
  Attempt.shutdown

/-- The values of a normal method, or its error alone. -/
def replyValues : Except AppError (List Value) → List Value
  | .ok values => values
  | .error e => [.error e]

/-- Copies the connection into a sink and shuts the sink down in any case; a fault of the copy comes before
one of the shutdown. -/
def fill (ctx : Context σ) (sink : Channel σ) : Serving σ Unit :=
  .mk <| .drain sink [] ctx.copyBuffer fun copied =>
    .close sink fun closed =>
      .done <| match copied, closed with
        | .error f, _ => .error (.fault f)
        | .ok (), .error f => .error (.fault f)
        | .ok (), .ok () => .ok ()

/-- What follows the arguments of a call. -/
def respond (ctx : Context σ) (args : Arguments) : Handler σ → Serving σ Unit
  | .normal run => do
    let result ← invoke run args
    attempt do
      Attempt.sendValue (.list .value) (replyValues result)
      Attempt.shutdown
  | .read openSource => do
    match ← invoke openSource args with
    | .ok source =>
      attempt do
        Attempt.pour source ctx.copyBuffer
        Attempt.shutdown
    | .error _ => attempt Attempt.shutdown
  | .write openSink => do
    match ← invoke openSink args with
    | .ok sink => fill ctx sink
    | .error _ => return

/-- Answers a call. -/
def call (ctx : Context σ) : Serving σ Unit := do
  let name ← attempt (Attempt.receiveValue ctx.recordLimit .text)
  match ctx.registry.get? name with
  | none => throw (.methodNotFound name)
  | some method =>
    let values ← attempt (Attempt.receiveValue ctx.recordLimit (.list .value))
    respond ctx ⟨values⟩ method.handler

/-- Serves a connection to its end. -/
def connection (ctx : Context σ) : Serving σ Unit := do
  match ← attempt Attempt.receiveTag with
  | .handshake => handshake ctx
  | .call => call ctx

end Serving

end RemoteCall
