import RemoteCall.Channel.Scripted
import RemoteCall.Record
/-!
# Exchanges

An `Exchange σ α` is what one side does on one connection until it has an answer of type `α`; `σ` is the
state of the host, which methods and sinks act on. An exchange is a tree of operations, each with what
follows its result, and `Exchange.step` is its semantics: one attempt at one operation, which moves the
exchange, the connection and the host, or has to wait. The operations that take long (records, copies) carry
their own progress, so every step moves at least one byte or comes to the next operation.
-/

namespace RemoteCall

/-- What one side does on a connection. -/
inductive Exchange (σ α : Type) : Type
  | done (answer : α)
  /-- Waits for what never comes. -/
  | stall
  /-- Asks the host for what to do next, and changes it. -/
  | consult (next : σ → Exchange σ α) (update : σ → σ)
  | receiveByte (next : Except Fault UInt8 → Exchange σ α)
  | receiveRecord (limit : Nat) (soFar : Record.Gathering) (next : Except Fault Bytes → Exchange σ α)
  | send (left : Bytes) (next : Except Fault Unit → Exchange σ α)
  | flush (next : Except Fault Unit → Exchange σ α)
  | shutdown (next : Except Fault Unit → Exchange σ α)
  /-- Copies a source onto the connection; `held` was read and not yet written. -/
  | pour (source : Supply) (held : Bytes) (capacity : Nat) (next : Except Fault Unit → Exchange σ α)
  /-- Copies the connection into a sink; `held` was read and not yet written. -/
  | drain (sink : Channel σ) (held : Bytes) (capacity : Nat) (next : Except Fault Unit → Exchange σ α)
  /-- Shuts a sink down and gives it up. -/
  | close (sink : Channel σ) (next : Except Fault Unit → Exchange σ α)
  /-- Reads to the end; what was read so far is held with the last byte first. -/
  | collect (soFar : Bytes) (next : Except Fault Unit → Bytes → Exchange σ α)

namespace Exchange

variable {σ ω α β : Type}

/-- Goes on with what the answer decides. -/
protected def bind : Exchange σ α → (α → Exchange σ β) → Exchange σ β
  | done a, f => f a
  | stall, _ => stall
  | consult next update, f => consult (fun s => (next s).bind f) update
  | receiveByte next, f => receiveByte (fun r => (next r).bind f)
  | receiveRecord limit soFar next, f => receiveRecord limit soFar (fun r => (next r).bind f)
  | send left next, f => send left (fun r => (next r).bind f)
  | flush next, f => flush (fun r => (next r).bind f)
  | shutdown next, f => shutdown (fun r => (next r).bind f)
  | pour source held capacity next, f => pour source held capacity (fun r => (next r).bind f)
  | drain sink held capacity next, f => drain sink held capacity (fun r => (next r).bind f)
  | close sink next, f => close sink (fun r => (next r).bind f)
  | collect soFar next, f => collect soFar (fun r bs => (next r bs).bind f)

instance : Monad (Exchange σ) where
  pure := done
  bind := Exchange.bind

/-- How many bytes are asked for at a time when a stream is read to its end. -/
def collectSize : Nat := 32768

/-- Goes on with the result of an attempt, unless it has to wait. -/
def settle (next : Except Fault β → Exchange σ α) (host : σ) :
    Poll β × ω → Option (Exchange σ α × ω × σ)
  | (.ready b, conn) => some (next (.ok b), conn, host)
  | (.failed f, conn) => some (next (.error f), conn, host)
  | (.pending, _) => none

/-- One attempt at the next operation; `none` if there is none or it has to wait. Copies (`pour`, `drain`) go as
tokio's `copy_buf` is documented to go from a `BufReader` of some capacity: what one read brought is written until
nothing of it is left, then comes the next read; a write that takes nothing is a fault, and at the end of what is
read the other side is flushed. -/
def step (c : Channel ω) : Exchange σ α → ω → σ → Option (Exchange σ α × ω × σ)
  | done _, _, _ => none
  | stall, _, _ => none
  | consult next update, conn, host => some (next host, conn, update host)
  | receiveByte next, conn, host =>
    match c.read 1 conn with
    | (.ready [], conn) => some (next (.error .missingTag), conn, host)
    | (.ready (b :: _), conn) => some (next (.ok b), conn, host)
    | (.failed f, conn) => some (next (.error f), conn, host)
    | (.pending, _) => none
  | receiveRecord limit soFar next, conn, host =>
    match c.read soFar.need conn with
    | (.ready [], conn) => some (next (.error .earlyEof), conn, host)
    | (.ready bs, conn) =>
      match soFar.feed limit bs with
      | .more soFar => some (receiveRecord limit soFar next, conn, host)
      | .complete body => some (next (.ok body), conn, host)
      | .tooLong length => some (next (.error (.recordTooLong length limit)), conn, host)
    | (.failed f, conn) => some (next (.error f), conn, host)
    | (.pending, _) => none
  | send [] next, conn, host => some (next (.ok ()), conn, host)
  | send (b :: bs) next, conn, host =>
    match c.write (b :: bs) conn with
    | (.ready 0, conn) => some (next (.error .writeZero), conn, host)
    | (.ready n, conn) => some (send ((b :: bs).drop n) next, conn, host)
    | (.failed f, conn) => some (next (.error f), conn, host)
    | (.pending, _) => none
  | flush next, conn, host => settle next host (c.flush conn)
  | shutdown next, conn, host => settle next host (c.shutdown conn)
  | pour source [] capacity next, conn, host =>
    match source.read capacity with
    | (.ready [], _) => settle next host (c.flush conn)
    | (.ready bs, source) => some (pour source bs capacity next, conn, host)
    | (.failed f, _) => some (next (.error f), conn, host)
    | (.pending, _) => none
  | pour source (b :: bs) capacity next, conn, host =>
    match c.write (b :: bs) conn with
    | (.ready 0, conn) => some (next (.error .writeZero), conn, host)
    | (.ready n, conn) => some (pour source ((b :: bs).drop n) capacity next, conn, host)
    | (.failed f, conn) => some (next (.error f), conn, host)
    | (.pending, _) => none
  | drain sink [] capacity next, conn, host =>
    match c.read capacity conn with
    | (.ready [], conn) =>
      match sink.flush host with
      | (.ready (), host) => some (next (.ok ()), conn, host)
      | (.failed f, host) => some (next (.error f), conn, host)
      | (.pending, _) => none
    | (.ready bs, conn) => some (drain sink bs capacity next, conn, host)
    | (.failed f, conn) => some (next (.error f), conn, host)
    | (.pending, _) => none
  | drain sink (b :: bs) capacity next, conn, host =>
    match sink.write (b :: bs) host with
    | (.ready 0, host) => some (next (.error .writeZero), conn, host)
    | (.ready n, host) => some (drain sink ((b :: bs).drop n) capacity next, conn, host)
    | (.failed f, host) => some (next (.error f), conn, host)
    | (.pending, _) => none
  | close sink next, conn, host =>
    match sink.shutdown host with
    | (.ready (), host) => some (next (.ok ()), conn, sink.release host)
    | (.failed f, host) => some (next (.error f), conn, sink.release host)
    | (.pending, _) => none
  | collect soFar next, conn, host =>
    match c.read collectSize conn with
    | (.ready [], conn) => some (next (.ok ()) soFar.reverse, conn, host)
    | (.ready bs, conn) => some (collect (bs.reverse ++ soFar) next, conn, host)
    | (.failed f, conn) => some (next (.error f) soFar.reverse, conn, host)
    | (.pending, _) => none

/-- Whether the next step reads from the connection or writes to it. -/
def isTransfer : Exchange σ α → Bool
  | receiveByte _ | receiveRecord .. | collect .. => true
  | send left _ => !left.isEmpty
  | pour _ held _ _ => !held.isEmpty
  | drain _ held _ _ => held.isEmpty
  | _ => false

/-- At most `fuel` steps, until the exchange is done or has to wait. -/
def run (c : Channel ω) : Nat → Exchange σ α → ω → σ → Exchange σ α × ω × σ
  | 0, e, conn, host => (e, conn, host)
  | fuel + 1, e, conn, host =>
    match e.step c conn host with
    | none => (e, conn, host)
    | some (e, conn, host) => run c fuel e conn host

/-- The answer of an exchange that is done. -/
def answer? : Exchange σ α → Option α
  | done a => some a
  | _ => none

/-- What an exchange that reads to the end has read so far. -/
def collected : Exchange σ α → Bytes
  | collect soFar _ => soFar.reverse
  | _ => []

/-- Gives up what an exchange holds of the host. -/
def abandon : Exchange σ α → σ → σ
  | drain sink _ _ _, host => sink.release host
  | close sink _, host => sink.release host
  | _, host => host

end Exchange

/-- An exchange that may end with a fault, and then does no more. -/
abbrev Attempt (σ α : Type) : Type := ExceptT Fault (Exchange σ) α

namespace Attempt

variable {σ : Type}

def receiveByte : Attempt σ UInt8 := .mk (.receiveByte .done)

def receiveRecord (limit : Nat) : Attempt σ Bytes := .mk (.receiveRecord limit .start .done)

def send (bs : Bytes) : Attempt σ Unit := .mk (.send bs .done)

def flush : Attempt σ Unit := .mk (.flush .done)

def shutdown : Attempt σ Unit := .mk (.shutdown .done)

/-- Copies all of a source onto the connection, through a buffer of the given capacity. -/
def pour (source : Supply) (capacity : Nat) : Attempt σ Unit := .mk (.pour source [] capacity .done)

end Attempt

end RemoteCall
