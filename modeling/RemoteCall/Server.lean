import RemoteCall.Channel
/-!
# Accepting and closing

The state that all accept and close calls on one server share. One accept loop runs at a time: whoever holds
the lock runs, the others wait in line. A loop looks at the shutdown first, then at its own cancellation,
and only then asks its listener; a close call sets the shutdown at once and returns when it gets the lock. A
call takes its place in line with its first step, which may come later than the call was made.
-/

namespace RemoteCall

/-- A call on a server. -/
inductive ServerCall
  /-- Accepts connections until a token is cancelled. -/
  | accept (token : Nat)
  | close
deriving DecidableEq, Repr, Inhabited

/-- How far a call on a server has come. -/
inductive ServerCall.Phase
  /-- Has made no step yet. -/
  | called
  /-- Waits for the lock. -/
  | queued
  /-- Holds the lock and accepts. -/
  | accepting
  | returned (result : Except Fault Unit)

instance : Inhabited ServerCall.Phase := ⟨.called⟩

/-- What the calls on one server share. -/
structure ServerState where
  /-- Set by the first close call. -/
  shutdown : Bool
  /-- The cancelled tokens. -/
  cancelled : List Nat
  /-- All calls ever made. -/
  calls : Array (ServerCall × ServerCall.Phase)
  /-- The calls that hold or wait for the lock, its holder first. -/
  line : List Nat
deriving Inhabited

namespace ServerState

def initial : ServerState := ⟨false, [], #[], []⟩

/-- Makes a call, and tells its number. -/
def begin (s : ServerState) (call : ServerCall) : Nat × ServerState :=
  (s.calls.size, { s with calls := s.calls.push (call, .called) })

/-- Cancels a token. -/
def cancel (s : ServerState) (token : Nat) : ServerState := { s with cancelled := token :: s.cancelled }

def phase? (s : ServerState) (i : Nat) : Option ServerCall.Phase := s.calls[i]?.map Prod.snd

/-- The result of a call that has returned. -/
def result? (s : ServerState) (i : Nat) : Option (Except Fault Unit) :=
  match s.phase? i with
  | some (.returned r) => some r
  | _ => none

def setPhase (s : ServerState) (i : Nat) (p : ServerCall.Phase) : ServerState :=
  { s with calls := s.calls.modify i (fun c => (c.1, p)) }

/-- Puts a call in line for the lock; a close call sets the shutdown first. -/
def enter (s : ServerState) (i : Nat) (call : ServerCall) : ServerState :=
  { s.setPhase i .queued with shutdown := s.shutdown || call == .close, line := s.line ++ [i] }

/-- Whether a call accepts connections. -/
def isAccept (s : ServerState) (i : Nat) : Bool :=
  match s.calls[i]? with
  | some (.accept _, _) => true
  | _ => false

/-- Returns from a call and passes the lock on. -/
def finish (s : ServerState) (i : Nat) (r : Except Fault Unit) : ServerState :=
  { s.setPhase i (.returned r) with line := s.line.filter (· != i) }

/-- Whether a call gets the lock, if it waits for it. The lock is tokio's `Mutex`, which is documented to be
fair: it goes to those who wait in the order in which they asked for it. -/
def isNext (s : ServerState) (i : Nat) : Bool := s.line.head? == some i

/-- Whether the next step of a call asks its listener for a connection. -/
def asksListener (s : ServerState) (i : Nat) : Bool :=
  match s.calls[i]? with
  | some (.accept token, .accepting) => !s.shutdown && !s.cancelled.contains token
  | _ => false

/-- One step of a call, given what its listener answers; a connection that the listener gave is
dispatched. `none` if the call has returned or has to wait. -/
def step (s : ServerState) (i : Nat) (offer : Poll Nat) : Option (ServerState × Option Nat) :=
  match s.calls[i]? with
  | some (_, .returned _) | none => none
  | some (call, .called) => some (s.enter i call, none)
  | some (.close, _) => if s.isNext i then some (s.finish i (.ok ()), none) else none
  | some (.accept _, .queued) =>
    if s.isNext i then
      if s.shutdown then some (s.finish i (.ok ()), none) else some (s.setPhase i .accepting, none)
    else none
  | some (.accept token, .accepting) =>
    if s.shutdown || s.cancelled.contains token then some (s.finish i (.ok ()), none)
    else
      match offer with
      | .ready connection => some (s, some connection)
      | .failed f => some (s.finish i (.error f), none)
      | .pending => none

end ServerState

end RemoteCall
