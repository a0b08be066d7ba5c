import RemoteCall.Client
import RemoteCall.Network
/-!
# Operations of a client

An operation dials, talks on the connection it got, and hands the connection or the reply to its caller.
Until then it can be cancelled at any moment, which gives the dial or the connection up; afterwards the
caller uses the connection and cancellation has no effect. Each operation dials at most once.
-/

namespace RemoteCall

/-- What ends an operation before it hands anything to its caller. -/
inductive Refusal
  | cancelled
  | fault (f : Fault)
deriving DecidableEq, Repr

def Refusal.toCallError : Refusal → CallError
  | cancelled => .cancelled
  | fault f => .ofFault f

/-- What an operation does: it talks until its caller takes over, who goes on to an answer. -/
structure Plan (σ α : Type) where
  talk : Attempt σ (Exchange σ α)
  refuse : Refusal → α

/-- How far an operation has come. -/
inductive Stage (σ α : Type)
  | idle (talk : Attempt σ (Exchange σ α))
  | dialing (ticket : Nat) (talk : Attempt σ (Exchange σ α))
  | talking (connection : Nat) (talk : Exchange σ (Except Fault (Exchange σ α)))
  /-- The caller has taken over. -/
  | returned (connection : Nat) (rest : Exchange σ α)
  | finished (answer : α)

/-- An operation under way. -/
structure Operation (σ α : Type) where
  stage : Stage σ α
  refuse : Refusal → α

namespace Operation

variable {σ ω α : Type}

def start (p : Plan σ α) : Operation σ α := ⟨.idle p.talk, p.refuse⟩

def answer? (o : Operation σ α) : Option α :=
  match o.stage with
  | .finished a => some a
  | _ => none

/-- Ends an operation early and gives up what it holds. -/
def stop (n : Network ω) (o : Operation σ α) (r : Refusal) (w : ω) (host : σ) :
    Operation σ α × ω × σ :=
  let o' := { o with stage := .finished (o.refuse r) }
  match o.stage with
  | .dialing ticket _ => (o', n.dropDial ticket w, host)
  | .talking connection talk => (o', (n.dialed connection).release w, talk.abandon host)
  | _ => (o', w, host)

/-- Whether cancelling still ends the operation. -/
def isCancellable (o : Operation σ α) : Bool :=
  match o.stage with
  | .idle _ | .dialing .. | .talking .. => true
  | .returned .. | .finished _ => false

/-- One step; `none` if the operation is finished or has to wait. -/
def step (n : Network ω) (cancelled : Bool) (o : Operation σ α) (w : ω) (host : σ) :
    Option (Operation σ α × ω × σ) :=
  if cancelled && o.isCancellable then some (o.stop n .cancelled w host)
  else
    match o.stage with
    | .idle talk =>
      let (ticket, w) := n.startDial w
      some ({ o with stage := .dialing ticket talk }, w, host)
    | .dialing ticket talk =>
      match n.pollDial ticket w with
      | (.ready connection, w) => some ({ o with stage := .talking connection talk.run }, w, host)
      | (.failed f, w) => some ({ o with stage := .finished (o.refuse (.fault f)) }, w, host)
      | (.pending, _) => none
    | .talking connection (.done (.ok rest)) =>
      some ({ o with stage := .returned connection rest }, w, host)
    | .talking _ (.done (.error f)) => some (o.stop n (.fault f) w host)
    | .talking connection talk =>
      (talk.step (n.dialed connection) w host).map fun (talk, w, host) =>
        ({ o with stage := .talking connection talk }, w, host)
    | .returned connection (.done a) =>
      some ({ o with stage := .finished a }, (n.dialed connection).release w, host)
    | .returned connection rest =>
      (rest.step (n.dialed connection) w host).map fun (rest, w, host) =>
        ({ o with stage := .returned connection rest }, w, host)
    | .finished _ => none

/-- At most `fuel` steps, until the operation is finished or has to wait; also tells whether it moved. -/
def run (n : Network ω) (cancelled : Bool) :
    Nat → Operation σ α → ω → σ → Bool → Operation σ α × ω × σ × Bool
  | 0, o, w, host, moved => (o, w, host, moved)
  | fuel + 1, o, w, host, moved =>
    match o.step n cancelled w host with
    | none => (o, w, host, moved)
    | some (o, w, host) => run n cancelled fuel o w host true

/-- What the operation has read so far of a stream it reads to the end. -/
def collected (o : Operation σ α) : Bytes :=
  match o.stage with
  | .returned _ rest => rest.collected
  | _ => []

/-- Gives up an operation that is not finished. -/
def abandon (n : Network ω) (o : Operation σ α) (w : ω) (host : σ) : ω × σ :=
  match o.stage with
  | .dialing ticket _ => (n.dropDial ticket w, host)
  | .talking connection talk => ((n.dialed connection).release w, talk.abandon host)
  | .returned connection rest => ((n.dialed connection).release w, rest.abandon host)
  | _ => (w, host)

end Operation

end RemoteCall
