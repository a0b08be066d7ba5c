import RemoteCall.Network
import RemoteCall.Network.Duplex
/-!
# A network in memory

Dials and accepts meet: a dial makes a connection once an accept waits, and hands its other end to the
accept that has waited longest. Dials wait in line, and only the first of them looks for accepts. An accept
that is given up with a connection in hand leaves it in the backlog, where the next accept to start finds
it. Connections made for accepts that were given up before are dropped again, and their numbers are used up.
-/

namespace RemoteCall

/-- A network in memory. -/
structure PipeNet where
  /-- How many bytes each direction of a connection holds. -/
  capacity : Nat
  closed : Bool
  /-- All connections ever made; the number of a connection is its place. -/
  connections : Array Duplex
  /-- How many ends of connections are held. -/
  live : Nat
  /-- Dials under way, the oldest first. -/
  dials : List Nat
  /-- Accepts that no dial has come to yet, the oldest first, also those given up. -/
  waiting : List Nat
  /-- Accepts under way, the oldest first, each with the connection that was handed to it. -/
  accepts : List (Nat × Option Nat)
  /-- Connections handed to accepts that were given up, the oldest first. -/
  backlog : List Nat
  nextTicket : Nat
deriving Inhabited

namespace PipeNet

def ofCapacity (capacity : Nat) : PipeNet :=
  ⟨capacity, false, #[], 0, [], [], [], [], 0⟩

/-- The capacity of a direction unless another is set. -/
def defaultCapacity : Nat := 64 * 1024

/-- Changes a connection. -/
def modify (p : PipeNet) (n : Nat) (f : Duplex → Duplex) : PipeNet :=
  { p with connections := p.connections.modify n f }

/-- Gives an end of a connection up. -/
def release (n : Nat) (s : Side) (p : PipeNet) : PipeNet :=
  match p.connections[n]? with
  | some d =>
    if d.isHeld s then { p.modify n (Duplex.release s) with live := p.live - 1 } else p
  | none => p

/-- An operation at an end of a connection; one that has to wait changes nothing. -/
def operate {α : Type} (n : Nat) (f : Duplex → Poll α × Duplex) (p : PipeNet) : Poll α × PipeNet :=
  match p.connections[n]? with
  | some d =>
    match f d with
    | (.pending, _) => (.pending, p)
    | (r, d) => (r, { p with connections := p.connections.set! n d })
  | none => (.failed .brokenPipe, p)

/-- An end of a connection. -/
def channel (s : Side) (n : Nat) : Channel PipeNet where
  read count := operate n ((Duplex.channel s).read count)
  write bs := operate n ((Duplex.channel s).write bs)
  flush p := (.ready (), p)
  shutdown := operate n (Duplex.channel s).shutdown
  release := release n s

/-- Makes a connection, and tells its number. -/
def connect (p : PipeNet) : Nat × PipeNet :=
  (p.connections.size,
    { p with connections := p.connections.push (.ofCapacity p.capacity), live := p.live + 2 })

/-- Makes a connection and drops both of its ends. -/
def skip (p : PipeNet) : PipeNet :=
  let (n, p) := p.connect
  release n .acceptor (release n .dialer p)

/-- Whether an accept is under way and has no connection yet. -/
def awaits (p : PipeNet) (ticket : Nat) : Bool :=
  p.accepts.any (fun a => a.1 == ticket && a.2.isNone)

/-- Hands a connection to an accept. -/
def deliver (p : PipeNet) (ticket n : Nat) : PipeNet :=
  { p with accepts := p.accepts.map (fun a => if a.1 = ticket then (a.1, some n) else a) }

def startDial (p : PipeNet) : Nat × PipeNet :=
  (p.nextTicket, { p with dials := p.dials ++ [p.nextTicket], nextTicket := p.nextTicket + 1 })

def dropDial (ticket : Nat) (p : PipeNet) : PipeNet :=
  { p with dials := p.dials.filter (· != ticket) }

/-- Takes the waiting accepts, the oldest first, up to the first that is still under way; a connection is
made for each, and kept by that one only. Accepts wait in an unbounded `mpsc` channel, which hands on what was sent
in the order of sending, and each for a `oneshot` channel of its own, which refuses a connection, and so has it
dropped, when the accept is gone. -/
def meet (p : PipeNet) : List Nat → Option Nat × PipeNet
  | [] => (none, { p with waiting := [] })
  | a :: rest =>
    if p.awaits a then
      let (n, p) := p.connect
      (some n, { p.deliver a n with waiting := rest })
    else p.skip.meet rest

def pollDial (ticket : Nat) (p : PipeNet) : Poll Nat × PipeNet :=
  if p.closed then (.failed .listenerClosed, p.dropDial ticket)
  else if p.dials.head? = some ticket then
    match p.meet p.waiting with
    | (some n, p) => (.ready n, p.dropDial ticket)
    | (none, p) => (.pending, p)
  else (.pending, p)

def startAccept (p : PipeNet) : Nat × PipeNet :=
  let ticket := p.nextTicket
  let p := { p with nextTicket := ticket + 1 }
  if p.closed then (ticket, p)
  else
    match p.backlog with
    | n :: rest => (ticket, { p with backlog := rest, accepts := p.accepts ++ [(ticket, some n)] })
    | [] => (ticket, { p with waiting := p.waiting ++ [ticket], accepts := p.accepts ++ [(ticket, none)] })

/-- Takes an accept off the list of those under way. -/
def forgetAccept (ticket : Nat) (p : PipeNet) : PipeNet :=
  { p with accepts := p.accepts.filter (fun a => a.1 != ticket) }

def pollAccept (ticket : Nat) (p : PipeNet) : Poll Nat × PipeNet :=
  match p.accepts.find? (fun a => a.1 == ticket) with
  | some (_, some n) => (.ready n, p.forgetAccept ticket)
  | _ => if p.closed then (.failed .listenerClosed, p.forgetAccept ticket) else (.pending, p)

def dropAccept (ticket : Nat) (p : PipeNet) : PipeNet :=
  let q := p.forgetAccept ticket
  match p.accepts.find? (fun a => a.1 == ticket) with
  | some (_, some n) => { q with backlog := q.backlog ++ [n] }
  | _ => q

/-- No dial and no accept gets through any more, and the backlog is dropped. -/
def close (p : PipeNet) : PipeNet :=
  let p := p.backlog.foldl (fun p n => release n .acceptor p) p
  { p with closed := true, backlog := [] }

/-- The address at which connections are accepted. -/
def address : String := "pipe"

/-- The name of a connection. -/
def peer (n : Nat) : String := s!"pipe:{n}"

/-- One line that names a connection. -/
def displayConnection (n : Nat) : String := s!"Connection \x7b peer: \"{peer n}\" \x7d"

def network : Network PipeNet where
  startDial := startDial
  pollDial := pollDial
  dropDial := dropDial
  startAccept := startAccept
  pollAccept := pollAccept
  dropAccept := dropAccept
  dialed := channel .dialer
  accepted := channel .acceptor
  peer := peer
  turnLength? := some 128

end PipeNet

end RemoteCall
