import RemoteCall.Bytes.Queue
import RemoteCall.Channel
/-!
# Duplex connections in memory

Two conduits of limited capacity, one in each direction. A reader gets what is there, and the end of the
stream only when all is read and the conduit is closed; a writer fills the room left and has to wait when
there is none. Who asks for no bytes or brings none does not wait. Each end counts its bytes, and giving an
end up closes both directions.
-/

namespace RemoteCall

/-- One direction: bytes written and not yet read. -/
structure Conduit where
  capacity : Nat
  queue : ByteQueue
  closed : Bool
deriving Repr, Inhabited

namespace Conduit

/-- The bytes written and not yet read. -/
def data (c : Conduit) : Bytes := c.queue.toList

def read (n : Nat) (c : Conduit) : Poll Bytes × Conduit :=
  if n = 0 then (.ready [], c)
  else if c.queue.size = 0 then (if c.closed then .ready [] else .pending, c)
  else
    let (bs, queue) := c.queue.pop n
    (.ready bs, { c with queue })

def write (bs : Bytes) (c : Conduit) : Poll Nat × Conduit :=
  if c.closed then (.failed .brokenPipe, c)
  else if bs.isEmpty then (.ready 0, c)
  else
    let room := c.capacity - c.queue.size
    if room = 0 then (.pending, c)
    else
      let piece := bs.take room
      (.ready piece.length, { c with queue := c.queue.push piece })

def close (c : Conduit) : Conduit := { c with closed := true }

end Conduit

/-- The two ends of a connection. -/
inductive Side
  | dialer
  | acceptor
deriving DecidableEq, Repr, Inhabited

def Side.other : Side → Side
  | dialer => acceptor
  | acceptor => dialer

/-- How many bytes an end has moved. -/
structure Traffic where
  received : Nat
  sent : Nat
deriving DecidableEq, Repr, Inhabited

/-- A connection in memory. -/
structure Duplex where
  /-- From the dialer to the acceptor. -/
  outbound : Conduit
  /-- From the acceptor to the dialer. -/
  inbound : Conduit
  /-- The traffic of the dialer's end, as long as it is held. -/
  dialer? : Option Traffic
  /-- The traffic of the acceptor's end, as long as it is held. -/
  acceptor? : Option Traffic
deriving Repr, Inhabited

namespace Duplex

def ofCapacity (capacity : Nat) : Duplex :=
  ⟨⟨capacity, .empty, false⟩, ⟨capacity, .empty, false⟩, some ⟨0, 0⟩, some ⟨0, 0⟩⟩

/-- The traffic of an end that is still held. -/
def traffic? (d : Duplex) : Side → Option Traffic
  | .dialer => d.dialer?
  | .acceptor => d.acceptor?

def isHeld (d : Duplex) (s : Side) : Bool := (d.traffic? s).isSome

/-- How many ends are held. -/
def heldEnds (d : Duplex) : Nat := (d.isHeld .dialer).toNat + (d.isHeld .acceptor).toNat

/-- Counts bytes at an end. -/
def count (d : Duplex) (s : Side) (received sent : Nat) : Duplex :=
  let add (t : Traffic) : Traffic := ⟨t.received + received, t.sent + sent⟩
  match s with
  | .dialer => { d with dialer? := d.dialer?.map add }
  | .acceptor => { d with acceptor? := d.acceptor?.map add }

/-- The conduit into which an end writes. -/
def writing (d : Duplex) : Side → Conduit
  | .dialer => d.outbound
  | .acceptor => d.inbound

/-- Changes the conduit into which an end writes. -/
def setWriting (d : Duplex) (s : Side) (c : Conduit) : Duplex :=
  match s with
  | .dialer => { d with outbound := c }
  | .acceptor => { d with inbound := c }

def read (s : Side) (n : Nat) (d : Duplex) : Poll Bytes × Duplex :=
  let (r, c) := (d.writing s.other).read n
  let d := d.setWriting s.other c
  match r with
  | .ready bs => (.ready bs, d.count s bs.length 0)
  | r => (r, d)

def write (s : Side) (bs : Bytes) (d : Duplex) : Poll Nat × Duplex :=
  let (r, c) := (d.writing s).write bs
  let d := d.setWriting s c
  match r with
  | .ready n => (.ready n, d.count s 0 n)
  | r => (r, d)

def shutdown (s : Side) (d : Duplex) : Duplex := d.setWriting s (d.writing s).close

/-- Gives an end up: neither direction takes bytes any more, and what is under way stays readable. -/
def release (s : Side) (d : Duplex) : Duplex :=
  let d := (d.setWriting s (d.writing s).close).setWriting s.other (d.writing s.other).close
  match s with
  | .dialer => { d with dialer? := none }
  | .acceptor => { d with acceptor? := none }

/-- An end of the connection. -/
def channel (s : Side) : Channel Duplex where
  read := read s
  write := write s
  flush d := (.ready (), d)
  shutdown d := (.ready (), d.shutdown s)
  release := release s

/-- What a counter of held ends shows that stood at `start` before the connection was made: it is a word, and
goes round. -/
def liveCount (start : UInt64) (d : Duplex) : UInt64 := start + UInt64.ofNat d.heldEnds

end Duplex

end RemoteCall
