import RemoteCall.Channel
/-!
# Scripted streams

Streams whose behaviour is given beforehand: which bytes arrive and how they end, how many bytes move at
once, and after how many bytes a write fails. They remember what was done to them.
-/

namespace RemoteCall

/-- The most bytes that the `k`-th operation on a stream moves, if there is such a limit. -/
abbrev Chunking := Nat → Option Nat

/-- The part of some bytes that the `k`-th operation moves: as many as allowed. -/
def Chunking.piece (c : Chunking) (k : Nat) (bs : Bytes) : Bytes :=
  match c k with
  | none => bs
  | some most => bs.take most

/-- How many bytes the `k`-th operation moves when `n` are asked for. -/
def Chunking.count (c : Chunking) (k n : Nat) : Nat :=
  match c k with
  | none => n
  | some most => min n most

/-- What comes after the last byte of a supply. -/
inductive Ending
  | eof
  | silence
  | fault (f : Fault)
deriving Inhabited

/-- Bytes to be read and how they end. -/
structure Supply where
  data : Bytes
  ending : Ending
  chunking : Chunking
  /-- How many reads have moved bytes. -/
  reads : Nat

namespace Supply

/-- Plain data that is read in pieces of any size. -/
def ofBytes (data : Bytes) : Supply := ⟨data, .eof, fun _ => none, 0⟩

/-- A read that moves nothing finds the ending, though there may be data left. -/
def read (n : Nat) (s : Supply) : Poll Bytes × Supply :=
  match s.data.take (s.chunking.count s.reads n) with
  | [] =>
    match s.ending with
    | .eof => (.ready [], s)
    | .silence => (.pending, s)
    | .fault f => (.failed f, s)
  | bs => (.ready bs, { s with data := s.data.drop bs.length, reads := s.reads + 1 })

end Supply

/-- What takes written bytes, and what it took. -/
structure Intake where
  chunking : Chunking
  /-- How many more bytes are taken before writes fail. -/
  room : Option (Nat × Fault)
  shutdownFault? : Option Fault
  /-- The bytes taken so far, the last one first. -/
  takenRev : Bytes
  /-- How many writes have moved bytes. -/
  writes : Nat
  /-- How many bytes were taken since the last flush or shutdown. -/
  unflushed : Nat
  shutdowns : Nat
  released : Bool

namespace Intake

/-- Takes everything. -/
def unlimited : Intake := ⟨fun _ => none, none, none, [], 0, 0, 0, false⟩

/-- The bytes taken so far. -/
def taken (t : Intake) : Bytes := t.takenRev.reverse

/-- Takes some bytes, whatever the limits. -/
def take (t : Intake) (piece : Bytes) : Intake :=
  { t with
    takenRev := piece.reverse ++ t.takenRev
    writes := t.writes + 1
    unflushed := t.unflushed + piece.length }

def write (bs : Bytes) (t : Intake) : Poll Nat × Intake :=
  let piece := t.chunking.piece t.writes bs
  match t.room with
  | none => (.ready piece.length, t.take piece)
  | some (0, f) => (.failed f, t)
  | some (left + 1, f) =>
    let piece := piece.take (left + 1)
    (.ready piece.length, { t.take piece with room := some (left + 1 - piece.length, f) })

def flush (t : Intake) : Poll Unit × Intake := (.ready (), { t with unflushed := 0 })

def shutdown (t : Intake) : Poll Unit × Intake :=
  let t := { t with shutdowns := t.shutdowns + 1, unflushed := 0 }
  match t.shutdownFault? with
  | none => (.ready (), t)
  | some f => (.failed f, t)

/-- What is written goes into the intake; there is nothing to read. -/
def channel : Channel Intake where
  read _ t := (.ready [], t)
  write := write
  flush := flush
  shutdown := shutdown
  release t := { t with released := true }

end Intake

/-- One end of a connection whose other end follows a script. -/
structure Scripted where
  incoming : Supply
  outgoing : Intake
  /-- How many bytes were read. -/
  consumed : Nat

namespace Scripted

def ofSupply (s : Supply) : Scripted := ⟨s, .unlimited, 0⟩

/-- The bytes sent so far. -/
def sent (c : Scripted) : Bytes := c.outgoing.taken

def read (n : Nat) (c : Scripted) : Poll Bytes × Scripted :=
  match c.incoming.read n with
  | (.ready bs, s) => (.ready bs, { c with incoming := s, consumed := c.consumed + bs.length })
  | (r, s) => (r, { c with incoming := s })

def channel : Channel Scripted where
  read := read
  write bs c := let (r, t) := c.outgoing.write bs; (r, { c with outgoing := t })
  flush c := let (r, t) := c.outgoing.flush; (r, { c with outgoing := t })
  shutdown c := let (r, t) := c.outgoing.shutdown; (r, { c with outgoing := t })
  release c := { c with outgoing := { c.outgoing with released := true } }

end Scripted

/-- A queue of bytes that are written at its back and read from its front. -/
def queueChannel : Channel Bytes where
  read n q := (.ready (q.take n), q.drop n)
  write bs q := (.ready bs.length, q ++ bs)
  flush q := (.ready (), q)
  shutdown q := (.ready (), q)
  release q := q

end RemoteCall
