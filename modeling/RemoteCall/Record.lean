import RemoteCall.Bytes
import RemoteCall.Fault
/-!
# Records

A record carries one value. It is sent as fragments, each behind a header of four bytes that tells the
length of the fragment and, in its highest bit, whether it is the last one. A record is gathered piece by
piece, as its bytes arrive, and is refused as soon as a header announces more than is taken.
-/

namespace RemoteCall

namespace Record

/-- The most bytes that one fragment holds. -/
def maxFragment : Nat := 0x7fffffff

/-- What is added to the length of the last fragment in its header. -/
def lastMark : Nat := 0x80000000

/-- The header of a fragment. -/
def header (last : Bool) (length : Nat) : Bytes :=
  bigEndian 4 (length + if last then lastMark else 0)

/-- The fragments of a body with their headers; an empty body is one empty fragment. -/
def fragments (body : Bytes) : List Bytes :=
  if body.length ≤ maxFragment then [header true body.length, body]
  else header false maxFragment :: body.take maxFragment :: fragments (body.drop maxFragment)
termination_by body.length
decreasing_by
  have : 0 < maxFragment := by decide
  simp only [List.length_drop]
  omega

/-- The bytes of a record. -/
def frame (body : Bytes) : Bytes := (fragments body).flatten

/-- How far a record has been received; bodies are held with the last byte first. -/
inductive Gathering
  /-- The bytes of the next header that are there. -/
  | header (got : Bytes) (soFar : Bytes)
  /-- How many bytes of the current fragment are missing. -/
  | body (last : Bool) (missing : Nat) (soFar : Bytes)
deriving DecidableEq, Repr, Inhabited

/-- What more bytes make of a record. -/
inductive Gathered
  | more (g : Gathering)
  | complete (body : Bytes)
  /-- A header announced more than is taken; so many bytes would be there with it. -/
  | tooLong (length : Nat)
deriving DecidableEq, Repr

namespace Gathering

def start : Gathering := .header [] []

/-- How many bytes can be read without reading past the record. -/
def need : Gathering → Nat
  | header got _ => 4 - got.length
  | body _ missing _ => missing

/-- Goes on after a fragment. -/
def afterFragment (last : Bool) (soFar : Bytes) : Gathered :=
  if last then .complete soFar.reverse else .more (.header [] soFar)

/-- Adds bytes, at most as many as needed. -/
def feed (limit : Nat) (bs : Bytes) : Gathering → Gathered
  | header got soFar =>
    let got := got ++ bs
    if got.length < 4 then .more (.header got soFar)
    else
      let word := ofBigEndian got
      let last := decide (lastMark ≤ word)
      let length := word % lastMark
      if limit < soFar.length + length then .tooLong (soFar.length + length)
      else if length = 0 then afterFragment last soFar
      else .more (.body last length soFar)
  | body last missing soFar =>
    let soFar := bs.reverse ++ soFar
    if missing ≤ bs.length then afterFragment last soFar
    else .more (.body last (missing - bs.length) soFar)

end Gathering

end Record

end RemoteCall
