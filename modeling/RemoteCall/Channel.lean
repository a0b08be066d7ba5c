import RemoteCall.Bytes
import RemoteCall.Fault
/-!
# Channels

A channel is one user's view of a byte stream that lives in some state: each operation either answers at
once or leaves the state as it is and has to be tried again later.
-/

namespace RemoteCall

/-- What one attempt at an operation answers. -/
inductive Poll (α : Type)
  | ready (a : α)
  | pending
  | failed (f : Fault)
deriving Inhabited

/-- The operations on a byte stream inside a state `σ`. -/
structure Channel (σ : Type) where
  /-- At most so many bytes; none at the end of the stream. -/
  read : Nat → σ → Poll Bytes × σ
  /-- How many of the bytes were taken. -/
  write : Bytes → σ → Poll Nat × σ
  flush : σ → Poll Unit × σ
  /-- Ends the bytes that go out. -/
  shutdown : σ → Poll Unit × σ
  /-- Gives the stream up. -/
  release : σ → σ

/-- The same operations on a part of a larger state. -/
def Channel.lift {σ τ : Type} (get : τ → σ) (set : σ → τ → τ) (c : Channel σ) : Channel τ where
  read n t := let (r, s) := c.read n (get t); (r, set s t)
  write bs t := let (r, s) := c.write bs (get t); (r, set s t)
  flush t := let (r, s) := c.flush (get t); (r, set s t)
  shutdown t := let (r, s) := c.shutdown (get t); (r, set s t)
  release t := set (c.release (get t)) t

end RemoteCall
