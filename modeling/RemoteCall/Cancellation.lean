/-!
# Cancellation tokens

Tokens share flags: a copy of a token shares its flag, so cancelling one of them cancels all. A waiter is
woken when the flag of its token is set, and at once if it is set already.
-/

namespace RemoteCall

/-- Flags, the tokens that share them, and those who wait for a token. -/
structure Cancellations where
  flags : Array Bool
  /-- The flag of each token. -/
  tokens : Array Nat
  /-- The flag that each waiter waits for. -/
  waiters : Array Nat
deriving Repr, Inhabited

namespace Cancellations

def empty : Cancellations := ⟨#[], #[], #[]⟩

/-- A token with a flag of its own. -/
def add (c : Cancellations) : Cancellations :=
  { c with flags := c.flags.push false, tokens := c.tokens.push c.flags.size }

/-- A token that shares the flag of token `i`. -/
def copy (c : Cancellations) (i : Nat) : Cancellations :=
  match c.tokens[i]? with
  | some flag => { c with tokens := c.tokens.push flag }
  | none => c

def cancel (c : Cancellations) (i : Nat) : Cancellations :=
  match c.tokens[i]? with
  | some flag => { c with flags := c.flags.set! flag true }
  | none => c

/-- One more waiter on token `i`. -/
def wait (c : Cancellations) (i : Nat) : Cancellations :=
  match c.tokens[i]? with
  | some flag => { c with waiters := c.waiters.push flag }
  | none => c

def isSet (c : Cancellations) (flag : Nat) : Bool := c.flags[flag]?.getD false

/-- Which tokens are cancelled. -/
def cancelled (c : Cancellations) : List Bool := c.tokens.toList.map c.isSet

/-- Which waiters are woken. -/
def woken (c : Cancellations) : List Bool := c.waiters.toList.map c.isSet

end Cancellations

end RemoteCall
