import RemoteCall.Channel
/-!
# Networks

A network opens connections between a side that dials and a side that accepts. Dialing and accepting may
take several attempts; a ticket names the attempt under way, and a number the connection that comes of it.
-/

namespace RemoteCall

/-- The operations on a network inside a state `ω`. -/
structure Network (ω : Type) where
  /-- Starts to dial. -/
  startDial : ω → Nat × ω
  pollDial : Nat → ω → Poll Nat × ω
  /-- Gives up dialing. -/
  dropDial : Nat → ω → ω
  /-- Starts to accept. -/
  startAccept : ω → Nat × ω
  pollAccept : Nat → ω → Poll Nat × ω
  /-- Gives up accepting; no connection is lost by it. -/
  dropAccept : Nat → ω → ω
  /-- The end of a connection on the side that dialed. -/
  dialed : Nat → Channel ω
  /-- The end of a connection on the side that accepted. -/
  accepted : Nat → Channel ω
  /-- The name of a connection's other end. -/
  peer : Nat → String
  /-- How many transfers a side makes on its connection before others get their turn, if there is a limit. -/
  turnLength? : Option Nat

/-- The same network, where no dial gets through. -/
def Network.withoutRoute {ω : Type} (f : Fault) (n : Network ω) : Network ω where
  startDial w := (0, w)
  pollDial _ w := (.failed f, w)
  dropDial _ w := w
  startAccept := n.startAccept
  pollAccept := n.pollAccept
  dropAccept := n.dropAccept
  dialed := n.dialed
  accepted := n.accepted
  peer := n.peer
  turnLength? := n.turnLength?

end RemoteCall
