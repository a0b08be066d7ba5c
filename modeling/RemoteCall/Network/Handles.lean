import RemoteCall.Network
/-!
# Handles

Dials and accepts under way, and the ends of connections that come of them, under names. An attempt that
succeeds leaves its end of the connection under its name, one that fails is forgotten.
-/

namespace RemoteCall

/-- What a name stands for. -/
inductive Handle
  | dial (ticket : Nat)
  | accept (ticket : Nat)
  /-- The end of the side that dialed. -/
  | dialed (connection : Nat)
  /-- The end of the side that accepted. -/
  | accepted (connection : Nat)
deriving DecidableEq, Repr, Inhabited

/-- A network with named attempts and ends of connections. -/
structure Handles (ω : Type) where
  network : Network ω
  world : ω
  held : List (String × Handle)

namespace Handles

variable {ω : Type}

def find? (h : Handles ω) (name : String) : Option Handle := h.held.lookup name

def forget (h : Handles ω) (name : String) : Handles ω :=
  { h with held := h.held.filter (·.1 != name) }

/-- Lets a name stand for something else. -/
def set (h : Handles ω) (name : String) (handle : Handle) : Handles ω :=
  { h with held := (name, handle) :: (h.forget name).held }

/-- The end of a connection that a name stands for. -/
def channel? (h : Handles ω) (name : String) : Option (Channel ω) :=
  match h.find? name with
  | some (.dialed n) => some (h.network.dialed n)
  | some (.accepted n) => some (h.network.accepted n)
  | _ => none

/-- Takes over what came of an attempt. -/
def resolve (h : Handles ω) (name : String) (handle : Nat → Handle) (result : Poll Nat × ω) :
    Poll Nat × Handles ω :=
  let h := { h with world := result.2 }
  match result.1 with
  | .ready n => (.ready n, h.set name (handle n))
  | .failed f => (.failed f, h.forget name)
  | .pending => (.pending, h)

/-- One more try at an attempt; `none` if the name stands for no attempt. -/
def poll (h : Handles ω) (name : String) : Option (Poll Nat) × Handles ω :=
  match h.find? name with
  | some (.dial ticket) =>
    let (r, h) := h.resolve name .dialed (h.network.pollDial ticket h.world)
    (some r, h)
  | some (.accept ticket) =>
    let (r, h) := h.resolve name .accepted (h.network.pollAccept ticket h.world)
    (some r, h)
  | _ => (none, h)

/-- Gives up what a name stands for; `none` if it stands for nothing. -/
def drop (h : Handles ω) (name : String) : Option (Handles ω) :=
  (h.find? name).map fun handle =>
    let world := match handle with
      | .dial ticket => h.network.dropDial ticket h.world
      | .accept ticket => h.network.dropAccept ticket h.world
      | .dialed n => (h.network.dialed n).release h.world
      | .accepted n => (h.network.accepted n).release h.world
    { h.forget name with world }

/-- Starts to dial, with a first try; what had the name before is given up. -/
def dial (h : Handles ω) (name : String) : Option (Poll Nat) × Handles ω :=
  let h := (h.drop name).getD h
  let (ticket, world) := h.network.startDial h.world
  ({ h with world }.set name (.dial ticket)).poll name

/-- Starts to accept, with a first try; what had the name before is given up. -/
def accept (h : Handles ω) (name : String) : Option (Poll Nat) × Handles ω :=
  let h := (h.drop name).getD h
  let (ticket, world) := h.network.startAccept h.world
  ({ h with world }.set name (.accept ticket)).poll name

end Handles

end RemoteCall
