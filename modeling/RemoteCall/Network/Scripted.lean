import RemoteCall.Network
import RemoteCall.Channel.Scripted
/-!
# Scripted networks

A network that follows a script: each dial or accept gets the next of some connections, whose other ends
follow scripts of their own, or fails.
-/

namespace RemoteCall

/-- A network that hands out connections in a given order. -/
structure ScriptedNet where
  /-- What the next dials and accepts get. -/
  offers : List (Except Fault Scripted)
  /-- How dials and accepts fail when nothing is left; without a fault they wait for ever. -/
  exhausted? : Option Fault
  /-- The connections handed out so far. -/
  opened : Array Scripted

namespace ScriptedNet

def ofOffers (offers : List (Except Fault Scripted)) (exhausted? : Option Fault) : ScriptedNet :=
  ⟨offers, exhausted?, #[]⟩

/-- Takes the next offer. -/
def next (s : ScriptedNet) : Poll Nat × ScriptedNet :=
  match s.offers with
  | .ok c :: rest => (.ready s.opened.size, { s with offers := rest, opened := s.opened.push c })
  | .error f :: rest => (.failed f, { s with offers := rest })
  | [] =>
    match s.exhausted? with
    | some f => (.failed f, s)
    | none => (.pending, s)

/-- An operation on a connection that was handed out; one that has to wait changes nothing. -/
def operate {α : Type} (n : Nat) (f : Scripted → Poll α × Scripted) (s : ScriptedNet) :
    Poll α × ScriptedNet :=
  match s.opened[n]? with
  | some c =>
    match f c with
    | (.pending, _) => (.pending, s)
    | (r, c) => (r, { s with opened := s.opened.set! n c })
  | none => (.failed .brokenPipe, s)

def channel (n : Nat) : Channel ScriptedNet where
  read count := operate n (Scripted.channel.read count)
  write bs := operate n (Scripted.channel.write bs)
  flush := operate n Scripted.channel.flush
  shutdown := operate n Scripted.channel.shutdown
  release s := { s with opened := s.opened.modify n Scripted.channel.release }

/-- The connections not handed out yet. -/
def unopened (s : ScriptedNet) : List Scripted :=
  s.offers.filterMap fun
    | .ok c => some c
    | .error _ => none

def network : Network ScriptedNet where
  startDial s := (0, s)
  pollDial _ := next
  dropDial _ s := s
  startAccept s := (0, s)
  pollAccept _ := next
  dropAccept _ s := s
  dialed := channel
  accepted := channel
  peer n := s!"scripted:{n}"
  turnLength? := none

end ScriptedNet

end RemoteCall
