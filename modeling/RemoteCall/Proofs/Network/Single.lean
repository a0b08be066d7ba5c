import RemoteCall.Proofs.Exchange.Embedding
import RemoteCall.Proofs.Network.Usage
/-!
# One connection of a network in memory

What is done at the ends of a connection of a network in memory is done to that connection alone: it is what is done
to the connection by itself (`PipeNet.embeds_channel`), whoever else uses the network. `Duplex.network` is a network
that is nothing but one connection, which is there for whoever dials.
-/

namespace RemoteCall

variable {σ α : Type}

namespace Duplex

/-- A network with one connection, which is there at once. -/
def network : Network Duplex where
  startDial d := (0, d)
  pollDial _ d := (.ready 0, d)
  dropDial _ d := d
  startAccept d := (0, d)
  pollAccept _ d := (.pending, d)
  dropAccept _ d := d
  dialed _ := channel .dialer
  accepted _ := channel .acceptor
  peer := PipeNet.peer
  turnLength? := none

/-- Using a connection gives no end of it up. -/
theorem isHeld_of_uses {s : Side} {d d' : Duplex} (h : (channel s).Uses d d') (t : Side) : d'.isHeld t = d.isHeld t := by
  cases h with
  | none | flush => rfl
  | read n => exact d.isHeld_read s n t
  | write bs => exact d.isHeld_write s bs t
  | shutdown => exact d.isHeld_shutdown s t

end Duplex

namespace PipeNet

open Exchange

/-- The network with another state of a connection. -/
def put (n : Nat) (d : Duplex) (p : PipeNet) : PipeNet := { p with connections := p.connections.set! n d }

variable {p : PipeNet} {n : Nat} {d : Duplex} {s : Side}

theorem put_self (h : p.connections[n]? = some d) : p.put n d = p := by
  rw [put, set_entry h]

theorem operate_eq {β : Type} (h : p.connections[n]? = some d) (f : Duplex → Poll β × Duplex) :
    operate n f p = Poll.into (p.put n ·) p (f d) := by
  simp only [operate, h]
  rcases f d with ⟨_ | _ | _, d'⟩ <;> rfl

/-- An operation at an end of a connection is the one on the connection. -/
theorem embeds_channel (h : p.connections[n]? = some d) :
    (channel s n).Embeds (Duplex.channel s) (p.put n ·) p d where
  put_self := put_self h
  read count := operate_eq h ((Duplex.channel s).read count)
  write bs := operate_eq h ((Duplex.channel s).write bs)
  flush := congrArg (Prod.mk (Poll.ready ())) (put_self h).symm
  shutdown := operate_eq h (Duplex.channel s).shutdown

/-- An end that is held is given up on the connection. -/
theorem release_eq_put (h : p.connections[n]? = some d) (hs : d.isHeld s = true) :
    release n s p = { p.put n (d.release s) with live := p.live - 1 } := by
  rw [release_eq h hs]
  simp only [modify, modify_entry h, put]

end PipeNet

end RemoteCall
