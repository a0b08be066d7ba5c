import RemoteCall.Network.Scripted
import RemoteCall.Proofs.Exchange.Embedding
import RemoteCall.Proofs.Exchange.Receiving
/-!
# Connections of a scripted network

What an exchange does on a connection that a scripted network has handed out is what it does on the scripted
stream alone: `ScriptedNet.leads_channel`.
-/

namespace RemoteCall.ScriptedNet

open Exchange

variable {σ α : Type} {s : ScriptedNet} {n : Nat} {c c' : Scripted}

/-- The network with another state of a connection. -/
def put (n : Nat) (c : Scripted) (s : ScriptedNet) : ScriptedNet := { s with opened := s.opened.set! n c }

theorem opened_put (h : s.opened[n]? = some c) (c' : Scripted) : (s.put n c').opened[n]? = some c' :=
  entry_set_self h c'

theorem put_put (c c' : Scripted) : (s.put n c).put n c' = s.put n c' := by
  simp only [put, set_set]

theorem put_self (h : s.opened[n]? = some c) : s.put n c = s := by
  rw [put, set_entry h]

/-- An operation on a connection is the one on its stream. -/
theorem operate_eq {β : Type} (h : s.opened[n]? = some c) (f : Scripted → Poll β × Scripted) :
    operate n f s = Poll.into (s.put n ·) s (f c) := by
  simp only [operate, h]
  rcases f c with ⟨_ | _ | _, c'⟩ <;> rfl

theorem embeds_channel (h : s.opened[n]? = some c) : (channel n).Embeds Scripted.channel (s.put n ·) s c where
  put_self := put_self h
  read count := operate_eq h (Scripted.channel.read count)
  write bs := operate_eq h (Scripted.channel.write bs)
  flush := operate_eq h Scripted.channel.flush
  shutdown := operate_eq h Scripted.channel.shutdown

/-- What an exchange comes to on a stream, it comes to on the connection. -/
theorem leads_channel (h : s.opened[n]? = some c) {e e' : Exchange σ α} {host host' : σ}
    (hleads : Leads Scripted.channel e c host e' c' host') :
    Leads (channel n) e s host e' (s.put n c') host' := by
  obtain ⟨fuel, hrun⟩ := hleads
  induction fuel generalizing e c s host with
  | zero =>
    cases hrun
    rw [put_self h]
    exact .refl _ _ _ _
  | succ fuel ih =>
    rw [run] at hrun
    have hstep := step_of_embeds (embeds_channel h) e host
    cases hmoved : e.step Scripted.channel c host with
    | none =>
      rw [hmoved] at hrun
      cases hrun
      rw [put_self h]
      exact .refl _ _ _ _
    | some moved =>
      obtain ⟨e₁, c₁, host₁⟩ := moved
      rw [hmoved] at hrun hstep
      have hrest := ih (opened_put h c₁) hrun
      rw [put_put] at hrest
      exact .cons hstep hrest

end RemoteCall.ScriptedNet
