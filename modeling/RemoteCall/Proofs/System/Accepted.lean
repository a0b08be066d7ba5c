import RemoteCall.Proofs.Server.Closing
import RemoteCall.Proofs.System.Interleaving
/-!
# What a system serves

A system begins to serve a connection when a call on its server dispatches it, and at no other time. So a system whose
server was closed serves no connection that it did not serve before.
-/

namespace RemoteCall

namespace System

variable {ω σ α : Type} {s s' : System ω σ α}

/-- The connections that the server ever began to serve. -/
def accepted (s : System ω σ α) : List Nat := s.served.toList.map (·.connection)

theorem accepted_set {i : Nat} {c c' : Served σ} (hc : s.served[i]? = some c) (hsame : c'.connection = c.connection) :
    (s.served.set! i c').toList.map (·.connection) = s.accepted := by
  obtain ⟨hlt, hget⟩ := Array.getElem?_eq_some_iff.1 hc
  unfold accepted
  rw [Array.set!_eq_setIfInBounds, Array.toList_setIfInBounds, List.map_set, hsame, ← hget]
  exact List.ext_getElem? fun j => by
    rw [List.getElem?_set]
    split
    · rename_i hij
      subst hij
      simp [hlt]
    · rfl

theorem askListener_keeps (s : System ω σ α) (i : Nat) :
    (s.askListener i).2.server = s.server ∧ (s.askListener i).2.served = s.served := by
  unfold askListener
  simp only
  split <;> split <;> exact ⟨rfl, rfl⟩

theorem forgetTicket_keeps (s : System ω σ α) (i : Nat) :
    (s.forgetTicket i).server = s.server ∧ (s.forgetTicket i).served = s.served := by
  unfold forgetTicket
  split <;> exact ⟨rfl, rfl⟩

theorem stepServerCall_server {i : Nat} (h : s.stepServerCall i = some s') :
    (s'.server = s.server ∧ s'.accepted = s.accepted) ∨
    ∃ offer dispatched?, s.server.step i offer = some (s'.server, dispatched?) ∧
      s'.accepted = s.accepted ++ dispatched?.toList := by
  have hasked : ∃ offer s₁, (if s.server.asksListener i then s.askListener i else (.pending, s)) = (offer, s₁) ∧
      s₁.server = s.server ∧ s₁.served = s.served := by
    split
    · exact ⟨_, _, rfl, s.askListener_keeps i⟩
    · exact ⟨_, _, rfl, rfl, rfl⟩
  obtain ⟨offer, s₁, hoffer, hserver, hserved⟩ := hasked
  simp only [stepServerCall, hoffer, hserver] at h
  split at h
  · rename_i server dispatched? hstep
    refine .inr ⟨offer, dispatched?, ?_⟩
    generalize hkept : (if (server.result? i).isSome = true then forgetTicket { s₁ with server } i
      else { s₁ with server }) = s₂ at h
    obtain ⟨hserver₂, hserved₂⟩ : s₂.server = server ∧ s₂.served = s.served := by
      rw [← hkept, ← hserved]
      split
      · exact forgetTicket_keeps _ i
      · exact ⟨rfl, rfl⟩
    split at h
    · rename_i connection
      cases h
      exact ⟨by rw [hstep, ← hserver₂]; rfl, by simp [accepted, dispatch, hserved₂]⟩
    · cases h
      exact ⟨by rw [hstep, hserver₂], by simp [accepted, hserved₂]⟩
  · split at h
    · cases h
      exact .inl ⟨hserver, by rw [accepted, hserved, accepted]⟩
    · cases h

/-- Only the calls on the server change its state, by their steps; what they dispatch is served. -/
theorem advance_server {p : Part} (h : s.advance p = some s') :
    (s'.server = s.server ∧ s'.accepted = s.accepted) ∨
    ∃ i offer dispatched?, p = .serverCall i ∧ s.server.step i offer = some (s'.server, dispatched?) ∧
      s'.accepted = s.accepted ++ dispatched?.toList := by
  cases p with
  | client i =>
    simp only [advance, stepClient, Option.bind_eq_bind, Option.bind_eq_some_iff] at h
    obtain ⟨p, -, ⟨operation, world, host⟩, -, h⟩ := h
    cases h
    exact .inl ⟨rfl, rfl⟩
  | served i =>
    simp only [advance, stepServed, Option.bind_eq_bind, Option.bind_eq_some_iff] at h
    obtain ⟨c, hc, h⟩ := h
    split at h
    · split at h
      · cases h
      · cases h
        exact .inl ⟨rfl, accepted_set hc rfl⟩
    · obtain ⟨⟨exchange, world, host⟩, -, h⟩ := Option.bind_eq_some_iff.1 h
      cases h
      exact .inl ⟨rfl, accepted_set hc rfl⟩
  | serverCall i =>
    rcases stepServerCall_server h with hsame | ⟨offer, dispatched?, hstep, haccepted⟩
    · exact .inl hsame
    · exact .inr ⟨i, offer, dispatched?, rfl, hstep, haccepted⟩

theorem advance_of_closed {p : Part} (hs : s.server.Orderly) (hclosed : s.server.Closed)
    (h : s.advance p = some s') : s'.server.Orderly ∧ s'.server.Closed ∧ s'.accepted = s.accepted := by
  rcases advance_server h with ⟨hserver, haccepted⟩ | ⟨i, offer, dispatched?, -, hstep, haccepted⟩
  · rw [hserver]
    exact ⟨hs, hclosed, haccepted⟩
  · refine ⟨hs.step hstep, hclosed.moves (ServerState.step_moves hstep), ?_⟩
    cases dispatched? with
    | none => rw [haccepted, Option.toList_none, List.append_nil]
    | some connection =>
      have hasks := ServerState.asksListener_of_dispatches hstep
      exact absurd (.of_asksListener hasks) (hs.closed hclosed i)

/-- Once a close call on its server has returned, a system serves no further connection, whichever parts move. -/
theorem follow_of_closed (hs : s.server.Orderly) (hclosed : s.server.Closed) {ps : List Part}
    (h : s.follow ps = some s') : s'.accepted = s.accepted := by
  induction ps generalizing s with
  | nil =>
    cases h
    rfl
  | cons p ps ih =>
    obtain ⟨s₁, hadvance, hrest⟩ := Option.bind_eq_some_iff.1 h
    obtain ⟨hs₁, hclosed₁, haccepted⟩ := advance_of_closed hs hclosed hadvance
    rw [ih hs₁ hclosed₁ hrest, haccepted]

end System

end RemoteCall
