import RemoteCall.Proofs.Network.Single
import RemoteCall.Proofs.System.Accepted
/-!
# An accept loop and its network

One accept loop takes connections from a network in memory, on which others dial. `Rendezvous` says how far the two
are with each other: no accept is under way, or one waits, or one was met and has the next connection in hand. So the
connections come out in the order in which they are dialed, each once, and none is left behind.
-/

namespace RemoteCall

variable {σ α : Type}

/-- Two states of a network in memory that differ only in what goes on at its connections and in the dials that wait. -/
structure PipeNet.SameLines (p q : PipeNet) : Prop where
  capacity : q.capacity = p.capacity
  closed : q.closed = p.closed
  backlog : q.backlog = p.backlog
  accepts : q.accepts = p.accepts
  waiting : q.waiting = p.waiting
  size : q.connections.size = p.connections.size

namespace PipeNet

theorem sameLines_startDial (p : PipeNet) : p.SameLines p.startDial.2 := ⟨rfl, rfl, rfl, rfl, rfl, rfl⟩

theorem sameLines_put (p : PipeNet) (n : Nat) (d : Duplex) (live : Nat) : p.SameLines { p.put n d with live } :=
  ⟨rfl, rfl, rfl, rfl, rfl, size_set _ n d⟩

end PipeNet

/-- A server on which one accept call was made that goes on and on. -/
structure ServerState.Accepting (s : ServerState) (token : Nat) : Prop where
  shutdown : s.shutdown = false
  cancelled : s.cancelled = []
  calls : ∃ phase, s.calls = #[(.accept token, phase)] ∧ ∀ r, phase ≠ .returned r

/-- How far an accept loop is with its next connection, after some others were served. -/
inductive Meeting (asks : Bool) (tickets : List (Nat × Nat)) (p : PipeNet) (served : Nat) : Prop
  | apart (htickets : tickets = []) (haccepts : p.accepts = []) (hwaiting : p.waiting = [])
    (hsize : p.connections.size = served)
  | waits (ticket : Nat) (hasks : asks = true) (htickets : tickets = [(0, ticket)])
    (haccepts : p.accepts = [(ticket, none)]) (hwaiting : p.waiting = [ticket]) (hsize : p.connections.size = served)
  | met (ticket : Nat) (hasks : asks = true) (htickets : tickets = [(0, ticket)])
    (haccepts : p.accepts = [(ticket, some served)]) (hwaiting : p.waiting = [])
    (hsize : p.connections.size = served + 1)

/-- An accept loop and its network. -/
structure Rendezvous (capacity token : Nat) (server : ServerState) (tickets : List (Nat × Nat)) (p : PipeNet)
    (served : Nat) : Prop where
  accepting : server.Accepting token
  capacity_eq : p.capacity = capacity
  isOpen : p.closed = false
  backlog : p.backlog = []
  meeting : Meeting (server.asksListener 0) tickets p served

namespace Rendezvous

variable {capacity token served : Nat} {server : ServerState} {tickets : List (Nat × Nat)} {p q : PipeNet}

theorem of_sameLines (h : Rendezvous capacity token server tickets p served) (hq : p.SameLines q) :
    Rendezvous capacity token server tickets q served where
  accepting := h.accepting
  capacity_eq := hq.capacity.trans h.capacity_eq
  isOpen := hq.closed.trans h.isOpen
  backlog := hq.backlog.trans h.backlog
  meeting := by
    cases h.meeting with
    | apart htickets haccepts hwaiting hsize =>
      exact .apart htickets (hq.accepts.trans haccepts) (hq.waiting.trans hwaiting) (hq.size.trans hsize)
    | waits ticket hasks htickets haccepts hwaiting hsize =>
      exact .waits ticket hasks htickets (hq.accepts.trans haccepts) (hq.waiting.trans hwaiting) (hq.size.trans hsize)
    | met ticket hasks htickets haccepts hwaiting hsize =>
      exact .met ticket hasks htickets (hq.accepts.trans haccepts) (hq.waiting.trans hwaiting) (hq.size.trans hsize)

/-- All connections were served but for the one that an accept may have in hand. -/
theorem size_eq (h : Rendezvous capacity token server tickets p served) :
    p.connections.size = served ∨ p.connections.size = served + 1 := by
  cases h.meeting with
  | apart _ _ _ hsize | waits _ _ _ _ _ hsize => exact .inl hsize
  | met _ _ _ _ _ hsize => exact .inr hsize

theorem served_le (h : Rendezvous capacity token server tickets p served) : served ≤ p.connections.size := by
  rcases h.size_eq with hsize | hsize <;> omega

/-- A dial never fails, and it comes to a new connection, which the accept that waits has in hand then. -/
theorem pollDial (h : Rendezvous capacity token server tickets p served) (ticket : Nat) :
    (p.pollDial ticket).1 = .pending ∨
      ∃ q, p.pollDial ticket = (.ready p.connections.size, q) ∧
        q.connections = p.connections.push (.ofCapacity capacity) ∧
        Rendezvous capacity token server tickets q served := by
  unfold PipeNet.pollDial
  simp only [h.isOpen, Bool.false_eq_true, if_false]
  split
  · cases h.meeting with
    | apart htickets haccepts hwaiting hsize =>
      rw [hwaiting]
      exact .inl rfl
    | met accept hasks htickets haccepts hwaiting hsize =>
      rw [hwaiting]
      exact .inl rfl
    | waits accept hasks htickets haccepts hwaiting hsize =>
      have hawaits : p.awaits accept = true := by simp [PipeNet.awaits, haccepts]
      rw [hwaiting, PipeNet.meet, if_pos hawaits]
      refine .inr ⟨_, rfl, ?_, h.accepting, h.capacity_eq, h.isOpen, h.backlog, ?_⟩
      · show p.connections.push (.ofCapacity p.capacity) = _
        rw [h.capacity_eq]
      · refine .met accept hasks htickets ?_ rfl ?_
        · simp [PipeNet.dropDial, PipeNet.deliver, haccepts, hsize]
        · simp [PipeNet.dropDial, PipeNet.deliver, hsize]
  · exact .inl rfl

end Rendezvous

/-! ## The accept loop goes on -/

namespace ServerState.Accepting

variable {s s' : ServerState} {token i : Nat} {offer : Poll Nat} {d : Option Nat}

/-- There is no other call than the accept call. -/
theorem call_eq (h : s.Accepting token) {call : ServerCall × ServerCall.Phase} (hcall : s.calls[i]? = some call) :
    i = 0 ∧ call.1 = .accept token ∧ s.calls = #[call] := by
  obtain ⟨phase, hcalls, -⟩ := h.calls
  rw [hcalls] at hcall ⊢
  cases i with
  | zero =>
    cases hcall
    exact ⟨rfl, rfl, rfl⟩
  | succ i => simp at hcall

theorem result?_eq (h : s.Accepting token) (i : Nat) : s.result? i = none := by
  obtain ⟨phase, hcalls, hphase⟩ := h.calls
  cases hcall : s.calls[i]? with
  | none => simp [result?, phase?, hcall]
  | some call =>
    obtain ⟨rfl, -, hone⟩ := h.call_eq hcall
    obtain ⟨call, phase'⟩ := call
    rw [hone] at hcalls
    cases hcalls
    cases phase with
    | returned r => exact absurd rfl (hphase r)
    | called | queued | accepting => simp [result?, phase?, hcall]

/-- The accept call comes to the lock, and from then on it does nothing but ask its listener. -/
theorem step (h : s.Accepting token) (hasks : s.asksListener i = false) (hstep : s.step i offer = some (s', d)) :
    i = 0 ∧ s'.Accepting token ∧ d = none := by
  have hkept : ∀ {call : ServerCall} {p : ServerCall.Phase} (q : ServerCall.Phase), s.calls[i]? = some (call, p) →
      (s.setPhase i q).calls = #[(.accept token, q)] := by
    intro call p q hcall
    obtain ⟨rfl, rfl, hone⟩ := h.call_eq hcall
    rw [setPhase, hone]
    rfl
  rcases step_cases hstep with ⟨call, hcall, rfl, rfl⟩ | ⟨r, hreturns, rfl, rfl⟩ | ⟨token', hcall, -, -, rfl, rfl⟩ |
    ⟨c, hasks', -, -, -⟩
  · obtain ⟨hi, rfl, -⟩ := h.call_eq hcall
    have hopen : (s.shutdown || ServerCall.accept token == .close) = s.shutdown := Bool.or_false _
    exact ⟨hi, ⟨hopen.trans h.shutdown, h.cancelled, .queued, hkept _ hcall, fun _ => by simp⟩, rfl⟩
  · cases hreturns with
    | closed hcall => cases (h.call_eq hcall).2.1
    | late _ _ hshutdown => cases hshutdown.symm.trans h.shutdown
    | stopped haccepts =>
      obtain ⟨token', hcall⟩ := haccepts
      simp [asksListener, hcall, h.shutdown, h.cancelled] at hasks
    | failed hasks' => cases hasks'.symm.trans hasks
  · exact ⟨(h.call_eq hcall).1, ⟨h.shutdown, h.cancelled, .accepting, hkept _ hcall, fun _ => by simp⟩, rfl⟩
  · cases hasks'.symm.trans hasks

end ServerState.Accepting

namespace System

variable {capacity token i : Nat} {s s' : System PipeNet σ α}

/-- The connection that an accept loop has in hand is the one that is dispatched next, by the next step of the loop. -/
theorem stepServerCall_met (hnetwork : s.network = PipeNet.network)
    (h : Rendezvous capacity token s.server s.tickets s.world s.served.size)
    (hmet : s.served.size < s.world.connections.size) : ∃ world,
      s.stepServerCall 0 = some ({ s with tickets := [], world }.dispatch s.served.size) ∧
      world.connections = s.world.connections ∧ Rendezvous capacity token s.server [] world (s.served.size + 1) := by
  cases h.meeting with
  | apart _ _ _ hsize | waits _ _ _ _ _ hsize => omega
  | met ticket hasks htickets haccepts hwaiting hsize =>
    have hask : s.askListener 0 =
        (.ready s.served.size, { s with tickets := [], world := s.world.forgetAccept ticket }) := by
      simp [askListener, htickets, hnetwork, PipeNet.network, PipeNet.pollAccept, haccepts]
    refine ⟨s.world.forgetAccept ticket, ?_, rfl, h.accepting, h.capacity_eq, h.isOpen, h.backlog, ?_⟩
    · have hheeds := ServerState.heeds_step hasks (.ready s.served.size)
      generalize hstep : s.server.step 0 (.ready s.served.size) = moved at hheeds
      cases hheeds
      simp [stepServerCall, hasks, hask, hstep, h.accepting.result?_eq]
    · refine .apart rfl ?_ hwaiting hsize
      simp [PipeNet.forgetAccept, haccepts]

/-- A step of an accept loop changes nothing at the connections; it leaves those alone that are served, or begins to
serve the next one. -/
theorem stepServerCall_rendezvous (hnetwork : s.network = PipeNet.network)
    (h : Rendezvous capacity token s.server s.tickets s.world s.served.size) (hs : s.stepServerCall i = some s') :
    ∃ server tickets world, world.connections = s.world.connections ∧
      Rendezvous capacity token server tickets world s'.served.size ∧
      (s' = { s with server, tickets, world } ∨
        s.served.size < s.world.connections.size ∧ s' = { s with server, tickets, world }.dispatch s.served.size) := by
  cases hasks : s.server.asksListener i with
  | false =>
    cases hstep : s.server.step i .pending with
    | none => simp [stepServerCall, hasks, hstep] at hs
    | some moved =>
      obtain ⟨server, d⟩ := moved
      obtain ⟨rfl, haccepting, rfl⟩ := h.accepting.step hasks hstep
      have heq : { s with server } = s' := by
        simpa [stepServerCall, hasks, hstep, haccepting.result?_eq] using hs
      subst heq
      refine ⟨server, s.tickets, s.world, rfl, ⟨haccepting, h.capacity_eq, h.isOpen, h.backlog, ?_⟩, .inl rfl⟩
      cases h.meeting with
      | apart htickets haccepts hwaiting hsize => exact .apart htickets haccepts hwaiting hsize
      | waits _ hasks' | met _ hasks' => cases hasks.symm.trans hasks'
  | true =>
    obtain ⟨token', hcall⟩ := ServerState.Accepts.of_asksListener hasks
    obtain ⟨rfl, -, -⟩ := h.accepting.call_eq hcall
    have hwaits : s.server.step 0 .pending = none := by
      have hheeds := ServerState.heeds_step hasks .pending
      generalize s.server.step 0 .pending = moved at hheeds
      cases hheeds
      rfl
    cases h.meeting with
    | apart htickets haccepts hwaiting hsize =>
      let ticket := s.world.nextTicket
      let world : PipeNet :=
        { s.world with nextTicket := ticket + 1, waiting := [ticket], accepts := [(ticket, none)] }
      have hask : s.askListener 0 = (.pending, { s with tickets := [(0, ticket)], world }) := by
        simp [askListener, htickets, hnetwork, PipeNet.network, PipeNet.startAccept, PipeNet.pollAccept, haccepts,
          hwaiting, h.isOpen, h.backlog, world, ticket]
      have heq : { s with tickets := [(0, ticket)], world } = s' := by
        simpa [stepServerCall, hasks, hask, hwaits, htickets] using hs
      subst heq
      exact ⟨s.server, _, world, rfl, ⟨h.accepting, h.capacity_eq, h.isOpen, h.backlog,
        .waits ticket hasks rfl rfl rfl hsize⟩, .inl rfl⟩
    | waits ticket _ htickets haccepts hwaiting hsize =>
      obtain ⟨s₁, hask⟩ : ∃ s₁, s.askListener 0 = (.pending, s₁) := by
        simp [askListener, htickets, hnetwork, PipeNet.network, PipeNet.pollAccept, haccepts, h.isOpen]
      have hserver : s₁.server = s.server := by
        have hkeeps := (s.askListener_keeps 0).1
        rwa [hask] at hkeeps
      simp [stepServerCall, hasks, hask, hserver, hwaits, htickets] at hs
    | met ticket _ htickets haccepts hwaiting hsize =>
      have hmet : s.served.size < s.world.connections.size := by omega
      obtain ⟨world, hstep, hconnections, hrendezvous⟩ := stepServerCall_met hnetwork h hmet
      rw [hstep] at hs
      cases hs
      refine ⟨s.server, [], world, hconnections, ?_, .inr ⟨hmet, rfl⟩⟩
      show Rendezvous capacity token s.server [] world (s.served.push _).size
      rw [Array.size_push]
      exact hrendezvous

end System

end RemoteCall
