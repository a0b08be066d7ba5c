import RemoteCall.Proofs.Client.Alone
import RemoteCall.Proofs.Serve.Isolated
import RemoteCall.Proofs.System.Interleaving
/-!
# One operation and its connection

`System.alone` is a system of one operation and one connection, which the server serves already. `System.Mirrors` says
that such a system has the same as a larger one has of one operation: the operation, its connection, what the server
does there, and the sink that was opened for it. What others do in the larger system keeps to it (`Mirrors.frame`);
each step that is made for the operation is one that the small system makes too.
-/

namespace RemoteCall

variable {τ α : Type}

open Exchange

/-- What a server begins with at a connection; the name of the other end plays no part in it. -/
def Settings.opening {σ : Type} (s : Settings σ) : Exchange σ (Except ServeError Unit) :=
  (Serving.connection (s.context (PipeNet.peer 0))).run

namespace System

/-- A system that is nothing but one operation, one connection, and the server at its other end. -/
def alone (settings : Settings (Array τ)) (capacity : Nat) (plan : Plan (Array τ) α) : System Duplex (Array τ) α :=
  (((initial settings Duplex.network (.ofCapacity capacity) #[]).dispatch 0).submit plan none).2

/-- What a server does at a connection, or is to do there once it serves it, is what it does in a system that has
nothing else to serve. -/
def ServesAlike (start : Exchange (Array τ) (Except ServeError Unit)) (c? : Option (Served (Array τ))) (k? : Option Nat)
    (host : Array τ) (t : System Duplex (Array τ) α) : Prop :=
  ∃ e, t.served = #[⟨0, e, c?.any (·.released)⟩] ∧ Alike k? (c?.elim start (·.exchange)) host e t.host

/-- A system of one operation and one connection has what another has of operation `i`, whose connection is `n?` and
whose sink is `k?`. Before there is a connection, the small system has a fresh one. -/
structure Mirrors (fresh : Duplex) (start : Exchange (Array τ) (Except ServeError Unit)) (s : System PipeNet (Array τ) α)
    (i : Nat) (n? k? : Option Nat) (t : System Duplex (Array τ) α) : Prop where
  network : t.network = Duplex.network
  clients : ∃ o, s.clients[i]? = some ⟨o, none⟩ ∧ t.clients = #[⟨o.alone, none⟩]
  world : t.world = (n?.bind (s.world.connections[·]?)).getD fresh
  serves : ServesAlike start (n?.bind (s.served[·]?)) k? s.host t

variable {fresh : Duplex} {start : Exchange (Array τ) (Except ServeError Unit)} {s s₁ : System PipeNet (Array τ) α}
  {i n : Nat} {n? k? k₁? : Option Nat} {t : System Duplex (Array τ) α}

namespace Mirrors

/-- Steps that leave alone what a system has of an operation make no difference. -/
theorem frame (h : Mirrors fresh start s i n? k? t) (hclient : s₁.clients[i]? = s.clients[i]?)
    (hconnection : ∀ n, n? = some n → s₁.world.connections[n]? = s.world.connections[n]?)
    (hserved : ∀ n, n? = some n → s₁.served[n]? = s.served[n]?)
    (hsink : ∀ k, k? = some k → s₁.host[k]? = s.host[k]?) : Mirrors fresh start s₁ i n? k? t := by
  have hconnections : n?.bind (s₁.world.connections[·]?) = n?.bind (s.world.connections[·]?) := by
    cases n? with
    | none => rfl
    | some n => exact hconnection n rfl
  have hserves : n?.bind (s₁.served[·]?) = n?.bind (s.served[·]?) := by
    cases n? with
    | none => rfl
    | some n => exact hserved n rfl
  obtain ⟨o, ho, hclients⟩ := h.clients
  obtain ⟨e, ht, halike⟩ := h.serves
  refine ⟨h.network, ⟨o, hclient.trans ho, hclients⟩, ?_, e, ?_, ?_⟩
  · rw [hconnections]
    exact h.world
  · rw [hserves]
    exact ht
  · rw [hserves]
    exact halike.frame hsink

/-- A connection that comes to be served makes no difference, for in the small system it is served already. -/
theorem dispatched (h : Mirrors fresh start s i (some n) k? t) (hclient : s₁.clients[i]? = s.clients[i]?)
    (hconnection : s₁.world.connections[n]? = s.world.connections[n]?) (hwaits : s.served[n]? = none)
    (hserved : s₁.served[n]? = some ⟨n, start, false⟩) (hhost : s₁.host = s.host) :
    Mirrors fresh start s₁ i (some n) k? t := by
  obtain ⟨o, ho, hclients⟩ := h.clients
  obtain ⟨e, ht, halike⟩ := h.serves
  simp only [Option.bind_some, hwaits, Option.elim_none, Option.any_none] at ht halike
  refine ⟨h.network, ⟨o, hclient.trans ho, hclients⟩, ?_, e, ?_, ?_⟩
  · rw [h.world, Option.bind_some, Option.bind_some, hconnection]
  · simp only [Option.bind_some, hserved, Option.any_some, ht]
  · simp only [Option.bind_some, hserved, Option.elim_some, hhost]
    exact halike

/-- A step of the operation is one that it makes by itself. -/
theorem client (h : Mirrors fresh start s i n? k? t) (n₁? : Option Nat) {o o₁ : Operation (Array τ) α} {d : Duplex}
    (ho : s.clients[i]? = some ⟨o, none⟩)
    (hstep : o.alone.step Duplex.network false t.world t.host = some (o₁.alone, d, t.host))
    (ho₁ : s₁.clients[i]? = some ⟨o₁, none⟩) (hd : (n₁?.bind (s₁.world.connections[·]?)).getD fresh = d)
    (hserved : n₁?.bind (s₁.served[·]?) = n?.bind (s.served[·]?)) (hhost : s₁.host = s.host) :
    ∃ t₁, t.advance (.client 0) = some t₁ ∧ Mirrors fresh start s₁ i n₁? k? t₁ := by
  obtain ⟨o', ho', hclients⟩ := h.clients
  cases ho.symm.trans ho'
  have halone : t.clients[0]? = some ⟨o.alone, none⟩ := by rw [hclients]; rfl
  refine ⟨{ t with world := d, clients := #[⟨o₁.alone, none⟩] }, ?_, h.network, ⟨o₁, ho₁, rfl⟩, hd.symm, ?_⟩
  · rw [advance, stepClient_eq halone, h.network, hstep, hclients]
    rfl
  · rw [hserved, hhost]
    exact h.serves

section Server

variable {c : Served (Array τ)} {d : Duplex} (h : Mirrors fresh start s i (some n) k? t)
  (hc : s.served[n]? = some c) (hd : s.world.connections[n]? = some d)
include h hc hd

/-- What the small system has of a connection that is served. -/
theorem served : t.world = d ∧
    ∃ e, t.served[0]? = some ⟨0, e, c.released⟩ ∧ t.served = #[⟨0, e, c.released⟩] ∧ Alike k? c.exchange s.host e t.host := by
  obtain ⟨e, ht, halike⟩ := h.serves
  have hworld := h.world
  simp only [Option.bind_some, hc, hd, Option.elim_some, Option.any_some, Option.getD_some] at ht halike hworld
  exact ⟨hworld, e, by rw [ht]; rfl, ht, halike⟩

/-- A step of the server at the connection is one that it makes where there is nothing else. -/
theorem serve {e₁ : Exchange (Array τ) (Except ServeError Unit)} {d₁ : Duplex} {host₁ : Array τ}
    (hopen : c.exchange.answer? = none)
    (hstep : c.exchange.step (Duplex.channel .acceptor) d s.host = some (e₁, d₁, host₁))
    (hclient : s₁.clients[i]? = s.clients[i]?) (hd₁ : s₁.world.connections[n]? = some d₁)
    (hc₁ : s₁.served[n]? = some { c with exchange := e₁ }) (hhost : s₁.host = host₁) :
    ∃ t₁ k₁?, t.advance (.served 0) = some t₁ ∧ Mirrors fresh start s₁ i (some n) k₁? t₁ ∧
      Touches k? s.host k₁? s₁.host := by
  obtain ⟨hworld, e, hserves, hone, halike⟩ := h.served hc hd
  obtain ⟨o, ho, hclients⟩ := h.clients
  obtain ⟨k₁?, e₁', host₁', hmoved, halike₁, htouches⟩ := halike.step hstep
  have hopen' : e.answer? = none := halike.answer?_eq.trans hopen
  refine ⟨{ t with world := d₁, host := host₁', served := #[⟨0, e₁', c.released⟩] }, k₁?, ?_,
    ⟨h.network, ⟨o, hclient.trans ho, hclients⟩, ?_, e₁', ?_, ?_⟩, ?_⟩
  · have haccepted : Network.accepted t.network 0 = Duplex.channel .acceptor := by
      rw [h.network]
      rfl
    rw [advance, stepServed_open hserves hopen', haccepted, hworld, hmoved, hone]
    rfl
  · rw [Option.bind_some, hd₁, Option.getD_some]
  · rw [Option.bind_some, hc₁, Option.any_some]
  · rw [Option.bind_some, hc₁, hhost]
    exact halike₁
  · rw [hhost]
    exact htouches

/-- The server gives the connection up when it is done with it, wherever it is served. -/
theorem serverReleases {r : Except ServeError Unit} (hdone : c.exchange = .done r) (hkept : c.released = false)
    (hclient : s₁.clients[i]? = s.clients[i]?) (hd₁ : s₁.world.connections[n]? = some (d.release .acceptor))
    (hc₁ : s₁.served[n]? = some { c with released := true }) (hhost : s₁.host = s.host) :
    ∃ t₁, t.advance (.served 0) = some t₁ ∧ Mirrors fresh start s₁ i (some n) k? t₁ := by
  obtain ⟨hworld, e, hserves, hone, halike⟩ := h.served hc hd
  obtain ⟨o, ho, hclients⟩ := h.clients
  have hdone' : e.answer? = some r := by
    rw [halike.answer?_eq, hdone]
    rfl
  cases e <;> cases hdone'
  refine ⟨{ t with world := d.release .acceptor, served := #[⟨0, .done r, true⟩] }, ?_,
    h.network, ⟨o, hclient.trans ho, hclients⟩, ?_, .done r, ?_, ?_⟩
  · rw [hkept] at hserves hone
    rw [advance, stepServed_done hserves, if_neg Bool.false_ne_true, h.network, hworld, hone]
    rfl
  · rw [Option.bind_some, hd₁, Option.getD_some]
  · rw [Option.bind_some, hc₁, Option.any_some]
  · rw [Option.bind_some, hc₁, hhost]
    exact halike

end Server

end Mirrors

end System

end RemoteCall
