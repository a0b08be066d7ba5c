import Mathlib.Logic.Function.Basic
import RemoteCall.Proofs.System.Mirrored
import RemoteCall.Proofs.System.Rendezvous
/-!
# Operations that are kept apart

Operations on clones of a network in memory are carried out side by side, and one server serves all their connections.
`System.Separate` says that they have nothing in common but this server: no two have the same connection or the same
sink, and each is mirrored by a system of its own. Every step of any part keeps to it, and for each operation it is a
step of its own system, or none: `Separate.advance`.
-/

namespace RemoteCall

variable {ω σ τ α : Type}

/-- What a step of a part is to operation `i`, whose connection is `n?`. -/
def Part.onto (i : Nat) (n? : Option Nat) : Part → Option Part
  | .client j => if j = i then some (.client 0) else none
  | .served n => if n? = some n then some (.served 0) else none
  | .serverCall _ => none

namespace System

/-- The connection that an operation has. -/
def connection? (s : System ω σ α) (i : Nat) : Option Nat := s.clients[i]?.bind (·.operation.stage.connection?)

end System

/-! ## Numbers that are told apart -/

/-- Some operations have numbers below a bound, no two the same. -/
structure Numbered (bound : Nat) (number : Nat → Option Nat) : Prop where
  lt : ∀ {i n}, number i = some n → n < bound
  inj : ∀ {i j n}, number i = some n → number j = some n → i = j

namespace Numbered

variable {bound j : Nat} {number : Nat → Option Nat}

/-- The next number is nobody's. -/
theorem next (h : Numbered bound number) (j : Nat) : Numbered (bound + 1) (Function.update number j (some bound)) := by
  have hold : ∀ {i n}, Function.update number j (some bound) i = some n →
      i = j ∧ n = bound ∨ number i = some n ∧ n < bound := by
    intro i n hi
    by_cases hij : i = j
    · subst hij
      rw [Function.update_self] at hi
      cases hi
      exact .inl ⟨rfl, rfl⟩
    · rw [Function.update_of_ne hij] at hi
      exact .inr ⟨hi, h.lt hi⟩
  refine ⟨fun {i n} hi => ?_, fun {i k n} hi hk => ?_⟩
  · rcases hold hi with ⟨-, rfl⟩ | ⟨-, hn⟩ <;> omega
  · rcases hold hi with ⟨rfl, hn⟩ | ⟨hi, hn⟩ <;> rcases hold hk with ⟨rfl, hn'⟩ | ⟨hk, hn'⟩
    · rfl
    · omega
    · omega
    · exact h.inj hi hk

/-- What is done for one operation leaves the sinks of the others alone. -/
theorem touches {k? : Option Nat} {host host' : Array τ} (h : Numbered host.size number)
    (ht : Exchange.Touches (number j) host k? host') :
    Numbered host'.size (Function.update number j k?) ∧ ∀ i k, i ≠ j → number i = some k → host'[k]? = host[k]? := by
  generalize hk : number j = k₀? at ht
  cases ht with
  | nothing =>
    rw [← hk, Function.update_eq_self]
    exact ⟨h, fun _ _ _ _ => rfl⟩
  | used k _ t =>
    rw [← hk, Function.update_eq_self, size_set]
    refine ⟨h, fun i m hij hi => entry_set_of_ne ?_ t⟩
    rintro rfl
    exact hij (h.inj hi hk)
  | opened _ t =>
    rw [Array.size_push]
    refine ⟨h.next j, fun i k hij hi => ?_⟩
    rw [Array.getElem?_push, if_neg (Nat.ne_of_lt (h.lt hi))]

end Numbered

namespace System

/-! ## One operation among others -/

/-- What holds of operation `i`, whose connection is `n?` and whose sink is `k?`: it leaves the host to the server and
holds its connection, at whose other end is the server, and the system `t` has the same. -/
structure Owns (fresh : Duplex) (start : Exchange (Array τ) (Except ServeError Unit)) (s : System PipeNet (Array τ) α)
    (i : Nat) (n? k? : Option Nat) (t : System Duplex (Array τ) α) : Prop where
  stage : ∀ o token?, s.clients[i]? = some ⟨o, token?⟩ → o.stage.Hostless ∧ o.stage.CameTo s.world n?
  connection : ∀ n, n? = some n → ∃ d, s.world.connections[n]? = some d ∧
    ((∀ c, s.served[n]? = some c → c.released = false) → d.isHeld .acceptor = true)
  numbered : ∀ n c, n? = some n → s.served[n]? = some c → c.connection = n
  mirrors : Mirrors fresh start s i n? k? t

namespace Owns

variable {fresh : Duplex} {start : Exchange (Array τ) (Except ServeError Unit)} {s s₁ : System PipeNet (Array τ) α}
  {i n : Nat} {n? k? : Option Nat} {t : System Duplex (Array τ) α}

/-- Steps that leave alone what a system has of an operation make no difference. -/
theorem frame (h : Owns fresh start s i n? k? t) (hclient : s₁.clients[i]? = s.clients[i]?)
    (hconnection : ∀ n, n? = some n → s₁.world.connections[n]? = s.world.connections[n]?)
    (hserved : ∀ n, n? = some n → s₁.served[n]? = s.served[n]?)
    (hsink : ∀ k, k? = some k → s₁.host[k]? = s.host[k]?) : Owns fresh start s₁ i n? k? t where
  stage o token? ho := by
    obtain ⟨hhostless, hcame⟩ := h.stage o token? (hclient.symm.trans ho)
    exact ⟨hhostless, hcame.frame fun n d hn hd => ⟨d, (hconnection n hn).trans hd, rfl⟩⟩
  connection n hn := by
    rw [hconnection n hn, hserved n hn]
    exact h.connection n hn
  numbered n c hn hc := h.numbered n c hn ((hserved n hn).symm.trans hc)
  mirrors := h.mirrors.frame hclient hconnection hserved hsink

/-- A connection that comes to be served makes no difference. -/
theorem dispatched (h : Owns fresh start s i (some n) k? t) (hclient : s₁.clients[i]? = s.clients[i]?)
    (hconnection : s₁.world.connections[n]? = s.world.connections[n]?) (hwaits : s.served[n]? = none)
    (hserved : s₁.served[n]? = some ⟨n, start, false⟩) (hhost : s₁.host = s.host) :
    Owns fresh start s₁ i (some n) k? t where
  stage o token? ho := by
    obtain ⟨hhostless, hcame⟩ := h.stage o token? (hclient.symm.trans ho)
    refine ⟨hhostless, hcame.frame ?_⟩
    rintro _ d ⟨⟩ hd
    exact ⟨d, hconnection.trans hd, rfl⟩
  connection := by
    rintro _ ⟨⟩
    obtain ⟨d, hd, hheld⟩ := h.connection n rfl
    refine ⟨d, hconnection.trans hd, fun _ => hheld fun c hc => ?_⟩
    cases hwaits.symm.trans hc
  numbered := by
    rintro _ c ⟨⟩ hc
    cases hserved.symm.trans hc
    rfl
  mirrors := h.mirrors.dispatched hclient hconnection hwaits hserved hhost

section Client

variable {o o₁ : Operation (Array τ) α} {talk : Attempt (Array τ) (Exchange (Array τ) α)} {refuse : Refusal → α}
  {ticket : Nat} {world : PipeNet} {host : Array τ}

theorem stage_of_client (ho : s.clients[i]? = some ⟨o, none⟩) (hhostless : o.stage.Hostless)
    (hcame : o.stage.CameTo s.world n?) (o' : Operation (Array τ) α) (token? : Option String)
    (ho' : s.clients[i]? = some ⟨o', token?⟩) : o'.stage.Hostless ∧ o'.stage.CameTo s.world n? := by
  cases ho.symm.trans ho'
  exact ⟨hhostless, hcame⟩

theorem dials (h : Owns fresh start s i none k? t) (ho : s.clients[i]? = some ⟨⟨.idle talk, refuse⟩, none⟩)
    (ho₁ : s₁.clients[i]? = some ⟨⟨.dialing ticket talk, refuse⟩, none⟩) (hhost : s₁.host = s.host) :
    ∃ t₁, t.advance (.client 0) = some t₁ ∧ Owns fresh start s₁ i none k? t₁ := by
  have halone : Operation.step Duplex.network false (Operation.alone ⟨.idle talk, refuse⟩) t.world t.host =
      some (Operation.alone ⟨.dialing ticket talk, refuse⟩, t.world, t.host) := rfl
  obtain ⟨t₁, hmoved, hmirrors⟩ := h.mirrors.client none ho halone ho₁ h.mirrors.world.symm rfl hhost
  exact ⟨t₁, hmoved, stage_of_client ho₁ (h.stage _ _ ho).1 (.dialing _ _), nofun, nofun, hmirrors⟩

/-- A connection that was just made is as fresh as the one that is there for an operation by itself. -/
theorem connects (h : Owns fresh start s i none k? t) (ho : s.clients[i]? = some ⟨⟨.dialing ticket talk, refuse⟩, none⟩)
    (ho₁ : s₁.clients[i]? = some ⟨⟨.talking n talk.run, refuse⟩, none⟩)
    (hfresh : s₁.world.connections[n]? = some fresh) (hheld : ∀ side, fresh.isHeld side = true)
    (hwaits : s₁.served[n]? = none) (hhost : s₁.host = s.host) :
    ∃ t₁, t.advance (.client 0) = some t₁ ∧ Owns fresh start s₁ i (some n) k? t₁ := by
  have hworld : t.world = fresh := h.mirrors.world
  have halone : Operation.step Duplex.network false (Operation.alone ⟨.dialing ticket talk, refuse⟩) t.world t.host =
      some (Operation.alone ⟨.talking n talk.run, refuse⟩, t.world, t.host) := rfl
  obtain ⟨t₁, hmoved, hmirrors⟩ := h.mirrors.client (some n) ho halone ho₁
    (by rw [Option.bind_some, hfresh, hworld, Option.getD_some]) hwaits hhost
  refine ⟨t₁, hmoved, stage_of_client ho₁ (h.stage _ _ ho).1 (.holding rfl hfresh (hheld .dialer)), ?_, ?_, hmirrors⟩
  · rintro _ ⟨⟩
    exact ⟨fresh, hfresh, fun _ => hheld .acceptor⟩
  · rintro _ c ⟨⟩ hc
    cases hwaits.symm.trans hc

/-- A step of an operation at its connection is one that it makes where there is no other connection. -/
theorem uses (h : Owns fresh start s i (some n) k? t) (ho : s.clients[i]? = some ⟨o, none⟩)
    (hstep : o.step PipeNet.network false s.world s.host = some (o₁, world, host))
    (ho₁ : s₁.clients[i]? = some ⟨o₁, none⟩) (hworld : s₁.world = world) (hserved : s₁.served = s.served)
    (hhost : s₁.host = host) : ∃ t₁ d live, t.advance (.client 0) = some t₁ ∧
      Owns fresh start s₁ i (some n) k? t₁ ∧ world = { s.world.put n d with live } ∧ host = s.host := by
  obtain ⟨hhostless, hcame⟩ := h.stage o none ho
  obtain ⟨stage, refuse⟩ := o
  change stage.CameTo _ _ at hcame
  cases hcame with
  | finished n a => cases hstep
  | @holding _ n d hn hd hheld =>
    have hhostless₁ := hhostless.moves (Operation.step_cases hstep).2
    obtain ⟨d₁, live, rfl, rfl, halone, hends, hcame₁⟩ := Operation.step_alone hn hd hheld hhostless hstep t.host
    have hd₁ : s₁.world.connections[n]? = some d₁ := by
      rw [hworld]
      exact entry_set_self hd d₁
    have hsmall : t.world = d := by rw [h.mirrors.world, Option.bind_some, hd, Option.getD_some]
    rw [← hsmall] at halone
    obtain ⟨t₁, hmoved, hmirrors⟩ := h.mirrors.client (some n) ho halone ho₁
      (by rw [Option.bind_some, hd₁, Option.getD_some]) (by rw [hserved]) hhost
    refine ⟨t₁, d₁, live, hmoved, ⟨stage_of_client ho₁ hhostless₁ (hworld ▸ hcame₁), ?_, ?_, hmirrors⟩, rfl, rfl⟩
    · rintro _ ⟨⟩
      obtain ⟨d', hd', hacceptor⟩ := h.connection n rfl
      cases hd.symm.trans hd'
      rw [hserved]
      exact ⟨d₁, hd₁, fun hkept => hends.trans (hacceptor hkept)⟩
    · rw [hserved]
      exact h.numbered

end Client

section Server

variable {c : Served (Array τ)} {d : Duplex} (h : Owns fresh start s i (some n) k? t)
  (hc : s.served[n]? = some c) (hd : s.world.connections[n]? = some d)
include h hc hd

/-- A step of the server at the connection is one that it makes where there is nothing else. -/
theorem serve {e₁ : Exchange (Array τ) (Except ServeError Unit)} {d₁ : Duplex} {host₁ : Array τ}
    (hopen : c.exchange.answer? = none)
    (hstep : c.exchange.step (Duplex.channel .acceptor) d s.host = some (e₁, d₁, host₁))
    (hclient : s₁.clients[i]? = s.clients[i]?) (hd₁ : s₁.world.connections[n]? = some d₁)
    (hc₁ : s₁.served[n]? = some { c with exchange := e₁ }) (hhost : s₁.host = host₁) :
    ∃ t₁ k₁?, t.advance (.served 0) = some t₁ ∧ Owns fresh start s₁ i (some n) k₁? t₁ ∧
      Exchange.Touches k? s.host k₁? s₁.host := by
  obtain ⟨t₁, k₁?, hmoved, hmirrors, htouches⟩ := h.mirrors.serve hc hd hopen hstep hclient hd₁ hc₁ hhost
  have hends := Duplex.isHeld_of_uses (Exchange.step_cases hstep).2
  refine ⟨t₁, k₁?, hmoved, ⟨fun o token? ho => ?_, ?_, ?_, hmirrors⟩, htouches⟩
  · obtain ⟨hhostless, hcame⟩ := h.stage o token? (hclient.symm.trans ho)
    refine ⟨hhostless, hcame.frame ?_⟩
    rintro _ d' ⟨⟩ hd'
    cases hd.symm.trans hd'
    exact ⟨d₁, hd₁, hends .dialer⟩
  · rintro _ ⟨⟩
    obtain ⟨d', hd', hheld⟩ := h.connection n rfl
    cases hd.symm.trans hd'
    refine ⟨d₁, hd₁, fun hkept => (hends .acceptor).trans (hheld fun c' hc' => ?_)⟩
    cases hc.symm.trans hc'
    exact hkept { c with exchange := e₁ } hc₁
  · rintro _ c' ⟨⟩ hc'
    cases hc₁.symm.trans hc'
    exact h.numbered n c rfl hc

/-- The server gives the connection up when it is done with it, wherever it is served. -/
theorem serverReleases {r : Except ServeError Unit} (hdone : c.exchange = .done r) (hkept : c.released = false)
    (hclient : s₁.clients[i]? = s.clients[i]?) (hd₁ : s₁.world.connections[n]? = some (d.release .acceptor))
    (hc₁ : s₁.served[n]? = some { c with released := true }) (hhost : s₁.host = s.host) :
    ∃ t₁, t.advance (.served 0) = some t₁ ∧ Owns fresh start s₁ i (some n) k? t₁ := by
  obtain ⟨t₁, hmoved, hmirrors⟩ := h.mirrors.serverReleases hc hd hdone hkept hclient hd₁ hc₁ hhost
  refine ⟨t₁, hmoved, fun o token? ho => ?_, ?_, ?_, hmirrors⟩
  · obtain ⟨hhostless, hcame⟩ := h.stage o token? (hclient.symm.trans ho)
    refine ⟨hhostless, hcame.frame ?_⟩
    rintro _ d' ⟨⟩ hd'
    cases hd.symm.trans hd'
    exact ⟨_, hd₁, rfl⟩
  · rintro _ ⟨⟩
    exact ⟨_, hd₁, fun hkept => by cases hkept _ hc₁⟩
  · rintro _ c' ⟨⟩ hc'
    cases hc₁.symm.trans hc'
    exact h.numbered n c rfl hc

end Server

end Owns

/-! ## All operations -/

/-- Operations that are carried out side by side have nothing in common but the server that accepts their connections:
each has a connection and a sink of its own, and is mirrored by a system of its own. -/
structure Separate (settings : Settings (Array τ)) (capacity token : Nat) (dialed sinks : Nat → Option Nat)
    (own : Nat → System Duplex (Array τ) α) (s : System PipeNet (Array τ) α) : Prop where
  settings_eq : s.settings = settings
  network_eq : s.network = PipeNet.network
  rendezvous : Rendezvous capacity token s.server s.tickets s.world s.served.size
  dialed_numbered : Numbered s.world.connections.size dialed
  dialer : ∀ n, n < s.world.connections.size → ∃ i, i < s.clients.size ∧ dialed i = some n
  sinks_numbered : Numbered s.host.size sinks
  owns : ∀ i, i < s.clients.size →
    Owns (.ofCapacity capacity) settings.opening s i (dialed i) (sinks i) (own i)

namespace Separate

variable {settings : Settings (Array τ)} {capacity token : Nat} {dialed dialed₁ sinks : Nat → Option Nat}
  {own own₁ : Nat → System Duplex (Array τ) α} {s s₁ : System PipeNet (Array τ) α} {p p' : Part} {j n : Nat}

/-- What happens to one operation and its connection leaves the others alone. -/
theorem focus {k? : Option Nat} {t : System Duplex (Array τ) α}
    (h : Separate settings capacity token dialed sinks own s) (hsettings : s₁.settings = s.settings)
    (hnetwork : s₁.network = s.network)
    (hrendezvous : Rendezvous capacity token s₁.server s₁.tickets s₁.world s₁.served.size)
    (hconnections : Numbered s₁.world.connections.size dialed₁)
    (hdialer : ∀ n, n < s₁.world.connections.size → ∃ i, i < s₁.clients.size ∧ dialed₁ i = some n)
    (hclients : s₁.clients.size = s.clients.size)
    (hothers : ∀ i, i ≠ j → dialed₁ i = dialed i ∧ s₁.clients[i]? = s.clients[i]?)
    (helsewhere : ∀ n, dialed₁ j ≠ some n →
      s₁.world.connections[n]? = s.world.connections[n]? ∧ s₁.served[n]? = s.served[n]?)
    (htouches : Exchange.Touches (sinks j) s.host k? s₁.host)
    (howns : Owns (.ofCapacity capacity) settings.opening s₁ j (dialed₁ j) k? t) :
    Separate settings capacity token dialed₁ (Function.update sinks j k?) (Function.update own j t) s₁ := by
  obtain ⟨hsinks, hsink⟩ := h.sinks_numbered.touches htouches
  refine ⟨hsettings.trans h.settings_eq, hnetwork.trans h.network_eq, hrendezvous, hconnections, hdialer, hsinks,
    fun i hi => ?_⟩
  by_cases hij : i = j
  · subst hij
    rw [Function.update_self, Function.update_self]
    exact howns
  · obtain ⟨hdialed, hclient⟩ := hothers i hij
    rw [Function.update_of_ne hij, Function.update_of_ne hij, hdialed]
    -- what operation i has is elsewhere, for it has dialed another connection
    have helse : ∀ n, dialed i = some n → dialed₁ j ≠ some n := by
      intro n hi' hj'
      exact hij (hconnections.inj (hdialed.trans hi') hj')
    exact (h.owns i (hclients ▸ hi)).frame hclient (fun n hn => (helsewhere n (helse n hn)).1)
      (fun n hn => (helsewhere n (helse n hn)).2) fun k hk => hsink i k hij hk

/-- An operation that has a connection has dialed it. -/
theorem dialed_or_connection? (h : Separate settings capacity token dialed sinks own s) (i : Nat) :
    (dialed i).or (s.connection? i) = dialed i := by
  unfold connection?
  cases hp : s.clients[i]? with
  | none => exact Option.or_none
  | some p =>
    obtain ⟨hi, -⟩ := Array.getElem?_eq_some_iff.1 hp
    rw [Option.bind_some]
    cases hn : p.operation.stage.connection? with
    | none => exact Option.or_none
    | some n =>
      rw [((h.owns i hi).stage _ _ hp).2.of_connection hn]
      rfl

/-- A step keeps the operations apart, and for each of them it is a step of its own system, or none. -/
structure Advances (settings : Settings (Array τ)) (capacity token : Nat) (dialed : Nat → Option Nat)
    (own : Nat → System Duplex (Array τ) α) (p : Part) (s s₁ : System PipeNet (Array τ) α) : Prop where
  clients : s₁.clients.size = s.clients.size
  separate : ∃ dialed₁ sinks₁ own₁, Separate settings capacity token dialed₁ sinks₁ own₁ s₁ ∧
    (∀ i, dialed₁ i = (dialed i).or (s₁.connection? i)) ∧
    ∀ i, (own i).follow (p.onto i (dialed₁ i)).toList = some (own₁ i)

/-- A step that is made for one operation alone. -/
theorem advances_of_focus {t : System Duplex (Array τ) α}
    (h : Separate settings capacity token dialed₁ sinks (Function.update own j t) s₁)
    (hclients : s₁.clients.size = s.clients.size)
    (hdialed : ∀ i, dialed₁ i = dialed i ∨ dialed i = none ∧ s₁.connection? i = dialed₁ i)
    (honto : p.onto j (dialed₁ j) = some p') (hothers : ∀ i, i ≠ j → p.onto i (dialed₁ i) = none)
    (hmoved : (own j).advance p' = some t) : Advances settings capacity token dialed own p s s₁ := by
  refine ⟨hclients, dialed₁, sinks, _, h, fun i => ?_, fun i => ?_⟩
  · rcases hdialed i with hsame | ⟨hnone, hconnection⟩
    · rw [← hsame, h.dialed_or_connection?]
    · rw [hnone, hconnection, Option.none_or]
  · by_cases hij : i = j
    · subst hij
      rw [honto, Function.update_self, Option.toList_some, follow, hmoved]
      rfl
    · rw [hothers i hij, Function.update_of_ne hij]
      rfl

/-- What goes on between the server and the network, and leaves the connections, the operations and the host alone. -/
theorem advances_of_accepting (h : Separate settings capacity token dialed sinks own s)
    (hsettings : s₁.settings = s.settings) (hnetwork : s₁.network = s.network)
    (hrendezvous : Rendezvous capacity token s₁.server s₁.tickets s₁.world s₁.served.size)
    (hconnections : s₁.world.connections = s.world.connections) (hclients : s₁.clients = s.clients)
    (hhost : s₁.host = s.host)
    (howns : ∀ i, i < s.clients.size →
      Owns (.ofCapacity capacity) settings.opening s₁ i (dialed i) (sinks i) (own i)) :
    Advances settings capacity token dialed own (.serverCall j) s s₁ := by
  have hseparate : Separate settings capacity token dialed sinks own s₁ :=
    { settings_eq := hsettings.trans h.settings_eq
      network_eq := hnetwork.trans h.network_eq
      rendezvous := hrendezvous
      dialed_numbered := hconnections ▸ h.dialed_numbered
      dialer := by
        rw [hconnections, hclients]
        exact h.dialer
      sinks_numbered := hhost ▸ h.sinks_numbered
      owns := by
        rw [hclients]
        exact howns }
  exact ⟨congrArg Array.size hclients, dialed, sinks, own, hseparate,
    fun i => (hseparate.dialed_or_connection? i).symm, fun _ => rfl⟩

/-- What the server does to accept connections is nothing to any operation. -/
theorem stepServerCall (h : Separate settings capacity token dialed sinks own s)
    (hs : s.stepServerCall j = some s₁) : Advances settings capacity token dialed own (.serverCall j) s s₁ := by
  obtain ⟨server, tickets, world, hconnections, hrendezvous, rfl | ⟨hmet, rfl⟩⟩ :=
    stepServerCall_rendezvous h.network_eq h.rendezvous hs
  · refine h.advances_of_accepting rfl rfl hrendezvous hconnections rfl rfl fun i hi => ?_
    exact (h.owns i hi).frame rfl (fun n _ => congrArg (·[n]?) hconnections) (fun _ _ => rfl) fun _ _ => rfl
  · refine h.advances_of_accepting rfl rfl hrendezvous hconnections rfl rfl fun i hi => ?_
    have howns := h.owns i hi
    -- only for its dialer there is anything new about the connection, and alone it is served already
    by_cases hi' : dialed i = some s.served.size
    · rw [hi'] at howns ⊢
      refine howns.dispatched rfl (congrArg (·[s.served.size]?) hconnections) ?_ ?_ rfl
      · exact Array.getElem?_eq_none (Nat.le_refl _)
      · show (s.served.push _)[s.served.size]? = _
        rw [Array.getElem?_push_size, ← h.settings_eq]
        rfl
    · refine howns.frame rfl (fun n _ => congrArg (·[n]?) hconnections) (fun n hn => ?_) fun _ _ => rfl
      show (s.served.push _)[n]? = _
      rw [Array.getElem?_push, if_neg]
      rintro rfl
      exact hi' hn

/-- A step of an operation that leaves the other operations and their connections alone. -/
theorem advances_of_client (h : Separate settings capacity token dialed sinks own s) {o o' : Operation (Array τ) α}
    {world : PipeNet} {t : System Duplex (Array τ) α} (ho : s.clients[j]? = some ⟨o, none⟩)
    (hs₁ : s₁ = { s with world, clients := s.clients.set! j ⟨o', none⟩ })
    (hrendezvous : Rendezvous capacity token s.server s.tickets world s.served.size)
    (hconnections : Numbered world.connections.size dialed₁)
    (hdialer : ∀ n, n < world.connections.size → ∃ i, i < s.clients.size ∧ dialed₁ i = some n)
    (hothers : ∀ i, i ≠ j → dialed₁ i = dialed i)
    (hdialed : dialed₁ j = dialed j ∨ dialed j = none ∧ o'.stage.connection? = dialed₁ j)
    (helsewhere : ∀ n, dialed₁ j ≠ some n → world.connections[n]? = s.world.connections[n]?)
    (howns : Owns (.ofCapacity capacity) settings.opening s₁ j (dialed₁ j) (sinks j) t)
    (hmoved : (own j).advance (.client 0) = some t) :
    Advances settings capacity token dialed own (.client j) s s₁ := by
  have hsize : s₁.clients.size = s.clients.size := by
    rw [hs₁]
    exact size_set _ _ _
  have hclients : ∀ i, i ≠ j → s₁.clients[i]? = s.clients[i]? := by
    rw [hs₁]
    exact fun i hij => entry_set_of_ne (Ne.symm hij) _
  have hseparate : Separate settings capacity token dialed₁ (Function.update sinks j (sinks j))
      (Function.update own j t) s₁ := by
    refine h.focus ?_ ?_ ?_ ?_ ?_ hsize (fun i hij => ⟨hothers i hij, hclients i hij⟩) (fun n hn => ?_) ?_ howns
    all_goals subst hs₁
    · rfl
    · rfl
    · exact hrendezvous
    · exact hconnections
    · rw [hsize]
      exact hdialer
    · exact ⟨helsewhere n hn, rfl⟩
    · exact .nothing _ _
  refine advances_of_focus hseparate hsize (fun i => ?_) (if_pos rfl) (fun i hij => if_neg (Ne.symm hij)) hmoved
  by_cases hij : i = j
  · subst hij
    refine hdialed.imp_right fun ⟨hnone, hconnection⟩ => ⟨hnone, ?_⟩
    rw [connection?, hs₁, entry_set_self ho]
    exact hconnection
  · exact .inl (hothers i hij)

/-- A dial that gets through comes to a connection that no other operation has. -/
theorem advances_of_connect (h : Separate settings capacity token dialed sinks own s) {o o' : Operation (Array τ) α}
    {world : PipeNet} {d : Duplex} {t : System Duplex (Array τ) α} (ho : s.clients[j]? = some ⟨o, none⟩)
    (hs₁ : s₁ = { s with world, clients := s.clients.set! j ⟨o', none⟩ }) (hnone : dialed j = none)
    (hconnection : o'.stage.connection? = some s.world.connections.size)
    (hpushed : world.connections = s.world.connections.push d)
    (hrendezvous : Rendezvous capacity token s.server s.tickets world s.served.size)
    (howns : Owns (.ofCapacity capacity) settings.opening s₁ j (some s.world.connections.size) (sinks j) t)
    (hmoved : (own j).advance (.client 0) = some t) :
    Advances settings capacity token dialed own (.client j) s s₁ := by
  obtain ⟨hj, -⟩ := Array.getElem?_eq_some_iff.1 ho
  have hdialed : Function.update dialed j (some s.world.connections.size) j = some s.world.connections.size :=
    Function.update_self _ _ _
  have hothers : ∀ i, i ≠ j → Function.update dialed j (some s.world.connections.size) i = dialed i :=
    fun i hij => Function.update_of_ne hij _ _
  rw [← hdialed] at howns
  refine h.advances_of_client ho hs₁ hrendezvous ?_ ?_ hothers (.inr ⟨hnone, hconnection.trans hdialed.symm⟩) ?_ howns
    hmoved
  · rw [hpushed, Array.size_push]
    exact h.dialed_numbered.next j
  · rw [hpushed, Array.size_push]
    intro n hlt
    rcases Nat.lt_succ_iff_lt_or_eq.1 hlt with hlt | rfl
    · obtain ⟨i, hi, hin⟩ := h.dialer n hlt
      have hij : i ≠ j := by
        rintro rfl
        cases hnone.symm.trans hin
      exact ⟨i, hi, (hothers i hij).trans hin⟩
    · exact ⟨j, hj, hdialed⟩
  · rw [hdialed]
    intro n hne
    rw [hpushed, Array.getElem?_push, if_neg fun hnm => hne (congrArg some hnm.symm)]

/-- A step of an operation is one that it makes by itself. -/
theorem stepClient (h : Separate settings capacity token dialed sinks own s) (hs : s.stepClient j = some s₁) :
    Advances settings capacity token dialed own (.client j) s s₁ := by
  have hj : j < s.clients.size := by
    cases hp : s.clients[j]? with
    | none => simp [System.stepClient, hp] at hs
    | some p => exact (Array.getElem?_eq_some_iff.1 hp).1
  have howns := h.owns j hj
  generalize hn : dialed j = n? at howns
  obtain ⟨o, ho, -⟩ := howns.mirrors.clients
  rw [stepClient_eq ho] at hs
  obtain ⟨⟨o', world, host⟩, hstep, heq⟩ := Option.map_eq_some_iff.1 hs
  have hs₁ : s₁ = { s with world, host, clients := s.clients.set! j ⟨o', none⟩ } := heq.symm
  have hworld₁ : s₁.world = world := by rw [hs₁]
  have hserved₁ : s₁.served = s.served := by rw [hs₁]
  have hhost₁ : s₁.host = host := by rw [hs₁]
  have ho' : s₁.clients[j]? = some ⟨o', none⟩ := by
    rw [hs₁]
    exact entry_set_self ho _
  rw [h.network_eq] at hstep
  -- without a connection, the operation starts to dial or looks whether its dial got through
  cases n? with
  | some n =>
    obtain ⟨t, d, live, hmoved, howns₁, rfl, rfl⟩ := howns.uses ho hstep ho' hworld₁ hserved₁ hhost₁
    refine h.advances_of_client ho hs₁ (h.rendezvous.of_sameLines (PipeNet.sameLines_put _ _ _ _)) ?_ ?_
      (fun _ _ => rfl) (.inl rfl) ?_ (hn ▸ howns₁) hmoved
    · show Numbered (s.world.connections.set! n d).size dialed
      rw [size_set]
      exact h.dialed_numbered
    · show ∀ m, m < (s.world.connections.set! n d).size → _
      rw [size_set]
      exact h.dialer
    · rw [hn]
      exact fun m hm => entry_set_of_ne (fun hnm => hm (congrArg some hnm)) d
  | none =>
    obtain ⟨stage, refuse⟩ := o
    have hcame : stage.CameTo s.world none := (howns.stage _ none ho).2
    cases hcame with
    | idle talk =>
      cases hstep
      obtain ⟨t, hmoved, howns₁⟩ := howns.dials ho ho' hhost₁
      exact h.advances_of_client ho hs₁ (h.rendezvous.of_sameLines (PipeNet.sameLines_startDial _)) h.dialed_numbered
        h.dialer (fun _ _ => rfl) (.inl rfl) (fun _ _ => rfl) (hn ▸ howns₁) hmoved
    | dialing ticket talk =>
      simp only [Operation.step, Bool.false_and, Bool.false_eq_true, if_false] at hstep
      rcases h.rendezvous.pollDial ticket with hpending | ⟨q, hready, hpushed, hrendezvous⟩
      · have hpoll : PipeNet.network.pollDial ticket s.world = (.pending, (s.world.pollDial ticket).2) := by
          rw [← hpending]
          rfl
        rw [hpoll] at hstep
        cases hstep
      · have hpoll : PipeNet.network.pollDial ticket s.world = (.ready s.world.connections.size, q) := hready
        rw [hpoll] at hstep
        cases hstep
        have hfresh : s₁.world.connections[s.world.connections.size]? = some (.ofCapacity capacity) := by
          rw [hworld₁, hpushed, Array.getElem?_push_size]
        have hwaits : s₁.served[s.world.connections.size]? = none := by
          rw [hserved₁]
          exact Array.getElem?_eq_none h.rendezvous.served_le
        obtain ⟨t, hmoved, howns₁⟩ := howns.connects ho ho' hfresh (fun side => by cases side <;> rfl) hwaits hhost₁
        exact h.advances_of_connect ho hs₁ hn rfl hpushed hrendezvous howns₁ hmoved

/-- A step of the server at a connection leaves the other connections alone. -/
theorem advances_of_served (h : Separate settings capacity token dialed sinks own s) (hj : dialed j = some n)
    {d : Duplex} {live : Nat} {host : Array τ} {c : Served (Array τ)} {k? : Option Nat}
    {t : System Duplex (Array τ) α}
    (hs₁ : s₁ = { s with world := { s.world.put n d with live }, host, served := s.served.set! n c })
    (htouches : Exchange.Touches (sinks j) s.host k? s₁.host)
    (howns : Owns (.ofCapacity capacity) settings.opening s₁ j (some n) k? t)
    (hmoved : (own j).advance (.served 0) = some t) :
    Advances settings capacity token dialed own (.served n) s s₁ := by
  have hsize : (s.world.connections.set! n d).size = s.world.connections.size := size_set _ _ _
  have hseparate : Separate settings capacity token dialed (Function.update sinks j k?) (Function.update own j t) s₁ := by
    refine h.focus ?_ ?_ ?_ ?_ ?_ ?_ (fun i _ => ⟨rfl, ?_⟩) (fun m hm => ?_) htouches (hj ▸ howns)
    all_goals subst hs₁
    · rfl
    · rfl
    · show Rendezvous capacity token s.server s.tickets _ (s.served.set! n c).size
      rw [size_set]
      exact h.rendezvous.of_sameLines (PipeNet.sameLines_put _ _ _ _)
    · exact hsize ▸ h.dialed_numbered
    · exact fun m hm => h.dialer m (hsize ▸ hm)
    · rfl
    · rfl
    · have hnm : n ≠ m := fun hnm => hm (hnm ▸ hj)
      exact ⟨entry_set_of_ne hnm d, entry_set_of_ne hnm c⟩
  have hclients : s₁.clients.size = s.clients.size := by rw [hs₁]
  refine advances_of_focus hseparate hclients (fun _ => .inl rfl) (if_pos hj) (fun i hij => if_neg fun hi => ?_) hmoved
  exact hij (h.dialed_numbered.inj hi hj)

/-- A connection that is served was dialed. -/
theorem dialer_of_served (h : Separate settings capacity token dialed sinks own s) (hs : s.stepServed n = some s₁) :
    ∃ c j, s.served[n]? = some c ∧ j < s.clients.size ∧ dialed j = some n := by
  cases hc : s.served[n]? with
  | none => simp [System.stepServed, hc] at hs
  | some c =>
    obtain ⟨hlt, -⟩ := Array.getElem?_eq_some_iff.1 hc
    obtain ⟨j, hj, hdialed⟩ := h.dialer n (Nat.lt_of_lt_of_le hlt h.rendezvous.served_le)
    exact ⟨c, j, rfl, hj, hdialed⟩

/-- A step of the server at a connection is one that it makes where there is nothing else. -/
theorem stepServed (h : Separate settings capacity token dialed sinks own s) (hs : s.stepServed n = some s₁) :
    Advances settings capacity token dialed own (.served n) s s₁ := by
  obtain ⟨c, j, hc, hj, hdialed⟩ := h.dialer_of_served hs
  have howns := h.owns j hj
  rw [hdialed] at howns
  obtain ⟨d, hd, hacceptor⟩ := howns.connection n rfl
  have haccepted : s.network.accepted c.connection = PipeNet.channel .acceptor n := by
    rw [h.network_eq, howns.numbered n c rfl hc]
    rfl
  cases hanswer : c.exchange.answer? with
  | none =>
    rw [stepServed_open hc hanswer, haccepted] at hs
    obtain ⟨⟨e₁, world, host⟩, hstep, hs₁⟩ := Option.map_eq_some_iff.1 hs
    obtain ⟨d₁, hinner, rfl⟩ := Exchange.step_some_of_embeds (PipeNet.embeds_channel hd) hstep
    have hclient : s₁.clients[j]? = s.clients[j]? := by rw [← hs₁]
    have hhost : s₁.host = host := by rw [← hs₁]
    have hd₁ : s₁.world.connections[n]? = some d₁ := by
      rw [← hs₁]
      exact entry_set_self hd d₁
    have hc₁ : s₁.served[n]? = some { c with exchange := e₁ } := by
      rw [← hs₁]
      exact entry_set_self hc _
    obtain ⟨t, k?, hmoved, howns₁, htouches⟩ := howns.serve hc hd hanswer hinner hclient hd₁ hc₁ hhost
    exact h.advances_of_served hdialed hs₁.symm htouches howns₁ hmoved
  | some r =>
    obtain ⟨connection, exchange, released⟩ := c
    obtain rfl : exchange = .done r := by
      cases exchange <;> cases hanswer
      rfl
    rw [stepServed_done hc] at hs
    cases released with
    | true => cases hs
    | false =>
      have hheld : d.isHeld .acceptor = true := hacceptor fun c hc' => by
        cases hc.symm.trans hc'
        rfl
      rw [if_neg Bool.false_ne_true, haccepted] at hs
      have hs₁ := Option.some.inj hs
      rw [show (PipeNet.channel .acceptor n).release s.world = PipeNet.release n .acceptor s.world from rfl,
        PipeNet.release_eq_put hd hheld] at hs₁
      have hclient : s₁.clients[j]? = s.clients[j]? := by rw [← hs₁]
      have hhost : s₁.host = s.host := by rw [← hs₁]
      have hd₁ : s₁.world.connections[n]? = some (d.release .acceptor) := by
        rw [← hs₁]
        exact entry_set_self hd _
      have hc₁ : s₁.served[n]? = some ⟨connection, .done r, true⟩ := by
        rw [← hs₁]
        exact entry_set_self hc _
      obtain ⟨t, hmoved, howns₁⟩ := howns.serverReleases hc hd rfl rfl hclient hd₁ hc₁ hhost
      exact h.advances_of_served hdialed hs₁.symm (hhost ▸ .nothing _ _) howns₁ hmoved

/-- Whichever part makes a step, the operations stay apart. -/
theorem advance (h : Separate settings capacity token dialed sinks own s) (hs : s.advance p = some s₁) :
    Advances settings capacity token dialed own p s s₁ := by
  cases p with
  | client j => exact h.stepClient hs
  | serverCall j => exact h.stepServerCall hs
  | served n => exact h.stepServed hs

end Separate

end System

end RemoteCall
