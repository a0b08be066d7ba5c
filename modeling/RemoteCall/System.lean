import RemoteCall.Client.Operation
import RemoteCall.Serve
import RemoteCall.Server
/-!
# A server and its clients

A server, a network and any number of operations of clients, with the connections that the server is
serving. `System.advance` is one step of one of them, so an interleaving is a list of choices, and
`System.drive` lets one of them go as far as it comes.
-/

namespace RemoteCall

/-- A connection on the side of the server. -/
structure Served (σ : Type) where
  connection : Nat
  exchange : Exchange σ (Except ServeError Unit)
  /-- Whether the connection was given up, as it is at the end of the exchange. -/
  released : Bool

/-- An operation and the token that cancels it. -/
structure Pending (σ α : Type) where
  operation : Operation σ α
  token? : Option String

/-- How a server is set up. -/
structure Settings (σ : Type) where
  registry : Registry σ
  recordLimit : Nat
  /-- Streams are copied through a buffer of at least one byte. -/
  copyBuffer : Nat
  copyBuffer_pos : 0 < copyBuffer

/-- Settings with a buffer of the given size, or of one byte. -/
def Settings.ofSize {σ : Type} (registry : Registry σ) (recordLimit size : Nat) : Settings σ :=
  ⟨registry, recordLimit, max size 1, by omega⟩

/-- The context of a connection. -/
def Settings.context {σ : Type} (s : Settings σ) (peer : String) : Context σ :=
  ⟨peer, s.registry, s.recordLimit, s.copyBuffer⟩

/-- A server, a network in state `ω`, a host in state `σ`, and operations that answer with `α`. -/
structure System (ω σ α : Type) where
  settings : Settings σ
  network : Network ω
  world : ω
  host : σ
  server : ServerState
  /-- The accept under way of each accept loop that waits for a connection. -/
  tickets : List (Nat × Nat)
  served : Array (Served σ)
  clients : Array (Pending σ α)
  /-- The names of the cancelled tokens of operations. -/
  fired : List String

/-- A part of a system that can make a step. -/
inductive Part
  | client (i : Nat)
  | serverCall (i : Nat)
  | served (i : Nat)
deriving DecidableEq, Repr

namespace System

variable {ω σ α : Type}

def initial (settings : Settings σ) (network : Network ω) (world : ω) (host : σ) : System ω σ α :=
  ⟨settings, network, world, host, .initial, [], #[], #[], []⟩

/-- Starts to serve a connection. -/
def dispatch (s : System ω σ α) (connection : Nat) : System ω σ α :=
  let exchange := (Serving.connection (s.settings.context (s.network.peer connection))).run
  { s with served := s.served.push ⟨connection, exchange, false⟩ }

/-- One step of a served connection. -/
def stepServed (s : System ω σ α) (i : Nat) : Option (System ω σ α) := do
  let c ← s.served[i]?
  let channel := s.network.accepted c.connection
  match c.exchange with
  | .done _ =>
    if c.released then none
    else some { s with
      world := channel.release s.world
      served := s.served.set! i { c with released := true } }
  | exchange =>
    let (exchange, world, host) ← exchange.step channel s.world s.host
    some { s with world, host, served := s.served.set! i { c with exchange } }

/-- One step of an operation. -/
def stepClient (s : System ω σ α) (i : Nat) : Option (System ω σ α) := do
  let p ← s.clients[i]?
  let cancelled := p.token?.any s.fired.contains
  let (operation, world, host) ← p.operation.step s.network cancelled s.world s.host
  some { s with world, host, clients := s.clients.set! i { p with operation } }

/-- Gives up the accept under way of a loop that has returned. -/
def forgetTicket (s : System ω σ α) (i : Nat) : System ω σ α :=
  match s.tickets.lookup i with
  | none => s
  | some ticket =>
    { s with
      world := s.network.dropAccept ticket s.world
      tickets := s.tickets.filter (·.1 != i) }

/-- Asks the listener of a loop, which goes on with the accept under way or starts one. -/
def askListener (s : System ω σ α) (i : Nat) : Poll Nat × System ω σ α :=
  let (ticket, s) :=
    match s.tickets.lookup i with
    | some ticket => (ticket, s)
    | none =>
      let (ticket, world) := s.network.startAccept s.world
      (ticket, { s with world, tickets := s.tickets ++ [(i, ticket)] })
  let (offer, world) := s.network.pollAccept ticket s.world
  let s := { s with world }
  match offer with
  | .pending => (offer, s)
  | _ => (offer, { s with tickets := s.tickets.filter (·.1 != i) })

/-- One step of a call on the server. -/
def stepServerCall (s : System ω σ α) (i : Nat) : Option (System ω σ α) := do
  let asked := s.server.asksListener i
  let started := (s.tickets.lookup i).isSome
  let (offer, s) := if asked then s.askListener i else (.pending, s)
  match s.server.step i offer with
  | some (server, dispatched?) =>
    let s := { s with server }
    let s := if (server.result? i).isSome then s.forgetTicket i else s
    match dispatched? with
    | some connection => some (s.dispatch connection)
    | none => some s
  | none => if asked && !started then some s else none

/-- One step of a part; `none` if it is finished or has to wait. -/
def advance (s : System ω σ α) : Part → Option (System ω σ α)
  | .client i => s.stepClient i
  | .serverCall i => s.stepServerCall i
  | .served i => s.stepServed i

/-- Steps of one part until it is finished or has to wait; also tells whether it moved. -/
def drive (p : Part) : Nat → System ω σ α → Bool → System ω σ α × Bool
  | 0, s, moved => (s, moved)
  | fuel + 1, s, moved =>
    match s.advance p with
    | none => (s, moved)
    | some s => drive p fuel s true

/-- Starts an operation, and tells its number. -/
def submit (s : System ω σ α) (p : Plan σ α) (token? : Option String) : Nat × System ω σ α :=
  (s.clients.size, { s with clients := s.clients.push ⟨.start p, token?⟩ })

/-- Cancels a token of operations. -/
def fire (s : System ω σ α) (token : String) : System ω σ α := { s with fired := token :: s.fired }

/-- Makes a call on the server, and tells its number. -/
def callServer (s : System ω σ α) (call : ServerCall) : Nat × System ω σ α :=
  let (i, server) := s.server.begin call
  (i, { s with server })

/-- Gives up all operations that are not finished, and forgets the others. -/
def dropClients (s : System ω σ α) : System ω σ α :=
  let (world, host) := s.clients.foldl
    (fun (w, h) p => p.operation.abandon s.network w h) (s.world, s.host)
  { s with world, host, clients := #[] }

end System

end RemoteCall
