import RemoteCall.Client.Request
import RemoteCall.System.Turns
/-!
# Sessions

A server and its clients, driven from outside: instructions to a client, alone or at the same time, and calls on
the server. Who drives waits for the outcome of each before the next one; what still waits when nothing moves
any more is given up.
-/

namespace RemoteCall

/-- What a client is told to do. -/
inductive Instruction
  | request (r : Request)
  /-- Cancels the token that comes with the instruction. -/
  | cancel
  | capabilities
  | classOf (method : String)

/-- An instruction with a token, which cancels a request. -/
structure Submission where
  instruction : Instruction
  token? : Option String
  /-- Whether the token is cancelled once nothing moves. -/
  cancelsLate : Bool

/-- What an instruction came to. -/
inductive Outcome
  | response (r : Response)
  /-- The request had to be given up; so much was read until then. -/
  | pending (collected : Bytes)
  | cancelled
  | capabilities (c : Capabilities)
  | callClass (c? : Option CallClass)

/-- A worker whose operations are requests. -/
abbrev RequestWorker (ω σ : Type) : Type := Worker ω σ Response

namespace RequestWorker

variable {ω σ : Type}

/-- Begins what a client is told to do: gives the number of the operation, unless there is an outcome at
once. -/
def start (c : Client) (b : Submission) (w : RequestWorker ω σ) : Except Outcome Nat × RequestWorker ω σ :=
  let w := match b.token? with
    | some token => if b.cancelsLate then Worker.arm token w else w
    | none => w
  match b.instruction with
  | .cancel => (.error .cancelled, b.token?.elim w fun token => Worker.act (System.fire · token) w)
  | .capabilities => (.error (.capabilities c.capabilities), w)
  | .classOf method => (.error (.callClass (c.classOf? method)), w)
  | .request r =>
    match r.plan c with
    | .error e => (.error (.response (r.refusal e)), w)
    | .ok plan => let (i, w) := Worker.submit plan b.token? w; (.ok i, w)

/-- The answer to an operation. -/
def answer? (w : RequestWorker ω σ) (i : Nat) : Option Response :=
  w.system.clients[i]?.bind (·.operation.answer?)

/-- The outcome of an instruction that was begun. -/
def outcome (w : RequestWorker ω σ) : Except Outcome Nat → Outcome
  | .error o => o
  | .ok i =>
    match answer? w i with
    | some r => .response r
    | none => .pending ((w.system.clients[i]?.map (·.operation.collected)).getD [])

/-- Gives instructions to a client at the same time, and waits for their outcomes. -/
def perform (c : Client) (bs : List Submission) (w : RequestWorker ω σ) :
    List Outcome × RequestWorker ω σ :=
  let (begun, w) := bs.foldl (fun (begun, w) b => let (r, w) := start c b w; (begun ++ [r], w)) ([], w)
  let numbers := begun.filterMap Except.toOption
  let w := Worker.await (numbers.map .client) (fun w => numbers.all fun i => (answer? w i).isSome)
    Worker.fuel w
  (begun.map (outcome w), Worker.act System.dropClients w)

/-- Makes one request that nothing cancels. -/
def performOne (r : Request) (w : RequestWorker ω σ) : Outcome × RequestWorker ω σ :=
  match perform ⟨.empty, 0⟩ [⟨.request r, none, false⟩] w with
  | (o :: _, w) => (o, w)
  | ([], w) => (.pending [], w)

end RequestWorker

/-- How accepting is brought to its end. -/
inductive Stop
  | close
  | cancel
  | none
deriving DecidableEq, Repr

/-- Closes the server, or cancels the token of its accept calls. -/
def Stop.run {ω σ α : Type} (w : Worker ω σ α) : Stop → Worker ω σ α
  | close => w.close
  | cancel => w.act fun s => { s with server := s.server.cancel 0 }
  | none => w

/-- Accepts as long as there are connections, then stops in the given way, and serves all to their end; also
gives the result of accepting. -/
def System.acceptUntil {ω σ α : Type} (first last : Stop) (s : System ω σ α) :
    Option (Except Fault Unit) × System ω σ α :=
  let (i, w) := (first.run (.ofSystem s)).accept 0
  let w := w.quiesce Worker.fuel
  let w := if (w.system.server.result? i).isSome then w else (last.run w).quiesce Worker.fuel
  (w.system.server.result? i, w.system)

/-- A worker with the client that was connected last. -/
structure Session (ω σ : Type) where
  worker : RequestWorker ω σ
  client? : Option Client
  /-- The accept call whose result was not told yet. -/
  accept? : Option Nat

namespace Session

variable {ω σ : Type}

/-- A session without a server. -/
def ofSystem (s : System ω σ Response) : Session ω σ := ⟨.ofSystem s, none, none⟩

/-- Accepts in the background. -/
def accept (s : Session ω σ) : Session ω σ :=
  let (i, worker) := s.worker.accept 0
  { s with worker, accept? := some i }

/-- Changes the network. -/
def changeNetwork (f : ω → ω) (s : Session ω σ) : Session ω σ :=
  { s with worker := s.worker.act fun s => { s with world := f s.world } }

def stop (how : Stop) (s : Session ω σ) : Session ω σ := { s with worker := how.run s.worker }

/-- Gives instructions to a client at the same time. -/
def perform (c : Client) (bs : List Submission) (s : Session ω σ) : List Outcome × Session ω σ :=
  let (os, worker) := s.worker.perform c bs
  (os, { s with worker })

/-- Makes a request without a client. -/
def request (r : Request) (s : Session ω σ) : Outcome × Session ω σ :=
  let (o, worker) := s.worker.performOne r
  let client? := match o with
    | .response (.connected c) => some c
    | _ => s.client?
  (o, { s with worker, client? })

/-- Waits until the network has come to rest, or nothing moves. -/
def awaitRest (isAtRest : ω → Bool) (s : Session ω σ) : Session ω σ :=
  if isAtRest s.worker.system.world then s
  else
    let worker := s.worker.quiesce Worker.fuel
    { s with worker := if isAtRest worker.system.world then worker else worker.fireArmed }

/-- The result of the last accept call, which is told once. -/
inductive AcceptResult
  | told
  | running
  | result (r : Except Fault Unit)

/-- Waits for the result of the last accept call. -/
def acceptResult (s : Session ω σ) : AcceptResult × Session ω σ :=
  match s.accept? with
  | none => (.told, s)
  | some i =>
    let worker := s.worker.await [] (fun w => (w.system.server.result? i).isSome) Worker.fuel
    match worker.system.server.result? i with
    | some r => (.result r, { s with worker, accept? := none })
    | none => (.running, { s with worker })

/-- Accepts one connection outside of the accept calls, and gives it up at once. -/
def acceptOnce (s : Session ω σ) : Poll Unit × Session ω σ :=
  let (r, worker) := s.worker.acceptOnce
  (r, { s with worker })

end Session

end RemoteCall
