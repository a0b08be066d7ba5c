import RemoteCall.System
/-!
# Taking turns

One worker carries out all steps of a system on behalf of a caller. The caller's parts go first: each goes as
far as it comes. Only when the caller has to wait do the parts in the background get their turns, namely the
accept calls and the served connections. Those of them that can move stand in line, in the order in which they
became able to, and each gets its turn once. The worker returns as soon as the caller has what it waits for,
and leaves the background as it is then; so what the caller did not wait for may be unfinished.

Tokens can be armed: they are cancelled when the caller waits and nothing moves any more.
-/

namespace RemoteCall

namespace System

variable {ω σ α : Type}

/-- The parts that move only while the caller waits. -/
def background (s : System ω σ α) : List Part :=
  ((List.range s.server.calls.size).filter s.server.isAccept).map .serverCall ++
    (List.range s.served.size).map .served

/-- Whether the next step of a part in the background reads from its connection or writes to it. -/
def transfers (s : System ω σ α) : Part → Bool
  | .served i => s.served[i]?.any (·.exchange.isTransfer)
  | _ => false

/-- Steps of one part until it is finished or has to wait, or, with a limit, until it has made so many
transfers; also tells whether it came as far as it could. -/
def takeTurn (p : Part) : Nat → Option Nat → System ω σ α → System ω σ α × Bool
  | 0, _, s => (s, false)
  | fuel + 1, left?, s =>
    let transfer := s.transfers p
    if transfer && left? == some 0 then (s, false)
    else
      match s.advance p with
      | none => (s, true)
      | some s => takeTurn p fuel (if transfer then left?.map (· - 1) else left?) s

end System

/-- A system whose parts take turns. -/
structure Worker (ω σ α : Type) where
  system : System ω σ α
  /-- Parts in the background that can move, in the order of their turns. -/
  line : List Part
  /-- The tokens that are cancelled once nothing moves. -/
  armed : List String

namespace Worker

variable {ω σ α : Type}

/-- More steps than any part makes before it has to wait. -/
def fuel : Nat := 1000000000000

/-- Lines up the parts in the background that can move and neither stand in line nor rest. -/
def enroll (resting : List Part) (w : Worker ω σ α) : Worker ω σ α :=
  { w with line := w.line ++ w.system.background.filter fun p =>
      !w.line.contains p && !resting.contains p && (w.system.advance p).isSome }

/-- A worker that has not done anything yet. -/
def ofSystem (s : System ω σ α) : Worker ω σ α := enroll [] ⟨s, [], []⟩

/-- Changes the system from outside. -/
def act (f : System ω σ α → System ω σ α) (w : Worker ω σ α) : Worker ω σ α :=
  enroll [] { w with system := f w.system }

/-- Lets a part of the caller go as far as it comes; also tells whether it moved. -/
def drive (p : Part) (w : Worker ω σ α) : Worker ω σ α × Bool :=
  let (system, moved) := w.system.drive p fuel false
  (enroll [] { w with system }, moved)

/-- Gives each part in line its turn, also those that get in line meanwhile. A part whose turn ended before
it had to wait rests until the others had theirs. -/
def round : Nat → List Part → Worker ω σ α → Worker ω σ α
  | 0, _, w => w
  | n + 1, resting, w =>
    match w.line with
    | [] => w.enroll []
    | p :: line =>
      let (system, ended) := w.system.takeTurn p fuel w.system.network.turnLength?
      let resting := if ended then resting else p :: resting
      round n resting (enroll resting { w with system, line })

/-- Lets the background move until nothing moves. -/
def quiesce : Nat → Worker ω σ α → Worker ω σ α
  | 0, w => w
  | n + 1, w => if w.line.isEmpty then w else quiesce n (w.round fuel [])

/-- Cancels the armed tokens. -/
def fireArmed (w : Worker ω σ α) : Worker ω σ α :=
  { w with system := w.armed.foldl System.fire w.system, armed := [] }

/-- Arms a token. -/
def arm (token : String) (w : Worker ω σ α) : Worker ω σ α := { w with armed := token :: w.armed }

/-- Lets parts of the caller go as far as they come, one after another; also tells whether one moved. -/
def driveAll (own : List Part) (w : Worker ω σ α) : Worker ω σ α × Bool :=
  own.foldl (fun (w, moved) p => let (w, m) := w.drive p; (w, moved || m)) (w, false)

/-- The caller waits: the background and the caller's own parts take turns until the caller has what it waits
for or nothing moves. -/
def await (own : List Part) (done : Worker ω σ α → Bool) : Nat → Worker ω σ α → Worker ω σ α
  | 0, w => w
  | n + 1, w =>
    if done w then w
    else
      let busy := !w.line.isEmpty
      let (w, moved) := (w.round fuel []).driveAll own
      if busy || moved then await own done n w
      else if w.armed.isEmpty then w
      else await own done n w.fireArmed

/-- Starts an operation of the caller, which goes as far as it comes, and tells its number. -/
def submit (p : Plan σ α) (token? : Option String) (w : Worker ω σ α) : Nat × Worker ω σ α :=
  let (i, system) := w.system.submit p token?
  (i, ({ w with system }.drive (.client i)).1)

/-- Starts to accept in the background, and tells the number of the call. -/
def accept (token : Nat) (w : Worker ω σ α) : Nat × Worker ω σ α :=
  let (i, system) := w.system.callServer (.accept token)
  (i, enroll [] { w with system })

/-- Closes the server; the caller waits until no accept call runs any more. -/
def close (w : Worker ω σ α) : Worker ω σ α :=
  let (i, system) := w.system.callServer .close
  let (w, _) := { w with system }.drive (.serverCall i)
  w.await [.serverCall i] (fun w => (w.system.server.result? i).isSome) fuel

/-- Accepts one connection outside of the accept calls, and gives it up at once. -/
def acceptOnce (w : Worker ω σ α) : Poll Unit × Worker ω σ α :=
  let network := w.system.network
  let (ticket, world) := network.startAccept w.system.world
  let asks (w : Worker ω σ α) : Poll Nat × ω := network.pollAccept ticket w.system.world
  let w := { w with system.world := world }.await []
    (fun w => match asks w with
      | (.pending, _) => false
      | _ => true) fuel
  match asks w with
  | (.ready n, world) => (.ready (), w.act ({ · with world := (network.accepted n).release world }))
  | (.failed f, world) => (.failed f, w.act ({ · with world }))
  | (.pending, world) => (.pending, w.act ({ · with world := network.dropAccept ticket world }))

end Worker

end RemoteCall
