import RemoteCall.Client.Operation
/-!
# Requests

Everything that a user of a client asks for: to connect, to make a call of each class and use the stream
that follows, and to talk to a server in raw bytes. `Request.plan` says how a request is carried out, and
`Response` what comes of it.
-/

namespace RemoteCall

/-- What a user asks for. -/
inductive Request
  /-- Learns the capabilities of the server, with limits for their record and for later replies. -/
  | connect (connectLimit replyLimit : Nat)
  /-- Dials, and gives the connection up. -/
  | dial
  /-- Writes bytes, ends the writing if so asked, and reads to the end. -/
  | raw (data : Bytes) (ends : Bool)
  | values (method : String) (inputs : List Value)
  /-- The values of the reply go into places, which hold values already. -/
  | call (method : String) (inputs places : List Value)
  /-- Reads the stream of a method to its end. -/
  | read (method : String) (inputs : List Value)
  /-- Writes bytes to a method, and either gives the connection up or ends the writing and reads to the
  end. -/
  | write (method : String) (inputs : List Value) (data : Bytes) (givesUp : Bool)

/-- What comes of a request. -/
inductive Response
  | connected (c : Client)
  | dialed
  | replied (values : List Value)
  /-- What a call with places came to, and what the places hold then. -/
  | called (result : Except CallError Unit) (places : List Value)
  /-- The bytes read, up to the end or a fault. -/
  | collected (result : Except Fault Unit) (bs : Bytes)
  /-- Bytes were written, and others read up to the end or a fault. -/
  | exchanged (written read : Except Fault Unit) (reply : Bytes)
  | writeFailed (f : Fault)
  | shutdownFailed (f : Fault)
  | gaveUp
  | refused (e : CallError)
  /-- No connection came about or the talk on it failed, in a request that makes no call. -/
  | unreachable (f : Fault)

namespace Request

variable {σ : Type}

/-- Reads to the end. -/
def collect (k : Except Fault Unit → Bytes → Response) : Exchange σ Response :=
  .collect [] fun r bs => .done (k r bs)

/-- Writes bytes and reads to the end. -/
def exchange (data : Bytes) (ends : Bool) : Exchange σ Response :=
  .send data fun written =>
    let rest := collect (.exchanged written)
    if ends then .shutdown fun _ => rest else rest

/-- What the user does with the connection of a write call. -/
def feed (data : Bytes) (givesUp : Bool) : Exchange σ Response :=
  .send data fun
    | .error f => .done (.writeFailed f)
    | .ok () =>
      if givesUp then .done .gaveUp
      else .shutdown fun
        | .error f => .done (.shutdownFailed f)
        | .ok () => collect .collected

/-- What a call with places comes to with the values of the reply, or with an error instead of them. -/
def fillPlaces (method : String) (places : List Value) (reply : Except CallError (List Value)) : Response :=
  let (result, places) := (Client.fill method reply).run.run places
  .called result places

/-- What a request comes to that fails. -/
def refusal (r : Request) (e : CallError) : Response :=
  match r with
  | call method _ places => fillPlaces method places (.error e)
  | _ => .refused e

/-- A talk that is refused as a call. -/
def callPlan (r : Request) (talk : Attempt σ (Exchange σ Response)) : Plan σ Response :=
  ⟨talk, fun reason => r.refusal reason.toCallError⟩

/-- A talk that is no call. -/
def rawPlan (talk : Attempt σ (Exchange σ Response)) : Plan σ Response where
  talk := talk
  refuse
    | .cancelled => .refused .cancelled
    | .fault f => .unreachable f

/-- How a request is carried out by a client, or why it is refused at once. -/
def plan (c : Client) (r : Request) : Except CallError (Plan σ Response) :=
  match r with
  | connect connectLimit replyLimit => .ok <| callPlan r do
    let c ← Client.handshake connectLimit
    return .done (.connected { c with recordLimit := replyLimit })
  | dial => .ok (rawPlan (return .done .dialed))
  | raw data ends => .ok (rawPlan (return exchange data ends))
  | values method inputs => do
    let talk ← c.callValues method inputs
    return callPlan r do return .done (.replied (← talk))
  | call method inputs places => do
    let talk ← c.callValues method inputs
    return callPlan r do return .done (fillPlaces method places (.ok (← talk)))
  | read method inputs => do
    let talk ← c.callRead method inputs
    return callPlan r do
      talk
      return collect .collected
  | write method inputs data givesUp => do
    let talk ← c.callWrite method inputs
    return callPlan r do
      talk
      return feed data givesUp

end Request

end RemoteCall
