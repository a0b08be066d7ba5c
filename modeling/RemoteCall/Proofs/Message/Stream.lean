import RemoteCall.Proofs.Exchange.Streaming
import RemoteCall.Proofs.Message.Received
/-!
# Messages on one stream

Messages of all sorts are sent one after another into a stream, raw bytes behind them, and the stream is then
read with the matching receivers. Each receiver stops at the last byte of its message, so the messages come
back in order and exactly the raw bytes are left.
-/

namespace RemoteCall

variable {ω σ α : Type}

/-! ## Values in records -/

namespace Attempt

open Exchange Record

/-- A record within the limit is decoded. -/
theorem receives_receiveValue {limit : Nat} (c : Codec α) {whole : Bytes} (h : whole.length ≤ limit)
    (rest : Bytes) :
    Receives 1 (receiveValue limit c : Attempt σ α).run (frame whole ++ rest)
      (.done (c.decodeWhole whole)) rest := by
  have hg := absorb_frame limit whole [] rest (by simpa using h)
  rw [run_receiveValue]
  exact .record (Nat.succ_pos 3) hg (.refl _ _)

/-- A value that was sent in a record within the limit is received. -/
theorem receives_sent {limit : Nat} {c : Codec α} {x : α} {whole : Bytes}
    (hx : (c.encode x).toExcept = .ok whole)
    (hdepth : c.WithinDepth x) (hlimit : whole.length ≤ limit) (rest : Bytes) :
    Receives 1 (receiveValue limit c : Attempt σ α).run (frame whole ++ rest) (.done (.ok x)) rest := by
  have hreceives := receives_receiveValue (σ := σ) c hlimit rest
  rwa [Codec.decodeWhole_of_encode hx hdepth] at hreceives

/-- A value that is nested too deep, or whose record is too long, is refused. -/
theorem refuses_sent {limit : Nat} {c : Codec α} {x : α} {whole : Bytes}
    (hx : (c.encode x).toExcept = .ok whole)
    (h : ¬c.WithinDepth x ∨ limit < whole.length) (rest : Bytes) :
    ∃ f left, Receives 1 (receiveValue limit c : Attempt σ α).run (frame whole ++ rest)
      (.done (.error f)) left := by
  by_cases hlimit : limit < whole.length
  · obtain ⟨length, left, hg, -⟩ := absorb_frame_tooLong limit whole [] rest (Nat.zero_le limit)
      (by simpa using hlimit)
    refine ⟨.recordTooLong length limit, left, ?_⟩
    rw [run_receiveValue]
    exact .tooLong (Nat.succ_pos 3) hg (.refl _ _)
  · have hreceives := receives_receiveValue (σ := σ) c (Nat.not_lt.1 hlimit) rest
    rw [Codec.decodeWhole_of_deep hx (h.resolve_right hlimit)] at hreceives
    exact ⟨_, rest, hreceives⟩

end Attempt

/-- A value can be encoded and received: its record is within a limit, and no value in it is nested deeper than
64 levels. -/
def Codec.Fits (c : Codec α) (limit : Nat) (x : α) : Prop :=
  ∃ body, (c.encode x).toExcept = .ok body ∧ body.length ≤ limit ∧ ∀ v ∈ c.values x, v.depth ≤ 64

/-! ## Sorts of messages -/

/-- The sorts of messages that are sent and received. -/
inductive Form : Type 1
  | tag
  | value {α : Type} (c : Codec α)
  | call

namespace Form

/-- What is sent as a message of a sort. -/
def Content : Form → Type
  | tag => Tag
  | @value α _ => α
  | call => Envelope

/-- What is received of a message: of a call, its tag and the two values behind it. -/
def Reading : Form → Type
  | tag => Tag
  | @value α _ => α
  | call => Tag × String × List Value

/-- What should be received of what is sent. -/
def reading : (form : Form) → form.Content → form.Reading
  | tag => id
  | value _ => id
  | call => fun (envelope : Envelope) => (Tag.call, envelope.method, envelope.arguments)

/-- Sends one message. -/
def send : (form : Form) → form.Content → Attempt σ Unit
  | tag => Attempt.sendTag
  | value c => Attempt.sendValue c
  | call => Attempt.sendCall

/-- Receives one message. -/
def receive (limit : Nat) : (form : Form) → Attempt σ form.Reading
  | tag => Attempt.receiveTag
  | value c => Attempt.receiveValue limit c
  | call => do
    let tag ← Attempt.receiveTag
    let method ← Attempt.receiveValue limit .text
    let arguments ← Attempt.receiveValue limit (.list .value)
    return (tag, method, arguments)

/-- The values of a message can be encoded, each in a record within the limit, and no value is nested deeper
than 64 levels. -/
def Fits (limit : Nat) : (form : Form) → form.Content → Prop
  | tag => fun _ => True
  | value c => fun x => c.Fits limit x
  | call => fun (envelope : Envelope) =>
    Codec.text.Fits limit envelope.method ∧ (Codec.list .value).Fits limit envelope.arguments

/-- The contents of some messages. -/
def Contents : List Form → Type
  | [] => Unit
  | form :: rest => form.Content × Contents rest

/-- What is received of some messages. -/
def Readings : List Form → Type
  | [] => Unit
  | form :: rest => form.Reading × Readings rest

def readings : (forms : List Form) → Contents forms → Readings forms
  | [] => id
  | form :: rest => fun (content, contents) => (form.reading content, readings rest contents)

/-- Sends messages one after another. -/
def sendEach : (forms : List Form) → Contents forms → Attempt σ Unit
  | [] => fun _ => return
  | form :: rest => fun (content, contents) => do
    form.send content
    sendEach rest contents

/-- Receives messages one after another. -/
def receiveEach (limit : Nat) : (forms : List Form) → Attempt σ (Readings forms)
  | [] => return ()
  | form :: rest => do
    let first ← form.receive limit
    let others ← receiveEach limit rest
    return (first, others)

def FitEach (limit : Nat) : (forms : List Form) → Contents forms → Prop
  | [] => fun _ => True
  | form :: rest => fun (content, contents) => form.Fits limit content ∧ FitEach limit rest contents

/-! ## What one message comes to -/

open Exchange

/-- A message goes out as some bytes, and whoever receives one of its sort off the front of a byte string that
starts with them receives it and stops behind them. -/
theorem sends_receives (limit : Nat) (form : Form) (content : form.Content) (h : form.Fits limit content) :
    ∃ m n bytes, Sends Attempt.failed m (form.send content : Attempt σ Unit).run bytes (.done (.ok ())) ∧
      ∀ rest, Receives n (form.receive limit : Attempt σ form.Reading).run (bytes ++ rest)
        (.done (.ok (form.reading content))) rest := by
  cases form with
  | tag =>
    refine ⟨_, 1, _, Attempt.sends_send _, fun rest => ?_⟩
    cases content <;> exact .byte (.refl _ _)
  | value c =>
    obtain ⟨body, hencode, hlimit, hdepth⟩ := h
    exact ⟨_, 1, _, Attempt.sends_sendValue hencode, Attempt.receives_sent hencode hdepth hlimit⟩
  | call =>
    obtain ⟨⟨name, hname, hnameLimit, hnameDepth⟩, args, hargs, hargsLimit, hargsDepth⟩ := h
    obtain ⟨m, hsends⟩ := Attempt.sends_sendCall (σ := σ) content hname hargs
    refine ⟨m, 0 + 1 + 1 + 1, _, hsends, fun rest => ?_⟩
    have htag : Receives 1 (Attempt.receiveTag : Attempt σ Tag).run
        (Tag.call.code :: (Record.frame name ++ (Record.frame args ++ rest))) (.done (.ok .call))
        (Record.frame name ++ (Record.frame args ++ rest)) := .byte (.refl _ _)
    have hmethod := Attempt.receives_sent (σ := σ) hname hnameDepth hnameLimit (Record.frame args ++ rest)
    have harguments := Attempt.receives_sent (σ := σ) hargs hargsDepth hargsLimit rest
    have hsplit : Attempt.callBytes name args ++ rest =
        Tag.call.code :: (Record.frame name ++ (Record.frame args ++ rest)) := by
      rw [Attempt.callBytes, List.cons_append, List.append_assoc]
    rw [hsplit]
    exact htag.andThen (hmethod.andThen (harguments.andThen (.refl _ _)))

/-- Messages go out as some bytes, and are received off the front of a byte string that starts with them. -/
theorem sends_receives_each (limit : Nat) (forms : List Form) (contents : Contents forms)
    (h : FitEach limit forms contents) :
    ∃ m n bytes, Sends Attempt.failed m (sendEach forms contents : Attempt σ Unit).run bytes (.done (.ok ())) ∧
      ∀ rest, Receives n (receiveEach limit forms : Attempt σ (Readings forms)).run (bytes ++ rest)
        (.done (.ok (readings forms contents))) rest := by
  induction forms with
  | nil => exact ⟨0, 0, [], .refl _, fun _ => .refl _ _⟩
  | cons form forms ih =>
    obtain ⟨content, contents⟩ := contents
    obtain ⟨m, n, bytes, hsends, hreceives⟩ := sends_receives (σ := σ) limit form content h.1
    obtain ⟨m', n', bytes', hsends', hreceives'⟩ := ih contents h.2
    refine ⟨_, 0 + n' + n, bytes ++ bytes', hsends.andThen _ hsends', fun rest => ?_⟩
    rw [List.append_assoc]
    exact (hreceives _).andThen ((hreceives' rest).andThen (.refl _ _))

/-! ## One stream -/

variable {c : Channel ω} {holds : ω → Bytes → Prop}

/-- Messages are sent one after another into an empty stream, and raw bytes behind them; then the messages are
received in order, each as it was sent, and exactly the raw bytes are left. The stream may move its bytes in
pieces of any size. -/
theorem receiveEach_sendEach (hc : c.Streams holds) (limit : Nat) (forms : List Form)
    (contents : Contents forms) (hfit : FitEach limit forms contents) (raw : Bytes) {w : ω} (hw : holds w [])
    (host : σ) :
    ∃ w₁ w₂,
      Leads c (sendEach forms contents >>= fun _ => Attempt.send raw : Attempt σ Unit).run w host
        (.done (.ok ())) w₁ host ∧
      Leads c (receiveEach limit forms).run w₁ host (.done (.ok (readings forms contents))) w₂ host ∧
      holds w₂ raw := by
  obtain ⟨m, n, bytes, hsends, hreceives⟩ := sends_receives_each (σ := σ) limit forms contents hfit
  have hall := hsends.andThen (fun _ => Attempt.send raw) (Attempt.sends_send raw)
  obtain ⟨w₁, hw₁, hsent⟩ := hall.streamed hc host hw
  obtain ⟨w₂, hw₂, hreceived⟩ := (hreceives raw).delivered hc.toDelivers host hw₁
  exact ⟨w₁, w₂, hsent, hreceived, hw₂⟩

/-- A tag, a text, a list of values and a call, and two raw bytes behind them, through a queue that moves one
byte and three bytes in turn. -/
theorem receiveEach_sendEach_in_turns :
    let chunking : Chunking := fun k => some (if k % 2 = 0 then 1 else 3)
    let forms : List Form := [.tag, .value .text, .value (.list .value), .call]
    let contents : Contents forms := (Tag.handshake, "a", [.bool true], ⟨"m", [.nil]⟩, ())
    ∃ w₁ w₂,
      Leads (chunkedQueue chunking)
        (sendEach forms contents >>= fun _ => Attempt.send [1, 2] : Attempt Unit Unit).run ([], 0) ()
        (.done (.ok ())) w₁ () ∧
      Leads (chunkedQueue chunking) (receiveEach 12 forms).run w₁ ()
        (.done (.ok (Tag.handshake, "a", [.bool true], (Tag.call, "m", [.nil]), ()))) w₂ () ∧
      w₂.1 = [1, 2] := by
  intro chunking forms contents
  have hchunking : ∀ k, chunking k ≠ some 0 := by
    intro k hk
    simp only [chunking] at hk
    split at hk <;> cases hk
  have hnil : ((Codec.list .value).encode [.nil]).toExcept = .ok [0, 0, 0, 1, 0, 0, 0, 0] := by
    simp [Codec.encode, Codec.encodeValue, Codec.encodeContent, Codec.encodeKinded, Codec.encodeCount,
      Codec.encodeWord, Encoding.toExcept_andThen]
    decide
  have htext (s : String) (body : Bytes) (h : (Codec.text.encode s).toExcept = .ok body)
      (hlength : body.length ≤ 12) : Codec.text.Fits 12 s :=
    ⟨body, h, hlength, by simp [Codec.values]⟩
  have hfit : FitEach 12 forms contents :=
    ⟨trivial, htext "a" [0, 0, 0, 1, 97, 0, 0, 0] (Codec.encodeBytes_eq_ok.2 ⟨by decide, rfl⟩) (by decide),
      ⟨_, Codec.encode_list_true, by decide, by decide⟩,
      ⟨htext "m" [0, 0, 0, 1, 109, 0, 0, 0] (Codec.encodeBytes_eq_ok.2 ⟨by decide, rfl⟩) (by decide),
        _, hnil, by decide, by decide⟩, trivial⟩
  exact receiveEach_sendEach (chunkedQueue_streams hchunking) 12 forms contents hfit [1, 2] rfl ()

end Form

end RemoteCall
