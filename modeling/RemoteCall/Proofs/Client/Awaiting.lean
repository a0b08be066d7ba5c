import RemoteCall.Client.Request
import RemoteCall.Proofs.Exchange.Dialogue
import RemoteCall.Proofs.Message.Stream
/-!
# Requests that await a value

A client that connects awaits the capabilities of the server, and one that calls a normal method awaits the values
of its reply: each sends some bytes and then makes a response of one value.
-/

namespace RemoteCall.Request

open Exchange Record

variable {σ β : Type}

/-- Awaits a value and makes a response of it. -/
def await (limit : Nat) (codec : Codec β) (respond : β → Response) :
    Exchange σ (Except Fault (Exchange σ Response)) :=
  .receiveRecord limit .start fun r =>
    .done (r.bind fun whole => (codec.decodeWhole whole).map fun x => .done (respond x))

variable {limit : Nat} {codec : Codec β}

/-- The response to the value that was received. -/
theorem receiveValue_bind_eq_await (respond : β → Response) :
    (Attempt.receiveValue limit codec : Attempt σ β).run.bind
        (ExceptT.bindCont fun x => (pure (Exchange.done (respond x)) : Attempt σ (Exchange σ Response))) =
      await limit codec respond := by
  rw [Attempt.run_receiveValue]
  refine congrArg (Exchange.receiveRecord limit .start) (funext fun r => ?_)
  cases r with
  | error f => rfl
  | ok whole =>
    show Exchange.bind (.done (codec.decodeWhole whole)) _ = .done ((codec.decodeWhole whole).map _)
    cases codec.decodeWhole whole <;> rfl

/-- A request sends its bytes and then awaits a value. -/
theorem sends_await {a : Attempt σ Unit} {n : Nat} {out : Bytes}
    (h : Sends Attempt.failed n a.run out (.done (.ok ()))) (respond : β → Response) :
    Sends Attempt.failed n ((a >>= fun _ => Attempt.receiveValue limit codec) >>= fun x =>
      (pure (Exchange.done (respond x)) : Attempt σ (Exchange σ Response))).run out
      (await limit codec respond) := by
  have htalk := h.andThen (fun _ => Attempt.receiveValue limit codec) (.refl _)
  rw [List.append_nil, Nat.zero_add] at htalk
  have hsends := htalk.bind (ExceptT.bindCont fun x =>
    (pure (Exchange.done (respond x)) : Attempt σ (Exchange σ Response)))
  rw [receiveValue_bind_eq_await] at hsends
  exact hsends

/-- A value within the limits is responded to. -/
theorem receives_await (respond : β → Response) {x : β} {whole : Bytes}
    (hx : (codec.encode x).toExcept = .ok whole) (hdepth : codec.WithinDepth x) (hlimit : whole.length ≤ limit) :
    Receives 1 (await (σ := σ) limit codec respond) (frame whole) (.done (.ok (.done (respond x)))) [] := by
  have hreceives := (Attempt.receives_sent (σ := σ) hx hdepth hlimit []).bind
    (ExceptT.bindCont fun x => (pure (Exchange.done (respond x)) : Attempt σ (Exchange σ Response)))
  rw [List.append_nil, receiveValue_bind_eq_await] at hreceives
  exact hreceives

/-- The talk of a client that connects. -/
def connectTalk (connectLimit replyLimit : Nat) : Attempt σ (Exchange σ Response) := do
  let c ← Client.handshake connectLimit
  return .done (.connected { c with recordLimit := replyLimit })

theorem plan_connect (c : Client) (connectLimit replyLimit : Nat) :
    (connect connectLimit replyLimit).plan c = .ok (callPlan (σ := σ) (connect connectLimit replyLimit) (connectTalk connectLimit replyLimit)) := rfl

/-- A client that connects sends a tag and awaits capabilities. -/
theorem sends_connectTalk (connectLimit replyLimit : Nat) :
    Sends Attempt.failed 1 (connectTalk (σ := σ) connectLimit replyLimit).run [Tag.handshake.code]
      (await connectLimit Capabilities.codec fun capabilities => .connected ⟨capabilities, replyLimit⟩) := by
  have hregroup : connectTalk (σ := σ) connectLimit replyLimit =
      (Attempt.sendTag .handshake >>= fun _ => Attempt.receiveValue connectLimit Capabilities.codec) >>=
        fun capabilities => pure (.done (.connected ⟨capabilities, replyLimit⟩)) := by
    refine congrArg (Exchange.send _) (funext fun sent => ?_)
    cases sent with
    | error f => rfl
    | ok sent =>
      refine congrArg (Exchange.receiveRecord connectLimit .start) (funext fun r => ?_)
      cases r with
      | error f => rfl
      | ok whole =>
        dsimp only [Exchange.bind, ExceptT.bindCont]
        cases Capabilities.codec.decodeWhole whole <;> rfl
  rw [hregroup]
  exact sends_await (Attempt.sends_send _) _

end RemoteCall.Request
