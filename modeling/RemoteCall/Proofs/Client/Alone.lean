import RemoteCall.Client.Request
import RemoteCall.Proofs.Client.Steps
import RemoteCall.Proofs.Exchange.Hostless
import RemoteCall.Proofs.Network.Single
/-!
# An operation and its connection

An operation that has a connection of a network in memory does there what it does on a network that is nothing but
this connection: `Operation.step_alone`. Requests leave the host alone, so what is kept for others in it makes no
difference either.
-/

namespace RemoteCall

variable {ω σ α : Type}

open Exchange

/-! ## Operations that leave the host alone -/

/-- Whether a talk leaves the host alone, and so does what its caller goes on with. -/
structure TalksHostless (talk : Exchange σ (Except Fault (Exchange σ α))) : Prop where
  own : talk.Hostless
  later : talk.Yields fun r => ∀ rest, r = .ok rest → rest.Hostless

/-- Whether an operation leaves the host alone from this stage on. -/
def Stage.Hostless : Stage σ α → Prop
  | idle talk | dialing _ talk => TalksHostless talk.run
  | talking _ talk => TalksHostless talk
  | returned _ rest => rest.Hostless
  | finished _ => True

/-- Every step keeps to it. -/
theorem Stage.Hostless.moves {n : Network ω} {refuse : Refusal → α} {cancelled : Bool} {stage stage' : Stage σ α}
    {w w' : ω} (h : stage.Hostless) (hmoves : Operation.Moves n refuse cancelled stage w stage' w') :
    stage'.Hostless := by
  cases hmoves with
  | cancel | cancelDial | cancelTalk | dialFailed | talkFailed | giveUp => trivial
  | dial | connect => exact h
  | talk connection hnext huses => exact ⟨hnext.hostless h.own, hnext.yields h.later⟩
  | handOver connection rest => exact h.later rest rfl
  | use _ connection hnext huses => exact hnext.hostless h

namespace Request

/-- A talk that ends by handing something over leaves the host alone if its parts do. -/
theorem talksHostless_return {β : Type} {talk : Attempt σ β} (htalk : talk.run.Hostless) {g : β → Exchange σ α}
    (hg : ∀ x, (g x).Hostless) : TalksHostless (talk >>= fun x => (pure (g x) : Attempt σ (Exchange σ α))).run where
  own := hostless_andThen htalk fun _ => trivial
  later := yields_return talk hg

theorem hostless_exchange (data : Bytes) (ends : Bool) : (exchange data ends : Exchange σ Response).Hostless := by
  intro written
  cases ends with
  | true => exact fun _ _ _ => trivial
  | false => exact fun _ _ => trivial

theorem hostless_feed (data : Bytes) (givesUp : Bool) : (feed data givesUp : Exchange σ Response).Hostless := by
  intro written
  cases written with
  | error f => trivial
  | ok _ =>
    cases givesUp with
    | true => trivial
    | false =>
      intro ended
      cases ended with
      | error f => trivial
      | ok _ => exact fun _ _ => trivial

/-- No request has a part in the host. -/
theorem talksHostless_plan {c : Client} {request : Request} {plan : Plan σ Response}
    (hplan : request.plan c = .ok plan) : TalksHostless plan.talk.run := by
  have hcall : ∀ (limit : Nat) (envelope : Envelope), (do
      Attempt.sendCall envelope
      Attempt.receiveValue limit (.list .value) : Attempt σ (List Value)).run.Hostless := fun limit envelope =>
    hostless_andThen (Attempt.hostless_sendCall envelope) fun _ => Attempt.hostless_receiveValue limit _
  cases request with
  | connect connectLimit replyLimit =>
    cases hplan
    refine talksHostless_return ?_ fun _ => trivial
    exact hostless_andThen (fun _ => trivial) fun _ =>
      hostless_andThen (Attempt.hostless_receiveValue _ _) fun _ => trivial
  | dial =>
    cases hplan
    exact ⟨trivial, fun _ h => by cases h; trivial⟩
  | raw data ends =>
    cases hplan
    exact ⟨trivial, fun _ h => by cases h; exact hostless_exchange data ends⟩
  | values method inputs =>
    cases hclass : c.expectClass method .normal with
    | error e => simp [Request.plan, Client.callValues, hclass, bind, Except.bind] at hplan
    | ok _ =>
      simp only [Request.plan, Client.callValues, hclass] at hplan
      cases hplan
      exact talksHostless_return (hcall _ _) fun _ => trivial
  | call method inputs places =>
    cases hclass : c.expectClass method .normal with
    | error e => simp [Request.plan, Client.callValues, hclass, bind, Except.bind] at hplan
    | ok _ =>
      simp only [Request.plan, Client.callValues, hclass] at hplan
      cases hplan
      exact talksHostless_return (hcall _ _) fun _ => trivial
  | read method inputs =>
    cases hclass : c.expectClass method .readStream with
    | error e => simp [Request.plan, Client.callRead, hclass, bind, Except.bind] at hplan
    | ok _ =>
      simp only [Request.plan, Client.callRead, hclass] at hplan
      cases hplan
      refine talksHostless_return ?_ fun _ => fun _ _ => trivial
      exact hostless_andThen (Attempt.hostless_sendCall _) fun _ _ => trivial
  | write method inputs data givesUp =>
    cases hclass : c.expectClass method .writeStream with
    | error e => simp [Request.plan, Client.callWrite, hclass, bind, Except.bind] at hplan
    | ok _ =>
      simp only [Request.plan, Client.callWrite, hclass] at hplan
      cases hplan
      exact talksHostless_return (Attempt.hostless_sendCall _) fun _ => hostless_feed data givesUp

end Request

/-! ## The connection of an operation -/

/-- The connection that an operation has at a stage. -/
def Stage.connection? : Stage σ α → Option Nat
  | talking connection _ | returned connection _ => some connection
  | _ => none

/-- The connection that an operation has come to on a network in memory: none as long as it dials, and from then on
always the same, whose end it holds until it is finished. -/
inductive Stage.CameTo (p : PipeNet) : Option Nat → Stage σ α → Prop
  | idle (talk) : CameTo p none (.idle talk)
  | dialing (ticket talk) : CameTo p none (.dialing ticket talk)
  | holding {stage n d} (hn : stage.connection? = some n) (hd : p.connections[n]? = some d)
    (hheld : d.isHeld .dialer = true) : CameTo p (some n) stage
  | finished (n a) : CameTo p (some n) (.finished a)

/-- What is done at other connections, or at the other end, makes no difference. -/
theorem Stage.CameTo.frame {stage : Stage σ α} {p q : PipeNet} {n? : Option Nat} (h : stage.CameTo p n?)
    (hkept : ∀ n d, n? = some n → p.connections[n]? = some d → ∃ d', q.connections[n]? = some d' ∧
      d'.isHeld .dialer = d.isHeld .dialer) : stage.CameTo q n? := by
  cases h with
  | idle talk => exact .idle talk
  | dialing ticket talk => exact .dialing ticket talk
  | holding hn hd hheld =>
    obtain ⟨d', hd', hsame⟩ := hkept _ _ rfl hd
    exact .holding hn hd' (hsame.trans hheld)
  | finished n a => exact .finished n a

theorem Stage.CameTo.of_connection {stage : Stage σ α} {p : PipeNet} {n? : Option Nat} {n : Nat}
    (h : stage.CameTo p n?) (hn : stage.connection? = some n) : n? = some n := by
  cases h with
  | idle | dialing | finished => cases hn
  | holding hn' => exact hn'.symm.trans hn

/-- The same stage on a network that is nothing but the connection. -/
def Stage.alone : Stage σ α → Stage σ α
  | dialing _ talk => dialing 0 talk
  | talking _ talk => talking 0 talk
  | returned _ rest => returned 0 rest
  | stage => stage

namespace Operation

/-- The same operation on a network that is nothing but its connection. -/
def alone (o : Operation σ α) : Operation σ α := ⟨o.stage.alone, o.refuse⟩

theorem answer?_alone (o : Operation σ α) : o.alone.answer? = o.answer? := by
  obtain ⟨stage, refuse⟩ := o
  cases stage <;> rfl

variable {o o' : Operation σ α} {p p' : PipeNet} {n : Nat} {d : Duplex} {host host' : σ}

/-- A step at the dialer's end of a connection changes nothing but the connection, and it is the step that the operation
makes on the connection by itself, beside any other host. -/
theorem step_alone (hn : o.stage.connection? = some n) (hd : p.connections[n]? = some d)
    (hheld : d.isHeld .dialer = true) (hhostless : o.stage.Hostless)
    (h : o.step PipeNet.network false p host = some (o', p', host')) (other : σ) :
    ∃ d' live, p' = { p.put n d' with live } ∧ host' = host ∧
      o.alone.step Duplex.network false d other = some (o'.alone, d', other) ∧
      d'.isHeld .acceptor = d.isHeld .acceptor ∧ o'.stage.CameTo p' (some n) := by
  have hembeds : (PipeNet.network.dialed n).Embeds (Duplex.network.dialed 0) (p.put n ·) p d :=
    PipeNet.embeds_channel hd
  have hsame : { p.put n d with live := p.live } = p := PipeNet.put_self hd
  obtain ⟨stage, refuse⟩ := o
  cases stage with
  | idle talk | dialing ticket talk | finished a => cases hn
  | talking connection talk =>
    cases hn
    cases hanswer : talk.answer? with
    | none =>
      rw [step_talking hanswer] at h
      obtain ⟨⟨talk', p₁, host₁⟩, hstep, heq⟩ := Option.map_eq_some_iff.1 h
      cases heq
      obtain ⟨d', hinner, rfl⟩ := step_some_of_embeds hembeds hstep
      obtain ⟨rfl, hbeside⟩ := step_some_beside hhostless.own.turnsToHost_eq hinner
      have hends := Duplex.isHeld_of_uses (Exchange.step_cases hinner).2
      refine ⟨d', p.live, rfl, rfl, ?_, hends .acceptor, ?_⟩
      · show Operation.step Duplex.network false ⟨.talking 0 talk, refuse⟩ d other = _
        rw [step_talking hanswer, hbeside other]
        rfl
      · exact .holding rfl (entry_set_self hd d') ((hends .dialer).trans hheld)
    | some r =>
      cases talk <;> cases hanswer
      cases r with
      | ok rest =>
        cases h
        exact ⟨d, p.live, hsame.symm, rfl, rfl, rfl, .holding rfl hd hheld⟩
      | error f =>
        cases h
        exact ⟨d.release .dialer, _, PipeNet.release_eq_put hd hheld, rfl, rfl, rfl, .finished _ _⟩
  | returned connection rest =>
    cases hn
    cases hanswer : rest.answer? with
    | none =>
      rw [step_returned hanswer] at h
      obtain ⟨⟨rest', p₁, host₁⟩, hstep, heq⟩ := Option.map_eq_some_iff.1 h
      cases heq
      obtain ⟨d', hinner, rfl⟩ := step_some_of_embeds hembeds hstep
      obtain ⟨rfl, hbeside⟩ := step_some_beside hhostless.turnsToHost_eq hinner
      have hends := Duplex.isHeld_of_uses (Exchange.step_cases hinner).2
      refine ⟨d', p.live, rfl, rfl, ?_, hends .acceptor, ?_⟩
      · show Operation.step Duplex.network false ⟨.returned 0 rest, refuse⟩ d other = _
        rw [step_returned hanswer, hbeside other]
        rfl
      · exact .holding rfl (entry_set_self hd d') ((hends .dialer).trans hheld)
    | some a =>
      cases rest <;> cases hanswer
      cases h
      exact ⟨d.release .dialer, _, PipeNet.release_eq_put hd hheld, rfl, rfl, rfl, .finished _ _⟩

end Operation

end RemoteCall
