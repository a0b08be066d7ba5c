import RemoteCall.Proofs.Client.Accounts
import RemoteCall.Proofs.Exchange.Flushing
import RemoteCall.Serve
/-!
# What a client has flushed when it waits

On a network that keeps bytes back until they are flushed, a client that reads, or hands its connection over, has
flushed all it wrote, with one exception: the tag of a handshake is written and not flushed, so one byte is kept back
while the client waits for the capabilities. `Gated` is such a network, and on it the handshake is never served.
-/

namespace RemoteCall

variable {ω σ α : Type}

/-- A network whose connections may keep back what the dialing side writes; `kept` counts the bytes of each. -/
structure Network.Withholds (n : Network ω) (kept : Nat → ω → Nat) : Prop where
  dial : ∀ {ticket w connection w'}, n.pollDial ticket w = (.ready connection, w') → kept connection w' = 0
  dialed : ∀ connection, (n.dialed connection).Withholds (kept connection)

/-- Watching changes nothing of what is kept back. -/
theorem Channel.Withholds.watched {c : Channel ω} {kept : ω → Nat} (hc : c.Withholds kept) (connection : Nat) :
    (c.watched connection).Withholds fun w => kept w.1 where
  read := by
    rintro n w r w' ⟨⟩
    exact hc.read (Prod.ext rfl rfl)
  write := by
    intro bs w n w' hwrite
    obtain ⟨hready, rfl⟩ := Prod.mk.inj hwrite
    exact hc.write (Prod.ext hready rfl)
  flush := by
    intro w w' hflush
    obtain ⟨hready, rfl⟩ := Prod.mk.inj hflush
    exact hc.flush (Prod.ext hready rfl)
  shutdown := by
    intro w w' hshutdown
    obtain ⟨hready, rfl⟩ := Prod.mk.inj hshutdown
    exact hc.shutdown (Prod.ext hready rfl)

theorem Network.Withholds.watched {n : Network ω} {kept : Nat → ω → Nat} (hn : n.Withholds kept) :
    n.watched.Withholds fun connection w => kept connection w.1 where
  dial := by
    intro ticket w connection w' hpoll
    simp only [Network.watched] at hpoll
    split at hpoll <;> cases hpoll
    exact hn.dial ‹_›
  dialed connection := (hn.dialed connection).watched connection

/-! ## Operations -/

/-- An operation at this stage has `k` bytes kept back whenever it reads, and when it hands its connection over. -/
def Stage.Flushes (k : Nat) (kept : Nat → Nat) : Stage σ α → Prop
  | idle talk | dialing _ talk => talk.run.Flushes k (· = k) 0
  | talking connection talk => talk.Flushes k (· = k) (kept connection)
  | returned .. | finished _ => True

/-- Every step of an operation keeps to it. -/
theorem Stage.Flushes.step {n : Network ω} {kept : Nat → ω → Nat} (hn : n.Withholds kept) {k : Nat}
    {cancelled : Bool} {o o' : Operation σ α} {w w' : ω} {host host' : σ} (h : o.stage.Flushes k (kept · w))
    (hstep : o.step n cancelled w host = some (o', w', host')) : o'.stage.Flushes k (kept · w') := by
  obtain ⟨-, hmoves⟩ := Operation.step_cases hstep
  obtain ⟨stage, refuse⟩ := o
  obtain ⟨stage', refuse'⟩ := o'
  cases hmoves with
  | cancel | cancelDial | cancelTalk | dialFailed | handOver | talkFailed | use | giveUp => trivial
  | dial => exact h
  | @connect ticket _ connection _ talk hpoll =>
    show talk.run.Flushes k (· = k) (kept connection w')
    rw [hn.dial hpoll]
    exact h
  | @talk connection talk talk' _ _ hnext _ =>
    have hopen : talk.answer? = none := by
      cases hnext <;> rfl
    rw [Operation.step_talking hopen] at hstep
    obtain ⟨⟨talk', w'', host''⟩, htalk, heq⟩ := Option.map_eq_some_iff.1 hstep
    cases heq
    exact Exchange.Flushes.step (hn.dialed connection) h htalk

/-- Whatever happens at any moment, as long as others leave alone what is kept back. -/
theorem Watched.flushes_after {n : Network ω} {kept : Nat → ω → Nat} (hn : n.Withholds kept) {k : Nat}
    {s : Watched ω σ α} (hs : s.operation.stage.Flushes k (kept · s.world.1)) {moments : List (Moment ω σ)}
    (hothers : ∀ changeWorld changeHost, .others changeWorld changeHost ∈ moments →
      ∀ connection w, kept connection (changeWorld w) = kept connection w) :
    (s.after n moments).operation.stage.Flushes k (kept · (s.after n moments).world.1) := by
  induction moments generalizing s with
  | nil => exact hs
  | cons moment moments ih =>
    refine ih (s := s.next n moment) ?_ fun changeWorld changeHost hmem =>
      hothers changeWorld changeHost (List.mem_cons_of_mem _ hmem)
    cases moment with
    | step =>
      unfold Watched.next
      cases hstep : s.operation.step n.watched s.cancelled s.world s.host with
      | none => exact hs
      | some moved =>
        obtain ⟨o, w, host⟩ := moved
        exact Stage.Flushes.step hn.watched hs hstep
    | fire => exact hs
    | others changeWorld changeHost =>
      have hsame : (kept · (changeWorld s.world.1)) = (kept · s.world.1) :=
        funext fun connection => hothers changeWorld changeHost (.head _) connection _
      show s.operation.stage.Flushes k (kept · (changeWorld s.world.1))
      rwa [hsame]

/-- Whether a talk reads next, or has come to hand its connection over. -/
def Exchange.ReadsOrHandsOver : Exchange σ (Except Fault α) → Prop
  | receiveByte _ | receiveRecord .. | collect .. | done (.ok _) => True
  | _ => False

theorem Exchange.Flushes.kept_eq {k n : Nat} {talk : Exchange σ (Except Fault α)} (h : talk.Flushes k (· = k) n)
    (hmoment : talk.ReadsOrHandsOver) : n = k := by
  cases talk with
  | receiveByte | receiveRecord | collect => exact h.1
  | done r =>
    cases r with
    | ok a => exact h
    | error f => exact hmoment.elim
  | _ => exact hmoment.elim

/-- So whenever an operation has come to read, or to hand its connection over, this is what is kept back. -/
theorem Watched.kept_after {n : Network ω} {kept : Nat → ω → Nat} (hn : n.Withholds kept) {k : Nat}
    {plan : Plan σ α} (htalk : plan.talk.run.Flushes k (· = k) 0) {w : ω} {host : σ} {cancelled : Bool}
    {moments : List (Moment ω σ)}
    (hothers : ∀ changeWorld changeHost, .others changeWorld changeHost ∈ moments →
      ∀ connection w, kept connection (changeWorld w) = kept connection w)
    {connection : Nat} {talk : Exchange σ (Except Fault (Exchange σ α))}
    (hstage : ((Watched.start plan w host cancelled).after n moments).operation.stage = .talking connection talk)
    (hmoment : talk.ReadsOrHandsOver) :
    kept connection ((Watched.start plan w host cancelled).after n moments).world.1 = k := by
  have hafter := Watched.flushes_after (s := .start plan w host cancelled) hn htalk hothers
  rw [hstage] at hafter
  exact hafter.kept_eq hmoment

/-! ## Requests -/

namespace Request

open Exchange

/-- How many bytes a client has written and not flushed when it waits: a handshake does not flush its tag. -/
def unflushed : Request → Nat
  | connect .. => 1
  | _ => 0

/-- The talk of a request has just these bytes kept back whenever it reads and when it ends. -/
theorem flushes_plan {c : Client} {r : Request} {plan : Plan σ Response} (hplan : r.plan c = .ok plan) :
    plan.talk.run.Flushes r.unflushed (· = r.unflushed) 0 := by
  have hclass : ∀ {name inputs cls}, r.callee? = some (name, inputs, cls) → c.expectClass name cls = .ok () :=
    fun h => Client.expectClass_eq_ok.2 ((plan_isOk_iff h).1 ⟨plan, hplan⟩)
  cases r with
  | connect connectLimit replyLimit =>
    cases hplan
    have hhandshake : (Client.handshake connectLimit : Attempt σ Client).run.Flushes 1 (· = 1) 0 := by
      refine flushes_andThen (Attempt.flushes_sendTag 1 0 _) ?_
      rintro _ _ rfl
      exact flushes_andThen (Attempt.flushes_receiveValue 1 _ _) fun _ _ h => h
    exact flushes_andThen hhandshake fun _ _ h => h
  | dial | raw =>
    cases hplan
    exact (rfl : (0 : Nat) = 0)
  | values method inputs | call method inputs places =>
    simp only [Request.plan, Client.callValues, hclass rfl] at hplan
    cases hplan
    refine flushes_andThen (Q := (· = 0)) (flushes_andThen (Attempt.flushes_sendCall 0 0 _) ?_) fun _ _ h => h
    rintro _ _ rfl
    exact Attempt.flushes_receiveValue 0 _ _
  | read method inputs =>
    simp only [Request.plan, Client.callRead, hclass rfl] at hplan
    cases hplan
    refine flushes_andThen (Q := (· = 0)) ?_ fun _ _ h => h
    exact flushes_andThen (Attempt.flushes_sendCall 0 0 _) fun _ n _ => Attempt.flushes_shutdown 0 n
  | write method inputs data givesUp =>
    simp only [Request.plan, Client.callWrite, hclass rfl] at hplan
    cases hplan
    exact flushes_andThen (Attempt.flushes_sendCall 0 0 _) fun _ _ h => h

/-- Whenever the client of a request reads, or hands its connection over, the bytes that are kept back of all it has
written are the tag if the request is a handshake, and none otherwise; on every network that keeps bytes back until
they are flushed, however it splits them, and whatever others do meanwhile on their own connections. -/
theorem kept_when_waiting {c : Client} {r : Request} {plan : Plan σ Response} (hplan : r.plan c = .ok plan)
    {n : Network ω} {kept : Nat → ω → Nat} (hn : n.Withholds kept) (w : ω) (host : σ) (cancelled : Bool)
    {moments : List (Moment ω σ)}
    (hothers : ∀ changeWorld changeHost, .others changeWorld changeHost ∈ moments →
      ∀ connection w, kept connection (changeWorld w) = kept connection w)
    {connection : Nat} {talk : Exchange σ (Except Fault (Exchange σ Response))}
    (hstage : ((Watched.start plan w host cancelled).after n moments).operation.stage = .talking connection talk)
    (hmoment : talk.ReadsOrHandsOver) :
    kept connection ((Watched.start plan w host cancelled).after n moments).world.1 = r.unflushed :=
  Watched.kept_after hn (flushes_plan hplan) hothers hstage hmoment

end Request

/-! ## A network that passes bytes on only when they are flushed -/

/-- One direction of a connection that passes bytes on only when they are flushed. -/
structure Gate where
  /-- Written and not flushed. -/
  kept : Bytes
  /-- Flushed and not yet read. -/
  data : Bytes
  closed : Bool

namespace Gate

def read (n : Nat) (g : Gate) : Poll Bytes × Gate :=
  if g.data.isEmpty then (if g.closed then .ready [] else .pending, g)
  else (.ready (g.data.take n), { g with data := g.data.drop n })

def write (bs : Bytes) (g : Gate) : Poll Nat × Gate := (.ready bs.length, { g with kept := g.kept ++ bs })

/-- Passes on what is kept back. -/
def pass (g : Gate) : Gate := { g with kept := [], data := g.data ++ g.kept }

def close (g : Gate) : Gate := { g.pass with closed := true }

end Gate

/-- A connection that passes bytes on only when they are flushed. -/
structure Gated where
  outbound : Gate
  inbound : Gate

namespace Gated

/-- A connection that was just opened. -/
def fresh : Gated := ⟨⟨[], [], false⟩, ⟨[], [], false⟩⟩

/-- The connection as the other side sees it. -/
def flip (g : Gated) : Gated := ⟨g.inbound, g.outbound⟩

/-- The end of the side that dialed. -/
def dialed : Channel Gated where
  read n g := let (r, inbound) := g.inbound.read n; (r, { g with inbound })
  write bs g := let (r, outbound) := g.outbound.write bs; (r, { g with outbound })
  flush g := (.ready (), { g with outbound := g.outbound.pass })
  shutdown g := (.ready (), { g with outbound := g.outbound.close })
  release g := { g with outbound := g.outbound.close }

/-- The end of the side that accepted. -/
def accepted : Channel Gated := dialed.lift flip fun g _ => g.flip

/-- A network with one connection, which every dial opens anew. -/
def network : Network Gated where
  startDial g := (0, g)
  pollDial _ _ := (.ready 0, fresh)
  dropDial _ g := g
  startAccept g := (0, g)
  pollAccept _ g := (.ready 0, g)
  dropAccept _ g := g
  dialed _ := dialed
  accepted _ := accepted
  peer _ := "gate"
  turnLength? := none

theorem withholds_network : network.Withholds fun _ g => g.outbound.kept.length where
  dial := by
    rintro _ _ _ _ ⟨⟩
    rfl
  dialed _ :=
    { read := by
        rintro _ _ _ _ ⟨⟩
        rfl
      write := by
        rintro bs g _ _ ⟨⟩
        simp
      flush := by
        rintro _ _ ⟨⟩
        rfl
      shutdown := by
        rintro _ _ ⟨⟩
        rfl }

/-- A client that waits for the reply to a call, or hands its connection over, has nothing kept back here. -/
theorem nothing_kept {c : Client} {r : Request} {plan : Plan σ Response} (hplan : r.plan c = .ok plan)
    (hcall : r.unflushed = 0) (g : Gated) (host : σ) (cancelled : Bool) {moments : List (Moment Gated σ)}
    (hothers : ∀ changeWorld changeHost, .others changeWorld changeHost ∈ moments →
      ∀ g : Gated, (changeWorld g).outbound.kept = g.outbound.kept)
    {connection : Nat} {talk : Exchange σ (Except Fault (Exchange σ Response))}
    (hstage : ((Watched.start plan g host cancelled).after network moments).operation.stage = .talking connection talk)
    (hmoment : talk.ReadsOrHandsOver) :
    ((Watched.start plan g host cancelled).after network moments).world.1.outbound.kept = [] := by
  have hkept := Watched.kept_after withholds_network (Request.flushes_plan hplan)
    (fun changeWorld changeHost hmem _ g => congrArg List.length (hothers changeWorld changeHost hmem g)) hstage hmoment
  exact List.length_eq_zero_iff.1 (hkept.trans hcall)

/-- A handshake is never served here. After any number of its steps it has no answer, and the server of the other end
can make no step; after two, it can make none either, and its tag is still kept back. -/
theorem handshake_unserved (limit fuel : Nat) (ctx : Context σ) (host : σ) :
    ∃ talk g, (Client.handshake limit : Attempt σ Client).run.run dialed fuel fresh host = (talk, g, host) ∧
      talk.answer? = none ∧ (Serving.connection ctx).run.step accepted g host = none ∧
      (2 ≤ fuel → talk.step dialed g host = none ∧ g.outbound.kept = [Tag.handshake.code]) := by
  match fuel with
  | 0 | 1 => exact ⟨_, _, rfl, rfl, rfl, nofun⟩
  | 2 | fuel + 3 => exact ⟨_, _, rfl, rfl, rfl, fun _ => ⟨rfl, rfl⟩⟩

end Gated

end RemoteCall
