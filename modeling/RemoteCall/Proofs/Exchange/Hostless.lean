import RemoteCall.Proofs.Exchange.Steps
import RemoteCall.Serve
/-!
# Exchanges that leave the host alone

A `Hostless` exchange neither asks its host for anything nor copies into a sink of it. So its steps are the same
whatever the state of the host is, and they leave that state as it is. Sending and receiving messages is hostless, and
so is what a server does but for invoking a method and filling a sink.
-/

namespace RemoteCall

variable {σ ω α β : Type}

namespace Exchange

/-- Whether an exchange has no part in the host, whatever its steps come to. -/
def Hostless : Exchange σ α → Prop
  | done _ | stall => True
  | consult .. | drain .. | close .. => False
  | receiveByte next => ∀ r, (next r).Hostless
  | receiveRecord _ _ next => ∀ r, (next r).Hostless
  | send _ next | flush next | shutdown next => ∀ r, (next r).Hostless
  | pour _ _ _ next => ∀ r, (next r).Hostless
  | collect _ next => ∀ r bs, (next r bs).Hostless

variable {e e' : Exchange σ α}

theorem Hostless.bind {f : α → Exchange σ β} (h : e.Hostless) (hf : ∀ a, (f a).Hostless) : (e.bind f).Hostless := by
  induction e with
  | done a => exact hf a
  | stall => trivial
  | consult | drain | close => exact h.elim
  | receiveByte next ih | receiveRecord limit g next ih | send bs next ih | flush next ih
  | shutdown next ih | pour source held capacity next ih => exact fun r => ih r (h r)
  | collect soFar next ih => exact fun r bs => ih r bs (h r bs)

/-- No step gives an exchange a part in the host. -/
theorem Next.hostless (hnext : e.Next e') (h : e.Hostless) : e'.Hostless := by
  cases hnext with
  | consult | drain | drainMore | close => exact h.elim
  | gather | sendMore | pourMore | collectMore => exact h
  | collect => exact h _ _
  | _ => exact h _

/-- Whether the next step has to do with the host. -/
def turnsToHost : Exchange σ α → Bool
  | consult .. | drain .. | close .. => true
  | _ => false

theorem Hostless.turnsToHost_eq (h : e.Hostless) : e.turnsToHost = false := by
  cases e with
  | consult | drain | close => exact h.elim
  | _ => rfl

/-- What comes of a step, beside another state of the host. -/
def beside (host : σ) : Option (Exchange σ α × ω × σ) → Option (Exchange σ α × ω × σ) :=
  Option.map fun moved => (moved.1, moved.2.1, host)

theorem settle_beside (next : Except Fault β → Exchange σ α) (host host' : σ) (p : Poll β × ω) :
    settle next host p = beside host (settle next host' p) := by
  obtain ⟨r, w⟩ := p
  cases r <;> rfl

/-- A step that has nothing to do with the host is the same whatever state the host is in, and leaves it. -/
theorem step_beside (h : e.turnsToHost = false) (c : Channel ω) (w : ω) (host host' : σ) :
    e.step c w host = beside host (e.step c w host') := by
  cases e with
  | consult | drain | close => cases h
  | done | stall => rfl
  | receiveByte next =>
    simp only [step]
    split <;> rfl
  | receiveRecord limit soFar next =>
    simp only [step]
    split
    · rfl
    · split <;> rfl
    · rfl
    · rfl
  | send left next =>
    cases left with
    | nil => rfl
    | cons b bs =>
      simp only [step]
      split <;> rfl
  | flush next | shutdown next => exact settle_beside next host host' _
  | pour source held capacity next =>
    cases held with
    | nil =>
      simp only [step]
      split
      · exact settle_beside next host host' _
      all_goals rfl
    | cons b bs =>
      simp only [step]
      split <;> rfl
  | collect soFar next =>
    simp only [step]
    split <;> rfl

/-- If it is made beside one state of the host, it is made beside any other. -/
theorem step_some_beside (h : e.turnsToHost = false) {c : Channel ω} {w w' : ω} {host host' : σ}
    (hstep : e.step c w host = some (e', w', host')) :
    host' = host ∧ ∀ other, e.step c w other = some (e', w', other) := by
  have hbeside := step_beside h c w host host
  rw [hstep] at hbeside
  cases hbeside
  refine ⟨rfl, fun other => ?_⟩
  rw [step_beside h c w other host, hstep]
  rfl

theorem hostless_andThen {ε : Type} {a : ExceptT ε (Exchange σ) α} {next : α → ExceptT ε (Exchange σ) β}
    (ha : a.run.Hostless) (hnext : ∀ x, (next x).run.Hostless) : (a >>= next).run.Hostless := by
  apply Hostless.bind ha
  intro r
  cases r with
  | ok x => exact hnext x
  | error e => trivial

end Exchange

/-! ## Messages -/

namespace Attempt

open Exchange

theorem hostless_sendAll (pieces : List Bytes) : (sendAll pieces : Attempt σ Unit).run.Hostless := by
  induction pieces with
  | nil => trivial
  | cons bs rest ih => exact hostless_andThen (fun _ => trivial) fun _ => ih

theorem hostless_sendValue (c : Codec α) (x : α) : (sendValue c x : Attempt σ Unit).run.Hostless := by
  unfold sendValue
  split
  · exact hostless_andThen (hostless_sendAll _) fun _ _ => trivial
  · trivial

theorem hostless_sendCall (call : Envelope) : (sendCall call : Attempt σ Unit).run.Hostless :=
  hostless_andThen (fun _ => trivial) fun _ =>
    hostless_andThen (hostless_sendValue _ _) fun _ => hostless_sendValue _ _

theorem hostless_receiveTag : (receiveTag : Attempt σ Tag).run.Hostless := by
  refine hostless_andThen (fun _ => trivial) fun code => ?_
  split <;> trivial

theorem hostless_receiveValue (limit : Nat) (c : Codec α) : (receiveValue limit c : Attempt σ α).run.Hostless := by
  refine hostless_andThen (fun _ => trivial) fun body => ?_
  split <;> trivial

end Attempt

/-! ## Replies -/

namespace Serving

open Exchange

theorem hostless_attempt {a : Attempt σ α} (h : a.run.Hostless) : (attempt a).run.Hostless := h.bind fun _ => trivial

theorem hostless_reply (c : Codec α) (x : α) :
    (attempt do Attempt.sendValue c x; Attempt.shutdown : Serving σ Unit).run.Hostless :=
  hostless_attempt (hostless_andThen (Attempt.hostless_sendValue c x) fun _ _ => trivial)

theorem hostless_stream (source : Supply) (capacity : Nat) :
    (attempt do Attempt.pour source capacity; Attempt.shutdown : Serving σ Unit).run.Hostless :=
  hostless_attempt (hostless_andThen (fun _ => trivial) fun _ _ => trivial)

theorem hostless_shutdown : (attempt Attempt.shutdown : Serving σ Unit).run.Hostless :=
  hostless_attempt fun _ => trivial

theorem hostless_handshake (ctx : Context σ) : (handshake ctx).run.Hostless := hostless_reply _ _

end Serving

end RemoteCall
