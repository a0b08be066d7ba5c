import RemoteCall.Proofs.Exchange.Embedding
import RemoteCall.Proofs.Exchange.Hostless
/-!
# Methods that are functions of their arguments

A method is a function of its arguments if its values or its source come from the arguments alone, and likewise the
sink that it opens: a `Behaviour`. The host then is nothing but the sinks that were opened, each in a place of its
own. A connection on which only such methods are called has no part in the host but for the sink that it opened; so
it does the same with a host that holds this one sink and nothing else (`Alike.step`).
-/

namespace RemoteCall

variable {τ ω α β : Type}

/-! ## Sinks in their places -/

/-- The sink that a host keeps in a place. -/
def Channel.keptAt (i : Nat) (c : Channel τ) : Channel (Array τ) :=
  let operate {β : Type} (f : τ → Poll β × τ) (host : Array τ) : Poll β × Array τ :=
    match host[i]? with
    | some t => let (r, t) := f t; (r, host.set! i t)
    | none => (.failed .brokenPipe, host)
  { read := fun n => operate (c.read n)
    write := fun bs => operate (c.write bs)
    flush := operate c.flush
    shutdown := operate c.shutdown
    release := fun host => host.modify i c.release }

/-- What a method does that is a function of its arguments. A sink is opened in a state of its own. -/
inductive Behaviour (τ : Type)
  | normal (run : Arguments → Verdict (List Value))
  | read (openSource : Arguments → Verdict Supply)
  | write (openSink : Arguments → Verdict (Channel τ × τ))

/-- The host keeps the sinks that were opened, in order. -/
def Behaviour.handler : Behaviour τ → Handler (Array τ)
  | normal run => .normal fun args host => (run args, host)
  | read openSource => .read fun args host => (openSource args, host)
  | write openSink => .write fun args host =>
    match openSink args with
    | .ok (c, t) => (.ok (c.keptAt host.size), host.push t)
    | .failed e => (.failed e, host)
    | .never => (.never, host)

/-- All methods of a registry are functions of their arguments. -/
def Registry.IsFunctional (r : Registry (Array τ)) : Prop :=
  ∀ name m, r.get? name = some m → ∃ b : Behaviour τ, m.handler = b.handler

namespace Exchange

/-- The same exchange with a host that keeps its own host in a place. -/
def keptAt (k : Nat) : Exchange τ α → Exchange (Array τ) α
  | done answer => done answer
  | stall => stall
  | consult next update => consult
    (fun host => match host[k]? with
      | some t => (next t).keptAt k
      | none => stall)
    (fun host => host.modify k update)
  | receiveByte next => receiveByte fun r => (next r).keptAt k
  | receiveRecord limit soFar next => receiveRecord limit soFar fun r => (next r).keptAt k
  | send left next => send left fun r => (next r).keptAt k
  | flush next => flush fun r => (next r).keptAt k
  | shutdown next => shutdown fun r => (next r).keptAt k
  | pour source held capacity next => pour source held capacity fun r => (next r).keptAt k
  | drain sink held capacity next => drain (sink.keptAt k) held capacity fun r => (next r).keptAt k
  | close sink next => close (sink.keptAt k) fun r => (next r).keptAt k
  | collect soFar next => collect soFar fun r bs => (next r bs).keptAt k

/-- What follows when the host is asked: the host has no part in it, or a sink is opened, which the host keeps behind
those that it keeps already, and only this sink has a part in what follows. -/
inductive Follows (next : Array τ → Exchange (Array τ) α) (update : Array τ → Array τ) : Prop
  | plainly {e : Exchange (Array τ) α} (he : e.Hostless) (hnext : ∀ host, next host = e)
    (hupdate : ∀ host, update host = host) : Follows next update
  | opening (e : Exchange τ α) (t : τ) (hnext : ∀ host, next host = e.keptAt host.size)
    (hupdate : ∀ host, update host = host.push t) : Follows next update

/-- Whether an exchange has no part in the host but for a sink that it may open. -/
def Isolated : Exchange (Array τ) α → Prop
  | done _ | stall => True
  | consult next update => Follows next update
  | drain .. | close .. => False
  | receiveByte next => ∀ r, (next r).Isolated
  | receiveRecord _ _ next => ∀ r, (next r).Isolated
  | send _ next | flush next | shutdown next => ∀ r, (next r).Isolated
  | pour _ _ _ next => ∀ r, (next r).Isolated
  | collect _ next => ∀ r bs, (next r bs).Isolated

variable {e e' : Exchange (Array τ) α}

theorem Hostless.isolated (h : e.Hostless) : e.Isolated := by
  induction e with
  | done | stall => trivial
  | consult | drain | close => exact h.elim
  | receiveByte next ih | receiveRecord limit g next ih | send bs next ih | flush next ih
  | shutdown next ih | pour source held capacity next ih => exact fun r => ih r (h r)
  | collect soFar next ih => exact fun r bs => ih r bs (h r bs)

theorem Hostless.bind_isolated {f : α → Exchange (Array τ) β} (h : e.Hostless) (hf : ∀ a, (f a).Isolated) :
    (e.bind f).Isolated := by
  induction e with
  | done a => exact hf a
  | stall => trivial
  | consult | drain | close => exact h.elim
  | receiveByte next ih | receiveRecord limit g next ih | send bs next ih | flush next ih
  | shutdown next ih | pour source held capacity next ih => exact fun r => ih r (h r)
  | collect soFar next ih => exact fun r bs => ih r bs (h r bs)

end Exchange

/-! ## What a server does with them -/

namespace Serving

open Exchange

theorem isolated_andThen {ε : Type} {a : ExceptT ε (Exchange (Array τ)) α}
    {next : α → ExceptT ε (Exchange (Array τ)) β} (ha : a.run.Hostless) (hnext : ∀ x, (next x).run.Isolated) :
    (a >>= next).run.Isolated := by
  apply Hostless.bind_isolated ha
  intro r
  cases r with
  | ok x => exact hnext x
  | error e => trivial

/-- A method whose verdict does not depend on the host, and that leaves the host as it is. -/
theorem isolated_invoke {run : Arguments → Array τ → Verdict α × Array τ} {args : Arguments} (v : Verdict α)
    (hrun : ∀ host, run args host = (v, host)) {next : Except AppError α → Serving (Array τ) β}
    (hok : ∀ a, v = .ok a → (next (.ok a)).run.Hostless) (hfailed : ∀ e, (next (.error e)).run.Hostless) :
    (invoke run args >>= next).run.Isolated := by
  have hupdate : ∀ host, (run args host).2 = host := fun host => by rw [hrun]
  cases v with
  | ok a => exact .plainly (hok a rfl) (fun host => by simp only [hrun]; rfl) hupdate
  | failed e => exact .plainly (hfailed e) (fun host => by simp only [hrun]; rfl) hupdate
  | never => exact .plainly (e := .stall) trivial (fun host => by simp only [hrun]; rfl) hupdate

/-- What follows the arguments of a call of such a method. -/
theorem isolated_respond (ctx : Context (Array τ)) (args : Arguments) (b : Behaviour τ) :
    (respond ctx args b.handler).run.Isolated := by
  cases b with
  | normal run =>
    exact isolated_invoke (run args) (fun host => rfl) (fun values _ => hostless_reply _ (replyValues (.ok values)))
      fun e => hostless_reply _ (replyValues (.error e))
  | read openSource =>
    exact isolated_invoke (openSource args) (fun host => rfl) (fun source _ => hostless_stream source ctx.copyBuffer)
      fun e => hostless_shutdown
  | write openSink =>
    cases hopen : openSink args with
    | ok sink =>
      obtain ⟨c, t⟩ := sink
      refine .opening (fill ⟨ctx.peer, .empty, ctx.recordLimit, ctx.copyBuffer⟩ c).run t (fun host => ?_) fun host => ?_
      · dsimp only
        rw [hopen]
        rfl
      · dsimp only
        rw [hopen]
    | failed e =>
      exact isolated_invoke (.failed e) (fun host => by simp only [hopen]) (fun sink h => nomatch h) fun e => trivial
    | never =>
      exact isolated_invoke .never (fun host => by simp only [hopen]) (fun sink h => nomatch h) fun e => trivial

/-- A connection to a server whose methods are functions of their arguments. -/
theorem isolated_connection (ctx : Context (Array τ)) (hmethods : ctx.registry.IsFunctional) :
    (connection ctx).run.Isolated := by
  refine isolated_andThen (hostless_attempt Attempt.hostless_receiveTag) fun tag => ?_
  cases tag with
  | handshake => exact (hostless_handshake ctx).isolated
  | call =>
    refine isolated_andThen (hostless_attempt (Attempt.hostless_receiveValue _ _)) fun name => ?_
    cases hmethod : ctx.registry.get? name with
    | none => trivial
    | some method =>
      obtain ⟨b, hb⟩ := hmethods name method hmethod
      refine isolated_andThen (hostless_attempt (Attempt.hostless_receiveValue _ _)) fun values => ?_
      rw [hb]
      exact isolated_respond ctx ⟨values⟩ b

end Serving

/-! ## The same with one sink alone -/

namespace Exchange

/-- An exchange with a host that keeps other sinks as well, and the same exchange with a host that keeps no sink but
its own. The sink, once it is open, is in the same state in both. -/
inductive Alike : Option Nat → Exchange (Array τ) α → Array τ → Exchange (Array τ) α → Array τ → Prop
  | before {e} (he : e.Isolated) (host) : Alike none e host e #[]
  | opened {k t host} (hk : host[k]? = some t) (e : Exchange τ α) : Alike (some k) (e.keptAt k) host (e.keptAt 0) #[t]

/-- What an exchange may do to the sinks of its host: nothing, or open one, or use its own. -/
inductive Touches : Option Nat → Array τ → Option Nat → Array τ → Prop
  | nothing (k? host) : Touches k? host k? host
  | opened (host t) : Touches none host (some host.size) (host.push t)
  | used (k host t) : Touches (some k) host (some k) (host.set! k t)

variable {k? : Option Nat} {e e' e₁ : Exchange (Array τ) α} {host host' host₁ : Array τ} {w w₁ : ω}

theorem answer?_keptAt (k : Nat) (e : Exchange τ α) : (e.keptAt k).answer? = e.answer? := by
  cases e <;> simp only [keptAt, answer?]

theorem Alike.answer?_eq (h : Alike k? e host e' host') : e'.answer? = e.answer? := by
  cases h with
  | before => rfl
  | opened hk e => rw [answer?_keptAt, answer?_keptAt]

/-- What becomes of the other sinks does not matter. -/
theorem Alike.frame (h : Alike k? e host e' host') (hsame : ∀ k, k? = some k → host₁[k]? = host[k]?) :
    Alike k? e host₁ e' host' := by
  cases h with
  | before he => exact .before he host₁
  | opened hk e => exact .opened ((hsame _ rfl).trans hk) e

/-- The host of the one holds the sink of the other, or none. -/
theorem Alike.sinks_eq (h : Alike k? e host e' host') : host'.toList = (k?.bind fun k => host[k]?).toList := by
  cases h with
  | before => rfl
  | opened hk => simp [hk]

/-- A step that does not ask the host keeps to it. -/
theorem Next.isolated (hnext : e.Next e') (h : e.Isolated) (hapart : e.turnsToHost = false) : e'.Isolated := by
  cases hnext with
  | consult | drain | drainMore | close => cases hapart
  | gather | sendMore | pourMore | collectMore => exact h
  | collect => exact h _ _
  | _ => exact h _

end Exchange

namespace Channel

variable {c : Channel τ} {k : Nat} {t : τ} {host : Array τ}

theorem write_keptAt (h : host[k]? = some t) (bs : Bytes) :
    (c.keptAt k).write bs host = ((c.write bs t).1, host.set! k (c.write bs t).2) := by
  simp only [keptAt, h]

theorem flush_keptAt (h : host[k]? = some t) :
    (c.keptAt k).flush host = ((c.flush t).1, host.set! k (c.flush t).2) := by
  simp only [keptAt, h]

theorem shutdown_keptAt (h : host[k]? = some t) :
    (c.keptAt k).shutdown host = ((c.shutdown t).1, host.set! k (c.shutdown t).2) := by
  simp only [keptAt, h]

theorem release_keptAt (h : host[k]? = some t) : (c.keptAt k).release host = host.set! k (c.release t) :=
  modify_entry h c.release

end Channel

namespace Exchange

open Channel

variable {k? : Option Nat} {k : Nat} {t : τ} {host host' host₁ : Array τ} {w w₁ : ω}

/-- What comes of a step with a host that is kept in a place. -/
def putKept (k : Nat) (host : Array τ) : Option (Exchange τ α × ω × τ) → Option (Exchange (Array τ) α × ω × Array τ) :=
  Option.map fun moved => (moved.1.keptAt k, moved.2.1, host.set! k moved.2.2)

theorem settle_keptAt (h : host[k]? = some t) (next : Except Fault β → Exchange τ α) (p : Poll β × ω) :
    settle (fun r => (next r).keptAt k) host p = putKept k host (settle next t p) := by
  obtain ⟨r, w⟩ := p
  cases r with
  | pending => rfl
  | ready b | failed f =>
    simp only [settle, putKept, Option.map_some, set_entry h]

/-- With the host in a place, an exchange makes the steps that it makes with the host by itself. -/
theorem step_keptAt (h : host[k]? = some t) (e : Exchange τ α) (ch : Channel ω) (w : ω) :
    (e.keptAt k).step ch w host = putKept k host (e.step ch w t) := by
  have hself : ∀ (e : Exchange τ α) (w : ω), some (e.keptAt k, w, host) = putKept k host (some (e, w, t)) := by
    intro e w
    simp only [putKept, Option.map_some, set_entry h]
  cases e with
  | done | stall => rfl
  | consult next update =>
    simp only [keptAt, step, h, modify_entry h]
    rfl
  | receiveByte next =>
    simp only [keptAt, step]
    rcases ch.read 1 w with ⟨(_ | ⟨b, bs⟩) | _ | _, w'⟩
    · exact hself _ _
    · exact hself _ _
    · rfl
    · exact hself _ _
  | receiveRecord limit soFar next =>
    simp only [keptAt, step]
    rcases ch.read soFar.need w with ⟨(_ | ⟨b, bs⟩) | _ | _, w'⟩
    · exact hself _ _
    · dsimp only
      cases soFar.feed limit (b :: bs) with
      | more g => exact hself (.receiveRecord limit g next) w'
      | complete | tooLong => exact hself _ _
    · rfl
    · exact hself _ _
  | send left next =>
    cases left with
    | nil => exact hself _ _
    | cons b bs =>
      simp only [keptAt, step]
      rcases ch.write (b :: bs) w with ⟨(_ | n) | _ | _, w'⟩
      · exact hself _ _
      · exact hself (.send _ next) w'
      · rfl
      · exact hself _ _
  | flush next | shutdown next => exact settle_keptAt h next _
  | pour source held capacity next =>
    cases held with
    | nil =>
      simp only [keptAt, step]
      rcases source.read capacity with ⟨(_ | ⟨b, bs⟩) | _ | _, source'⟩
      · exact settle_keptAt h next _
      · exact hself (.pour source' _ capacity next) w
      · rfl
      · exact hself _ _
    | cons b bs =>
      simp only [keptAt, step]
      rcases ch.write (b :: bs) w with ⟨(_ | n) | _ | _, w'⟩
      · exact hself _ _
      · exact hself (.pour source _ capacity next) w'
      · rfl
      · exact hself _ _
  | drain sink held capacity next =>
    cases held with
    | nil =>
      simp only [keptAt, step, flush_keptAt h]
      rcases ch.read capacity w with ⟨(_ | ⟨b, bs⟩) | _ | _, w'⟩
      · rcases sink.flush t with ⟨_ | _ | _, t'⟩ <;> rfl
      · exact hself (.drain sink _ capacity next) w'
      · rfl
      · exact hself _ _
    | cons b bs =>
      simp only [keptAt, step, write_keptAt h]
      rcases sink.write (b :: bs) t with ⟨(_ | n) | _ | _, t'⟩ <;> rfl
  | close sink next =>
    have hrelease : ∀ t', (sink.keptAt k).release (host.set! k t') = host.set! k (sink.release t') := by
      intro t'
      rw [release_keptAt (entry_set_self h t'), set_set]
    simp only [keptAt, step, shutdown_keptAt h]
    rcases sink.shutdown t with ⟨_ | _ | _, t'⟩
    · simp only [hrelease]
      rfl
    · rfl
    · simp only [hrelease]
      rfl
  | collect soFar next =>
    simp only [keptAt, step]
    rcases ch.read collectSize w with ⟨(_ | ⟨b, bs⟩) | _ | _, w'⟩
    · exact hself _ _
    · exact hself (.collect _ next) w'
    · rfl
    · exact hself _ _

variable {e e' e₁ : Exchange (Array τ) α}

/-- A step beside the other sinks is one without them. -/
theorem Alike.step (h : Alike k? e host e' host') {ch : Channel ω} (hstep : e.step ch w host = some (e₁, w₁, host₁)) :
    ∃ k₁ e₁' host₁', e'.step ch w host' = some (e₁', w₁, host₁') ∧ Alike k₁ e₁ host₁ e₁' host₁' ∧
      Touches k? host k₁ host₁ := by
  cases h with
  | before he =>
    cases hturns : e.turnsToHost with
    | false =>
      obtain ⟨rfl, hbeside⟩ := step_some_beside hturns hstep
      exact ⟨none, e₁, #[], hbeside #[], .before ((step_cases hstep).1.isolated he hturns) _, .nothing _ _⟩
    | true =>
      obtain ⟨next, update, rfl⟩ : ∃ next update, e = .consult next update := by
        cases e with
        | consult next update => exact ⟨next, update, rfl⟩
        | drain | close => exact he.elim
        | _ => cases hturns
      cases hstep
      cases he with
      | plainly he hnext hupdate =>
        refine ⟨none, _, _, rfl, ?_, ?_⟩
        · rw [hnext, hnext, hupdate, hupdate]
          exact .before he.isolated _
        · rw [hupdate]
          exact .nothing _ _
      | opening e t hnext hupdate =>
        refine ⟨some host.size, _, _, rfl, ?_, ?_⟩
        · rw [hnext, hnext, hupdate, hupdate]
          exact .opened Array.getElem?_push_size e
        · rw [hupdate]
          exact .opened _ _
  | @opened k t _ hk e =>
    rw [step_keptAt hk] at hstep
    obtain ⟨⟨e₂, w₂, t₂⟩, hmoved, heq⟩ := Option.map_eq_some_iff.1 hstep
    cases heq
    have halone : (#[t] : Array τ)[0]? = some t := rfl
    refine ⟨some k, e₂.keptAt 0, #[t₂], ?_, .opened (entry_set_self hk t₂) e₂, .used _ _ _⟩
    rw [step_keptAt halone, hmoved]
    rfl

end Exchange

end RemoteCall
