import RemoteCall.Proofs.Exchange.Hostless
import RemoteCall.Proofs.Exchange.Speaking
import RemoteCall.Proofs.Message.Received
import RemoteCall.Proofs.Record.Fragments
/-!
# What gets through to a method

A server that serves a connection asks its host for one thing only, to invoke a method. `Context.Takes` says
which byte strings begin with a call that the server takes. The main result follows every run of a server, on
streams that deliver any bytes in pieces of any size and end in any way: the host is asked just when the
stream begins with such a call, once, and before that the server has read the call and sent nothing; and
whatever else arrives, but for the tag of a handshake, gets no answer.
-/

namespace RemoteCall

variable {σ α β : Type}

/-! ## Exchanges that never ask -/

section NeverAsks

open Exchange

/-- Who has no part in the host does not ask it. -/
theorem Exchange.Hostless.neverAsks {e : Exchange σ α} (h : e.Hostless) : e.NeverAsks := by
  induction e with
  | done | stall => trivial
  | consult | drain | close => exact h.elim
  | receiveByte next ih | receiveRecord limit g next ih | send bs next ih | flush next ih
  | shutdown next ih | pour source held capacity next ih => exact fun r => ih r (h r)
  | collect soFar next ih => exact fun r bs => ih r bs (h r bs)

/-- What invoking a method does to the host. -/
def Handler.effect : Handler σ → Arguments → σ → σ
  | .normal run, args, host => (run args host).2
  | .read openSource, args, host => (openSource args host).2
  | .write openSink, args, host => (openSink args host).2

namespace Serving

/-- After a method was invoked, whatever its verdict, the host is not asked any more. -/
theorem invoke_andThen {run : Arguments → σ → Verdict α × σ} {args : Arguments}
    {next : Except AppError α → Serving σ β} (hnext : ∀ r, (next r).run.NeverAsks) :
    ∃ answer, (invoke run args >>= next).run = .consult answer (fun host => (run args host).2) ∧
      ∀ host, (answer host).NeverAsks := by
  refine ⟨_, rfl, ?_⟩
  intro host
  dsimp only
  split
  · exact hnext _
  · exact hnext _
  · trivial

/-- What follows the arguments begins by invoking the method, and the host is not asked again. -/
theorem respond_asks (ctx : Context σ) (args : Arguments) (h : Handler σ) :
    ∃ answer, (respond ctx args h).run = .consult answer (h.effect args) ∧
      ∀ host, (answer host).NeverAsks := by
  cases h with
  | normal run => exact invoke_andThen fun r => (hostless_reply _ _).neverAsks
  | read openSource =>
    apply invoke_andThen
    intro r
    cases r with
    | ok source => exact (hostless_stream source ctx.copyBuffer).neverAsks
    | error e => exact hostless_shutdown.neverAsks
  | write openSink =>
    apply invoke_andThen
    intro r
    cases r with
    | ok sink => exact fun _ _ => trivial
    | error e => trivial

end Serving

end NeverAsks

/-! ## What a server reads -/

open Record (IsRecord)

/-- What is decoded of a whole body is what it encodes. -/
theorem Codec.decodeWhole_iff {c : Codec α} (hc : c.IsMapless) {body : Bytes} {x : α} :
    c.decodeWhole body = .ok x ↔ (c.encode x).toExcept = .ok body ∧ c.WithinDepth x := by
  constructor
  · intro h
    obtain ⟨hdepth, used, hused, hsplit⟩ := decode_spells c hc body x [] (decodeWhole_eq_ok.1 h)
    rw [List.append_nil] at hsplit
    exact ⟨by rw [hused, hsplit], hdepth⟩
  · rintro ⟨hencode, hdepth⟩
    exact decodeWhole_of_encode hencode hdepth

theorem Codec.decodeWhole_text {body : Bytes} {name : String} :
    Codec.text.decodeWhole body = .ok name ↔ (Codec.text.encode name).toExcept = .ok body := by
  have hmapless : Codec.text.IsMapless := trivial
  have hdepth : Codec.text.WithinDepth name := (true_iff_withinDepth rfl).1 trivial
  exact (decodeWhole_iff hmapless).trans (and_iff_left hdepth)

theorem Codec.decodeWhole_values {body : Bytes} {vs : List Value} :
    (Codec.list .value).decodeWhole body = .ok vs ↔
      ((Codec.list .value).encode vs).toExcept = .ok body ∧ ∀ v ∈ vs, v.depth ≤ 64 := by
  have hmapless : (Codec.list .value).IsMapless := trivial
  rw [decodeWhole_iff hmapless, withinDepth_values]

/-- A byte string begins with a call of a method and its arguments, and goes on with other bytes: there is
the tag, a record that encodes a registered name, and a record that encodes values of at most 64 levels. -/
def Context.Takes (ctx : Context σ) (inp : Bytes) (m : Method σ) (vs : List Value) (rest : Bytes) : Prop :=
  ∃ name nameRecord nameBody argsRecord argsBody,
    inp = 1 :: (nameRecord ++ (argsRecord ++ rest)) ∧
    IsRecord ctx.recordLimit nameRecord nameBody ∧ (Codec.text.encode name).toExcept = .ok nameBody ∧
    ctx.registry.get? name = some m ∧
    IsRecord ctx.recordLimit argsRecord argsBody ∧
    ((Codec.list .value).encode vs).toExcept = .ok argsBody ∧ ∀ v ∈ vs, v.depth ≤ 64

namespace Serving

open Exchange

variable {w : Scripted}

/-- Goes on with what was received, unless there was a fault. -/
def goOn (next : α → Serving σ β) : Except Fault α → Exchange σ (Except ServeError β)
  | .ok x => (next x).run
  | .error f => .done (.error (.fault f))

/-- A message that is received, and what follows it. -/
theorem run_message (limit : Nat) (c : Codec α) (next : α → Serving σ β) :
    (attempt (Attempt.receiveValue limit c) >>= next).run =
      .receiveRecord limit .start fun r => goOn next (r.bind c.decodeWhole) := by
  have hrun : (attempt (Attempt.receiveValue limit c) >>= next).run =
      ((Attempt.receiveValue limit c).run.bind fun r => .done (r.mapError .fault)).bind
        (ExceptT.bindCont next) := rfl
  rw [hrun, Attempt.run_receiveValue]
  refine congrArg (Exchange.receiveRecord limit .start) (funext fun r => ?_)
  dsimp only
  cases r.bind c.decodeWhole <;> rfl

/-- A message that arrives is heard. -/
theorem hears_message {limit : Nat} {c : Codec α} (next : α → Serving σ β) (hw : w.Moves)
    {record body rest : Bytes} {x : α} (hdata : w.incoming.data = record ++ rest)
    (hrecord : IsRecord limit record body) (hbody : c.decodeWhole body = .ok x) :
    ∃ n w', Hears n (attempt (Attempt.receiveValue limit c) >>= next).run w (next x).run w' ∧
      w'.incoming.data = rest := by
  have hneed : 0 < Record.Gathering.start.need := Nat.succ_pos 3
  have habsorb := Record.absorb_complete_iff.2 ⟨record, hdata, hrecord⟩
  obtain ⟨n, w', hears, hrest⟩ := hears_receiveRecord limit (fun r => goOn next (r.bind c.decodeWhole)) hw hneed
  rw [habsorb] at hears hrest
  have hnext : goOn next ((Except.ok body).bind c.decodeWhole) = (next x).run := congrArg (goOn next) hbody
  rw [afterAbsorb, hnext] at hears
  rw [run_message]
  exact ⟨n, w', hears, hrest⟩

/-- Where a message is due, one arrives, or a fault ends the connection, or there is silence. -/
theorem hears_message_cases (limit : Nat) (c : Codec α) (next : α → Serving σ β) (hw : w.Moves) :
    ∃ n e w', Hears n (attempt (Attempt.receiveValue limit c) >>= next).run w e w' ∧
      ((∃ record body x, w.incoming.data = record ++ w'.incoming.data ∧ IsRecord limit record body ∧
          c.decodeWhole body = .ok x ∧ e = (next x).run) ∨
        (∃ f, e = .done (.error (.fault f))) ∨ Waits e w') := by
  have hneed : 0 < Record.Gathering.start.need := Nat.succ_pos 3
  obtain ⟨n, w', hears, hrest⟩ := hears_receiveRecord limit (fun r => goOn next (r.bind c.decodeWhole)) hw hneed
  rw [run_message]
  rcases habsorb : Record.Gathering.start.absorb limit w.incoming.data with ⟨g | body | length, left⟩
  · rw [habsorb] at hears hrest
    have hleft : w'.incoming.data = [] := hrest.trans (Record.Gathering.absorb_more_rest habsorb)
    -- the stream is over before the record is complete
    rcases hears_receiveRecord_end limit _ hleft g with ⟨f, hend⟩ | hwaits
    · exact ⟨_, _, w', hears.trans hend, .inr (.inl ⟨f, rfl⟩)⟩
    · exact ⟨n, _, w', hears, .inr (.inr hwaits)⟩
  · rw [habsorb] at hears hrest
    obtain ⟨record, hdata, hrecord⟩ := Record.absorb_complete_iff.1 habsorb
    refine ⟨n, _, w', hears, ?_⟩
    rw [hdata, ← show w'.incoming.data = left from hrest]
    cases hbody : c.decodeWhole body with
    | ok x => exact .inl ⟨record, body, x, rfl, hrecord, hbody, congrArg (goOn next) hbody⟩
    | error f => exact .inr (.inl ⟨f, congrArg (goOn next) hbody⟩)
  · rw [habsorb] at hears
    exact ⟨n, _, w', hears, .inr (.inl ⟨_, rfl⟩)⟩

variable (ctx : Context σ)

/-- What follows the name of a method. -/
def answerTo (name : String) : Serving σ Unit :=
  match ctx.registry.get? name with
  | none => throw (.methodNotFound name)
  | some method => do
    let values ← attempt (Attempt.receiveValue ctx.recordLimit (.list .value))
    respond ctx ⟨values⟩ method.handler

theorem answerTo_of_get? {name : String} {m : Method σ} (hget : ctx.registry.get? name = some m) :
    answerTo ctx name = (attempt (Attempt.receiveValue ctx.recordLimit (.list .value)) >>=
      fun values => respond ctx ⟨values⟩ m.handler) := by
  unfold answerTo
  rw [hget]

theorem answerTo_unknown {name : String} (hget : ctx.registry.get? name = none) :
    (answerTo ctx name).run = .done (.error (.methodNotFound name)) := by
  unfold answerTo
  rw [hget]
  rfl

/-- What follows the tag of a connection. -/
def answerTag : Tag → Serving σ Unit
  | .handshake => handshake ctx
  | .call => attempt (Attempt.receiveValue ctx.recordLimit .text) >>= answerTo ctx

/-- A connection begins with its tag. -/
theorem run_connection : (connection ctx).run = .receiveByte fun r =>
    goOn (answerTag ctx) (r.bind fun code =>
      match Tag.ofCode? code with
      | some tag => .ok tag
      | none => .error (.unknownTag code)) := by
  refine congrArg Exchange.receiveByte (funext fun r => ?_)
  cases r with
  | error f => rfl
  | ok code =>
    show _ = goOn (answerTag ctx) (match Tag.ofCode? code with
      | some tag => .ok tag
      | none => .error (.unknownTag code))
    dsimp only [Exchange.bind, ExceptT.bindCont]
    cases Tag.ofCode? code with
    | none => rfl
    | some tag => cases tag <;> rfl

theorem hears_tag (tag : Tag) {rest : Bytes} (hw : w.Moves) (hdata : w.incoming.data = tag.code :: rest) :
    ∃ w', Hears 1 (connection ctx).run w (answerTag ctx tag).run w' ∧ w'.incoming.data = rest := by
  have hcode : Tag.ofCode? tag.code = some tag := by cases tag <;> rfl
  rw [run_connection]
  obtain ⟨w', hears, hrest⟩ := hears_receiveByte hw hdata fun r => goOn (answerTag ctx) (r.bind fun code =>
    match Tag.ofCode? code with
    | some tag => .ok tag
    | none => .error (.unknownTag code))
  simp only [Except.bind, hcode] at hears
  exact ⟨w', hears, hrest⟩

/-- Where a tag is due, one arrives, or a fault ends the connection, or there is silence. -/
theorem hears_tag_cases (hw : w.Moves) :
    ∃ n e w', Hears n (connection ctx).run w e w' ∧
      ((∃ tag : Tag, w.incoming.data = tag.code :: w'.incoming.data ∧ e = (answerTag ctx tag).run) ∨
        (∃ f, e = .done (.error (.fault f))) ∨ Waits e w') := by
  rcases hdata : w.incoming.data with _ | ⟨code, rest⟩
  · rw [run_connection]
    rcases hears_receiveByte_end hdata _ with ⟨f, hend⟩ | hwaits
    · exact ⟨1, _, w, hend, .inr (.inl ⟨f, rfl⟩)⟩
    · exact ⟨0, _, w, .refl _ _, .inr (.inr hwaits)⟩
  · by_cases htag : ∃ tag : Tag, code = tag.code
    · obtain ⟨tag, rfl⟩ := htag
      obtain ⟨w', hears, hrest⟩ := hears_tag ctx _ hw hdata
      exact ⟨1, _, w', hears, .inl ⟨tag, by rw [hrest], rfl⟩⟩
    · have hcode : Tag.ofCode? code = none := by
        have hcall : ¬ code = 1 := fun h => htag ⟨.call, h⟩
        have hhandshake : ¬ code = 2 := fun h => htag ⟨.handshake, h⟩
        unfold Tag.ofCode?
        rw [if_neg hcall, if_neg hhandshake]
      rw [run_connection]
      obtain ⟨w', hears, -⟩ := hears_receiveByte hw hdata fun r => goOn (answerTag ctx) (r.bind fun code =>
        match Tag.ofCode? code with
        | some tag => .ok tag
        | none => .error (.unknownTag code))
      simp only [Except.bind, hcode] at hears
      exact ⟨1, _, w', hears, .inr (.inl ⟨_, rfl⟩)⟩

/-- A call under a name that is registered or not, up to the name. -/
theorem hears_name (hw : w.Moves) {name : String} {record body rest : Bytes}
    (hdata : w.incoming.data = 1 :: (record ++ rest)) (hrecord : IsRecord ctx.recordLimit record body)
    (hname : (Codec.text.encode name).toExcept = .ok body) :
    ∃ n w', Hears n (connection ctx).run w (answerTo ctx name).run w' ∧ w'.incoming.data = rest := by
  obtain ⟨w₁, htag, hrest₁⟩ := hears_tag ctx .call hw hdata
  obtain ⟨n, w', hears, hrest⟩ := hears_message (answerTo ctx) (htag.hearing.moves hw) hrest₁ hrecord
    (Codec.decodeWhole_text.2 hname)
  exact ⟨_, w', htag.trans hears, hrest⟩

/-- A call that the server takes is heard, up to the invocation of its method. -/
theorem hears_call (hw : w.Moves) {m : Method σ} {vs : List Value} {rest : Bytes}
    (h : ctx.Takes w.incoming.data m vs rest) :
    ∃ n w', Hears n (connection ctx).run w (respond ctx ⟨vs⟩ m.handler).run w' ∧ w'.incoming.data = rest := by
  obtain ⟨name, nameRecord, nameBody, argsRecord, argsBody, hdata, hnameRecord, hname, hget, hargsRecord,
    hargs, hdepth⟩ := h
  obtain ⟨n, w₁, hears₁, hrest₁⟩ := hears_name ctx hw hdata hnameRecord hname
  rw [answerTo_of_get? ctx hget] at hears₁
  obtain ⟨k, w', hears, hrest⟩ := hears_message (fun values => respond ctx ⟨values⟩ m.handler)
    (hears₁.hearing.moves hw) hrest₁ hargsRecord (Codec.decodeWhole_values.2 ⟨hargs, hdepth⟩)
  exact ⟨_, w', hears₁.trans hears, hrest⟩

/-- What a server comes to by reading: a call that it takes, a handshake, an error, or silence. -/
theorem hears_connection_cases (hw : w.Moves) :
    ∃ n e w', Hears n (connection ctx).run w e w' ∧
      ((∃ m vs, ctx.Takes w.incoming.data m vs w'.incoming.data ∧ e = (respond ctx ⟨vs⟩ m.handler).run) ∨
        (w.incoming.data = 2 :: w'.incoming.data ∧ e = (handshake ctx).run) ∨
        (∃ f, e = .done (.error f)) ∨ Waits e w') := by
  obtain ⟨n₁, e₁, w₁, hears₁, ⟨tag, hdata, rfl⟩ | ⟨f, rfl⟩ | hwaits⟩ := hears_tag_cases ctx hw
  · cases tag with
    | handshake => exact ⟨n₁, _, w₁, hears₁, .inr (.inl ⟨hdata, rfl⟩)⟩
    | call =>
      have hw₁ := hears₁.hearing.moves hw
      obtain ⟨n₂, e₂, w₂, hears₂, ⟨record, body, name, hdata₁, hrecord, hbody, rfl⟩ | ⟨f, rfl⟩ | hwaits⟩ :=
        hears_message_cases ctx.recordLimit .text (answerTo ctx) hw₁
      · have hears₁₂ := hears₁.trans hears₂
        cases hget : ctx.registry.get? name with
        | none =>
          refine ⟨_, _, w₂, hears₁₂, .inr (.inr (.inl ⟨.methodNotFound name, ?_⟩))⟩
          rw [answerTo_unknown ctx hget]
        | some m =>
          rw [answerTo_of_get? ctx hget] at hears₁₂
          obtain ⟨n₃, e₃, w₃, hears₃, ⟨argsRecord, argsBody, vs, hdata₂, hargsRecord, hargsBody, rfl⟩ |
            ⟨f, rfl⟩ | hwaits⟩ := hears_message_cases ctx.recordLimit (.list .value)
              (fun values => respond ctx ⟨values⟩ m.handler) (hears₂.hearing.moves hw₁)
          · obtain ⟨hargs, hdepth⟩ := Codec.decodeWhole_values.1 hargsBody
            rw [hdata₂] at hdata₁
            rw [hdata₁] at hdata
            exact ⟨_, _, w₃, hears₁₂.trans hears₃, .inl ⟨m, vs, ⟨name, record, body, argsRecord, argsBody,
              hdata, hrecord, Codec.decodeWhole_text.1 hbody, hget, hargsRecord, hargs, hdepth⟩, rfl⟩⟩
          · exact ⟨_, _, w₃, hears₁₂.trans hears₃, .inr (.inr (.inl ⟨_, rfl⟩))⟩
          · exact ⟨_, e₃, w₃, hears₁₂.trans hears₃, .inr (.inr (.inr hwaits))⟩
      · exact ⟨_, _, w₂, hears₁.trans hears₂, .inr (.inr (.inl ⟨_, rfl⟩))⟩
      · exact ⟨_, e₂, w₂, hears₁.trans hears₂, .inr (.inr (.inr hwaits))⟩
  · exact ⟨n₁, _, w₁, hears₁, .inr (.inr (.inl ⟨_, rfl⟩))⟩
  · exact ⟨n₁, e₁, w₁, hears₁, .inr (.inr (.inr hwaits))⟩

/-! ## The answer to a handshake -/

/-- What a server does when its reply is sent: it shuts the stream down. -/
def closing : Exchange σ (Except ServeError Unit) := .shutdown fun r => .done (r.mapError .fault)

/-- A value that can be encoded is sent as one record. -/
theorem sends_reply {c : Codec α} {x : α} {whole : Bytes} (h : (c.encode x).toExcept = .ok whole) :
    ∃ n, Sends (fun f => .done (.error (.fault f))) n
      (attempt (do Attempt.sendValue c x; Attempt.shutdown) : Serving σ Unit).run (Record.frame whole) closing := by
  have hreply := (Attempt.sends_sendValue (σ := σ) h).andThen (fun _ => Attempt.shutdown) (.refl _)
  rw [List.append_nil] at hreply
  exact ⟨_, hreply.bind fun r => .done (r.mapError ServeError.fault)⟩

/-- Capabilities that can be encoded are sent as one record, and then the connection is shut down. -/
theorem sends_handshake {whole : Bytes}
    (h : (Capabilities.codec.encode ctx.registry.capabilities).toExcept = .ok whole) :
    ∃ n tail, Sends (fun f => .done (.error (.fault f))) n (handshake ctx).run (Record.frame whole)
        (.shutdown tail) ∧ (∀ r, ∃ a, tail r = .done a) ∧ tail (.ok ()) = .done (.ok ()) := by
  obtain ⟨n, hsends⟩ := sends_reply (σ := σ) h
  exact ⟨n, _, hsends, fun r => ⟨_, rfl⟩, rfl⟩

theorem handshake_of_error {f : Fault}
    (h : (Capabilities.codec.encode ctx.registry.capabilities).toExcept = .error f) :
    (handshake ctx).run = .done (.error (.fault f)) := by
  unfold handshake Attempt.sendValue
  rw [h]
  rfl

/-! ## Runs -/

/-- A server on a stream, after so many steps: what it is about to do, the stream, and the host. -/
def after (ctx : Context σ) (s : Supply) (t : Intake) (host : σ) (fuel : Nat) :
    Exchange σ (Except ServeError Unit) × Scripted × σ :=
  (connection ctx).run.run Scripted.channel fuel ⟨s, t, 0⟩ host

variable {s : Supply} {t : Intake} {host : σ} {n : Nat} {e : Exchange σ (Except ServeError Unit)}

/-- A server that only reads has sent nothing, and has read what is gone from the stream. -/
theorem after_hears (host : σ) (h : Hears n (connection ctx).run ⟨s, t, 0⟩ e w) :
    after ctx s t host n = (e, w, host) ∧ w.outgoing = t ∧
      w.consumed + w.incoming.data.length = s.data.length := by
  refine ⟨h.run 0 host, h.hearing.outgoing, ?_⟩
  rw [h.hearing.consumed]
  exact Nat.zero_add _

/-- Before it comes to anything else, a server has only read. -/
theorem after_lt (h : Hears n (connection ctx).run ⟨s, t, 0⟩ e w) {fuel : Nat} (hfuel : fuel < n) :
    (after ctx s t host fuel).1.asks = false ∧ (after ctx s t host fuel).2.1.outgoing = t ∧
      (after ctx s t host fuel).2.2 = host := by
  obtain ⟨e₁, w₁, hrun, hasks, hw₁⟩ := h.run_lt hfuel host
  unfold after
  rw [hrun]
  exact ⟨hasks, hw₁.outgoing, rfl⟩

/-- A server that comes to an end by reading, or has to wait, has done nothing else at any time. -/
theorem after_stuck (h : Hears n (connection ctx).run ⟨s, t, 0⟩ e w) (hasks : e.asks = false)
    (hstuck : e.step Scripted.channel w host = none) (fuel : Nat) :
    (after ctx s t host fuel).1.asks = false ∧ (after ctx s t host fuel).2.1.outgoing = t ∧
      (after ctx s t host fuel).2.2 = host := by
  obtain ⟨e₁, w₁, hrun, hasks₁, hw₁⟩ := h.run_stuck hasks hstuck fuel
  unfold after
  rw [hrun]
  exact ⟨hasks₁, hw₁.outgoing, rfl⟩

/-- A call that the server takes comes to the invocation of its method, and to no other. -/
theorem after_call (t : Intake) (host : σ) (hchunk : ∀ k, s.chunking k ≠ some 0) {m : Method σ}
    {vs : List Value} {rest : Bytes} (h : ctx.Takes s.data m vs rest) :
    ∃ n answer w, after ctx s t host n = (.consult answer (m.handler.effect ⟨vs⟩), w, host) ∧
      (respond ctx ⟨vs⟩ m.handler).run = .consult answer (m.handler.effect ⟨vs⟩) ∧
      w.incoming.data = rest ∧ w.consumed + rest.length = s.data.length ∧ w.outgoing = t ∧
      (∀ fuel, (after ctx s t host fuel).1.asks = true ↔ fuel = n) ∧
      ∀ fuel < n, (after ctx s t host fuel).2.1.outgoing = t ∧ (after ctx s t host fuel).2.2 = host := by
  obtain ⟨n, w, hears, hrest⟩ := hears_call ctx (w := ⟨s, t, 0⟩) hchunk h
  obtain ⟨answer, hrespond, hanswer⟩ := respond_asks ctx ⟨vs⟩ m.handler
  rw [hrespond] at hears
  obtain ⟨hstate, hsilent, hconsumed⟩ := after_hears ctx host hears
  rw [hrest] at hconsumed
  refine ⟨n, answer, w, hstate, hrespond, hrest, hconsumed, hsilent, ?_, ?_⟩
  · exact fun fuel => hears.asks_iff hanswer fuel host
  · exact fun fuel hfuel => (after_lt ctx hears hfuel).2

/-- The host is asked for nothing but a call that the server takes. -/
theorem takes_of_asks (hchunk : ∀ k, s.chunking k ≠ some 0) {fuel : Nat}
    (h : (after ctx s t host fuel).1.asks = true) : ∃ m vs rest, ctx.Takes s.data m vs rest := by
  have hquiet : (after ctx s t host fuel).1.asks ≠ false := by
    rw [h]
    exact Bool.noConfusion
  obtain ⟨n, e, w, hears, ⟨m, vs, htakes, -⟩ | ⟨-, rfl⟩ | ⟨f, rfl⟩ | hwaits⟩ :=
    hears_connection_cases ctx (w := ⟨s, t, 0⟩) hchunk
  · exact ⟨m, vs, w.incoming.data, htakes⟩
  · exact absurd (hears.never_asks (hostless_handshake ctx).neverAsks fuel host) hquiet
  · exact absurd (hears.never_asks trivial fuel host) hquiet
  · exact absurd (after_stuck ctx hears hwaits.asks_eq (hwaits.step_eq host) fuel).1 hquiet

/-- A handshake is answered with the capabilities, as far as the stream takes them. -/
theorem after_handshake (hchunk : ∀ k, s.chunking k ≠ some 0) {rest whole : Bytes} (hdata : s.data = 2 :: rest)
    (hwhole : (Capabilities.codec.encode ctx.registry.capabilities).toExcept = .ok whole) :
    (∀ fuel, (after ctx s t host fuel).2.1.sent <+: t.taken ++ Record.frame whole ∧
      (after ctx s t host fuel).2.1.consumed ≤ 1 ∧ (after ctx s t host fuel).2.2 = host) ∧
    (t.Unobstructed → ∃ fuel w, after ctx s t host fuel = (.done (.ok ()), w, host) ∧
      w.sent = t.taken ++ Record.frame whole ∧ w.consumed = 1 ∧ w.incoming.data = rest) := by
  obtain ⟨w, hears, hrest⟩ := hears_tag ctx .handshake (w := ⟨s, t, 0⟩) hchunk hdata
  obtain ⟨-, hout, hconsumed⟩ := after_hears ctx host hears
  obtain ⟨n, tail, hsends, htail, hdone⟩ := sends_handshake ctx hwhole
  have hone : w.consumed = 1 := by
    rw [hrest, hdata, List.length_cons] at hconsumed
    omega
  have hsent : w.sent = t.taken := by
    unfold Scripted.sent
    rw [hout]
  constructor
  · intro fuel
    cases fuel with
    | zero => exact ⟨List.prefix_append _ _, Nat.zero_le 1, rfl⟩
    | succ k =>
      obtain ⟨e₁, t₁, hspeaks, htaken⟩ := hsends.run_prefix (fun f => ⟨_, rfl⟩) htail k w host
      have hstate : after ctx s t host (k + 1) = (e₁, { w with outgoing := t₁ }, host) := by
        rw [Nat.add_comm]
        exact (hears.run k host).trans hspeaks
      rw [hstate, ← hsent]
      exact ⟨htaken, Nat.le_of_eq hone, rfl⟩
  · intro ht
    obtain ⟨fuel, t₁, hrun, htaken⟩ := hsends.run_unobstructed hdone w (by rw [hout]; exact ht) host
    refine ⟨1 + fuel, { w with outgoing := t₁ }, (hears.run fuel host).trans hrun, ?_, hone, hrest⟩
    rw [← hsent]
    exact htaken

/-- Capabilities that cannot be encoded are not sent. -/
theorem after_handshake_error (hchunk : ∀ k, s.chunking k ≠ some 0) {rest : Bytes} {f : Fault}
    (hdata : s.data = 2 :: rest)
    (hf : (Capabilities.codec.encode ctx.registry.capabilities).toExcept = .error f) :
    ∃ fuel w, after ctx s t host fuel = (.done (.error (.fault f)), w, host) ∧ w.outgoing = t ∧
      w.incoming.data = rest := by
  obtain ⟨w, hears, hrest⟩ := hears_tag ctx .handshake (w := ⟨s, t, 0⟩) hchunk hdata
  have hend : (answerTag ctx .handshake).run = .done (.error (.fault f)) := handshake_of_error ctx hf
  rw [hend] at hears
  obtain ⟨hstate, hout, -⟩ := after_hears ctx host hears
  exact ⟨1, w, hstate, hout, hrest⟩

/-- Whatever else arrives is not answered. -/
theorem after_other (hchunk : ∀ k, s.chunking k ≠ some 0) (hcall : ∀ m vs rest, ¬ ctx.Takes s.data m vs rest)
    (hhandshake : ∀ rest, s.data ≠ 2 :: rest) :
    (∀ fuel, (after ctx s t host fuel).2.1.outgoing = t ∧ (after ctx s t host fuel).2.2 = host) ∧
    ((∃ fuel f w, after ctx s t host fuel = (.done (.error f), w, host)) ∨
      s.ending = .silence ∧ ∃ fuel e w, after ctx s t host fuel = (e, w, host) ∧ e.answer? = none ∧
        e.step Scripted.channel w host = none) := by
  obtain ⟨n, e, w, hears, ⟨m, vs, htakes, -⟩ | ⟨hdata, -⟩ | ⟨f, rfl⟩ | hwaits⟩ :=
    hears_connection_cases ctx (w := ⟨s, t, 0⟩) hchunk
  · exact absurd htakes (hcall m vs _)
  · exact absurd hdata (hhandshake _)
  · exact ⟨fun fuel => (after_stuck ctx hears rfl rfl fuel).2, .inl ⟨n, f, w, (after_hears ctx host hears).1⟩⟩
  · refine ⟨fun fuel => (after_stuck ctx hears hwaits.asks_eq (hwaits.step_eq host) fuel).2, .inr ⟨?_, ?_⟩⟩
    · rw [← hwaits.silent, hears.hearing.ending]
    · exact ⟨n, e, w, (after_hears ctx host hears).1, hwaits.answer_eq, hwaits.step_eq host⟩

/-- Behind a name that is not registered nothing is read. -/
theorem after_unknown (hchunk : ∀ k, s.chunking k ≠ some 0) {name : String} {record body rest : Bytes}
    (hdata : s.data = 1 :: (record ++ rest)) (hrecord : IsRecord ctx.recordLimit record body)
    (hname : (Codec.text.encode name).toExcept = .ok body) (hget : ctx.registry.get? name = none) :
    ∃ fuel w, after ctx s t host fuel = (.done (.error (.methodNotFound name)), w, host) ∧
      w.incoming.data = rest ∧ w.outgoing = t := by
  obtain ⟨n, w, hears, hrest⟩ := hears_name ctx (w := ⟨s, t, 0⟩) hchunk hdata hrecord hname
  rw [answerTo_unknown ctx hget] at hears
  obtain ⟨hstate, hout, -⟩ := after_hears ctx host hears
  exact ⟨n, w, hstate, hrest, hout⟩

/-- Whatever arrives at a server, in pieces of any size and with any ending: it invokes a method just when
the stream begins with a call that it takes. It invokes the method that is called, on the arguments of the
call, at one moment only, and until then it has read the call and no more, and has sent nothing. A
handshake is answered with the record of the capabilities, and nothing behind its tag is read. If neither arrives, nothing
is ever sent or shut down, and the connection ends with an error or waits for ever. The arguments of a
method that is not registered are not read. -/
theorem invokes_iff_takes (s : Supply) (hchunk : ∀ k, s.chunking k ≠ some 0) (t : Intake) (host : σ) :
    let state := after ctx s t host
    ((∃ fuel, (state fuel).1.asks = true) ↔ ∃ m vs rest, ctx.Takes s.data m vs rest) ∧
    (∀ m vs rest, ctx.Takes s.data m vs rest →
      ∃ n answer w, state n = (.consult answer (m.handler.effect ⟨vs⟩), w, host) ∧
        (respond ctx ⟨vs⟩ m.handler).run = .consult answer (m.handler.effect ⟨vs⟩) ∧
        w.incoming.data = rest ∧ w.consumed + rest.length = s.data.length ∧ w.outgoing = t ∧
        (∀ fuel, (state fuel).1.asks = true ↔ fuel = n) ∧
        ∀ fuel < n, (state fuel).2.1.outgoing = t ∧ (state fuel).2.2 = host) ∧
    (∀ rest whole, s.data = 2 :: rest →
      (Capabilities.codec.encode ctx.registry.capabilities).toExcept = .ok whole →
      ∃ record, Record.IsWritten record whole ∧
        (∀ fuel, (state fuel).2.1.sent <+: t.taken ++ record ∧
          (state fuel).2.1.consumed ≤ 1 ∧ (state fuel).2.2 = host) ∧
        (t.Unobstructed → ∃ fuel w, state fuel = (.done (.ok ()), w, host) ∧
          w.sent = t.taken ++ record ∧ w.consumed = 1 ∧ w.incoming.data = rest)) ∧
    (∀ rest f, s.data = 2 :: rest →
      (Capabilities.codec.encode ctx.registry.capabilities).toExcept = .error f →
      ∃ fuel w, state fuel = (.done (.error (.fault f)), w, host) ∧ w.outgoing = t ∧
        w.incoming.data = rest) ∧
    ((∀ m vs rest, ¬ ctx.Takes s.data m vs rest) → (∀ rest, s.data ≠ 2 :: rest) →
      (∀ fuel, (state fuel).2.1.outgoing = t ∧ (state fuel).2.2 = host) ∧
      ((∃ fuel f w, state fuel = (.done (.error f), w, host)) ∨
        s.ending = .silence ∧ ∃ fuel e w, state fuel = (e, w, host) ∧ e.answer? = none ∧
          e.step Scripted.channel w host = none)) ∧
    (∀ name record body rest, s.data = 1 :: (record ++ rest) → IsRecord ctx.recordLimit record body →
      (Codec.text.encode name).toExcept = .ok body → ctx.registry.get? name = none →
      ∃ fuel w, state fuel = (.done (.error (.methodNotFound name)), w, host) ∧ w.incoming.data = rest ∧
        w.outgoing = t) := by
  intro state
  refine ⟨⟨?_, ?_⟩, ?_, ?_, ?_, ?_, ?_⟩
  · rintro ⟨fuel, hasks⟩
    exact takes_of_asks ctx hchunk hasks
  · rintro ⟨m, vs, rest, htakes⟩
    obtain ⟨n, -, -, -, -, -, -, -, hasks, -⟩ := after_call ctx t host hchunk htakes
    exact ⟨n, (hasks n).2 rfl⟩
  · exact fun m vs rest htakes => after_call ctx t host hchunk htakes
  · intro rest whole hdata hwhole
    exact ⟨Record.frame whole, Record.isWritten_frame whole, after_handshake ctx hchunk hdata hwhole⟩
  · exact fun rest f hdata hf => after_handshake_error ctx hchunk hdata hf
  · exact fun hcall hhandshake => after_other ctx hchunk hcall hhandshake
  · exact fun name record body rest hdata hrecord hname hget =>
      after_unknown ctx hchunk hdata hrecord hname hget

/-- A call without arguments arrives one byte at a time, another byte behind it, and its method is invoked
once; under another name it is an error, and twelve bytes are left. -/
theorem invokes_iff_takes_echo :
    let m : Method (List Arguments) :=
      ⟨"a.b", .normal fun args log => (.ok args.values, args :: log)⟩
    let ctx (name : String) : Context (List Arguments) := ⟨"peer", ⟨SortedMap.empty.insert name m⟩, 8, 1⟩
    let name : Bytes := [0, 0, 0, 3, 97, 46, 98, 0]
    let args : Bytes := Record.header true 4 ++ [0, 0, 0, 0]
    let s : Supply := ⟨1 :: ((Record.header true 8 ++ name) ++ (args ++ [9])), .silence, fun _ => some 1, 0⟩
    (∃ n answer w, after (ctx "a.b") s .unlimited [] n = (.consult answer (m.handler.effect ⟨[]⟩), w, []) ∧
      m.handler.effect ⟨[]⟩ [] = [⟨[]⟩] ∧ w.incoming.data = [9] ∧
      ∀ fuel, (after (ctx "a.b") s .unlimited [] fuel).1.asks = true ↔ fuel = n) ∧
    ∃ fuel w, after (ctx "b.a") s .unlimited [] fuel = (.done (.error (.methodNotFound "a.b")), w, []) ∧
      w.incoming.data = args ++ [9] := by
  intro m ctx name args s
  have hchunk : ∀ k, s.chunking k ≠ some 0 := by
    intro k h
    cases h
  have hname : (Codec.text.encode "a.b").toExcept = .ok name := Codec.encode_text_ab
  have hnameRecord : IsRecord 8 (Record.header true 8 ++ name) name :=
    ⟨[], name, by simp, by decide, rfl, by decide, rfl⟩
  have hargs := Codec.encode_list_nil
  have hargsRecord : IsRecord 8 args [0, 0, 0, 0] := ⟨[], [0, 0, 0, 0], by simp, by decide, rfl, by decide, rfl⟩
  constructor
  · have hget : (ctx "a.b").registry.get? "a.b" = some m := SortedMap.find?_insert_self _ _ _
    have htakes : (ctx "a.b").Takes s.data m [] [9] :=
      ⟨"a.b", _, name, args, [0, 0, 0, 0], rfl, hnameRecord, hname, hget, hargsRecord, hargs, by simp⟩
    obtain ⟨n, answer, w, hstate, -, hrest, -, -, honce, -⟩ :=
      (invokes_iff_takes (ctx "a.b") s hchunk .unlimited []).2.1 m [] [9] htakes
    exact ⟨n, answer, w, hstate, rfl, hrest, honce⟩
  · have hget : (ctx "b.a").registry.get? "a.b" = none := by
      show (SortedMap.empty.insert "b.a" m).find? "a.b" = none
      rw [SortedMap.find?_insert, if_neg (by decide)]
      rfl
    obtain ⟨fuel, w, hstate, hrest, -⟩ :=
      (invokes_iff_takes (ctx "b.a") s hchunk .unlimited []).2.2.2.2.2 "a.b" _ name _ rfl hnameRecord hname hget
    exact ⟨fuel, w, hstate, hrest⟩

end Serving

end RemoteCall
