import RemoteCall.Proofs.Exchange.Copying
import RemoteCall.Proofs.Serve.Gate
import RemoteCall.Proofs.SortedMap.Entries
/-!
# Replies on streams that fail

A server replies to a handshake and to the calls of methods that answer or send bytes. `Replies` says what the reply
is to what arrives, and `Delivered` what has become of it when the server has come to rest: of three ways to reply,
and whatever the pieces in which bytes move, there is one law. As much of the reply is sent as the stream takes, and
the stream is shut down once all was sent, and not otherwise.
-/

namespace RemoteCall

variable {σ α β : Type}

/-- What a method answers, if it ever does. -/
def Verdict.result? : Verdict α → Option (Except AppError α)
  | .ok a => some (.ok a)
  | .failed e => some (.error e)
  | .never => none

namespace Serving

open Exchange

/-! ## Coming to rest -/

/-- A server on a stream comes to a state that it does not leave. -/
def Rests (ctx : Context σ) (s : Supply) (t : Intake) (host : σ) (e : Exchange σ (Except ServeError Unit))
    (w : Scripted) (host' : σ) : Prop :=
  e.step Scripted.channel w host' = none ∧ ∃ n, ∀ fuel, n ≤ fuel → after ctx s t host fuel = (e, w, host')

section

variable {ctx : Context σ} {s : Supply} {t : Intake} {host host' : σ} {w w' : Scripted}
  {e e' : Exchange σ (Except ServeError Unit)}

theorem rests_of_leads {n : Nat} (hears : Hears n (connection ctx).run ⟨s, t, 0⟩ e w)
    (h : Leads Scripted.channel e w host e' w' host') (hstuck : e'.step Scripted.channel w' host' = none) :
    Rests ctx s t host e' w' host' :=
  ⟨hstuck, ((hears.leads host).trans h).settles hstuck⟩

/-- A method that answers is followed by what its answer decides. -/
theorem step_invoke {run : Arguments → σ → Verdict α × σ} {args : Arguments} {r : Except AppError α}
    (h : (run args host).1.result? = some r) (next : Except AppError α → Serving σ β) (w : Scripted) :
    (invoke run args >>= next).run.step Scripted.channel w host = some ((next r).run, w, (run args host).2) := by
  have hstep : (invoke run args >>= next).run.step Scripted.channel w host =
      some (((match (run args host).1 with
        | .ok a => .done (.ok (.ok a))
        | .failed e => .done (.ok (.error e))
        | .never => .stall : Exchange σ (Except ServeError (Except AppError α))).bind (ExceptT.bindCont next)),
        w, (run args host).2) := rfl
  rw [hstep]
  unfold Verdict.result? at h
  split at h
  · cases h
    rfl
  · cases h
    rfl
  · cases h

end

/-! ## The end of a reply -/

theorem step_closing (w : Scripted) (host : σ) :
    closing.step Scripted.channel w host =
      some (.done (match w.outgoing.shutdownFault? with
        | none => .ok ()
        | some f => .error (.fault f)), { w with outgoing := w.outgoing.shutdown.2 }, host) := by
  unfold closing
  simp only [step, settle, Scripted.channel, Intake.shutdown_eq]
  cases w.outgoing.shutdownFault? <;> rfl

/-- What has become of a reply, and of the stream that it went to, which was in a state before: as much was sent as
the stream takes. The stream was shut down if all was sent and the reply had an end, and not otherwise; the server
succeeded if that succeeded; and it waits if there may be more to send. -/
structure Delivered (t : Intake) (reply : Bytes) (ending : Ending) (e : Exchange σ (Except ServeError Unit))
    (w : Scripted) : Prop where
  sent : w.sent = t.taken ++ t.accepts reply
  shutdowns_whole : t.accepts reply = reply → ending = .eof → w.outgoing.shutdowns = t.shutdowns + 1
  shutdowns_part : ¬ (t.accepts reply = reply ∧ ending = .eof) → w.outgoing.shutdowns = t.shutdowns
  ok_iff : e.answer? = some (.ok ()) ↔ (t.accepts reply = reply ∧ ending = .eof) ∧ t.shutdownFault? = none
  waits_iff : e.answer? = none ↔ t.accepts reply = reply ∧ ending = .silence

/-- An exchange sends a reply to a stream, as far as the stream takes it, and then is about to shut the stream down,
or has failed, or waits for more to send. -/
def Delivers (e : Exchange σ (Except ServeError Unit)) (w : Scripted) (host : σ) (reply : Bytes)
    (ending : Ending) : Prop :=
  ∃ e' w', Leads Scripted.channel e w host e' w' host ∧
    w.outgoing.Took w'.outgoing (w.outgoing.accepts reply) ∧
    match copyResult? (w.outgoing.verdict reply) ending with
    | some (.ok ()) => e' = closing
    | some (.error f) => e' = .done (.error (.fault f))
    | none => e'.answer? = none ∧ e'.step Scripted.channel w' host = none

section

variable {t : Intake} {w : Scripted} {host : σ} {e : Exchange σ (Except ServeError Unit)} {reply : Bytes}
  {ending : Ending}

/-- Where not all was sent, or there was no end, the stream is as the sending left it. -/
theorem Delivered.of_part (htook : t.Took w.outgoing (t.accepts reply))
    (hpart : ¬ (t.accepts reply = reply ∧ ending = .eof)) (hfailed : e.answer? ≠ some (.ok ()))
    (hwaits : e.answer? = none ↔ t.accepts reply = reply ∧ ending = .silence) : Delivered t reply ending e w where
  sent := htook.taken
  shutdowns_whole hwhole heof := absurd ⟨hwhole, heof⟩ hpart
  shutdowns_part _ := htook.shutdowns
  ok_iff := iff_of_false hfailed fun h => hpart h.1
  waits_iff := hwaits

theorem Delivered.of_whole (htook : t.Took w.outgoing (t.accepts reply)) (hwhole : t.accepts reply = reply) :
    Delivered t reply .eof (.done (match w.outgoing.shutdownFault? with
      | none => .ok ()
      | some f => .error (.fault f)) : Exchange σ (Except ServeError Unit))
      { w with outgoing := w.outgoing.shutdown.2 } where
  sent := by
    rw [Intake.shutdown_eq]
    exact htook.taken
  shutdowns_whole _ _ := by
    rw [Intake.shutdown_eq, ← htook.shutdowns]
  shutdowns_part hpart := absurd ⟨hwhole, rfl⟩ hpart
  ok_iff := by
    rw [htook.shutdownFault?]
    cases t.shutdownFault? with
    | none => exact iff_of_true rfl ⟨⟨hwhole, rfl⟩, rfl⟩
    | some f => exact iff_of_false nofun nofun
  waits_iff := iff_of_false nofun nofun

theorem Delivers.delivered (h : Delivers e w host reply ending) :
    ∃ e' w', Leads Scripted.channel e w host e' w' host ∧ e'.step Scripted.channel w' host = none ∧
      Delivered w.outgoing reply ending e' w' := by
  obtain ⟨e', w', hleads, htook, hresult⟩ := h
  cases hverdict : w.outgoing.verdict reply with
  | error f =>
    have hpart : w.outgoing.accepts reply ≠ reply := by
      rw [Ne, ← Intake.verdict_eq_ok, hverdict]
      exact nofun
    rw [hverdict] at hresult
    cases hresult
    exact ⟨_, w', hleads, rfl, .of_part htook (fun h => hpart h.1) nofun (iff_of_false nofun fun h => hpart h.1)⟩
  | ok done =>
    have hwhole := Intake.verdict_eq_ok.1 hverdict
    rw [hverdict] at hresult
    cases ending with
    | eof =>
      cases hresult
      exact ⟨_, _, hleads.trans (.cons (step_closing w' host) (.refl _ _ _ _)), rfl, .of_whole htook hwhole⟩
    | fault f =>
      cases hresult
      exact ⟨_, w', hleads, rfl, .of_part htook nofun nofun (iff_of_false nofun nofun)⟩
    | silence =>
      obtain ⟨hanswer, hstuck⟩ := hresult
      have hopen : e'.answer? ≠ some (.ok ()) := by
        rw [hanswer]
        exact nofun
      exact ⟨_, w', hleads, hstuck, .of_part htook nofun hopen (iff_of_true hanswer ⟨hwhole, rfl⟩)⟩

/-! ## The replies -/

/-- A value is replied as one record. -/
theorem delivers_value {c : Codec α} {x : α} {whole : Bytes} (hx : (c.encode x).toExcept = .ok whole)
    (hw : w.outgoing.Moves) (host : σ) :
    Delivers (attempt (do Attempt.sendValue c x; Attempt.shutdown) : Serving σ Unit).run w host
      (Record.frame whole) .eof := by
  obtain ⟨n, hsends⟩ := sends_reply (σ := σ) hx
  obtain ⟨t', htook, hleads⟩ := hsends.leads w.channel_isIntake hw host
  refine ⟨_, { w with outgoing := t' }, hleads, htook, ?_⟩
  cases w.outgoing.verdict (Record.frame whole) <;> rfl

/-- A source is replied as it is. -/
theorem delivers_source {source : Supply} (hsource : ∀ k, source.chunking k ≠ some 0) {capacity : Nat}
    (hcapacity : 0 < capacity) (hw : w.outgoing.Moves) (host : σ) :
    Delivers (attempt (do Attempt.pour source capacity; Attempt.shutdown) : Serving σ Unit).run w host source.data
      source.ending := by
  have hrun : (attempt (do Attempt.pour source capacity; Attempt.shutdown) : Serving σ Unit).run =
      .pour source [] capacity (goOn fun _ => attempt Attempt.shutdown) := by
    refine congrArg (Exchange.pour source [] capacity) (funext fun r => ?_)
    cases r <;> rfl
  rw [hrun]
  obtain ⟨s', t', e', htook, hleads, hresult⟩ :=
    (copies_pour w.channel_isIntake capacity _ host).leads hcapacity hsource hw []
  refine ⟨e', { w with outgoing := t' }, hleads, htook, ?_⟩
  simp only [id, List.nil_append] at hresult
  split at hresult
  · rename_i r hr
    rw [hr]
    rcases r with f | _ <;> exact hresult
  · rename_i hr
    rw [hr]
    obtain ⟨rfl, hstuck⟩ := hresult
    exact ⟨rfl, hstuck⟩

end

/-- What the reply is to what arrives, how it ends, and what has become of the host by then: the capabilities, or
the values of a method that answers, or its error as the only value, or the bytes of a source, which may end in any
way. -/
inductive Replies (ctx : Context σ) (inp : Bytes) (host : σ) : Bytes → Ending → σ → Prop
  | handshake {rest whole record} (hinp : inp = 2 :: rest)
    (hwhole : (Capabilities.codec.encode ctx.registry.capabilities).toExcept = .ok whole)
    (hrecord : Record.IsWritten record whole) : Replies ctx inp host record .eof host
  | normal {m vs rest run reply whole record} (htakes : ctx.Takes inp m vs rest) (hhandler : m.handler = .normal run)
    (hreply : (run ⟨vs⟩ host).1 = .ok reply ∨ ∃ e, (run ⟨vs⟩ host).1 = .failed e ∧ reply = [.error e])
    (hwhole : ((Codec.list .value).encode reply).toExcept = .ok whole)
    (hrecord : Record.IsWritten record whole) : Replies ctx inp host record .eof (run ⟨vs⟩ host).2
  | source {m vs rest openSource source} (htakes : ctx.Takes inp m vs rest) (hhandler : m.handler = .read openSource)
    (hr : (openSource ⟨vs⟩ host).1.result? = some (.ok source)) (hsource : ∀ k, source.chunking k ≠ some 0) :
    Replies ctx inp host source.data source.ending (openSource ⟨vs⟩ host).2

theorem result?_of_reply {v : Verdict (List Value)} {reply : List Value}
    (h : v = .ok reply ∨ ∃ e, v = .failed e ∧ reply = [.error e]) : ∃ r, v.result? = some r ∧ replyValues r = reply := by
  obtain rfl | ⟨e, rfl, rfl⟩ := h
  · exact ⟨.ok reply, rfl, rfl⟩
  · exact ⟨.error e, rfl, rfl⟩

variable (ctx : Context σ) {s : Supply} {t : Intake} {host host' : σ}

/-- A server that replies comes to the sending of the reply. -/
theorem delivers_of_replies (hbuffer : 0 < ctx.copyBuffer) (hs : ∀ k, s.chunking k ≠ some 0) (ht : t.Moves)
    {reply : Bytes} {ending : Ending} (h : Replies ctx s.data host reply ending host') :
    ∃ n e w e', Hears n (connection ctx).run ⟨s, t, 0⟩ e w ∧ Leads Scripted.channel e w host e' w host' ∧
      w.outgoing = t ∧ Delivers e' w host' reply ending := by
  have hmoves : ∀ {n e w}, Hears n (connection ctx).run ⟨s, t, 0⟩ e w → w.outgoing.Moves := by
    intro n e w hears
    rw [hears.hearing.outgoing]
    exact ht
  cases h with
  | handshake hinp hwhole hrecord =>
    rw [hrecord.eq_frame]
    obtain ⟨w, hears, -⟩ := hears_tag ctx .handshake (w := ⟨s, t, 0⟩) hs hinp
    exact ⟨1, _, w, _, hears, .refl _ _ _ _, hears.hearing.outgoing, delivers_value hwhole (hmoves hears) host⟩
  | normal htakes hhandler hreply hwhole hrecord =>
    rw [hrecord.eq_frame]
    obtain ⟨r, hr, rfl⟩ := result?_of_reply hreply
    obtain ⟨n, w, hears, -⟩ := hears_call ctx (w := ⟨s, t, 0⟩) hs htakes
    rw [hhandler] at hears
    exact ⟨n, _, w, _, hears, .cons (step_invoke hr _ w) (.refl _ _ _ _), hears.hearing.outgoing,
      delivers_value hwhole (hmoves hears) _⟩
  | source htakes hhandler hr hsource =>
    obtain ⟨n, w, hears, -⟩ := hears_call ctx (w := ⟨s, t, 0⟩) hs htakes
    rw [hhandler] at hears
    exact ⟨n, _, w, _, hears, .cons (step_invoke hr _ w) (.refl _ _ _ _), hears.hearing.outgoing,
      delivers_source hsource hbuffer (hmoves hears) _⟩

/-- A method that has no source to send has the stream shut down at once. -/
theorem rests_of_no_source (hs : ∀ k, s.chunking k ≠ some 0) {m : Method σ} {vs : List Value} {rest : Bytes}
    {openSource : Arguments → σ → Verdict Supply × σ} {f : AppError} (htakes : ctx.Takes s.data m vs rest)
    (hhandler : m.handler = .read openSource) (hr : (openSource ⟨vs⟩ host).1.result? = some (.error f)) :
    ∃ r w, Rests ctx s t host (.done r) w (openSource ⟨vs⟩ host).2 ∧ w.sent = t.taken ∧
      w.outgoing.shutdowns = t.shutdowns + 1 ∧ (r = .ok () ↔ t.shutdownFault? = none) := by
  obtain ⟨n, w, hears, -⟩ := hears_call ctx (w := ⟨s, t, 0⟩) hs htakes
  rw [hhandler] at hears
  have hout := hears.hearing.outgoing
  have hinvoke : (respond ctx ⟨vs⟩ (.read openSource)).run.step Scripted.channel w host =
      some (closing, w, (openSource ⟨vs⟩ host).2) := step_invoke hr _ w
  refine ⟨_, _, rests_of_leads hears (.cons hinvoke (.cons (step_closing w _) (.refl _ _ _ _))) rfl, ?_, ?_, ?_⟩
  · rw [hout, Intake.shutdown_eq]
    rfl
  · rw [hout, Intake.shutdown_eq]
  · rw [hout]
    show _ ↔ t.shutdownFault? = none
    cases t.shutdownFault? with
    | none => exact iff_of_true rfl rfl
    | some f => exact iff_of_false nofun nofun

/-- Whatever a server replies, to a stream that moves bytes in pieces of any size, takes so many and no more, and may
fail to be shut down: it comes to rest, and the reply is delivered as far as the stream takes it. A method that
fails to open a source sends nothing, and the stream is shut down once. -/
theorem reply_delivered (hbuffer : 0 < ctx.copyBuffer) (s : Supply) (hs : ∀ k, s.chunking k ≠ some 0) (t : Intake)
    (ht : t.Moves) (host : σ) :
    (∀ reply ending host', Replies ctx s.data host reply ending host' →
      ∃ e w, Rests ctx s t host e w host' ∧ Delivered t reply ending e w) ∧
    ∀ m vs rest openSource f, ctx.Takes s.data m vs rest → m.handler = .read openSource →
      (openSource ⟨vs⟩ host).1.result? = some (.error f) →
      ∃ r w, Rests ctx s t host (.done r) w (openSource ⟨vs⟩ host).2 ∧ w.sent = t.taken ∧
        w.outgoing.shutdowns = t.shutdowns + 1 ∧ (r = .ok () ↔ t.shutdownFault? = none) := by
  refine ⟨fun reply ending host' hreplies => ?_, fun m vs rest openSource f htakes hhandler hr => ?_⟩
  · obtain ⟨n, e, w, e₁, hears, hleads, hout, hdelivers⟩ := delivers_of_replies ctx hbuffer hs ht hreplies
    obtain ⟨e', w', hleads', hstuck, hdelivered⟩ := hdelivers.delivered
    rw [hout] at hdelivered
    exact ⟨e', w', rests_of_leads hears (hleads.trans hleads') hstuck, hdelivered⟩
  · exact rests_of_no_source ctx hs htakes hhandler hr

/-- A call of `a.b` without arguments. -/
def plainCall : Bytes :=
  1 :: ((Record.header true 8 ++ [0, 0, 0, 3, 97, 46, 98, 0]) ++ (Record.header true 4 ++ [0, 0, 0, 0]))

theorem takes_plainCall {ctx : Context σ} {m : Method σ} (hlimit : 8 ≤ ctx.recordLimit)
    (hget : ctx.registry.get? "a.b" = some m) (rest : Bytes) : ctx.Takes (plainCall ++ rest) m [] rest := by
  have hnameRecord : Record.IsRecord ctx.recordLimit (Record.header true 8 ++ [0, 0, 0, 3, 97, 46, 98, 0])
      [0, 0, 0, 3, 97, 46, 98, 0] := ⟨[], _, by simp, by decide, rfl, hlimit, rfl⟩
  have hargsRecord : Record.IsRecord ctx.recordLimit (Record.header true 4 ++ [0, 0, 0, 0]) [0, 0, 0, 0] :=
    ⟨[], _, by simp, by decide, rfl, Nat.le_trans (by decide) hlimit, rfl⟩
  have hshape : plainCall ++ rest = 1 :: ((Record.header true 8 ++ [0, 0, 0, 3, 97, 46, 98, 0]) ++
      ((Record.header true 4 ++ [0, 0, 0, 0]) ++ rest)) := by
    simp only [plainCall, List.cons_append, List.append_assoc]
  exact ⟨"a.b", _, _, _, _, hshape, hnameRecord, Codec.encode_text_ab, hget, hargsRecord, Codec.encode_list_nil,
    by simp⟩

/-- A source of three bytes is sent through a buffer of one byte to a stream that takes two: two bytes are sent and
the stream is not shut down. Of the error that a method fails with, the stream takes the start of a record of twelve
bytes. A source that cannot be opened has the stream shut down. -/
theorem reply_delivered_cut :
    let source : Supply := ⟨[7, 8, 9], .eof, fun _ => some 2, 0⟩
    let m (h : Handler Unit) : Method Unit := ⟨"a.b", h⟩
    let ctx (h : Handler Unit) : Context Unit := ⟨"peer", ⟨SortedMap.empty.insert "a.b" (m h)⟩, 8, 1⟩
    let opening (v : Verdict Supply) : Handler Unit := .read fun _ host => (v, host)
    let failing : Handler Unit := .normal fun _ host => (.failed .nil, host)
    let s : Supply := ⟨plainCall ++ [], .eof, fun _ => some 3, 0⟩
    let t : Intake := { Intake.unlimited with chunking := fun _ => some 1, room := some (2, .brokenPipe) }
    (∃ e w, Rests (ctx (opening (.ok source))) s t () e w () ∧ w.sent = [7, 8] ∧ w.outgoing.shutdowns = 0 ∧
      e.answer? ≠ some (.ok ())) ∧
    (∃ e w, Rests (ctx failing) s t () e w () ∧
      w.sent = [0x80, 0, 0, 12, 0, 0, 0, 1, 0, 0, 0, 10, 0, 0, 0, 0].take 2 ∧ w.outgoing.shutdowns = 0) ∧
    ∃ w, Rests (ctx (opening (.failed .nil))) s t () (.done (.ok ())) w () ∧ w.sent = [] ∧
      w.outgoing.shutdowns = 1 := by
  intro source m ctx opening failing s t
  have hs : ∀ k, s.chunking k ≠ some 0 := nofun
  have hmoves : t.Moves := nofun
  have htakes : ∀ h, (ctx h).Takes s.data (m h) [] [] := by
    intro h
    have hget : (ctx h).registry.get? "a.b" = some (m h) := SortedMap.find?_insert_self _ _ _
    exact takes_plainCall (Nat.le_refl 8) hget []
  refine ⟨?_, ?_, ?_⟩
  · have hreplies : Replies (ctx (opening (.ok source))) s.data () source.data source.ending () :=
      .source (htakes _) rfl rfl nofun
    obtain ⟨e, w, hrests, hdelivered⟩ :=
      (reply_delivered (ctx (opening (.ok source))) Nat.one_pos s hs t hmoves ()).1 _ _ _ hreplies
    have hpart : ¬ (t.accepts source.data = source.data ∧ source.ending = .eof) := fun h => by cases h.1
    exact ⟨e, w, hrests, hdelivered.sent, hdelivered.shutdowns_part hpart, fun h => hpart (hdelivered.ok_iff.1 h).1⟩
  · have hrecord : Record.IsWritten [0x80, 0, 0, 12, 0, 0, 0, 1, 0, 0, 0, 10, 0, 0, 0, 0]
        [0, 0, 0, 1, 0, 0, 0, 10, 0, 0, 0, 0] := ⟨[], _, nofun, by decide, fun _ => rfl, rfl, by decide +kernel⟩
    have hreplies : Replies (ctx failing) s.data () _ .eof () :=
      .normal (htakes failing) rfl (.inr ⟨.nil, rfl, rfl⟩) Codec.encode_list_nil_error hrecord
    obtain ⟨e, w, hrests, hdelivered⟩ :=
      (reply_delivered (ctx failing) Nat.one_pos s hs t hmoves ()).1 _ _ _ hreplies
    exact ⟨e, w, hrests, hdelivered.sent, hdelivered.shutdowns_part fun h => by cases h.1⟩
  · obtain ⟨r, w, hrests, hsent, hshutdowns, hr⟩ :=
      (reply_delivered (ctx (opening (.failed .nil))) Nat.one_pos s hs t hmoves ()).2 _ _ _ _ .nil (htakes _) rfl rfl
    rw [hr.2 rfl] at hrests
    exact ⟨w, hrests, hsent, hshutdowns⟩

end Serving

end RemoteCall
