import RemoteCall.Client
import RemoteCall.Demo.Methods
import RemoteCall.Proofs.Serve.Replies
/-!
# Sinks that are filled

What a client writes behind a call goes into the sink that the method opens: nothing of the call, and all of what
follows it, as far as the sink takes it. `Filled` says what has become of the sink when the server has come to rest.
The sink may be anywhere in the state of the host: `Channel.IsIntake` says where.
-/

namespace RemoteCall

variable {σ α : Type}

/-! ## What a client writes -/

theorem Intake.Unobstructed.moves {t : Intake} (h : t.Unobstructed) : t.Moves := h.chunking

theorem Intake.Unobstructed.accepts {t : Intake} (h : t.Unobstructed) (bs : Bytes) : t.accepts bs = bs := by
  unfold Intake.accepts
  rw [h.room]

namespace Client

variable {c : Client} {name : String} {inputs : List Value} {nameBytes argumentBytes : Bytes}

theorem callWrite_of_classOf? (h : c.classOf? name = some .writeStream) :
    (c.callWrite name inputs : Except CallError (Attempt σ Unit)) = .ok (Attempt.sendCall ⟨name, inputs⟩) := by
  have hclass : c.expectClass name .writeStream = .ok () := by
    unfold expectClass
    rw [h]
    rfl
  unfold callWrite
  rw [hclass]
  rfl

/-- A client that calls a method and goes on to write sends the call and what it writes. -/
theorem leads_callWrite (hname : (Codec.text.encode name).toExcept = .ok nameBytes)
    (harguments : ((Codec.list .value).encode inputs).toExcept = .ok argumentBytes) (data : Bytes) {w : Scripted}
    (hw : w.outgoing.Unobstructed) (host : σ) :
    ∃ w', Exchange.Leads Scripted.channel
        (do Attempt.sendCall ⟨name, inputs⟩; Attempt.send data : Attempt σ Unit).run w host
        (.done (.ok ())) w' host ∧
      w'.sent = w.sent ++ (Attempt.callBytes nameBytes argumentBytes ++ data) := by
  obtain ⟨n, hcall⟩ := Attempt.sends_sendCall (σ := σ) ⟨name, inputs⟩ hname harguments
  have hsends := hcall.andThen (fun _ => Attempt.send data) (Attempt.sends_send data)
  obtain ⟨t', htook, hleads⟩ := hsends.leads w.channel_isIntake hw.moves host
  have hall := hw.accepts (Attempt.callBytes nameBytes argumentBytes ++ data)
  rw [hall] at htook
  rw [Intake.verdict_eq_ok.2 hall] at hleads
  exact ⟨{ w with outgoing := t' }, hleads, htook.taken⟩

end Client

/-- What goes out as a record is a record. -/
theorem Record.isRecord_frame {limit : Nat} {body : Bytes} (h : body.length ≤ limit) :
    IsRecord limit (frame body) body := by
  have habsorb := absorb_frame limit body [] [] (by simpa using h)
  obtain ⟨record, hsplit, hrecord⟩ := absorb_complete_iff.1 habsorb
  rw [List.append_nil, List.append_nil] at hsplit
  rw [hsplit]
  exact hrecord

/-- A server takes the call of a client whose method it has, if it is within the limits. -/
theorem Context.takes_callBytes {ctx : Context σ} {m : Method σ} {name : String} {inputs : List Value}
    {nameBytes argumentBytes : Bytes} (hname : (Codec.text.encode name).toExcept = .ok nameBytes)
    (harguments : ((Codec.list .value).encode inputs).toExcept = .ok argumentBytes)
    (hget : ctx.registry.get? name = some m) (hnameLength : nameBytes.length ≤ ctx.recordLimit)
    (hargumentsLength : argumentBytes.length ≤ ctx.recordLimit) (hdepth : ∀ v ∈ inputs, v.depth ≤ 64)
    (data : Bytes) : ctx.Takes (Attempt.callBytes nameBytes argumentBytes ++ data) m inputs data := by
  have hshape : Attempt.callBytes nameBytes argumentBytes ++ data =
      1 :: (Record.frame nameBytes ++ (Record.frame argumentBytes ++ data)) := by
    simp only [Attempt.callBytes, Tag.code, List.cons_append, List.append_assoc]
  exact ⟨name, _, nameBytes, _, argumentBytes, hshape, Record.isRecord_frame hnameLength, hname, hget,
    Record.isRecord_frame hargumentsLength, harguments, hdepth⟩

/-! ## Sinks that are remembered -/

namespace Demo

theorem set!_push_size (xs : Array α) (x y : α) : (xs.push x).set! xs.size y = xs.push y := by
  apply Array.ext'
  rw [Array.set!_eq_setIfInBounds, Array.toList_setIfInBounds, Array.toList_push, Array.toList_push]
  simp

theorem modify_push_size (xs : Array α) (x : α) (f : α → α) : (xs.push x).modify xs.size f = xs.push (f x) := by
  apply Array.ext_getElem?
  intro i
  rw [Array.getElem?_modify, Array.getElem?_push, Array.getElem?_push]
  split
  · rename_i hi
    rw [if_pos hi.symm, if_pos hi.symm]
    rfl
  · rename_i hi
    rw [if_neg (Ne.symm hi), if_neg (Ne.symm hi)]

/-- The sink that is opened next is the intake at the end of the log. -/
theorem sinkChannel_isIntake (log : SinkLog) (method : String) :
    (sinkChannel log.size).IsIntake fun t => log.push (method, t) where
  write bs t := by simp only [sinkChannel, Array.getElem?_push_size, set!_push_size, Intake.channel]
  flush t := by simp only [sinkChannel, Array.getElem?_push_size, set!_push_size, Intake.channel]
  shutdown t := by simp only [sinkChannel, Array.getElem?_push_size, set!_push_size, Intake.channel]
  release t := by
    simp only [sinkChannel, Intake.channel]
    rw [modify_push_size]

end Demo

namespace Serving

open Exchange

/-! ## What becomes of a sink -/

/-- What has become of a sink, which was in a state before, and of the server that filled it. The sink has got the
data as far as it takes it. Once the data have ended, in whatever way, or the sink has failed, the sink was shut down
once and given up. A fault of the copy is the result, whatever comes of shutting the sink down. -/
structure Filled (t : Intake) (data : Bytes) (ending : Ending) (e : Exchange σ (Except ServeError Unit))
    (t' : Intake) : Prop where
  taken : t'.taken = t.taken ++ t.accepts data
  closed : ending ≠ .silence ∨ t.accepts data ≠ data → t'.shutdowns = t.shutdowns + 1 ∧ t'.released = true
  waits : ending = .silence → t.accepts data = data → t'.shutdowns = t.shutdowns ∧ e.answer? = none
  refused : ∀ f, t.verdict data = .error f → e.answer? = some (.error (.fault f))
  broken : ∀ f, t.accepts data = data → ending = .fault f → e.answer? = some (.error (.fault f))
  ended : t.accepts data = data → ending = .eof →
    e.answer? = some (match t.shutdownFault? with
      | none => .ok ()
      | some f => .error (.fault f))

section

variable {sink : Channel σ} {place : Intake → σ} {t t' : Intake} {data : Bytes} {ending : Ending}

/-- Closing a sink shuts it down and gives it up, whether shutting down succeeds or not. -/
theorem step_close (hsink : sink.IsIntake place) (next : Except Fault Unit → Exchange σ α) (w : Scripted)
    (t : Intake) :
    (Exchange.close sink next).step Scripted.channel w (place t) =
      some (next (match t.shutdownFault? with
        | none => .ok ()
        | some f => .error f), w, place { t.shutdown.2 with released := true }) := by
  simp only [step, hsink.shutdown, Intake.shutdown_eq]
  cases t.shutdownFault? <;> simp only [hsink.release]

/-- The result of filling a sink, given those of the copy and of shutting the sink down. -/
def fillResult (copied closed : Except Fault Unit) : Except ServeError Unit :=
  match copied, closed with
  | .error f, _ => .error (.fault f)
  | .ok (), .error f => .error (.fault f)
  | .ok (), .ok () => .ok ()

/-- A sink that is closed after a copy is as it should be. -/
theorem Filled.of_copied {copied : Except Fault Unit} (htook : t.Took t' (t.accepts data))
    (hcopied : copyResult? (t.verdict data) ending = some copied) :
    Filled t data ending (.done (fillResult copied (match t'.shutdownFault? with
      | none => .ok ()
      | some f => .error f)) : Exchange σ (Except ServeError Unit))
      { t'.shutdown.2 with released := true } where
  taken := by
    rw [Intake.shutdown_eq]
    exact htook.taken
  closed _ := by
    rw [Intake.shutdown_eq, ← htook.shutdowns]
    exact ⟨rfl, rfl⟩
  waits hending hwhole := by
    rw [Intake.verdict_eq_ok.2 hwhole, hending] at hcopied
    cases hcopied
  refused f hverdict := by
    rw [hverdict] at hcopied
    cases hcopied
    rfl
  broken f hwhole hending := by
    rw [Intake.verdict_eq_ok.2 hwhole, hending] at hcopied
    cases hcopied
    rfl
  ended hwhole hending := by
    rw [Intake.verdict_eq_ok.2 hwhole, hending] at hcopied
    cases hcopied
    rw [htook.shutdownFault?]
    cases t.shutdownFault? <;> rfl

/-- Where the data do not end, and the sink has taken them, it stays open. -/
theorem Filled.of_waiting {e : Exchange σ (Except ServeError Unit)} (htook : t.Took t' (t.accepts data))
    (hcopied : copyResult? (t.verdict data) ending = none) (hanswer : e.answer? = none) :
    Filled t data ending e t' := by
  have hwaiting : t.verdict data = .ok () ∧ ending = .silence := by
    unfold copyResult? at hcopied
    split at hcopied
    · cases hcopied
    · cases hcopied
    · cases hcopied
    · rename_i hverdict
      exact ⟨hverdict, rfl⟩
  obtain ⟨hverdict, rfl⟩ := hwaiting
  have hwhole := Intake.verdict_eq_ok.1 hverdict
  refine ⟨htook.taken, ?_, fun _ _ => ⟨htook.shutdowns, hanswer⟩, ?_, nofun, nofun⟩
  · rintro (h | h)
    · exact absurd rfl h
    · exact absurd hwhole h
  · intro f hf
    rw [hverdict] at hf
    cases hf

end

variable (ctx : Context σ) {s : Supply} {o : Intake} {host : σ}

/-- A sink that a method opens is filled with what is behind the call, and nothing is sent. -/
theorem rests_of_sink (hbuffer : 0 < ctx.copyBuffer) (hs : ∀ k, s.chunking k ≠ some 0) {m : Method σ}
    {vs : List Value} {data : Bytes} {openSink : Arguments → σ → Verdict (Channel σ) × σ} {sink : Channel σ}
    {place : Intake → σ} {t : Intake} (htakes : ctx.Takes s.data m vs data) (hhandler : m.handler = .write openSink)
    (hr : (openSink ⟨vs⟩ host).1.result? = some (.ok sink)) (hplace : (openSink ⟨vs⟩ host).2 = place t)
    (hsink : sink.IsIntake place) (ht : t.Moves) :
    ∃ e w t', Rests ctx s o host e w (place t') ∧ w.outgoing = o ∧ Filled t data s.ending e t' := by
  obtain ⟨n, w, hears, hrest⟩ := hears_call ctx (w := ⟨s, o, 0⟩) hs htakes
  rw [hhandler] at hears
  have hinvoke : (respond ctx ⟨vs⟩ (.write openSink)).run.step Scripted.channel w host =
      some ((fill ctx sink).run, w, place t) := by
    rw [← hplace]
    exact step_invoke hr _ w
  -- the call was read and nothing behind it, so the copy begins with the first byte of the data
  have hchunk : ∀ k, w.incoming.chunking k ≠ some 0 := hears.hearing.moves hs
  obtain ⟨s', t', e', htook, hleads, hresult⟩ :=
    (copies_drain hsink w.outgoing ctx.copyBuffer fun copied => .close sink fun closed =>
        .done (fillResult copied closed)).leads
      hbuffer (s := (w.incoming, w.consumed)) hchunk ht []
  rw [List.nil_append, hrest] at htook hresult
  have hending : w.incoming.ending = s.ending := hears.hearing.ending
  have hout : w.outgoing = o := hears.hearing.outgoing
  rw [hending] at hresult
  cases hcopied : copyResult? (t.verdict data) s.ending with
  | none =>
    rw [hcopied] at hresult
    obtain ⟨rfl, hstuck⟩ := hresult
    exact ⟨_, _, t', rests_of_leads hears (.cons hinvoke hleads) hstuck, hout, .of_waiting htook hcopied rfl⟩
  | some copied =>
    rw [hcopied] at hresult
    cases hresult
    have hclosed := hleads.trans (.cons (step_close hsink _ _ t') (.refl _ _ _ _))
    exact ⟨_, _, _, rests_of_leads hears (.cons hinvoke hclosed) rfl, hout, .of_copied htook hcopied⟩

/-- A method that has no sink to fill ends the service, and nothing is sent. -/
theorem rests_of_no_sink (hs : ∀ k, s.chunking k ≠ some 0) {m : Method σ} {vs : List Value} {data : Bytes}
    {openSink : Arguments → σ → Verdict (Channel σ) × σ} {f : AppError} (htakes : ctx.Takes s.data m vs data)
    (hhandler : m.handler = .write openSink) (hr : (openSink ⟨vs⟩ host).1.result? = some (.error f)) :
    ∃ w, Rests ctx s o host (.done (.ok ())) w (openSink ⟨vs⟩ host).2 ∧ w.outgoing = o ∧
      w.incoming.data = data := by
  obtain ⟨n, w, hears, hrest⟩ := hears_call ctx (w := ⟨s, o, 0⟩) hs htakes
  rw [hhandler] at hears
  have hinvoke : (respond ctx ⟨vs⟩ (.write openSink)).run.step Scripted.channel w host =
      some (.done (.ok ()), w, (openSink ⟨vs⟩ host).2) := step_invoke hr _ w
  exact ⟨w, rests_of_leads hears (.cons hinvoke (.refl _ _ _ _)) rfl, hears.hearing.outgoing, hrest⟩

/-- What a client writes behind its call of a method that takes bytes is what the server is to take behind the call;
and whatever the server takes so, from a stream that moves bytes in pieces of any size and may end in any way, it
copies into the sink that the method opens, wherever that is and whatever it takes, and closes the sink once. It
sends nothing meanwhile, and nothing is opened by a method that fails. -/
theorem sink_filled (hbuffer : 0 < ctx.copyBuffer) (s : Supply) (hs : ∀ k, s.chunking k ≠ some 0) (o : Intake)
    (host : σ) :
    (∀ (client : Client) name inputs nameBytes argumentBytes data,
      client.classOf? name = some .writeStream → (Codec.text.encode name).toExcept = .ok nameBytes →
      ((Codec.list .value).encode inputs).toExcept = .ok argumentBytes →
      (∃ talk : Attempt σ Unit, client.callWrite name inputs = .ok talk ∧ ∀ w : Scripted, w.outgoing.Unobstructed →
        ∃ w', Leads Scripted.channel (do talk; Attempt.send data : Attempt σ Unit).run w host
            (.done (.ok ())) w' host ∧
          w'.sent = w.sent ++ (Attempt.callBytes nameBytes argumentBytes ++ data)) ∧
      ∀ m, ctx.registry.get? name = some m → nameBytes.length ≤ ctx.recordLimit →
        argumentBytes.length ≤ ctx.recordLimit → (∀ v ∈ inputs, v.depth ≤ 64) →
        ctx.Takes (Attempt.callBytes nameBytes argumentBytes ++ data) m inputs data) ∧
    (∀ m vs data openSink sink place t, ctx.Takes s.data m vs data → m.handler = .write openSink →
      (openSink ⟨vs⟩ host).1.result? = some (.ok sink) → (openSink ⟨vs⟩ host).2 = place t → sink.IsIntake place →
      t.Moves →
      ∃ e w t', Rests ctx s o host e w (place t') ∧ w.outgoing = o ∧ Filled t data s.ending e t') ∧
    ∀ m vs data openSink f, ctx.Takes s.data m vs data → m.handler = .write openSink →
      (openSink ⟨vs⟩ host).1.result? = some (.error f) →
      ∃ w, Rests ctx s o host (.done (.ok ())) w (openSink ⟨vs⟩ host).2 ∧ w.outgoing = o ∧ w.incoming.data = data := by
  refine ⟨?_, ?_, ?_⟩
  · intro client name inputs nameBytes argumentBytes data hclass hname harguments
    refine ⟨⟨_, client.callWrite_of_classOf? hclass, fun w hw => ?_⟩, fun m hget hnameLength hlength hdepth => ?_⟩
    · exact Client.leads_callWrite hname harguments data hw host
    · exact Context.takes_callBytes hname harguments hget hnameLength hlength hdepth data
  · intro m vs data openSink sink place t htakes hhandler hr hplace hsink ht
    exact rests_of_sink ctx hbuffer hs htakes hhandler hr hplace hsink ht
  · intro m vs data openSink f htakes hhandler hr
    exact rests_of_no_sink ctx hs htakes hhandler hr

/-- Three bytes behind a call arrive two at a time and then the stream breaks off; the sink takes two bytes, one at a
time, and cannot be shut down. It has got two bytes and was shut down once; the result is the fault of the copy. -/
theorem sink_filled_cut :
    let t : Intake := { Intake.unlimited with
      chunking := fun _ => some 1, room := some (2, .brokenPipe), shutdownFault? := some .listenerClosed }
    let m (act : Demo.WriteAct) : Method Demo.SinkLog := ⟨"a.b", act.handler "a.b"⟩
    let ctx (act : Demo.WriteAct) : Context Demo.SinkLog := ⟨"peer", ⟨SortedMap.empty.insert "a.b" (m act)⟩, 8, 1⟩
    let s : Supply := ⟨plainCall ++ [7, 8, 9], .fault .earlyEof, fun _ => some 2, 0⟩
    (∃ e w t', Rests (ctx (.capture t)) s .unlimited #[] e w #[("a.b", t')] ∧ w.sent = [] ∧ t'.taken = [7, 8] ∧
      t'.shutdowns = 1 ∧ e.answer? = some (.error (.fault .brokenPipe))) ∧
    ∃ w, Rests (ctx (.fail .nil)) s .unlimited #[] (.done (.ok ())) w #[] ∧ w.sent = [] := by
  intro t m ctx s
  have hs : ∀ k, s.chunking k ≠ some 0 := nofun
  have htakes : ∀ act, (ctx act).Takes s.data (m act) [] [7, 8, 9] := by
    intro act
    have hget : (ctx act).registry.get? "a.b" = some (m act) := SortedMap.find?_insert_self _ _ _
    exact takes_plainCall (Nat.le_refl 8) hget [7, 8, 9]
  constructor
  · obtain ⟨e, w, t', hrests, hout, hfilled⟩ :=
      (sink_filled (ctx (.capture t)) Nat.one_pos s hs .unlimited #[]).2.1 _ _ _ _ _ _ t (htakes _) rfl rfl rfl
        (Demo.sinkChannel_isIntake #[] "a.b") nofun
    refine ⟨e, w, t', hrests, ?_, hfilled.taken, (hfilled.closed (.inl nofun)).1, hfilled.refused _ rfl⟩
    show w.outgoing.taken = []
    rw [hout]
    rfl
  · obtain ⟨w, hrests, hout, -⟩ :=
      (sink_filled (ctx (.fail .nil)) Nat.one_pos s hs .unlimited #[]).2.2 _ _ _ _ .nil (htakes _) rfl rfl
    refine ⟨w, hrests, ?_⟩
    show w.outgoing.taken = []
    rw [hout]
    rfl

end Serving

end RemoteCall
