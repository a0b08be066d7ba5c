import RemoteCall.Proofs.Call.Failed
import RemoteCall.Proofs.Client.Talking
import RemoteCall.Proofs.Codec.Locality
import RemoteCall.Proofs.Codec.Spelling
import RemoteCall.Proofs.Exchange.Copying
import RemoteCall.Proofs.Network.Scripted
import RemoteCall.Proofs.Record.Fragments
/-!
# Malformed replies

A record that came in whole but holds no value of the expected type is refused, and so is the request that awaits
the value. The sort of the fault tells two cases apart. Where decoding comes to an end inside the body, the fault
is one of malformed data, and the request breaks the protocol. Where the body is too short for what it declares,
the decoder runs out of bytes and reports the end of a stream, though the stream has not ended, and the request
is refused as if the connection had failed.
-/

namespace RemoteCall

variable {ω σ α β : Type}

/-! ## The body of a record -/

/-- A byte string spells a value, or holds malformed data, or is too short for what it declares. -/
theorem Codec.decodeWhole_cases (c : Codec α) (bs : Bytes) :
    (∃ x, c.decodeWhole bs = .ok x ∧ c.Spelling x bs) ∨
      (∀ x, ¬c.Spelling x bs) ∧ ∃ f, c.decodeWhole bs = .error f ∧
        ((¬c.ReadsPast bs ∧ f.kind = .invalidData) ∨ (c.ReadsPast bs ∧ f.kind = .unexpectedEof)) := by
  cases hresult : c.decodeWhole bs with
  | ok x => exact .inl ⟨x, rfl, decodeWhole_eq_ok_iff.1 hresult⟩
  | error f =>
    refine .inr ⟨fun x hx => ?_, f, rfl, (kind_of_decodeWhole hresult).symm⟩
    rw [decodeWhole_eq_ok_iff.2 hx] at hresult
    cases hresult

/-! ## Requests -/

namespace Request

open Exchange Record

/-- A client has a request that sends some bytes and then makes a response of one value, which it awaits in a
record within a limit. -/
inductive Awaits (c : Client) : {β : Type} → Request → Bytes → Nat → Codec β → (β → Response) → Prop
  | connect (connectLimit replyLimit : Nat) :
    Awaits c (.connect connectLimit replyLimit) [Tag.handshake.code] connectLimit Capabilities.codec
      fun capabilities => .connected ⟨capabilities, replyLimit⟩
  | values {method inputs name args} (hclass : c.classOf? method = some .normal)
    (hname : (Codec.text.encode method).toExcept = .ok name)
    (hargs : ((Codec.list .value).encode inputs).toExcept = .ok args) :
    Awaits c (.values method inputs) (Attempt.callBytes name args) c.recordLimit (.list .value) .replied
  | call {method inputs places name args} (hclass : c.classOf? method = some .normal)
    (hname : (Codec.text.encode method).toExcept = .ok name)
    (hargs : ((Codec.list .value).encode inputs).toExcept = .ok args) :
    Awaits c (.call method inputs places) (Attempt.callBytes name args) c.recordLimit (.list .value)
      (fun reply => fillPlaces method places (.ok reply))

variable {c : Client} {request : Request} {sent : Bytes} {limit : Nat} {codec : Codec β} {respond : β → Response}

/-- Such a request is carried out by sending its bytes and awaiting the value. -/
theorem Awaits.plan (h : request.Awaits c sent limit codec respond) :
    ∃ talk : Attempt σ (Exchange σ Response), request.plan c = .ok (request.callPlan talk) ∧
      ∃ n, Sends Attempt.failed n talk.run sent (await limit codec respond) := by
  cases h with
  | connect => exact ⟨_, plan_connect c limit _, _, sends_connectTalk limit _⟩
  | @values method inputs _ _ hclass hname hargs =>
    exact ⟨_, plan_values hclass inputs, sends_replyTalk c.recordLimit .replied hname hargs⟩
  | @call method inputs places _ _ hclass hname hargs =>
    exact ⟨_, plan_call hclass inputs places,
      sends_replyTalk c.recordLimit (fun reply => fillPlaces method places (.ok reply)) hname hargs⟩

variable {record body rest : Bytes}

/-- What is awaited on a channel that delivers a whole record comes to what decoding the body of the record comes
to. -/
theorem leads_await {ch : Channel ω} {holds : ω → Bytes → Prop} (hch : ch.Delivers holds) (codec : Codec β)
    (respond : β → Response) (hrecord : IsRecord limit record body) {w : ω} (host : σ)
    (hw : holds w (record ++ rest)) :
    ∃ w', holds w' rest ∧ Leads ch (await limit codec respond) w host
      (.done (((codec.decodeWhole body).map respond).map .done)) w' host := by
  have habsorb : Gathering.start.absorb limit (record ++ rest) = (.complete body, rest) :=
    absorb_complete_iff.2 ⟨record, rfl, hrecord⟩
  have hneed : 0 < Gathering.start.need := Nat.succ_pos 3
  obtain ⟨w', hw', hleads⟩ := leads_receiveRecord hch limit
    (fun r => Exchange.done (r.bind fun whole => (codec.decodeWhole whole).map fun x => Exchange.done (respond x)))
    host hneed hw
  rw [habsorb] at hw' hleads
  have hmap : (codec.decodeWhole body).map (fun x => Exchange.done (σ := σ) (respond x)) =
      ((codec.decodeWhole body).map respond).map .done := by
    cases codec.decodeWhole body <;> rfl
  rw [← hmap]
  exact ⟨w', hw', hleads⟩

/-- From a peer that takes the request and sends a whole record, the request comes to what decoding the body of
the record comes to. -/
theorem Awaits.answers (h : request.Awaits c sent limit codec respond) (hrecord : IsRecord limit record body)
    {conn : Scripted} (hdata : conn.incoming.data = record ++ rest)
    (hpieces : ∀ k, conn.incoming.chunking k ≠ some 0) (hmoves : conn.outgoing.Moves)
    (htakes : conn.outgoing.accepts sent = sent) (host : σ) :
    ∃ plan, request.plan c = .ok plan ∧ ∃ fuel,
      (Operation.run ScriptedNet.network false fuel (.start plan) (.ofOffers [.ok conn] none) host false).1.answer? =
        some (match codec.decodeWhole body with
          | .ok x => respond x
          | .error f => request.refusal (.ofFault f)) := by
  obtain ⟨talk, hplan, n, hsends⟩ := h.plan (σ := σ)
  obtain ⟨out, -, hsent⟩ := hsends.leads (Scripted.channel_isIntake conn) hmoves host
  rw [Intake.verdict_eq_ok.2 htakes] at hsent
  have hholds : ({ conn with outgoing := out } : Scripted).incoming.data = record ++ rest ∧
      ∀ k, ({ conn with outgoing := out } : Scripted).incoming.chunking k ≠ some 0 := ⟨hdata, hpieces⟩
  obtain ⟨conn', -, hreceived⟩ := leads_await Scripted.channel_delivers codec respond hrecord host hholds
  have hopened : (⟨[], none, #[conn]⟩ : ScriptedNet).opened[0]? = some conn := rfl
  obtain ⟨fuel, hanswer⟩ := Operation.answers_of_leads (n := ScriptedNet.network) (w := .ofOffers [.ok conn] none)
    (request.callPlan talk) rfl (ScriptedNet.leads_channel hopened (hsent.trans hreceived))
  refine ⟨request.callPlan talk, hplan, fuel, hanswer.trans ?_⟩
  cases codec.decodeWhole body <;> rfl

/-! ## Faults and refusals -/

/-- What came in as a whole record either spells a value of the expected type, or is refused. The fault tells of
malformed data, and the request of a broken protocol, unless the body is too short for what it declares: then the
fault tells of a stream that ended, and the request is refused as by a failure of the connection. Encodings of
values of no more than 64 levels are spellings, and without maps there are no others. -/
theorem refusal_of_whole_record (hrecord : IsRecord limit record body) (rest : Bytes) (host : σ) :
    (∀ {α : Type} (codec : Codec α) (x : α),
      ((codec.encode x).toExcept = .ok body ∧ (∀ v ∈ codec.values x, v.depth ≤ 64) → codec.Spelling x body) ∧
      (codec.IsMapless → codec.Spelling x body →
        (codec.encode x).toExcept = .ok body ∧ ∀ v ∈ codec.values x, v.depth ≤ 64)) ∧
    (∀ {ω α : Type} {ch : Channel ω} {holds : ω → Bytes → Prop}, ch.Delivers holds → ∀ (codec : Codec α) (w : ω),
      holds w (record ++ rest) → ∃ w' r, holds w' rest ∧
        Leads ch (Attempt.receiveValue limit codec).run w host (.done r) w' host ∧
        ((∃ x, r = .ok x ∧ codec.Spelling x body) ∨
          (∀ x, ¬codec.Spelling x body) ∧ ∃ f, r = .error f ∧
            ((¬codec.ReadsPast body ∧ f.kind = .invalidData) ∨
              (codec.ReadsPast body ∧ f.kind = .unexpectedEof)))) ∧
    (∀ {β : Type} {c : Client} {request : Request} {sent : Bytes} {codec : Codec β} {respond : β → Response},
      request.Awaits c sent limit codec respond → ∀ conn : Scripted, conn.incoming.data = record ++ rest →
      (∀ k, conn.incoming.chunking k ≠ some 0) → conn.outgoing.Moves → conn.outgoing.accepts sent = sent →
      ∃ plan, request.plan c = .ok plan ∧ ∃ fuel answer,
        (Operation.run ScriptedNet.network false fuel (.start plan) (.ofOffers [.ok conn] none) host
          false).1.answer? = some answer ∧
        ((∃ x, codec.Spelling x body ∧ answer = respond x) ∨
          (∀ x, ¬codec.Spelling x body) ∧
            ((¬codec.ReadsPast body ∧ ∃ message, answer = request.refusal (.protocol message)) ∨
              (codec.ReadsPast body ∧ ∃ f, f.kind = .unexpectedEof ∧ answer = request.refusal (.transport f))))) := by
  refine ⟨?_, ?_, ?_⟩
  · intro α codec x
    exact ⟨fun h => Codec.spelling_of_encode h.1 h.2, fun hmapless => (Codec.spelling_iff hmapless).1⟩
  · intro ω α ch holds hch codec w hw
    have habsorb : Gathering.start.absorb limit (record ++ rest) = (.complete body, rest) :=
      absorb_complete_iff.2 ⟨record, rfl, hrecord⟩
    obtain ⟨w', hw', hleads⟩ := Attempt.leads_receiveValue hch limit codec (r := .ok body) host hw
      (fun next => by rw [habsorb]; rfl) (by rw [habsorb])
    refine ⟨w', codec.decodeWhole body, hw', hleads, ?_⟩
    obtain ⟨x, hx, hspells⟩ | ⟨hno, f, hf, hkind⟩ := codec.decodeWhole_cases body
    · exact .inl ⟨x, hx, hspells⟩
    · exact .inr ⟨hno, f, hf, hkind⟩
  · intro β c request sent codec respond h conn hdata hpieces hmoves htakes
    obtain ⟨plan, hplan, fuel, hanswer⟩ := h.answers hrecord hdata hpieces hmoves htakes host
    refine ⟨plan, hplan, fuel, _, hanswer, ?_⟩
    obtain ⟨x, hx, hspells⟩ | ⟨hno, f, hf, ⟨hsettled, hkind⟩ | ⟨hpast, hkind⟩⟩ := codec.decodeWhole_cases body
    · rw [hx]
      exact .inl ⟨x, hspells, rfl⟩
    · rw [hf]
      exact .inr ⟨hno, .inl ⟨hsettled, f.message, by simp only [CallError.ofFault, hkind, if_true]⟩⟩
    · rw [hf]
      have htransport : CallError.ofFault f = .transport f := by
        rw [CallError.ofFault, hkind]
        rfl
      exact .inr ⟨hno, .inr ⟨hpast, f, hkind, congrArg request.refusal htransport⟩⟩

/-- A body that declares one item and ends there: its fault tells of a stream that ended, and not of malformed
data, and a client that connects is refused as by a failure of the connection. -/
theorem refusal_of_whole_record_cut :
    (∃ w' f, w' = [9] ∧
      Leads queueChannel (Attempt.receiveValue 4 (.list .value)).run (header true 4 ++ [0, 0, 0, 1] ++ [9]) ()
        (.done (.error f)) w' () ∧ f.kind = .unexpectedEof) ∧
    ∃ plan, (Request.connect 4 4).plan ⟨.empty, 0⟩ = .ok plan ∧ ∃ fuel f,
      (Operation.run ScriptedNet.network false fuel (.start plan)
        (.ofOffers [.ok (.ofSupply (.ofBytes (header true 4 ++ [0, 0, 0, 1] ++ [9])))] none) () false).1.answer? =
        some (.refused (.transport f)) := by
  have hrecord : IsRecord 4 (header true 4 ++ [0, 0, 0, 1]) [0, 0, 0, 1] :=
    ⟨[], [0, 0, 0, 1], by simp, by decide, rfl, by decide, rfl⟩
  have hrefusal := refusal_of_whole_record hrecord [9] ()
  constructor
  · have hpast : (Codec.list .value).ReadsPast [0, 0, 0, 1] := ⟨[0, 0, 0, 0], by decide⟩
    obtain ⟨w', r, hw', hleads, ⟨x, -, hx⟩ | ⟨-, f, rfl, ⟨hsettled, -⟩ | ⟨-, hkind⟩⟩⟩ :=
      hrefusal.2.1 queueChannel_delivers (.list .value) _ rfl
    · have hno : (Codec.list .value).decodeWhole [0, 0, 0, 1] = .error .shortWord := rfl
      rw [Codec.decodeWhole_eq_ok_iff.2 hx] at hno
      cases hno
    · exact absurd hpast hsettled
    · exact ⟨w', f, hw', hleads, hkind⟩
  · have hpast : Capabilities.codec.ReadsPast [0, 0, 0, 1] := ⟨[0, 0, 0, 0], by decide⟩
    obtain ⟨plan, hplan, fuel, answer, hanswer, ⟨x, hx, -⟩ | ⟨-, ⟨hsettled, -⟩ | ⟨-, f, -, rfl⟩⟩⟩ :=
      hrefusal.2.2 (.connect (c := ⟨.empty, 0⟩) 4 4)
        (.ofSupply (.ofBytes (header true 4 ++ [0, 0, 0, 1] ++ [9]))) rfl (fun _ => nofun) (fun _ => nofun) rfl
    · have hno : Capabilities.codec.decodeWhole [0, 0, 0, 1] = .error .shortWord := rfl
      rw [Codec.decodeWhole_eq_ok_iff.2 hx] at hno
      cases hno
    · exact absurd hpast hsettled
    · exact ⟨plan, hplan, fuel, f, hanswer⟩

/-- The handshake is answered with a whole record that declares one method and ends there. It spells no
capabilities; yet the fault is not one of malformed data, and the client takes it for a failure of the
connection. -/
theorem short_capabilities_are_a_failed_connection :
    let record : Bytes := header true 4 ++ [0, 0, 0, 1]
    let conn : Scripted := .ofSupply (.ofBytes record)
    IsRecord 4 record [0, 0, 0, 1] ∧ (∀ x, ¬Capabilities.codec.Spelling x [0, 0, 0, 1]) ∧
    (∃ conn' f, Leads Scripted.channel (Attempt.receiveValue 4 Capabilities.codec).run conn () (.done (.error f))
      conn' () ∧ f.kind ≠ .invalidData) ∧
    ∃ plan, (Request.connect 4 4).plan ⟨.empty, 0⟩ = .ok plan ∧ ∃ fuel f,
      (Operation.run ScriptedNet.network false fuel (.start plan) (.ofOffers [.ok conn] none) () false).1.answer? =
        some (.refused (.transport f)) := by
  refine ⟨⟨[], [0, 0, 0, 1], by simp, by decide, rfl, by decide, rfl⟩, fun x hx => ?_,
    ⟨_, .shortWord, ⟨2, rfl⟩, by decide⟩, callPlan (.connect 4 4) (connectTalk 4 4), rfl, 7, .shortWord, rfl⟩
  have hno : Capabilities.codec.decodeWhole [0, 0, 0, 1] = .error .shortWord := rfl
  rw [Codec.decodeWhole_eq_ok_iff.2 hx] at hno
  cases hno

end Request

end RemoteCall
