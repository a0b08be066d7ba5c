import RemoteCall.Proofs.Call.Envelope
import RemoteCall.Proofs.Call.Failed
import RemoteCall.Proofs.Call.Handshake
import RemoteCall.Proofs.Client.Calling
import RemoteCall.Proofs.SortedMap.Entries
/-!
# Agreement on the class of a method

A client learns the class of each method when it connects, and the server follows the class of the handler that it
finds under the name; both have it from one registry. So a call is refused at once exactly if the registry has no
method of its class under the name, and the server goes on as the class of the call says, provided that it takes
the envelope in: it refuses inputs that nest too deep and records beyond its own limit, which the client knows
nothing of.
-/

namespace RemoteCall

variable {σ : Type}

/-! ## Names that are advertised -/

/-- If all items can be encoded together, each can be on its own. -/
theorem Encoding.exists_of_each {α : Type} {encode : α → Encoding} {xs : List α} {bs : Bytes}
    (h : (each encode xs).toExcept = .ok bs) {x : α} (hx : x ∈ xs) : ∃ used, (encode x).toExcept = .ok used := by
  induction xs generalizing bs with
  | nil => cases hx
  | cons y ys ih =>
    rw [each_cons] at h
    obtain ⟨a, b, hy, hys, -⟩ := toExcept_andThen_eq_ok.1 h
    rcases List.mem_cons.1 hx with rfl | hx
    · exact ⟨a, hy⟩
    · exact ih hys hx

/-- The names of a registry whose capabilities can be encoded can be encoded. -/
theorem Registry.encode_name {r : Registry σ} {whole : Bytes}
    (h : (Capabilities.codec.encode r.capabilities).toExcept = .ok whole) {name : String} {m : Method σ}
    (hget : r.get? name = some m) : ∃ bytes, (Codec.text.encode name).toExcept = .ok bytes := by
  have hfind : r.capabilities.find? name = some m.callClass := by
    rw [find?_capabilities, hget, Option.map_some]
  have hentry : (name, m.callClass) ∈ r.capabilities.toList := SortedMap.find?_eq_some_iff.1 hfind
  obtain ⟨count, entries, -, hentries, -⟩ := Encoding.toExcept_andThen_eq_ok.1 h
  obtain ⟨used, hused⟩ := Encoding.exists_of_each hentries hentry
  obtain ⟨bytes, code, hname, -, -⟩ := Encoding.toExcept_andThen_eq_ok.1 hused
  exact ⟨bytes, hname⟩

namespace Link

open Exchange Request

variable {capacity : Nat} {settings : Settings σ} {name : String} {inputs : List Value} {m : Method σ}
  {nameBytes args : Bytes}

/-! ## The envelope of a call -/

/-- The server comes to what follows the bytes that a client sends first, if it can receive them. -/
theorem approaches_of_sends (hcapacity : 0 < capacity) (most : Nat → Nat) (most_pos : ∀ k, 0 < most k)
    (settings : Settings σ) (host : σ) (plan : Plan σ Response) {n k : Nat} {out left : Bytes}
    {next : Exchange σ (Except Fault (Exchange σ Response))} {target : Exchange σ (Except ServeError Unit)}
    (hs : Sends Attempt.failed n plan.talk.run out next)
    (hr : Receives k (Serving.connection (settings.context "link")).run out target left) :
    (opening settings (ofCapacity capacity most most_pos) host plan).Approaches 0 target := by
  rw [opening_eq]
  cases k with
  | zero =>
    cases hr
    exact .refl rfl
  | succ k =>
    have hcarries : (ofCapacity capacity most most_pos).Carries .dialer [] false [] false :=
      ofCapacity_carries hcapacity .dialer
    exact System.approaches_of_lowers Heard.advance Heard.receives (.of_carries hcarries (.idle hs) hr)

/-- How a plan makes a call of a method with some inputs. It dials first. If the inputs cannot be encoded, it sends
the name and fails; otherwise it sends the envelope before anything else. The server takes the envelope in and goes
on as the handler of the method says, or it comes to an error instead, depending on its limits. -/
structure MakesCall (settings : Settings σ) (l : Link) (host : σ) (nameBytes : Bytes) (inputs : List Value)
    (m : Method σ) (plan : Plan σ Response) : Prop where
  dials : ∀ {ω : Type} (n : Network ω) (w : ω), Operation.step n false (.start plan) w host =
    some (⟨.dialing (n.startDial w).1 plan.talk, plan.refuse⟩, (n.startDial w).2, host)
  cut : ∀ f, ((Codec.list .value).encode inputs).toExcept = .error f →
    ∃ n, Sends Attempt.failed n plan.talk.run (Tag.call.code :: Record.frame nameBytes) (Attempt.failed f)
  sends : ∀ args, ((Codec.list .value).encode inputs).toExcept = .ok args →
    ∃ n next, Sends Attempt.failed n plan.talk.run (Attempt.callBytes nameBytes args) next
  runs : ∀ args, ((Codec.list .value).encode inputs).toExcept = .ok args → (∀ v ∈ inputs, v.depth ≤ 64) →
    nameBytes.length ≤ settings.recordLimit → args.length ≤ settings.recordLimit →
    (opening settings l host plan).Approaches 0 (Serving.respond (settings.context "link") ⟨inputs⟩ m.handler).run
  refuses : ∀ args, ((Codec.list .value).encode inputs).toExcept = .ok args →
    (∃ v ∈ inputs, 64 < v.depth) ∨ settings.recordLimit < nameBytes.length ∨ settings.recordLimit < args.length →
    ∃ e, (opening settings l host plan).Approaches 0 (.done (.error e))

/-- A plan that begins with the sending of a call makes the call. -/
theorem makesCall_of_beginsWith (hcapacity : 0 < capacity) (most : Nat → Nat) (most_pos : ∀ k, 0 < most k)
    (host : σ) (hget : settings.registry.get? name = some m)
    (hname : (Codec.text.encode name).toExcept = .ok nameBytes) {request : Request} {talk : Attempt σ (Exchange σ Response)}
    (htalk : BeginsWith talk (Attempt.sendCall ⟨name, inputs⟩)) :
    MakesCall settings (ofCapacity capacity most most_pos) host nameBytes inputs m (request.callPlan talk) := by
  obtain ⟨next, hnext, hbegins⟩ := htalk
  have hsends : ∀ args, ((Codec.list .value).encode inputs).toExcept = .ok args →
      ∃ n, Sends Attempt.failed n talk.run (Attempt.callBytes nameBytes args) (next (.ok ())) := by
    intro args hargs
    obtain ⟨n, hcall⟩ := Attempt.sends_sendCall (σ := σ) ⟨name, inputs⟩ hname hargs
    exact ⟨n, hbegins hcall⟩
  refine ⟨fun _ _ => rfl, fun f hf => ?_, fun args hargs => ?_, fun args hargs hdepth hnameLimit hargsLimit => ?_,
    fun args hargs h => ?_⟩
  · obtain ⟨n, hcut⟩ := Attempt.sends_sendCall_of_error (σ := σ) ⟨name, inputs⟩ hname hf
    have hfails := hbegins hcut
    rw [hnext] at hfails
    exact ⟨n, hfails⟩
  · obtain ⟨n, hs⟩ := hsends args hargs
    exact ⟨n, _, hs⟩
  · obtain ⟨n, hs⟩ := hsends args hargs
    obtain ⟨k, hr⟩ := Serving.receives_call (settings.context "link") ⟨name, inputs⟩ hget hname hargs
      ((Codec.withinDepth_values _).2 hdepth) hnameLimit hargsLimit
    exact approaches_of_sends hcapacity most most_pos settings host (request.callPlan talk) hs hr
  · obtain ⟨n, hs⟩ := hsends args hargs
    have hrefused : ¬(Codec.list .value).WithinDepth inputs ∨ settings.recordLimit < nameBytes.length ∨
        settings.recordLimit < args.length := by
      refine h.imp_left ?_
      rintro ⟨v, hv, hdeep⟩ hfits
      exact Nat.not_lt.2 ((Codec.withinDepth_values _).1 hfits v hv) hdeep
    obtain ⟨k, e, left, hr⟩ := Serving.refuses_call (settings.context "link") ⟨name, inputs⟩ hget hname hargs hrefused
    exact ⟨e, approaches_of_sends hcapacity most most_pos settings host (request.callPlan talk) hs hr⟩

/-- A client that connects to a server whose capabilities are within its limit comes to know just these. From then
on a request that makes a call is refused at once, and without a dial, exactly if the registry of the server has no
method of the name, or one of another class, and the error says which; otherwise it makes the call, and the server
goes on as the handler of the method says. A server whose limits the envelope exceeds does not get that far. -/
theorem calls_follow_registry (hcapacity : 0 < capacity) (most : Nat → Nat) (most_pos : ∀ k, 0 < most k)
    (settings : Settings σ) {connectLimit : Nat} (replyLimit : Nat) (host : σ) {whole : Bytes}
    (hwhole : (Capabilities.codec.encode settings.registry.capabilities).toExcept = .ok whole)
    (hlimit : whole.length ≤ connectLimit) :
    let client : Client := ⟨settings.registry.capabilities, replyLimit⟩
    (∀ c, ∃ plan, (Request.connect connectLimit replyLimit).plan c = .ok plan ∧
      let start := opening settings (ofCapacity capacity most most_pos) host plan
      start.Always (fun s => ∀ r, s.answer? 0 = some r → r = .connected client) ∧
      start.Reaches fun s => s.answer? 0 = some (.connected client)) ∧
    ∀ {request : Request} {name inputs cls}, request.callee? = some (name, inputs, cls) →
      ((request.plan client : Except CallError (Plan σ Response)) = .error (.methodNotFound name) ↔
        settings.registry.get? name = none) ∧
      (∀ actual, (request.plan client : Except CallError (Plan σ Response)) =
          .error (.wrongClass name cls actual) ↔
        (settings.registry.get? name).map Method.callClass = some actual ∧ actual ≠ cls) ∧
      (∀ e, (request.plan client : Except CallError (Plan σ Response)) = .error e →
        ∀ {ω : Type} (w : RequestWorker ω σ) (token? : Option String),
          RequestWorker.start client ⟨.request request, token?, false⟩ w = (.error (.response (request.refusal e)), w)) ∧
      ((∃ plan : Plan σ Response, request.plan client = .ok plan) ↔
        (settings.registry.get? name).map Method.callClass = some cls) ∧
      ∀ m, settings.registry.get? name = some m → m.callClass = cls →
        ∃ (plan : Plan σ Response) (nameBytes : Bytes), request.plan client = .ok plan ∧
          (Codec.text.encode name).toExcept = .ok nameBytes ∧
          MakesCall settings (ofCapacity capacity most most_pos) host nameBytes inputs m plan := by
  intro client
  refine ⟨fun c => ?_, ?_⟩
  · obtain ⟨n, hstart⟩ := connects hcapacity most most_pos settings replyLimit host hwhole hlimit
    exact ⟨_, plan_connect c connectLimit replyLimit, System.always_of_lowers Greeted.advance hstart Greeted.sound,
      System.reaches_of_lowers Greeted.advance hstart Greeted.complete⟩
  · intro request name inputs cls hcallee
    have hclassOf : client.classOf? name = (settings.registry.get? name).map Method.callClass :=
      Registry.find?_capabilities settings.registry name
    refine ⟨?_, fun actual => ?_, fun e he => ?_, ?_, fun m hget hclass => ?_⟩
    · rw [plan_eq_error_iff hcallee, Client.expectClass_eq_methodNotFound, hclassOf, Option.map_eq_none_iff]
    · rw [plan_eq_error_iff hcallee, Client.expectClass_eq_wrongClass, hclassOf]
    · exact fun w token? => start_of_plan_error he token?
    · rw [plan_isOk_iff hcallee, hclassOf]
    · have hknown : client.classOf? name = some cls := by rw [hclassOf, hget, Option.map_some, hclass]
      obtain ⟨talk, hplan, htalk⟩ := plan_of_expectClass_ok (σ := σ) hcallee (Client.expectClass_eq_ok.2 hknown)
      obtain ⟨nameBytes, hname⟩ := Registry.encode_name hwhole hget
      exact ⟨_, nameBytes, hplan, hname, makesCall_of_beginsWith hcapacity most most_pos host hget hname htalk⟩

theorem encode_alone (f : Arguments → Except AppError (List Value)) :
    (Capabilities.codec.encode (alone f).registry.capabilities).toExcept =
      .ok [0, 0, 0, 1, 0, 0, 0, 3, 97, 46, 98, 0, 0, 0, 0, 0] := by
  have hentries : (alone f).registry.capabilities.toList = [("a.b", .normal)] := rfl
  have hsize : (alone f).registry.capabilities.size = 1 := rfl
  have hname : (Codec.encodeText "a.b").toExcept = .ok [0, 0, 0, 3, 97, 46, 98, 0] := Codec.encode_text_ab
  have hcode : int32? (CallClass.enumeration.code .normal) = some 0 := rfl
  simp [Capabilities.codec, Codec.encode, hentries, hsize, Encoding.toExcept_andThen, hname, hcode,
    Codec.encodeCount, Codec.encodeWord]
  decide

/-- One byte at a time, a client gets to know a normal method. It may not be read from, no other method is known, and
a call of it brings the server to the handler. -/
theorem calls_follow_registry_alone :
    let settings := alone fun _ => .ok []
    let client : Client := ⟨settings.registry.capabilities, 12⟩
    let l := ofCapacity 1 (fun _ => 1) fun _ => Nat.one_pos
    (∃ plan, (Request.connect 16 12).plan client = .ok plan ∧
      (opening settings l 0 plan).Reaches fun s => s.answer? 0 = some (.connected client)) ∧
    (Request.values "a.c" []).plan (σ := Nat) client = .error (.methodNotFound "a.c") ∧
    (Request.read "a.b" []).plan (σ := Nat) client = .error (.wrongClass "a.b" .readStream .normal) ∧
    ∃ plan m, (Request.values "a.b" []).plan client = .ok plan ∧ settings.registry.get? "a.b" = some m ∧
      (opening settings l 0 plan).Approaches 0
        (Serving.respond (settings.context "link") ⟨[]⟩ m.handler).run := by
  intro settings client l
  have hget : settings.registry.get? "a.b" = some _ := alone_get? _
  have hlimit : ([0, 0, 0, 1, 0, 0, 0, 3, 97, 46, 98, 0, 0, 0, 0, 0] : Bytes).length ≤ 16 := by decide
  have hunknown : (Request.values "a.c" []).callee? = some ("a.c", [], .normal) := rfl
  have hread : (Request.read "a.b" []).callee? = some ("a.b", [], .readStream) := rfl
  have hvalues : (Request.values "a.b" []).callee? = some ("a.b", [], .normal) := rfl
  obtain ⟨hconnect, hcalls⟩ := calls_follow_registry Nat.one_pos (fun _ => 1) (fun _ => Nat.one_pos) settings 12 0
    (encode_alone _) hlimit
  obtain ⟨plan, hplan, -, hreaches⟩ := hconnect client
  obtain ⟨hnotFound, -⟩ := hcalls hunknown
  obtain ⟨-, hwrongClass, -⟩ := hcalls hread
  obtain ⟨-, -, -, -, hmakes⟩ := hcalls hvalues
  obtain ⟨plan', nameBytes, hplan', hname, hmakesCall⟩ := hmakes _ hget rfl
  have hbytes : nameBytes = [0, 0, 0, 3, 97, 46, 98, 0] := by
    rw [Codec.encode_text_ab] at hname
    cases hname
    rfl
  subst hbytes
  refine ⟨⟨plan, hplan, hreaches⟩, hnotFound.2 ?_, (hwrongClass .normal).2 ⟨?_, by decide⟩, plan', _, hplan',
    hget, hmakesCall.runs _ Codec.encode_list_nil (List.forall_mem_nil _) (by decide) (by decide)⟩
  · rfl
  · rw [hget]
    rfl

/-- A client may call a method by its class, and its registry has the method; yet the server, whose limit the inputs
exceed, is at no moment at its handler. It never asks the host, and the call is refused. -/
theorem long_call_never_runs :
    let settings := alone fun _ => .ok []
    let client : Client := ⟨settings.registry.capabilities, 12⟩
    let inputs : List Value := [.bool true, .bool true]
    ∃ m plan, settings.registry.get? "a.b" = some m ∧ m.callClass = .normal ∧
      (Request.values "a.b" inputs).plan client = .ok plan ∧
      let start := opening settings (ofCapacity 1 (fun _ => 1) fun _ => Nat.one_pos) 0 plan
      start.Always (fun s => s.host = 0 ∧
        s.serving? 0 ≠ some (Serving.respond (settings.context "link") ⟨inputs⟩ m.handler).run) ∧
      start.Reaches fun s => ∃ e, s.answer? 0 = some (.refused e) := by
  intro settings client inputs
  have hargs : ((Codec.list .value).encode inputs).toExcept =
      .ok [0, 0, 0, 2, 0, 0, 0, 1, 0, 0, 0, 1, 0, 0, 0, 1, 0, 0, 0, 1] := by
    simp [inputs, Codec.encode, Codec.encodeValue, Codec.encodeContent, Codec.encodeKinded, Codec.encodeBool,
      Codec.encodeCount, Codec.encodeWord, Encoding.toExcept_andThen]
    decide
  let m : Method Nat := ⟨"a.b", .ofFunction (fun _ => .ok []) fun _ calls => calls + 1⟩
  have hget : settings.registry.get? "a.b" = some m := alone_get? _
  have hhandler : m.handler = .ofFunction (fun _ => .ok []) fun _ calls => calls + 1 := rfl
  obtain ⟨bound, hstart⟩ := refused_calling Nat.one_pos (fun _ => 1) (fun _ => Nat.one_pos)
    (.values "a.b" inputs) 12 0 .replied hget
    Codec.encode_text_ab hargs (.inr (.inr (by decide)))
  refine ⟨m, _, hget, rfl, Request.plan_values (classOf?_normal hget hhandler 12) inputs,
    System.always_of_lowers Refused.advance hstart fun hs => ⟨hs.sound.1, fun hat => ?_⟩,
    System.reaches_of_lowers Refused.advance hstart fun hs hrest => ?_⟩
  · -- the server takes in bytes or is done, and the handler of a normal method would ask the host
    cases hs with
    | unheard hl hsilent hc hr =>
      rw [serving?_conversation, Option.some.injEq] at hat
      subst hat
      cases hr
    | abandoned | failed | finished => cases hat
  · obtain ⟨f, hanswer⟩ := hs.complete hrest
    exact ⟨_, hanswer⟩

end Link

end RemoteCall
