import RemoteCall.Proofs.Call.Answered
import RemoteCall.Proofs.Call.Refused
import RemoteCall.Proofs.Client.Awaiting
/-!
# Calls of normal methods

What a client that calls a normal method sends and receives, and what the server does on the other
end. The main result puts the two on a link: on every interleaving, and however the link moves its
bytes, the call comes to the reply of the method, which is invoked once; and a request that the
server cannot take comes to nothing but a refusal.
-/

namespace RemoteCall

variable {σ α : Type}

/-! ## The server -/

/-- A method of the normal class that computes its verdict from its arguments alone; that it was
invoked leaves a note with the host. -/
def Handler.ofFunction (f : Arguments → Except AppError (List Value)) (note : Arguments → σ → σ) :
    Handler σ :=
  .normal fun args host =>
    (match f args with
      | .ok values => .ok values
      | .error e => .failed e, note args host)

namespace Serving

open Exchange

theorem receives_attempt {n : Nat} {a : Attempt σ α} {inp rest : Bytes} {r : Except Fault α}
    (h : Receives n a.run inp (.done r) rest) :
    Receives n (attempt a).run inp (.done (r.mapError .fault)) rest :=
  h.bind fun r => .done (r.mapError ServeError.fault)

theorem sends_attempt {n : Nat} {a : Attempt σ α} {out : Bytes} {e : Exchange σ (Except Fault α)}
    (h : Sends Attempt.failed n a.run out e) :
    Sends (fun f => .done (.error (.fault f))) n (attempt a).run out
      (e.bind fun r => .done (r.mapError .fault)) :=
  h.bind fun r => .done (r.mapError ServeError.fault)

/-- The tag of a call is received. -/
theorem receives_tag (rest : Bytes) :
    Receives 1 (attempt (Attempt.receiveTag : Attempt σ Tag)).run (Tag.call.code :: rest)
      (.done (.ok .call)) rest :=
  .byte (.refl _ _)

variable (ctx : Context σ) (envelope : Envelope) {m : Method σ} {name args : Bytes}

/-- The tag and the name of a call are received, and its arguments are next. -/
theorem receives_name (hget : ctx.registry.get? envelope.method = some m)
    (hname : (Codec.text.encode envelope.method).toExcept = .ok name)
    (hlimit : name.length ≤ ctx.recordLimit) :
    Receives (0 + 1 + 1) (connection ctx).run (Attempt.callBytes name args)
      (attempt (Attempt.receiveValue ctx.recordLimit (.list .value)) >>= fun values =>
        respond ctx ⟨values⟩ m.handler).run (Record.frame args) := by
  have htext : Codec.text.WithinDepth envelope.method := (Codec.true_iff_withinDepth rfl).1 trivial
  have hread := receives_attempt (Attempt.receives_sent (σ := σ) hname htext hlimit (Record.frame args))
  refine (receives_tag _).andThen (hread.andThen ?_)
  rw [hget]
  exact .refl _ _

/-- A call that the server can take is received to its end, and then answered. -/
theorem receives_call (hget : ctx.registry.get? envelope.method = some m)
    (hname : (Codec.text.encode envelope.method).toExcept = .ok name)
    (hargs : ((Codec.list .value).encode envelope.arguments).toExcept = .ok args)
    (hdepth : (Codec.list .value).WithinDepth envelope.arguments) (hnameLimit : name.length ≤ ctx.recordLimit)
    (hargsLimit : args.length ≤ ctx.recordLimit) :
    ∃ n, Receives n (connection ctx).run (Attempt.callBytes name args)
      (respond ctx ⟨envelope.arguments⟩ m.handler).run [] := by
  have hread := receives_attempt (Attempt.receives_sent (σ := σ) hargs hdepth hargsLimit [])
  rw [List.append_nil] at hread
  exact ⟨_, (receives_name ctx envelope hget hname hnameLimit).trans (hread.andThen (.refl _ _))⟩

/-- A call that the server cannot take ends in a fault before any method is invoked. -/
theorem refuses_call (hget : ctx.registry.get? envelope.method = some m)
    (hname : (Codec.text.encode envelope.method).toExcept = .ok name)
    (hargs : ((Codec.list .value).encode envelope.arguments).toExcept = .ok args)
    (h : ¬(Codec.list .value).WithinDepth envelope.arguments ∨ ctx.recordLimit < name.length ∨
      ctx.recordLimit < args.length) :
    ∃ n f left, Receives n (connection ctx).run (Attempt.callBytes name args) (.done (.error f)) left := by
  -- the name is read first, so a name that is too long hides what is wrong with the inputs
  by_cases hnameLimit : ctx.recordLimit < name.length
  · obtain ⟨f, left, hrefuse⟩ := Attempt.refuses_sent (σ := σ) hname (.inr hnameLimit) (Record.frame args)
    exact ⟨_, _, left, (receives_tag _).andThen (receives_attempt hrefuse).andThen_error⟩
  · have hrest : ¬(Codec.list .value).WithinDepth envelope.arguments ∨ ctx.recordLimit < args.length := by
      rcases h with h | h | h
      · exact .inl h
      · exact absurd h hnameLimit
      · exact .inr h
    obtain ⟨f, left, hrefuse⟩ := Attempt.refuses_sent (σ := σ) hargs hrest []
    rw [List.append_nil] at hrefuse
    exact ⟨_, _, left, (receives_name ctx envelope hget hname (Nat.not_lt.1 hnameLimit)).trans
      (receives_attempt hrefuse).andThen_error⟩

/-- A normal method asks the host once, and then its reply is sent and the connection shut down. -/
theorem respond_ofFunction (ctx : Context σ) (args : Arguments) (f : Arguments → Except AppError (List Value))
    (note : Arguments → σ → σ) {reply : Bytes}
    (hreply : ((Codec.list .value).encode (replyValues (f args))).toExcept = .ok reply) :
    ∃ next n tail, (respond ctx args (.ofFunction f note)).run = .consult next (note args) ∧
      (∀ host, Sends (fun f => .done (.error (.fault f))) n (next host) (Record.frame reply)
        (.shutdown tail)) ∧
      tail (.ok ()) = .done (.ok ()) := by
  let result : Except AppError (List Value) → Exchange σ (Except ServeError Unit) := fun result =>
    (attempt do
      Attempt.sendValue (.list .value) (replyValues result)
      Attempt.shutdown).run
  have hsends := sends_attempt ((Attempt.sends_sendValue (σ := σ) hreply).andThen
    (fun _ => Attempt.shutdown) (.refl _))
  rw [List.append_nil] at hsends
  have hrun : (respond ctx args (.ofFunction f note)).run =
      .consult (fun _ => result (f args)) (note args) := by
    -- what is replied depends on the arguments alone, never on the host
    refine congrArg (Exchange.consult · (note args)) (funext fun host => ?_)
    dsimp only
    cases f args <;> rfl
  exact ⟨_, _, fun r => .done (r.mapError ServeError.fault), hrun, fun _ => hsends, rfl⟩

end Serving

/-! ## The client -/

namespace Request

open Exchange Record

/-- The talk of a call of a normal method whose caller makes a response of the reply. -/
def replyTalk (limit : Nat) (method : String) (inputs : List Value) (respond : List Value → Response) :
    Attempt σ (Exchange σ Response) :=
  (Attempt.sendCall ⟨method, inputs⟩ >>= fun _ => Attempt.receiveValue limit (.list .value)) >>= fun reply =>
    return .done (respond reply)

/-- What follows the sending of a call. -/
def awaitReply (limit : Nat) (respond : List Value → Response) :
    Exchange σ (Except Fault (Exchange σ Response)) :=
  .receiveRecord limit .start fun r =>
    .done (r.bind fun whole =>
      ((Codec.list .value).decodeWhole whole).map fun reply => .done (respond reply))

/-- The talk of a call of a normal method whose caller wants all values of the reply. -/
def valuesTalk (limit : Nat) (method : String) (inputs : List Value) : Attempt σ (Exchange σ Response) :=
  replyTalk limit method inputs .replied

/-- A method that is known to be normal may be called as one. -/
theorem expectClass_normal {c : Client} {method : String} (h : c.classOf? method = some .normal) :
    c.expectClass method .normal = .ok () := by
  unfold Client.expectClass
  rw [h]
  rfl

/-- A client that knows the method to be normal calls it. -/
theorem plan_values {c : Client} {method : String} (h : c.classOf? method = some .normal)
    (inputs : List Value) :
    (values method inputs).plan c =
      .ok (callPlan (values method inputs) (valuesTalk (σ := σ) c.recordLimit method inputs)) := by
  simp only [plan, Client.callValues, expectClass_normal h]
  rfl

variable {method : String} {inputs : List Value} {name args : Bytes}

theorem sends_replyTalk (limit : Nat) (respond : List Value → Response)
    (hname : (Codec.text.encode method).toExcept = .ok name)
    (hargs : ((Codec.list .value).encode inputs).toExcept = .ok args) :
    ∃ n, Sends Attempt.failed n (replyTalk (σ := σ) limit method inputs respond).run
      (Attempt.callBytes name args) (awaitReply limit respond) := by
  obtain ⟨n, hcall⟩ := Attempt.sends_sendCall (σ := σ) ⟨method, inputs⟩ hname hargs
  exact ⟨n, sends_await hcall respond⟩

theorem receives_awaitReply {limit : Nat} (respond : List Value → Response) {reply : List Value}
    {whole : Bytes} (hreply : ((Codec.list .value).encode reply).toExcept = .ok whole)
    (hdepth : (Codec.list .value).WithinDepth reply) (hlimit : whole.length ≤ limit) :
    Receives 1 (awaitReply (σ := σ) limit respond) (frame whole) (.done (.ok (.done (respond reply)))) [] :=
  receives_await respond hreply hdepth hlimit

end Request

/-! ## The call -/

theorem Registry.find?_capabilities (r : Registry σ) (qualified : String) :
    r.capabilities.find? qualified = (r.get? qualified).map Method.callClass :=
  SortedMap.find?_mapValues Method.callClass r.methods qualified

namespace Link

/-- A link that holds nothing yet. -/
def ofCapacity (capacity : Nat) (most : Nat → Nat) (most_pos : ∀ k, 0 < most k) : Link :=
  ⟨.ofCapacity capacity, most, most_pos, 0⟩

variable {capacity : Nat} {most : Nat → Nat} {most_pos : ∀ k, 0 < most k}

theorem ofCapacity_carries (h : 0 < capacity) (s : Side) :
    (ofCapacity capacity most most_pos).Carries s [] false [] false := by
  refine ⟨?_, ?_, ?_, ?_, fun t => ?_⟩
  · cases s <;> rfl
  · cases s <;> rfl
  · cases s <;> rfl
  · cases s <;> rfl
  · cases t <;> exact h

theorem ofCapacity_silent (s : Side) : (ofCapacity capacity most most_pos).Silent s := by
  intro t ht
  cases s <;> cases ht <;> rfl

open Serving (replyValues)

variable {settings : Settings σ} {method : String} {m : Method σ} {f : Arguments → Except AppError (List Value)}
  {note : Arguments → σ → σ} {inputs : List Value} {name args reply : Bytes}

theorem classOf?_normal (hmethod : settings.registry.get? method = some m)
    (hhandler : m.handler = .ofFunction f note) (replyLimit : Nat) :
    (⟨settings.registry.capabilities, replyLimit⟩ : Client).classOf? method = some .normal := by
  show settings.registry.capabilities.find? method = some .normal
  rw [Registry.find?_capabilities, hmethod, Option.map_some, Method.callClass, hhandler]
  rfl

/-- If all values fit, a call comes to what its caller makes of the reply, and the method is invoked once. -/
theorem answered_calling (hcapacity : 0 < capacity) (most : Nat → Nat) (most_pos : ∀ k, 0 < most k)
    (request : Request) (replyLimit : Nat) (host : σ) (respond : List Value → Response)
    (hmethod : settings.registry.get? method = some m) (hhandler : m.handler = .ofFunction f note)
    (hname : (Codec.text.encode method).toExcept = .ok name)
    (hargs : ((Codec.list .value).encode inputs).toExcept = .ok args)
    (hreply : ((Codec.list .value).encode (replyValues (f ⟨inputs⟩))).toExcept = .ok reply)
    (hinputs : ∀ v ∈ inputs, v.depth ≤ 64) (hvalues : ∀ v ∈ replyValues (f ⟨inputs⟩), v.depth ≤ 64)
    (hnameLimit : name.length ≤ settings.recordLimit) (hargsLimit : args.length ≤ settings.recordLimit)
    (hreplyLimit : reply.length ≤ replyLimit) :
    ∃ n, Answered (respond (replyValues (f ⟨inputs⟩))) host (note ⟨inputs⟩)
      (opening settings (ofCapacity capacity most most_pos) host
        (request.callPlan (Request.replyTalk replyLimit method inputs respond))) n := by
  obtain ⟨n, hsends⟩ := Request.sends_replyTalk (σ := σ) replyLimit respond hname hargs
  have hawait := Request.receives_awaitReply (σ := σ) respond hreply
    ((Codec.withinDepth_values _).2 hvalues) hreplyLimit
  obtain ⟨k, hcall⟩ := Serving.receives_call (settings.context "link") ⟨method, inputs⟩ hmethod hname hargs
    ((Codec.withinDepth_values _).2 hinputs) hnameLimit hargsLimit
  obtain ⟨next, j, tail, hrun, hreplies, htail⟩ :=
    Serving.respond_ofFunction (settings.context "link") ⟨inputs⟩ f note hreply
  rw [hhandler, hrun] at hcall
  have hcarries : (ofCapacity capacity most most_pos).Carries .dialer [] false [] false :=
    ofCapacity_carries hcapacity .dialer
  rw [opening_eq]
  exact ⟨_, .mk ⟨hcarries, by simp, by simp⟩ (.idle hsends hawait) (.reading hcall (hreplies host) htail)⟩

/-- If the server cannot take the inputs or the name, a call comes to a refusal. -/
theorem refused_calling (hcapacity : 0 < capacity) (most : Nat → Nat) (most_pos : ∀ k, 0 < most k)
    (request : Request) (replyLimit : Nat) (host : σ) (respond : List Value → Response)
    (hmethod : settings.registry.get? method = some m)
    (hname : (Codec.text.encode method).toExcept = .ok name)
    (hargs : ((Codec.list .value).encode inputs).toExcept = .ok args)
    (h : (∃ v ∈ inputs, 64 < v.depth) ∨ settings.recordLimit < name.length ∨
      settings.recordLimit < args.length) :
    ∃ n, Refused (fun r => request.refusal r.toCallError) host
      (opening settings (ofCapacity capacity most most_pos) host
        (request.callPlan (Request.replyTalk replyLimit method inputs respond))) n := by
  obtain ⟨n, hsends⟩ := Request.sends_replyTalk (σ := σ) replyLimit respond hname hargs
  have hrefused : ¬(Codec.list .value).WithinDepth inputs ∨ settings.recordLimit < name.length ∨
      settings.recordLimit < args.length := by
    refine h.imp_left ?_
    rintro ⟨v, hv, hdeep⟩ hfits
    exact Nat.not_lt.2 ((Codec.withinDepth_values _).1 hfits v hv) hdeep
  obtain ⟨k, fault, left, hcall⟩ := Serving.refuses_call (settings.context "link") ⟨method, inputs⟩ hmethod
    hname hargs hrefused
  have hcarries : (ofCapacity capacity most most_pos).Carries .dialer [] false [] false :=
    ofCapacity_carries hcapacity .dialer
  rw [opening_eq]
  exact ⟨_, .unheard hcarries (ofCapacity_silent .acceptor) (.idle hsends fun _ => rfl) hcall⟩

/-- A call has one answer, to which it comes on every run, and by then the host was told of the method once. -/
structure Settles (start : System Link σ Response) (answer : Response) (host : σ) (update : σ → σ) : Prop where
  always : start.Always fun s => (∀ r, s.answer? 0 = some r → r = answer) ∧ (s.host = host ∨ s.host = update host)
  reaches : start.Reaches fun s => s.answer? 0 = some answer ∧ s.host = update host

/-- A client calls a normal method that computes its verdict from its arguments, over a link that
moves bytes in pieces of any size, with client and server taking steps in any order. If all values
fit, the call comes to exactly the values of the method, or, if the method fails, to its error alone,
and the method is invoked exactly once, on exactly the inputs. If the server cannot take the inputs
or the name, the method is not invoked, the server sends nothing, and the call comes to an error. -/
theorem values_call (hcapacity : 0 < capacity) (most : Nat → Nat) (most_pos : ∀ k, 0 < most k)
    (settings : Settings σ) (replyLimit : Nat) (host : σ) {method : String} {m : Method σ}
    {f : Arguments → Except AppError (List Value)} {note : Arguments → σ → σ}
    (hmethod : settings.registry.get? method = some m) (hhandler : m.handler = .ofFunction f note)
    {inputs : List Value} {name args : Bytes} (hname : (Codec.text.encode method).toExcept = .ok name)
    (hargs : ((Codec.list .value).encode inputs).toExcept = .ok args) :
    ∃ plan, (Request.values method inputs).plan ⟨settings.registry.capabilities, replyLimit⟩ = .ok plan ∧
      let start := opening settings (ofCapacity capacity most most_pos) host plan
      ((∀ v ∈ inputs, v.depth ≤ 64) → name.length ≤ settings.recordLimit → args.length ≤ settings.recordLimit →
        (∀ vs reply, f ⟨inputs⟩ = .ok vs → ((Codec.list .value).encode vs).toExcept = .ok reply →
          (∀ v ∈ vs, v.depth ≤ 64) → reply.length ≤ replyLimit →
          Settles start (.replied vs) host (note ⟨inputs⟩)) ∧
        ∀ e reply, f ⟨inputs⟩ = .error e → ((Codec.list .value).encode [.error e]).toExcept = .ok reply →
          reply.length ≤ replyLimit → Settles start (.replied [.error e]) host (note ⟨inputs⟩)) ∧
      ((∃ v ∈ inputs, 64 < v.depth) ∨ settings.recordLimit < name.length ∨
        settings.recordLimit < args.length →
        start.Always (fun s => s.host = host ∧ s.world.Silent .acceptor ∧ s.world.duplex.inbound.data = [] ∧
          ∀ r, s.answer? 0 = some r → ∃ e, r = .refused e) ∧
        start.Reaches fun s => ∃ e, s.answer? 0 = some (.refused e)) := by
  refine ⟨_, Request.plan_values (classOf?_normal hmethod hhandler replyLimit) inputs, ?_, ?_⟩
  · intro hinputs hnameLimit hargsLimit
    have hsettles : ∀ reply, ((Codec.list .value).encode (replyValues (f ⟨inputs⟩))).toExcept = .ok reply →
        (∀ v ∈ replyValues (f ⟨inputs⟩), v.depth ≤ 64) → reply.length ≤ replyLimit →
        Settles (opening settings (ofCapacity capacity most most_pos) host
            ((Request.values method inputs).callPlan (Request.valuesTalk replyLimit method inputs)))
          (.replied (replyValues (f ⟨inputs⟩))) host (note ⟨inputs⟩) := by
      intro reply hreply hvalues hreplyLimit
      obtain ⟨bound, hstart⟩ := answered_calling hcapacity most most_pos (.values method inputs) replyLimit host
        .replied hmethod hhandler hname hargs hreply hinputs hvalues hnameLimit hargsLimit hreplyLimit
      exact ⟨System.always_of_lowers Answered.advance hstart Answered.sound,
        System.reaches_of_lowers Answered.advance hstart Answered.complete⟩
    constructor
    · intro vs reply hok
      rw [hok] at hsettles
      exact hsettles reply
    · intro e reply hfails hreply
      rw [hfails] at hsettles
      refine hsettles reply hreply fun v hv => ?_
      rw [List.mem_singleton.1 hv]
      exact Nat.zero_le 64
  · intro hrefused
    obtain ⟨bound, hstart⟩ := refused_calling hcapacity most most_pos (.values method inputs) replyLimit host .replied
      hmethod hname hargs hrefused
    refine ⟨System.always_of_lowers Refused.advance hstart fun hs => ?_,
      System.reaches_of_lowers Refused.advance hstart fun hs hrest => ?_⟩
    · obtain ⟨hhost, hsilent, hdata, hanswer⟩ := hs.sound
      refine ⟨hhost, hsilent, hdata, fun r hr => ?_⟩
      obtain ⟨fault, rfl⟩ := hanswer r hr
      exact ⟨_, rfl⟩
    · obtain ⟨fault, hanswer⟩ := hs.complete hrest
      exact ⟨_, hanswer⟩

/-- One byte at a time, an echo of twelve bytes is answered under a limit of twelve bytes and
refused under one of eleven; and a method that fails is answered with its error. -/
theorem values_call_echo :
    let m (f : Arguments → Except AppError (List Value)) : Method (List Arguments) :=
      ⟨"a.b", .ofFunction f fun args log => args :: log⟩
    let echo (args : Arguments) : Except AppError (List Value) := .ok args.values
    let fail (_ : Arguments) : Except AppError (List Value) := .error ⟨some "no"⟩
    let settings (f : Arguments → Except AppError (List Value)) (limit : Nat) : Settings (List Arguments) :=
      ⟨⟨SortedMap.empty.insert "a.b" (m f)⟩, limit, 1, Nat.one_pos⟩
    let l := ofCapacity 1 (fun _ => 1) fun _ => Nat.one_pos
    (∃ plan, (Request.values "a.b" [.bool true]).plan ⟨(settings echo 12).registry.capabilities, 12⟩ = .ok plan ∧
      (opening (settings echo 12) l [] plan).Reaches fun s =>
        s.answer? 0 = some (.replied [.bool true]) ∧ s.host = [⟨[.bool true]⟩]) ∧
    (∃ plan, (Request.values "a.b" [.bool true]).plan ⟨(settings echo 11).registry.capabilities, 12⟩ = .ok plan ∧
      (opening (settings echo 11) l [] plan).Reaches fun s => ∃ e, s.answer? 0 = some (.refused e)) ∧
    ∃ plan, (Request.values "a.b" [.bool true]).plan ⟨(settings fail 12).registry.capabilities, 24⟩ = .ok plan ∧
      (opening (settings fail 12) l [] plan).Reaches fun s =>
        s.answer? 0 = some (.replied [.error ⟨some "no"⟩]) ∧ s.host = [⟨[.bool true]⟩] := by
  intro m echo fail settings l
  have hget : ∀ f limit, (settings f limit).registry.get? "a.b" = some (m f) := fun _ _ =>
    SortedMap.find?_insert_self _ _ _
  have hhandler : ∀ f, (m f).handler = .ofFunction f fun args log => args :: log := fun _ => rfl
  have hname := Codec.encode_text_ab
  have hargs := Codec.encode_list_true
  have hdepth : ∀ v ∈ [Value.bool true], v.depth ≤ 64 := by decide
  refine ⟨?_, ?_, ?_⟩
  · obtain ⟨plan, hplan, hanswered, -⟩ :=
      values_call Nat.one_pos (fun _ => 1) (fun _ => Nat.one_pos) (settings echo 12) 12 [] (hget echo 12)
        (hhandler echo) hname hargs
    obtain ⟨hok, -⟩ := hanswered hdepth (by decide) (by decide)
    exact ⟨plan, hplan, (hok [.bool true] _ rfl hargs hdepth (by decide)).reaches⟩
  · obtain ⟨plan, hplan, -, hrefused⟩ :=
      values_call Nat.one_pos (fun _ => 1) (fun _ => Nat.one_pos) (settings echo 11) 12 [] (hget echo 11)
        (hhandler echo) hname hargs
    exact ⟨plan, hplan, (hrefused (.inr (.inr (by decide)))).2⟩
  · have hreply : ((Codec.list .value).encode [.error ⟨some "no"⟩]).toExcept =
        .ok [0, 0, 0, 1, 0, 0, 0, 10, 0, 0, 0, 1, 0, 0, 0, 2, 110, 111, 0, 0] := by
      have htext : (Codec.encodeText "no").toExcept = .ok [0, 0, 0, 2, 110, 111, 0, 0] :=
        Codec.encodeBytes_eq_ok.2 ⟨by decide, rfl⟩
      simp [Codec.encode, Codec.encodeValue, Codec.encodeContent, Codec.encodeKinded, Codec.encodeError,
        Codec.encodeOption, Codec.encodeBool, Codec.encodeCount, Codec.encodeWord, Encoding.toExcept_andThen, htext]
      decide
    obtain ⟨plan, hplan, hanswered, -⟩ :=
      values_call Nat.one_pos (fun _ => 1) (fun _ => Nat.one_pos) (settings fail 12) 24 [] (hget fail 12)
        (hhandler fail) hname hargs
    obtain ⟨-, herror⟩ := hanswered hdepth (by decide) (by decide)
    exact ⟨plan, hplan, (herror ⟨some "no"⟩ _ rfl hreply (by decide)).reaches⟩

end Link

end RemoteCall
