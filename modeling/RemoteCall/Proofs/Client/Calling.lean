import RemoteCall.Client.Request
import RemoteCall.Proofs.Exchange.Dialogue
import RemoteCall.Session
/-!
# Requests that make a call

Four requests make a call, each of one class. What a client knows of the method decides whether such a request is
refused at once, and then nothing is dialed, or carried out; and then it begins with the envelope of the call.
-/

namespace RemoteCall

variable {σ ω : Type}

namespace Attempt

open Exchange

/-- A call with arguments that cannot be encoded goes out as far as its name, and fails there. -/
theorem sends_sendCall_of_error (call : Envelope) {name : Bytes} {f : Fault}
    (hname : (Codec.text.encode call.method).toExcept = .ok name)
    (hargs : ((Codec.list .value).encode call.arguments).toExcept = .error f) :
    ∃ n, Sends failed n (sendCall call : Attempt σ Unit).run (Tag.call.code :: Record.frame name) (failed f) := by
  have hfails : Sends failed 0 (sendValue (.list .value) call.arguments : Attempt σ Unit).run [] (failed f) := by
    rw [sendValue_of_error hargs]
    exact .refl _
  rw [← List.append_nil (Record.frame name)]
  exact ⟨_, (sends_send _).andThen _ ((sends_sendValue hname).andThen _ hfails)⟩

end Attempt

namespace Client

variable {c : Client} {name : String} {cls actual : CallClass}

/-- Only a method that is known under the class is accepted. -/
theorem expectClass_eq_ok : c.expectClass name cls = .ok () ↔ c.classOf? name = some cls := by
  unfold expectClass
  cases c.classOf? name with
  | none => simp
  | some actual =>
    by_cases h : actual = cls
    · simp [h]
    · simp [h]

theorem expectClass_eq_methodNotFound :
    c.expectClass name cls = .error (.methodNotFound name) ↔ c.classOf? name = none := by
  unfold expectClass
  cases c.classOf? name with
  | none => simp
  | some actual =>
    by_cases h : actual = cls
    · simp [h]
    · simp [h]

theorem expectClass_eq_wrongClass :
    c.expectClass name cls = .error (.wrongClass name cls actual) ↔ c.classOf? name = some actual ∧ actual ≠ cls := by
  unfold expectClass
  cases c.classOf? name with
  | none => simp
  | some known =>
    by_cases h : known = cls
    · subst h
      simp [eq_comm]
    · simp only [h, if_false, Except.error.injEq, CallError.wrongClass.injEq, true_and, Option.some.injEq]
      exact ⟨fun heq => ⟨heq, heq ▸ h⟩, And.left⟩

end Client

namespace Request

open Exchange

/-- The method, the inputs and the class of the call that a request makes, if it makes one. -/
def callee? : Request → Option (String × List Value × CallClass)
  | values method inputs | call method inputs _ => some (method, inputs, .normal)
  | read method inputs => some (method, inputs, .readStream)
  | write method inputs _ _ => some (method, inputs, .writeStream)
  | _ => none

variable {c : Client} {request : Request} {name : String} {inputs : List Value} {cls : CallClass}

/-- A request whose method is refused under its class is refused with the same error. -/
theorem plan_of_expectClass_error (h : request.callee? = some (name, inputs, cls)) {e : CallError}
    (hclass : c.expectClass name cls = .error e) :
    (request.plan c : Except CallError (Plan σ Response)) = .error e := by
  cases request <;> cases h
  · simp only [plan, Client.callValues, hclass]
    rfl
  · simp only [plan, Client.callValues, hclass]
    rfl
  · simp only [plan, Client.callRead, hclass]
    rfl
  · simp only [plan, Client.callWrite, hclass]
    rfl

/-- A talk begins with an attempt: what the attempt sends, the talk sends, and if the attempt fails, the talk does. -/
def BeginsWith {α β : Type} (talk : Attempt σ α) (a : Attempt σ β) : Prop :=
  ∃ next : Except Fault β → Exchange σ (Except Fault α), (∀ f, next (.error f) = Attempt.failed f) ∧
    ∀ {n out r}, Sends Attempt.failed n a.run out (.done r) → Sends Attempt.failed n talk.run out (next r)

theorem BeginsWith.refl {α : Type} (a : Attempt σ α) : BeginsWith a a := ⟨.done, fun _ => rfl, id⟩

theorem BeginsWith.bind {α β γ : Type} {talk : Attempt σ α} {a : Attempt σ β} (h : BeginsWith talk a)
    (g : α → Attempt σ γ) : BeginsWith (talk >>= g) a := by
  obtain ⟨next, herror, hsends⟩ := h
  refine ⟨fun r => (next r).bind (ExceptT.bindCont g), fun f => ?_,
    fun hs => (hsends hs).bind (ExceptT.bindCont g)⟩
  show (next (.error f)).bind _ = _
  rw [herror]
  rfl

/-- A request whose method is accepted under its class is carried out by sending the call first. -/
theorem plan_of_expectClass_ok (h : request.callee? = some (name, inputs, cls))
    (hclass : c.expectClass name cls = .ok ()) :
    ∃ talk : Attempt σ (Exchange σ Response), request.plan c = .ok (request.callPlan talk) ∧
      BeginsWith talk (Attempt.sendCall ⟨name, inputs⟩) := by
  cases request <;> cases h
  · simp only [plan, Client.callValues, hclass]
    exact ⟨_, rfl, ((BeginsWith.refl _).bind _).bind _⟩
  · simp only [plan, Client.callValues, hclass]
    exact ⟨_, rfl, ((BeginsWith.refl _).bind _).bind _⟩
  · simp only [plan, Client.callRead, hclass]
    exact ⟨_, rfl, ((BeginsWith.refl _).bind _).bind _⟩
  · simp only [plan, Client.callWrite, hclass]
    exact ⟨_, rfl, (BeginsWith.refl _).bind _⟩

/-- A request that makes a call is refused at once exactly if its class is. -/
theorem plan_eq_error_iff (h : request.callee? = some (name, inputs, cls)) {e : CallError} :
    (request.plan c : Except CallError (Plan σ Response)) = .error e ↔ c.expectClass name cls = .error e := by
  cases hclass : c.expectClass name cls with
  | error e' => simp only [plan_of_expectClass_error h hclass, Except.error.injEq]
  | ok _ =>
    obtain ⟨talk, hplan, -⟩ := plan_of_expectClass_ok (σ := σ) h hclass
    rw [hplan]
    exact iff_of_false nofun nofun

theorem plan_isOk_iff (h : request.callee? = some (name, inputs, cls)) :
    (∃ plan : Plan σ Response, request.plan c = .ok plan) ↔ c.classOf? name = some cls := by
  rw [← Client.expectClass_eq_ok]
  constructor
  · rintro ⟨plan, hplan⟩
    cases hclass : c.expectClass name cls with
    | ok _ => rfl
    | error e =>
      rw [(plan_eq_error_iff h).2 hclass] at hplan
      cases hplan
  · intro hclass
    obtain ⟨talk, hplan, -⟩ := plan_of_expectClass_ok (σ := σ) h hclass
    exact ⟨_, hplan⟩

/-- A request that is refused at once leaves everything as it is. -/
theorem start_of_plan_error {w : RequestWorker ω σ} {e : CallError}
    (h : (request.plan c : Except CallError (Plan σ Response)) = .error e) (token? : Option String) :
    RequestWorker.start c ⟨.request request, token?, false⟩ w = (.error (.response (request.refusal e)), w) := by
  unfold RequestWorker.start
  cases token? <;> simp [h]

end Request

end RemoteCall
