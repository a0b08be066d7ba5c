import RemoteCall.Proofs.Call.Failed
import RemoteCall.Proofs.Client.Accounts
import RemoteCall.Proofs.Client.Mapping
/-!
# What a call makes of its reply

A call with places is a request for the values of the reply whose answer is interpreted: the error that ends the
reply comes first, then the number of values, and only a reply that passes both goes into the places, as a whole.
So the call does to the network and the host just what the request for the values does, whenever its token fires
and whatever others do; and whatever error it comes to, it leaves the places as they are.
-/

namespace RemoteCall

variable {σ ω α : Type}

/-! ## What an operation can answer -/

/-- Every answer of an operation from this stage on has a property. -/
def Stage.Yields (P : α → Prop) : Stage σ α → Prop
  | idle talk | dialing _ talk => talk.run.Yields fun r => ∀ rest, r = .ok rest → rest.Yields P
  | talking _ talk => talk.Yields fun r => ∀ rest, r = .ok rest → rest.Yields P
  | returned _ rest => rest.Yields P
  | finished a => P a

/-- Every step keeps to it, if whatever ends the operation early does. -/
theorem Stage.Yields.moves {P : α → Prop} {n : Network ω} {refuse : Refusal → α} {cancelled : Bool}
    {stage stage' : Stage σ α} {w w' : ω} (h : stage.Yields P) (hrefuse : ∀ r, P (refuse r))
    (hmoves : Operation.Moves n refuse cancelled stage w stage' w') : stage'.Yields P := by
  cases hmoves with
  | cancel | cancelDial | cancelTalk | dialFailed | talkFailed => exact hrefuse _
  | dial | connect => exact h
  | talk connection hnext huses => exact hnext.yields h
  | handOver connection rest => exact h rest rfl
  | use _ connection hnext huses => exact hnext.yields h
  | giveUp _ connection a => exact h

namespace Watched

/-- Whatever happens, an operation answers with what its talk can come to, or with what ends it early. -/
theorem answer_of_yields {P : α → Prop} {n : Network ω} {s : Watched ω σ α} (hs : s.operation.stage.Yields P)
    (hrefuse : ∀ r, P (s.operation.refuse r)) (moments : List (Moment ω σ)) {a : α}
    (ha : (s.after n moments).answer? = some a) : P a := by
  have hyields : (s.after n moments).operation.stage.Yields P ∧ ∀ r, P ((s.after n moments).operation.refuse r) := by
    refine after_induction (I := fun s => s.operation.stage.Yields P ∧ ∀ r, P (s.operation.refuse r)) ?_
      ⟨hs, hrefuse⟩ moments
    rintro s moment ⟨hstage, hrefuse⟩
    cases moment with
    | step =>
      rcases s.next_step_cases n with heq | ⟨o, w, host, heq, hsame, hmoves⟩
      · rw [heq]
        exact ⟨hstage, hrefuse⟩
      · rw [heq, hsame]
        exact ⟨hstage.moves hrefuse hmoves, hrefuse⟩
    | fire | others => exact ⟨hstage, hrefuse⟩
  obtain ⟨hstage, -⟩ := hyields
  unfold answer? Operation.answer? at ha
  split at ha
  · rename_i hfinished
    cases ha
    rwa [hfinished] at hstage
  · cases ha

end Watched

/-! ## Interpreting a reply -/

theorem Value.equal_error_iff {v : Value} {e : AppError} : v.equal (.error e) = true ↔ v = .error e := by
  cases v <;> simp [equal]

/-- Whether a response is a reply that ends in an error. -/
def Response.endsWith (e : AppError) : Response → Bool
  | replied reply => reply.getLast?.any (·.equal (.error e))
  | _ => false

theorem Response.endsWith_iff {e : AppError} {r : Response} :
    r.endsWith e = true ↔ ∃ reply, r = .replied reply ∧ reply.getLast? = some (.error e) := by
  cases r with
  | replied reply =>
    unfold endsWith
    rw [Option.any_eq_true]
    simp only [Value.equal_error_iff]
    exact ⟨fun ⟨v, hv, heq⟩ => ⟨reply, rfl, heq ▸ hv⟩, fun ⟨_, heq, hlast⟩ => by cases heq; exact ⟨_, hlast, rfl⟩⟩
  | _ => exact iff_of_false Bool.false_ne_true fun ⟨_, heq, _⟩ => by cases heq

namespace Request

/-- What a call with places comes to for a reply, and what the places hold after it. A failure comes first, whatever
the lengths are; then as many values as places are asked for; and if there are, they are what the places hold. After
any error the places hold what they held. -/
structure Interprets (method : String) (places reply : List Value) (result : Except CallError Unit)
    (after : List Value) : Prop where
  application : ∀ e, result = .error (.application e) ↔ Fails reply e
  arity : ∀ name expected actual, result = .error (.arityMismatch name expected actual) ↔
    (∀ e, ¬Fails reply e) ∧ reply.length ≠ places.length ∧
      name = method ∧ expected = places.length ∧ actual = reply.length
  ok : result = .ok () ↔ (∀ e, ¬Fails reply e) ∧ reply.length = places.length
  filled : result = .ok () → after = reply
  untouched : ∀ e, result = .error e → after = places

theorem interprets_fillPlaces (method : String) (places reply : List Value) :
    ∃ result after, fillPlaces method places (.ok reply) = .called result after ∧
      Interprets method places reply result after := by
  by_cases hfails : ∃ e, Fails reply e
  · obtain ⟨e, he⟩ := hfails
    have hunique : ∀ e', Fails reply e' ↔ e = e' := by
      refine fun e' => ⟨fun he' => ?_, fun heq => heq ▸ he⟩
      have hlast := he.1.symm.trans he'.1
      cases hlast
      rfl
    refine ⟨_, _, fillPlaces_of_fails he, fun e' => ?_, fun _ _ _ => iff_of_false nofun fun h => h.1 e he,
      iff_of_false nofun fun h => h.1 e he, nofun, fun _ _ => rfl⟩
    rw [hunique, Except.error.injEq, CallError.application.injEq]
  · have hnone : ∀ e, ¬Fails reply e := fun e he => hfails ⟨e, he⟩
    have hfilled : fillPlaces method places (.ok reply) = _ := fillPlaces_of_not_fails hnone
    by_cases hlength : reply.length = places.length
    · rw [if_pos hlength] at hfilled
      exact ⟨_, _, hfilled, fun e => iff_of_false nofun (hnone e), fun _ _ _ => iff_of_false nofun fun h => h.2.1 hlength,
        iff_of_true rfl ⟨hnone, hlength⟩, fun _ => rfl, nofun⟩
    · rw [if_neg hlength] at hfilled
      refine ⟨_, _, hfilled, fun e => iff_of_false nofun (hnone e), fun name expected actual => ?_,
        iff_of_false nofun fun h => hlength h.2, nofun, fun _ _ => rfl⟩
      rw [Except.error.injEq, CallError.arityMismatch.injEq]
      exact ⟨fun h => ⟨hnone, hlength, h.1.symm, h.2.1.symm, h.2.2.symm⟩,
        fun h => ⟨h.2.2.1.symm, h.2.2.2.1.symm, h.2.2.2.2.symm⟩⟩

/-- What a call with places makes of the response to a request for the values. -/
def interpret (method : String) (places : List Value) : Response → Response
  | .replied reply => fillPlaces method places (.ok reply)
  | .refused e => fillPlaces method places (.error e)
  | r => r

/-- A call is the request for the values, interpreted. -/
theorem map_interpret (limit : Nat) (method : String) (inputs places : List Value) :
    ((values method inputs).callPlan (σ := σ) (valuesTalk limit method inputs)).map (interpret method places) =
      (call method inputs places).callPlan
        (replyTalk limit method inputs fun reply => fillPlaces method places (.ok reply)) := by
  have htalk : Exchange.mapTalk (interpret method places) (valuesTalk (σ := σ) limit method inputs).run =
      (replyTalk limit method inputs fun reply => fillPlaces method places (.ok reply)).run := by
    unfold Exchange.mapTalk Exchange.map valuesTalk replyTalk
    refine (Exchange.bind_assoc _ _ _).trans (congrArg (Exchange.bind _) (funext fun r => ?_))
    cases r <;> rfl
  unfold Plan.map callPlan
  exact congrArg (Plan.mk · _) htalk

/-- A request for the values answers with the values that the body of some record is read as, or is refused. -/
def FromRecord (r : Response) : Prop :=
  (∃ e, r = .refused e) ∨
    ∃ body reply, (Codec.list .value).decodeWhole body = .ok reply ∧ r = .replied reply

theorem yields_valuesTalk (limit : Nat) (method : String) (inputs : List Value) :
    (valuesTalk (σ := σ) limit method inputs).run.Yields
      fun r => ∀ rest, r = .ok rest → rest.Yields FromRecord := by
  have hreceived : (Attempt.receiveValue limit (.list .value) : Attempt σ (List Value)).run.Yields
      fun r => ∀ reply, r = .ok reply → ∃ body, (Codec.list .value).decodeWhole body = .ok reply := by
    rw [Attempt.run_receiveValue]
    rintro (f | body) reply h
    · cases h
    · exact ⟨body, h⟩
  have hsent : (Attempt.sendCall ⟨method, inputs⟩ : Attempt σ Unit).run.Yields fun r => ∀ u, r = .ok u → True :=
    Exchange.yields_of_forall _ fun _ _ _ => trivial
  refine Exchange.yields_talk (Exchange.yields_talk hsent fun _ _ => hreceived) fun reply ⟨body, hbody⟩ => ?_
  rintro _ ⟨⟩
  exact .inr ⟨body, reply, hbody, rfl⟩

/-- A call interprets its reply. If the class of the method is refused, so is the call, and nothing is done.
Otherwise, on every network, whatever others do, and whenever its token fires, the call does what the request for
the values of the reply does: it has no answer as long as that has none, it fails as that does, and with the values
of the reply it does as a caller with places. So whatever error it comes to, the places hold what they held. -/
theorem call_interprets_reply (c : Client) (method : String) (inputs places : List Value) :
    (∀ e, c.expectClass method .normal = .error e → ∀ {ω : Type} (w : RequestWorker ω σ) (token? : Option String),
      RequestWorker.start c ⟨.request (.call method inputs places), token?, false⟩ w =
        (.error (.response (.called (.error e) places)), w)) ∧
    (c.expectClass method .normal = .ok () → ∃ forValues forCall : Plan σ Response,
      (values method inputs).plan c = .ok forValues ∧ (call method inputs places).plan c = .ok forCall ∧
      ∀ {ω : Type} (n : Network ω) (w : ω) (host : σ) (cancelled : Bool) (moments : List (Moment ω σ)),
        let v := (Watched.start forValues w host cancelled).after n moments
        let s := (Watched.start forCall w host cancelled).after n moments
        s.world = v.world ∧ s.host = v.host ∧
        ((v.answer? = none ∧ s.answer? = none) ∨
          (∃ e, v.answer? = some (.refused e) ∧ s.answer? = some (.called (.error e) places)) ∨
          ∃ body reply result after, (Codec.list .value).decodeWhole body = .ok reply ∧
            v.answer? = some (.replied reply) ∧ s.answer? = some (.called result after) ∧
            Interprets method places reply result after) ∧
        ∀ a, s.answer? = some a → ∃ result after, a = .called result after ∧
          ∀ e, result = .error e → after = places) := by
  refine ⟨fun e he ω w token? => start_of_plan_error ((plan_eq_error_iff rfl).2 he) token?, fun hclass => ?_⟩
  have hknown := Client.expectClass_eq_ok.1 hclass
  refine ⟨_, _, plan_values hknown inputs, plan_call hknown inputs places, fun n w host cancelled moments => ?_⟩
  intro v s
  have hs : s = v.map (interpret method places) := by
    show Watched.after n (.start (callPlan _ (replyTalk _ _ _ _)) w host cancelled) moments = _
    rw [← map_interpret, Watched.start_map, Watched.after_map]
  have hanswer : s.answer? = v.answer?.map (interpret method places) := by
    rw [hs, Watched.answer?_map]
  have hcases : (v.answer? = none ∧ s.answer? = none) ∨
      (∃ e, v.answer? = some (.refused e) ∧ s.answer? = some (.called (.error e) places)) ∨
      ∃ body reply result after, (Codec.list .value).decodeWhole body = .ok reply ∧
        v.answer? = some (.replied reply) ∧ s.answer? = some (.called result after) ∧
        Interprets method places reply result after := by
    rw [hanswer]
    cases hv : v.answer? with
    | none => exact .inl ⟨rfl, rfl⟩
    | some r =>
      have hfrom : FromRecord r :=
        Watched.answer_of_yields (P := FromRecord)
          (s := .start (callPlan _ (valuesTalk c.recordLimit method inputs)) w host cancelled)
          (yields_valuesTalk c.recordLimit method inputs) (fun r => .inl ⟨r.toCallError, rfl⟩) moments hv
      obtain ⟨e, rfl⟩ | ⟨body, reply, hbody, rfl⟩ := hfrom
      · exact .inr (.inl ⟨e, rfl, rfl⟩)
      · obtain ⟨result, after, hcalled, hinterprets⟩ := interprets_fillPlaces method places reply
        exact .inr (.inr ⟨body, reply, result, after, hbody, rfl, congrArg some hcalled, hinterprets⟩)
  refine ⟨by rw [hs]; rfl, by rw [hs]; rfl, hcases, fun a ha => ?_⟩
  obtain ⟨-, hnone⟩ | ⟨e, -, hfailed⟩ | ⟨body, reply, result, after, -, -, hcalled, hinterprets⟩ := hcases
  · rw [hnone] at ha
    cases ha
  · rw [hfailed] at ha
    cases ha
    exact ⟨_, _, rfl, fun _ _ => rfl⟩
  · rw [hcalled] at ha
    cases ha
    exact ⟨_, _, rfl, hinterprets.untouched⟩

/-- A reply of two values to a caller with one place, whose last value is an error: the error is what the call comes
to, and the place holds what it held. -/
theorem call_interprets_reply_failed :
    let c : Client := ⟨SortedMap.empty.insert "a.b" .normal, 24⟩
    let net : Network ScriptedNet := ScriptedNet.network
    let w : ScriptedNet := .ofOffers [.ok (.ofSupply (.ofBytes
      [128, 0, 0, 24, 0, 0, 0, 2, 0, 0, 0, 0, 0, 0, 0, 10, 0, 0, 0, 1, 0, 0, 0, 1, 120, 0, 0, 0]))] none
    ∃ plan : Plan Unit Response, (call "a.b" [] [.int 7]).plan c = .ok plan ∧
      let s := (Watched.start plan w () false).after net (List.replicate 20 .step)
      s.answer? = some (.called (.error (.application ⟨some "x"⟩)) [.int 7]) := by
  intro c net w
  obtain ⟨-, hcall⟩ := call_interprets_reply (σ := Unit) c "a.b" [] [.int 7]
  have hknown : c.classOf? "a.b" = some .normal := SortedMap.find?_insert_self _ _ _
  obtain ⟨forValues, forCall, hvalues, hplan, hruns⟩ := hcall (Client.expectClass_eq_ok.2 hknown)
  refine ⟨forCall, hplan, ?_⟩
  intro s
  obtain ⟨-, -, hanswer, -⟩ := hruns net w () false (List.replicate 20 .step)
  rw [plan_values hknown] at hvalues
  cases hvalues
  have hreply : ((Watched.start (callPlan (values "a.b" []) (valuesTalk c.recordLimit "a.b" [])) w () false).after net
      (List.replicate 20 .step)).answer?.any (Response.endsWith ⟨some "x"⟩) = true := by decide +kernel
  obtain ⟨r, hr, hends⟩ := (Option.any_eq_true _ _).1 hreply
  obtain ⟨reply, rfl, hlast⟩ := Response.endsWith_iff.1 hends
  obtain ⟨hnone, -⟩ | ⟨e, hrefused, -⟩ | ⟨body, reply', result, after, -, hreplied, hs, hinterprets⟩ := hanswer
  · rw [hnone] at hr
    cases hr
  · rw [hrefused] at hr
    cases hr
  · rw [hreplied] at hr
    cases hr
    obtain rfl := (hinterprets.application _).2 ⟨hlast, rfl⟩
    obtain rfl := hinterprets.untouched _ rfl
    exact hs

end Request

end RemoteCall
