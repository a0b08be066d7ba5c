import RemoteCall.Proofs.Call.Normal
/-!
# Calls of methods that fail

A method that fails is answered with its error as the only value of the reply, and a caller takes a reply
that ends in an error for a failure, but not if the error is nil: that is how methods with several outputs
say that there was none. So an error that is nil does not get through as one, and where one value is expected
the call succeeds. A method comes to such an error without meaning to when it reads its arguments as native
types: a nil error among them fails the reading with itself.
-/

namespace RemoteCall

variable {σ : Type}

/-! ## What a caller makes of a reply -/

/-- As many values as places: the places hold just the values then. -/
theorem Client.assign_eq {places values : List Value} (h : values.length = places.length) :
    assign places values = values := by
  induction places generalizing values with
  | nil =>
    rw [List.eq_nil_of_length_eq_zero h]
    rfl
  | cons place places ih =>
    cases values with
    | nil => cases h
    | cons v values => rw [assign, ih (Nat.succ.inj h)]

namespace Request

variable {method : String} {places reply : List Value} {e : AppError}

/-- Whether a reply tells of a failure: it ends in an error that is not nil. -/
def Fails (reply : List Value) (e : AppError) : Prop := reply.getLast? = some (.error e) ∧ e.isNil = false

theorem failure?_eq_some_iff : Client.failure? reply = some e ↔ Fails reply e := by
  unfold Client.failure? Fails
  split
  · rename_i e' hlast
    rw [hlast]
    by_cases hnil : e'.isNil = true
    · rw [if_pos hnil]
      refine iff_of_false nofun ?_
      rintro ⟨⟨⟩, hnot⟩
      rw [hnil] at hnot
      cases hnot
    · rw [if_neg hnil]
      constructor
      · rintro ⟨⟩
        exact ⟨rfl, Bool.eq_false_iff.2 hnil⟩
      · rintro ⟨⟨⟩, -⟩
        rfl
  · rename_i hlast
    exact iff_of_false nofun fun h => hlast e h.1

/-- A failure is all that a caller makes of a reply that tells of one, and it leaves the places as they are. -/
theorem fillPlaces_of_fails (h : Fails reply e) :
    fillPlaces method places (.ok reply) = .called (.error (.application e)) places := by
  simp only [fillPlaces, Client.fill, MonadExcept.ofExcept, pure_bind, failure?_eq_some_iff.2 h]
  rfl

/-- Otherwise the number of values decides: as many as there are places are what they hold then, and any other
number leaves the places as they are. -/
theorem fillPlaces_of_not_fails (h : ∀ e, ¬Fails reply e) :
    fillPlaces method places (.ok reply) =
      if reply.length = places.length then .called (.ok ()) reply
      else .called (.error (.arityMismatch method places.length reply.length)) places := by
  have hnone : Client.failure? reply = none :=
    Option.eq_none_iff_forall_ne_some.2 fun e he => h e (failure?_eq_some_iff.1 he)
  have hrun : (Client.fill method (.ok reply)).run.run places =
      if reply.length = places.length then (.ok (), Client.assign places reply)
      else (.error (.arityMismatch method places.length reply.length), places) := by
    simp only [Client.fill, MonadExcept.ofExcept, pure_bind, hnone]
    -- the places are still as they were when they are counted
    show (ite (reply.length = places.length) _ _ : ExceptT CallError (StateM (List Value)) Unit) places = _
    by_cases hlength : reply.length = places.length
    · rw [if_pos hlength, if_pos hlength]
      rfl
    · rw [if_neg hlength, if_neg hlength]
      rfl
  unfold fillPlaces
  rw [hrun]
  by_cases hlength : reply.length = places.length
  · rw [if_pos hlength, if_pos hlength, Client.assign_eq hlength]
  · rw [if_neg hlength, if_neg hlength]

/-- What a caller with places makes of an error alone. Only where one value is expected a nil error gets into the
place, and for no error. -/
def failure (method : String) (places : List Value) (e : AppError) : Response :=
  if e.isNil then
    if places.length = 1 then .called (.ok ()) [.error e]
    else .called (.error (.arityMismatch method places.length 1)) places
  else .called (.error (.application e)) places

theorem fillPlaces_error (method : String) (places : List Value) (e : AppError) :
    fillPlaces method places (.ok [.error e]) = failure method places e := by
  unfold failure
  by_cases hnil : e.isNil = true
  · have hnone : ∀ e', ¬Fails [.error e] e' := by
      rintro e' ⟨hlast, hne⟩
      cases hlast
      rw [hnil] at hne
      cases hne
    rw [fillPlaces_of_not_fails hnone, if_pos hnil, List.length_singleton]
    simp only [eq_comm]
  · rw [fillPlaces_of_fails ⟨rfl, Bool.eq_false_iff.2 hnil⟩, if_neg hnil]

theorem plan_call {c : Client} (h : c.classOf? method = some .normal) (inputs places : List Value) :
    (call method inputs places).plan c =
      .ok (callPlan (σ := σ) (call method inputs places)
        (replyTalk c.recordLimit method inputs fun reply => fillPlaces method places (.ok reply))) := by
  simp only [plan, Client.callValues, expectClass_normal h]
  rfl

end Request

/-! ## Calls on a link -/

namespace Link

open Serving (replyValues)

variable {capacity : Nat} {settings : Settings σ} {method : String} {m : Method σ}
  {f : Arguments → Except AppError (List Value)} {note : Arguments → σ → σ} {inputs : List Value}
  {name args reply : Bytes}

/-- A client calls a normal method that fails on the inputs. If all values fit, the call comes to the error
of the method, and leaves the places as they are; but if the error is nil, then the call succeeds where one
value is expected, with the nil error in its place, and is refused for the number of values elsewhere. If the
server cannot take the inputs or the name, the call is refused, and leaves the places as they are. -/
theorem failed_call (hcapacity : 0 < capacity) (most : Nat → Nat) (most_pos : ∀ k, 0 < most k)
    (settings : Settings σ) (replyLimit : Nat) (host : σ) (places : List Value)
    (hmethod : settings.registry.get? method = some m) (hhandler : m.handler = .ofFunction f note)
    {e : AppError} (hfails : f ⟨inputs⟩ = .error e)
    (hname : (Codec.text.encode method).toExcept = .ok name)
    (hargs : ((Codec.list .value).encode inputs).toExcept = .ok args) :
    ∃ plan, (Request.call method inputs places).plan ⟨settings.registry.capabilities, replyLimit⟩ = .ok plan ∧
      let start := opening settings (ofCapacity capacity most most_pos) host plan
      (∀ reply, (∀ v ∈ inputs, v.depth ≤ 64) → name.length ≤ settings.recordLimit →
        args.length ≤ settings.recordLimit → ((Codec.list .value).encode [.error e]).toExcept = .ok reply →
        reply.length ≤ replyLimit → Settles start (Request.failure method places e) host (note ⟨inputs⟩)) ∧
      ((∃ v ∈ inputs, 64 < v.depth) ∨ settings.recordLimit < name.length ∨
        settings.recordLimit < args.length →
        start.Always (fun s => ∀ r, s.answer? 0 = some r → ∃ e, r = .called (.error e) places) ∧
        start.Reaches fun s => ∃ e, s.answer? 0 = some (.called (.error e) places)) := by
  refine ⟨_, Request.plan_call (classOf?_normal hmethod hhandler replyLimit) inputs places, ?_, ?_⟩
  · intro reply hinputs hnameLimit hargsLimit hreply hreplyLimit
    have hvalues : ∀ v ∈ replyValues (f ⟨inputs⟩), v.depth ≤ 64 := by
      rw [hfails]
      intro v hv
      rw [List.mem_singleton.1 hv]
      exact Nat.zero_le 64
    have hencode : ((Codec.list .value).encode (replyValues (f ⟨inputs⟩))).toExcept = .ok reply := by
      rw [hfails]
      exact hreply
    obtain ⟨bound, hstart⟩ := answered_calling hcapacity most most_pos (.call method inputs places) replyLimit host
      (fun reply => Request.fillPlaces method places (.ok reply)) hmethod hhandler hname hargs hencode hinputs
      hvalues hnameLimit hargsLimit hreplyLimit
    have hanswer : Request.fillPlaces method places (.ok (replyValues (f ⟨inputs⟩))) =
        Request.failure method places e := by
      rw [hfails]
      exact Request.fillPlaces_error method places e
    rw [hanswer] at hstart
    exact ⟨System.always_of_lowers Answered.advance hstart Answered.sound,
      System.reaches_of_lowers Answered.advance hstart Answered.complete⟩
  · intro hrefused
    obtain ⟨bound, hstart⟩ := refused_calling hcapacity most most_pos (.call method inputs places) replyLimit host
      (fun reply => Request.fillPlaces method places (.ok reply)) hmethod hname hargs hrefused
    refine ⟨System.always_of_lowers Refused.advance hstart fun hs => ?_,
      System.reaches_of_lowers Refused.advance hstart fun hs hrest => ?_⟩
    · intro r hr
      obtain ⟨-, -, -, hanswer⟩ := hs.sound
      obtain ⟨fault, rfl⟩ := hanswer r hr
      exact ⟨_, rfl⟩
    · obtain ⟨fault, hanswer⟩ := hs.complete hrest
      exact ⟨_, hanswer⟩

/-- A method under a name of three letters, alone in its registry. -/
def alone (f : Arguments → Except AppError (List Value)) : Settings Nat where
  registry := ⟨SortedMap.empty.insert "a.b" ⟨"a.b", .ofFunction f fun _ calls => calls + 1⟩⟩
  recordLimit := 12
  copyBuffer := 1
  copyBuffer_pos := Nat.one_pos

theorem alone_get? (f : Arguments → Except AppError (List Value)) :
    (alone f).registry.get? "a.b" = some ⟨"a.b", .ofFunction f fun _ calls => calls + 1⟩ :=
  SortedMap.find?_insert_self _ _ _

/-- One byte at a time, a method that fails with a nil error fails for a caller with two places. -/
theorem failed_call_two_places :
    let settings := alone fun _ => .error .nil
    ∃ plan, (Request.call "a.b" [.error .nil] [.nil, .nil]).plan ⟨settings.registry.capabilities, 12⟩ =
        .ok plan ∧
      (opening settings (ofCapacity 1 (fun _ => 1) fun _ => Nat.one_pos) 0 plan).Reaches fun s =>
        s.answer? 0 = some (.called (.error (.arityMismatch "a.b" 2 1)) [.nil, .nil]) ∧ s.host = 1 := by
  intro settings
  obtain ⟨plan, hplan, hanswered, -⟩ := failed_call Nat.one_pos (fun _ => 1) (fun _ => Nat.one_pos) settings
    12 0 [.nil, .nil] (f := fun _ => .error .nil) (alone_get? _) rfl (e := .nil) rfl Codec.encode_text_ab
    Codec.encode_list_nil_error
  exact ⟨plan, hplan,
    (hanswered _ (by decide) (by decide) (by decide) Codec.encode_list_nil_error (by decide)).reaches⟩

/-- A method that reads its argument as an integer, and is given a nil error, fails; the call of it succeeds,
with the nil error in place of what was there. -/
theorem failed_call_succeeds :
    let negate (args : Arguments) : Except AppError (List Value) := do
      let (n, ()) ← args.parse (.next (α := Int64) .none)
      return [toValue (-n)]
    let settings := alone negate
    negate ⟨[.error .nil]⟩ = .error .nil ∧
    ∃ plan, (Request.call "a.b" [.error .nil] [.int 7]).plan ⟨settings.registry.capabilities, 12⟩ = .ok plan ∧
      (opening settings (ofCapacity 1 (fun _ => 1) fun _ => Nat.one_pos) 0 plan).Reaches fun s =>
        s.answer? 0 = some (.called (.ok ()) [.error .nil]) ∧ s.host = 1 := by
  intro negate settings
  have hfails : negate ⟨[.error .nil]⟩ = .error .nil := rfl
  refine ⟨hfails, _, Request.plan_call (classOf?_normal (alone_get? negate) rfl 12) _ _, ?_⟩
  have hreply : ((Codec.list .value).encode (replyValues (negate ⟨[.error .nil]⟩))).toExcept =
      .ok [0, 0, 0, 1, 0, 0, 0, 10, 0, 0, 0, 0] := Codec.encode_list_nil_error
  obtain ⟨bound, hstart⟩ := answered_calling Nat.one_pos (fun _ => 1) (fun _ => Nat.one_pos)
    (.call "a.b" [.error .nil] [.int 7]) 12 0 (fun reply => Request.fillPlaces "a.b" [.int 7] (.ok reply))
    (alone_get? negate) rfl Codec.encode_text_ab Codec.encode_list_nil_error hreply (by decide) (by decide) (by decide) (by decide)
    (by decide)
  exact System.reaches_of_lowers Answered.advance hstart Answered.complete

end Link

end RemoteCall
