import RemoteCall.Client.Operation
import RemoteCall.Proofs.Exchange.Steps
/-!
# What one step of an operation does

An operation dials, talks on the connection it got, hands over, and gives the connection up; or it is cancelled on
the way. `Operation.step_cases` says what each step does to the network.
-/

namespace RemoteCall.Operation

variable {σ ω α : Type}

/-- The steps of an operation, by the stage they start from, and what they do to the network. The token counts only
before anything is handed over. -/
inductive Moves (n : Network ω) (refuse : Refusal → α) : Bool → Stage σ α → ω → Stage σ α → ω → Prop
  | cancel (talk w) : Moves n refuse true (.idle talk) w (.finished (refuse .cancelled)) w
  | cancelDial (ticket talk w) :
    Moves n refuse true (.dialing ticket talk) w (.finished (refuse .cancelled)) (n.dropDial ticket w)
  | cancelTalk (connection talk w) :
    Moves n refuse true (.talking connection talk) w (.finished (refuse .cancelled))
      ((n.dialed connection).release w)
  | dial (talk w) : Moves n refuse false (.idle talk) w (.dialing (n.startDial w).1 talk) (n.startDial w).2
  | connect {ticket w connection w'} (talk) (h : n.pollDial ticket w = (.ready connection, w')) :
    Moves n refuse false (.dialing ticket talk) w (.talking connection talk.run) w'
  | dialFailed {ticket w f w'} (talk) (h : n.pollDial ticket w = (.failed f, w')) :
    Moves n refuse false (.dialing ticket talk) w (.finished (refuse (.fault f))) w'
  | talk (connection) {talk talk' w w'} (hnext : talk.Next talk') (huses : (n.dialed connection).Uses w w') :
    Moves n refuse false (.talking connection talk) w (.talking connection talk') w'
  | handOver (connection rest w) :
    Moves n refuse false (.talking connection (.done (.ok rest))) w (.returned connection rest) w
  | talkFailed (connection f w) :
    Moves n refuse false (.talking connection (.done (.error f))) w (.finished (refuse (.fault f)))
      ((n.dialed connection).release w)
  | use (cancelled connection) {rest rest' w w'} (hnext : rest.Next rest')
    (huses : (n.dialed connection).Uses w w') :
    Moves n refuse cancelled (.returned connection rest) w (.returned connection rest') w'
  | giveUp (cancelled connection a w) :
    Moves n refuse cancelled (.returned connection (.done a)) w (.finished a) ((n.dialed connection).release w)

variable {n : Network ω} {refuse : Refusal → α} {connection : Nat} {w w' : ω} {host host' : σ}

/-- An operation that is not done with its talk makes the steps of its talk. -/
theorem step_talking {talk : Exchange σ (Except Fault (Exchange σ α))} (hopen : talk.answer? = none) :
    Operation.step n false ⟨.talking connection talk, refuse⟩ w host =
      (talk.step (n.dialed connection) w host).map fun (talk, w, host) =>
        (⟨.talking connection talk, refuse⟩, w, host) := by
  cases talk with
  | done _ => cases hopen
  | _ => rfl

/-- A caller that is not done with the connection makes its own steps, and cancelling does not stop it. -/
theorem step_returned {cancelled : Bool} {rest : Exchange σ α} (hopen : rest.answer? = none) :
    Operation.step n cancelled ⟨.returned connection rest, refuse⟩ w host =
      (rest.step (n.dialed connection) w host).map fun (rest, w, host) =>
        (⟨.returned connection rest, refuse⟩, w, host) := by
  cases rest with
  | done _ => cases hopen
  | _ => cases cancelled <;> rfl

/-- The steps of an operation are these. -/
theorem step_cases {cancelled : Bool} {o o' : Operation σ α}
    (h : o.step n cancelled w host = some (o', w', host')) :
    o'.refuse = o.refuse ∧ Moves n o.refuse cancelled o.stage w o'.stage w' := by
  obtain ⟨stage, refuse⟩ := o
  cases stage with
  | idle talk =>
    cases cancelled <;> cases h
    · exact ⟨rfl, .dial talk w⟩
    · exact ⟨rfl, .cancel talk w⟩
  | dialing ticket talk =>
    cases cancelled with
    | true =>
      cases h
      exact ⟨rfl, .cancelDial ticket talk w⟩
    | false =>
      simp only [step, Bool.false_and, Bool.false_eq_true, if_false] at h
      split at h <;> cases h
      · exact ⟨rfl, .connect talk ‹_›⟩
      · exact ⟨rfl, .dialFailed talk ‹_›⟩
  | talking connection talk =>
    cases cancelled with
    | true =>
      cases h
      exact ⟨rfl, .cancelTalk connection talk w⟩
    | false =>
      cases hanswer : talk.answer? with
      | none =>
        rw [step_talking hanswer] at h
        obtain ⟨⟨talk', w'', host''⟩, hstep, heq⟩ := Option.map_eq_some_iff.1 h
        cases heq
        obtain ⟨hnext, huses⟩ := Exchange.step_cases hstep
        exact ⟨rfl, .talk connection hnext huses⟩
      | some r =>
        cases talk <;> cases hanswer
        cases r <;> cases h
        · exact ⟨rfl, .talkFailed connection _ w⟩
        · exact ⟨rfl, .handOver connection _ w⟩
  | returned connection rest =>
    cases hanswer : rest.answer? with
    | none =>
      rw [step_returned hanswer] at h
      obtain ⟨⟨rest', w'', host''⟩, hstep, heq⟩ := Option.map_eq_some_iff.1 h
      cases heq
      obtain ⟨hnext, huses⟩ := Exchange.step_cases hstep
      exact ⟨rfl, .use cancelled connection hnext huses⟩
    | some a =>
      cases rest <;> cases hanswer
      cases cancelled <;> cases h <;> exact ⟨rfl, .giveUp _ connection a w⟩
  | finished a =>
    cases cancelled <;> cases h

end RemoteCall.Operation
