import RemoteCall.Proofs.Client.Steps
import RemoteCall.Proofs.Exchange.Receiving
/-!
# Operations that talk

An operation that talks makes the steps of its talk, so what the talk comes to on the connection that was dialed
is what the operation answers: `Operation.answers_of_leads`.
-/

namespace RemoteCall.Operation

open Exchange

variable {ω σ α : Type} {n : Network ω} {refuse : Refusal → α} {connection : Nat}
  {talk talk' : Exchange σ (Except Fault (Exchange σ α))} {w w' : ω} {host host' : σ}

theorem step_talking_none (hopen : talk.answer? = none) (h : talk.step (n.dialed connection) w host = none) :
    Operation.step n false ⟨.talking connection talk, refuse⟩ w host = none := by
  rw [step_talking hopen, h]
  rfl

theorem step_talking_some (hopen : talk.answer? = none)
    (h : talk.step (n.dialed connection) w host = some (talk', w', host')) :
    Operation.step n false ⟨.talking connection talk, refuse⟩ w host =
      some (⟨.talking connection talk', refuse⟩, w', host') := by
  rw [step_talking hopen, h]
  rfl

/-- The answer of an operation whose talk has ended, if its caller has nothing more to do. -/
def answerTo (refuse : Refusal → α) : Except Fault α → α
  | .ok a => a
  | .error f => refuse (.fault f)

/-- An operation whose talk comes to an end gives the answer, from wherever in its talk it is. -/
theorem run_talking {r : Except Fault α} {fuel : Nat}
    (h : talk.run (n.dialed connection) fuel w host = (.done (r.map .done), w', host')) :
    ∃ fuel', ∀ moved,
      (run n false fuel' ⟨.talking connection talk, refuse⟩ w host moved).1.answer? = some (answerTo refuse r) := by
  have hended : ∀ (w : ω) (host : σ), ∃ fuel', ∀ moved,
      (run n false fuel' ⟨.talking connection (.done (r.map .done)), refuse⟩ w host moved).1.answer? =
        some (answerTo refuse r) := by
    intro w host
    cases r with
    | error f => exact ⟨1, fun moved => rfl⟩
    | ok a => exact ⟨2, fun moved => rfl⟩
  -- the operation makes the steps of its talk, and one or two more to hand over and give up
  induction fuel generalizing talk w host with
  | zero =>
    cases h
    exact hended _ _
  | succ fuel ih =>
    rw [Exchange.run] at h
    cases hs : talk.step (n.dialed connection) w host with
    | none =>
      rw [hs] at h
      cases h
      exact hended _ _
    | some moved =>
      obtain ⟨talk₁, w₁, host₁⟩ := moved
      rw [hs] at h
      have hopen : talk.answer? = none := by
        cases talk with
        | done _ => cases hs
        | _ => rfl
      obtain ⟨fuel', hfuel⟩ := ih h
      refine ⟨fuel' + 1, fun moved => ?_⟩
      rw [run, step_talking_some hopen hs]
      exact hfuel true

/-- Where the dial gets through at once, the operation answers as its talk on the connection ends. -/
theorem answers_of_leads (plan : Plan σ α) {r : Except Fault α} {w₁ : ω}
    (hdial : n.pollDial (n.startDial w).1 (n.startDial w).2 = (.ready connection, w₁))
    (h : Leads (n.dialed connection) plan.talk.run w₁ host (.done (r.map .done)) w' host') :
    ∃ fuel, (run n false fuel (.start plan) w host false).1.answer? = some (answerTo plan.refuse r) := by
  obtain ⟨fuel, hrun⟩ := h
  obtain ⟨fuel', hfuel⟩ := run_talking hrun
  refine ⟨fuel' + 1 + 1, ?_⟩
  have hidle : Operation.step n false (.start plan) w host =
      some (⟨.dialing (n.startDial w).1 plan.talk, plan.refuse⟩, (n.startDial w).2, host) := rfl
  have hdialing : Operation.step n false ⟨.dialing (n.startDial w).1 plan.talk, plan.refuse⟩ (n.startDial w).2 host =
      some (⟨.talking connection plan.talk.run, plan.refuse⟩, w₁, host) := by
    simp only [Operation.step, hdial]
    rfl
  rw [run, hidle]
  show (run n false (fuel' + 1) _ _ _ true).1.answer? = _
  rw [run, hdialing]
  exact hfuel true

end RemoteCall.Operation
