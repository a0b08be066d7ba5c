import RemoteCall.Proofs.Server.Closing
/-!
# Where accept calls come to rest

A server rests when none of its calls can take a step and no listener has anything to give. The line is made of the
calls that wait for the lock or have it, and a server at rest whose line is not empty has an accept loop at its head,
with a token that is not cancelled. So cancelling ends an accept call unless it stands in line behind such a loop: a
call looks at its token only after it got the lock.
-/

namespace RemoteCall.ServerState

variable {s s' : ServerState} {i j : Nat}

/-! ## Who stands in line -/

/-- A call waits for the lock or has it. -/
def Contends (s : ServerState) (i : Nat) : Prop :=
  ∃ call p, s.calls[i]? = some (call, p) ∧ (p = .queued ∨ p = .accepting)

/-- The line is made of the calls that wait for the lock or have it. -/
def Lined (s : ServerState) : Prop := ∀ i, i ∈ s.line ↔ s.Contends i

theorem contends_setPhase_of_ne (p : ServerCall.Phase) (h : i ≠ j) :
    (s.setPhase i p).Contends j ↔ s.Contends j := by
  unfold Contends
  rw [calls_setPhase_of_ne s p h]

theorem contends_setPhase {p : ServerCall.Phase} {call : ServerCall} {q : ServerCall.Phase}
    (hcall : s.calls[i]? = some (call, q)) (hp : p = .queued ∨ p = .accepting) : (s.setPhase i p).Contends i := by
  refine ⟨call, p, ?_, hp⟩
  rw [calls_setPhase, if_pos rfl, hcall]
  rfl

theorem initial_lined : initial.Lined := by
  refine fun i => iff_of_false nofun ?_
  rintro ⟨call, p, hcall, -⟩
  cases hcall

/-- A call that was just made does not stand in line. -/
theorem Lined.begin (hs : s.Lined) (call : ServerCall) : (s.begin call).2.Lined := by
  intro i
  have hcalls : (s.calls.push (call, .called))[i]? = if i = s.calls.size then some (call, .called) else s.calls[i]? :=
    Array.getElem?_push
  rw [show (s.begin call).2.line = s.line from rfl, hs i]
  constructor
  · rintro ⟨call', p, hcall, hp⟩
    refine ⟨call', p, ?_, hp⟩
    have hne : i ≠ s.calls.size := Nat.ne_of_lt (Array.getElem?_eq_some_iff.1 hcall).1
    exact hcalls.trans ((if_neg hne).trans hcall)
  · rintro ⟨call', p, hcall, hp⟩
    have hcall := hcalls.symm.trans hcall
    split at hcall
    · cases hcall
      rcases hp with hp | hp <;> cases hp
    · exact ⟨call', p, hcall, hp⟩

theorem Lined.enter (hs : s.Lined) {call : ServerCall} (hcall : s.calls[i]? = some (call, .called)) :
    (s.enter i call).Lined := by
  intro j
  show j ∈ s.line ++ [i] ↔ (s.setPhase i .queued).Contends j
  by_cases hij : i = j
  · subst hij
    exact iff_of_true (by simp) (contends_setPhase hcall (.inl rfl))
  · rw [contends_setPhase_of_ne _ hij, ← hs j, List.mem_append, List.mem_singleton]
    exact or_iff_left (Ne.symm hij)

theorem Lined.finish (hs : s.Lined) (i : Nat) (r : Except Fault Unit) : (s.finish i r).Lined := by
  intro j
  show j ∈ s.line.filter (· != i) ↔ (s.setPhase i (.returned r)).Contends j
  rw [List.mem_filter]
  by_cases hij : i = j
  · subst hij
    refine iff_of_false (by simp) ?_
    rintro ⟨call, p, hcall, hp⟩
    cases (calls_setPhase_self hcall).1
    rcases hp with hp | hp <;> cases hp
  · rw [contends_setPhase_of_ne _ hij, ← hs j]
    exact and_iff_left (bne_iff_ne.2 (Ne.symm hij))

theorem Lined.accepting (hs : s.Lined) {token : Nat} (hcall : s.calls[i]? = some (.accept token, .queued)) :
    (s.setPhase i .accepting).Lined := by
  intro j
  show j ∈ s.line ↔ _
  by_cases hij : i = j
  · subst hij
    exact iff_of_true ((hs i).2 ⟨_, _, hcall, .inl rfl⟩) (contends_setPhase hcall (.inr rfl))
  · rw [contends_setPhase_of_ne _ hij, hs j]

theorem Lined.step (hs : s.Lined) {offer : Poll Nat} {d : Option Nat} (h : s.step i offer = some (s', d)) :
    s'.Lined := by
  rcases step_cases h with ⟨call, hcall, rfl, -⟩ | ⟨r, -, rfl, -⟩ | ⟨token, hcall, -, -, rfl, -⟩ | ⟨c, -, -, rfl, -⟩
  · exact hs.enter hcall
  · exact hs.finish i r
  · exact hs.accepting hcall
  · exact hs

namespace Watch

variable {w : Watch}

/-- What a loop makes of its listener's answer changes the line only if the loop returns. -/
theorem lined_move (hw : w.server.Lined) {answer : Poll Nat} {moved : Option (ServerState × Option Nat)}
    (h : w.server.Heeds i answer moved) : ((w.ask i answer).move i moved).server.Lined := by
  cases h with
  | dispatches c => exact hw
  | fails f => exact hw.finish i _
  | waits => exact hw

theorem lined_after (hw : w.server.Lined) (e : Event) : (w.after e).server.Lined := by
  cases e with
  | call call => exact hw.begin call
  | cancel token | shut => exact hw
  | step i answer =>
    unfold after
    simp only
    split
    · rename_i hasks
      exact lined_move hw (heeds_step hasks answer)
    · cases hstep : w.server.step i answer with
      | none => exact hw
      | some moved =>
        obtain ⟨server, _ | c⟩ := moved <;> exact Lined.step hw hstep
  | late i answer =>
    unfold after
    simp only
    split
    · rename_i token hcall
      exact lined_move hw (heeds_stepLate ⟨token, hcall⟩ answer)
    · exact hw

theorem lined_run (es : List Event) : (start.run es).server.Lined :=
  run_keeps (I := fun w => w.server.Lined) (fun _ e hw => lined_after hw e) initial_lined es

end Watch

/-! ## Servers at rest -/

/-- No call can take a step, and no listener has anything to give. -/
def Rests (s : ServerState) : Prop := ∀ i, s.step i .pending = none

/-- At rest, whoever is first in line runs an accept loop with a token that is not cancelled, on a server that was not
shut down: everyone else who gets the lock can go on. -/
theorem Rests.first (h : s.Rests) (hs : s.Lined) (hfirst : s.line.head? = some i) :
    s.shutdown = false ∧ ∃ token, s.calls[i]? = some (.accept token, .accepting) ∧ token ∉ s.cancelled := by
  obtain ⟨call, p, hcall, hp⟩ := (hs i).1 (List.mem_of_head? hfirst)
  have hnext : s.isNext i = true := by simp [isNext, hfirst]
  have hnone := h i
  unfold step at hnone
  cases call with
  | close => rcases hp with rfl | rfl <;> simp [hcall, hnext] at hnone
  | accept token =>
    rcases hp with rfl | rfl
    · simp only [hcall, hnext, if_true] at hnone
      split at hnone <;> cases hnone
    · simp only [hcall] at hnone
      split at hnone
      · cases hnone
      · rename_i hgoes
        simp only [Bool.or_eq_true, not_or, List.contains_iff_mem, Bool.not_eq_true] at hgoes
        exact ⟨hgoes.1, token, hcall, hgoes.2⟩

/-- At rest, a call has returned or stands in line. -/
theorem Rests.returned_or_mem (h : s.Rests) (hs : s.Lined) {call : ServerCall} {p : ServerCall.Phase}
    (hcall : s.calls[i]? = some (call, p)) : (∃ r, p = .returned r) ∨ i ∈ s.line := by
  cases p with
  | called =>
    have hnone := h i
    simp [step, hcall] at hnone
  | queued => exact .inr ((hs i).2 ⟨call, _, hcall, .inl rfl⟩)
  | accepting => exact .inr ((hs i).2 ⟨call, _, hcall, .inr rfl⟩)
  | returned r => exact .inl ⟨r, rfl⟩

/-- A cancelled accept call that comes to the lock returns without an error, in two steps at most, and whatever its
listener has to give is left alone. -/
theorem cancelled_returns {token : Nat} (hcall : s.calls[i]? = some (.accept token, .queued))
    (hnext : s.isNext i = true) (hcancelled : token ∈ s.cancelled) (first second : Poll Nat) :
    ∃ s', s.step i first = some (s', none) ∧
      (s' = s.finish i (.ok ()) ∨ s'.step i second = some (s'.finish i (.ok ()), none)) := by
  cases hshutdown : s.shutdown with
  | true => exact ⟨s.finish i (.ok ()), by simp [step, hcall, hnext, hshutdown], .inl rfl⟩
  | false =>
    refine ⟨s.setPhase i .accepting, by simp [step, hcall, hnext, hshutdown], .inr ?_⟩
    have hcall' : (s.setPhase i .accepting).calls[i]? = some (.accept token, .accepting) := by
      rw [calls_setPhase, if_pos rfl, hcall]
      rfl
    have hcontains : (s.setPhase i .accepting).cancelled.contains token = true := List.contains_iff_mem.2 hcancelled
    simp only [step, hcall', hcontains, Bool.or_true, if_true]

namespace Watch

/-- Whatever happened to a server that is at rest: if it was shut down, all its calls have returned. And an accept call
whose token is cancelled has returned, or it has not got the lock yet, as it stands in line behind an accept loop with a
token that is not cancelled, on a server that was not shut down. -/
theorem cancelled_at_rest (before : List Event) (hrests : (start.run before).server.Rests) :
    let s := (start.run before).server
    (s.shutdown = true → ∀ (i : Nat) (call : ServerCall) (p : ServerCall.Phase), s.calls[i]? = some (call, p) →
      ∃ r, p = .returned r) ∧
    ∀ (i token : Nat) (p : ServerCall.Phase), s.calls[i]? = some (.accept token, p) → token ∈ s.cancelled →
      (∃ r, p = .returned r) ∨
      (p = .queued ∧ s.shutdown = false ∧
        ∃ j other, s.line.head? = some j ∧ s.calls[j]? = some (.accept other, .accepting) ∧ other ∉ s.cancelled) := by
  intro s
  have hlined : s.Lined := lined_run before
  have horderly : s.Orderly := (start_sound.run before).orderly
  have hhead : ∀ i ∈ s.line, ∃ j, s.line.head? = some j := fun i hi =>
    ⟨_, List.head?_eq_some_head (List.ne_nil_of_mem hi)⟩
  constructor
  · intro hshutdown i call p hcall
    refine (hrests.returned_or_mem hlined hcall).resolve_right fun hi => ?_
    obtain ⟨j, hj⟩ := hhead i hi
    have hopen := (hrests.first hlined hj).1
    rw [hshutdown] at hopen
    cases hopen
  · intro i token p hcall hcancelled
    refine (hrests.returned_or_mem hlined hcall).imp id fun hi => ?_
    obtain ⟨j, hj⟩ := hhead i hi
    obtain ⟨hopen, other, hother, hgoes⟩ := hrests.first hlined hj
    obtain ⟨call, q, hcall', hq⟩ := (hlined i).1 hi
    rw [hcall] at hcall'
    cases hcall'
    refine ⟨hq.resolve_right ?_, hopen, j, other, hj, hother, hgoes⟩
    rintro rfl
    -- only the first in line accepts, and its token is not cancelled
    cases horderly.unique ⟨token, hcall⟩ ⟨other, hother⟩
    rw [hcall] at hother
    cases hother
    exact hgoes hcancelled

/-- Two accept calls with tokens of their own. The second stands in line behind the loop of the first when its token
is cancelled, and the server rests like that: the call does not return, and nothing can move without the first. -/
theorem cancelled_accept_waits :
    let s := (start.run [.call (.accept 0), .step 0 .pending, .step 0 .pending, .call (.accept 1), .step 1 .pending,
      .cancel 1]).server
    s.Rests ∧ s.calls[1]? = some (.accept 1, .queued) ∧ 1 ∈ s.cancelled ∧ s.result? 1 = none := by
  refine ⟨fun i => ?_, rfl, .head _, rfl⟩
  match i with
  | 0 | 1 | _ + 2 => rfl

end Watch

end RemoteCall.ServerState
