import RemoteCall.Server
/-!
# How calls on a server go on

A call on a server gets in line for the lock, has the lock, and returns. What a step can do is said once, in
`step_cases`, and from it how the phase of a call can change, in `Passes`: no call goes back, and an accept call that
comes to the lock after the server was shut down returns without having accepted.

A step looks at the tokens and asks the listener at once. Where calls run side by side, a token may be cancelled
between the one and the other; `stepLate` is for this.
-/

namespace RemoteCall

namespace ServerState

/-! ## Calls by their phases -/

/-- A call is an accept loop: it holds the lock, and takes connections from its listener. -/
def Accepts (s : ServerState) (i : Nat) : Prop := ∃ token, s.calls[i]? = some (.accept token, .accepting)

section Phases

variable {s : ServerState} {i j : Nat}

theorem calls_setPhase (s : ServerState) (i : Nat) (p : ServerCall.Phase) (j : Nat) :
    (s.setPhase i p).calls[j]? = if i = j then s.calls[j]?.map (fun c => (c.1, p)) else s.calls[j]? :=
  Array.getElem?_modify

theorem calls_setPhase_of_ne (s : ServerState) (p : ServerCall.Phase) (h : i ≠ j) :
    (s.setPhase i p).calls[j]? = s.calls[j]? := by
  rw [calls_setPhase, if_neg h]

/-- A call whose phase was set has that phase. -/
theorem calls_setPhase_self {p q : ServerCall.Phase} {call : ServerCall}
    (h : (s.setPhase i p).calls[i]? = some (call, q)) : q = p ∧ ∃ q', s.calls[i]? = some (call, q') := by
  rw [calls_setPhase, if_pos rfl, Option.map_eq_some_iff] at h
  obtain ⟨⟨call', q'⟩, hcall, heq⟩ := h
  cases heq
  exact ⟨rfl, q', hcall⟩

theorem accepts_setPhase {p : ServerCall.Phase} (h : (s.setPhase i p).Accepts j) :
    j = i ∧ p = .accepting ∨ j ≠ i ∧ s.Accepts j := by
  obtain ⟨token, h⟩ := h
  by_cases hij : i = j
  · subst hij
    exact .inl ⟨rfl, (calls_setPhase_self h).1.symm⟩
  · rw [calls_setPhase_of_ne s p hij] at h
    exact .inr ⟨Ne.symm hij, token, h⟩

theorem accepts_enter {call : ServerCall} (h : (s.enter i call).Accepts j) : s.Accepts j := by
  rcases accepts_setPhase (p := .queued) h with ⟨-, hp⟩ | ⟨-, h⟩
  · cases hp
  · exact h

theorem accepts_finish {r : Except Fault Unit} (h : (s.finish i r).Accepts j) : j ≠ i ∧ s.Accepts j := by
  rcases accepts_setPhase (p := .returned r) h with ⟨-, hp⟩ | h
  · cases hp
  · exact h

end Phases

/-! ## What a step does -/

variable {s s' : ServerState} {i j : Nat} {offer : Poll Nat}

/-- Why a call returns. -/
inductive Returns (s : ServerState) (i : Nat) (offer : Poll Nat) : Except Fault Unit → Prop
  /-- A close call has got the lock. -/
  | closed {p} (hcall : s.calls[i]? = some (.close, p)) (hcalled : p ≠ .called) (hnext : s.isNext i = true) :
    Returns s i offer (.ok ())
  /-- An accept call got the lock too late. -/
  | late {token} (hcall : s.calls[i]? = some (.accept token, .queued)) (hnext : s.isNext i = true)
    (hshutdown : s.shutdown = true) : Returns s i offer (.ok ())
  /-- An accept loop has found the server shut down or its token cancelled. -/
  | stopped (haccepts : s.Accepts i) (hasks : s.asksListener i = false) : Returns s i offer (.ok ())
  | failed {f} (hasks : s.asksListener i = true) (hoffer : offer = .failed f) : Returns s i offer (.error f)

theorem Accepts.of_asksListener (h : s.asksListener i = true) : s.Accepts i := by
  unfold asksListener at h
  split at h
  · rename_i token hcall
    exact ⟨token, hcall⟩
  · cases h

/-- What a loop makes of an answer of its listener. -/
inductive Heeds (s : ServerState) (i : Nat) : Poll Nat → Option (ServerState × Option Nat) → Prop
  | dispatches (c : Nat) : Heeds s i (.ready c) (some (s, some c))
  | fails (f : Fault) : Heeds s i (.failed f) (some (s.finish i (.error f), none))
  | waits : Heeds s i .pending none

theorem heeds_step (h : s.asksListener i = true) (offer : Poll Nat) : s.Heeds i offer (s.step i offer) := by
  unfold asksListener at h
  split at h
  · rename_i token hcall
    have hgo : (s.shutdown || s.cancelled.contains token) = false := by
      rw [← Bool.not_or] at h
      simpa using h
    unfold step
    simp only [hcall, hgo, Bool.false_eq_true, if_false]
    cases offer with
    | ready c => exact .dispatches c
    | failed f => exact .fails f
    | pending => exact .waits
  · cases h

/-- What a step of a call does: the call gets in line for the lock, or returns, or begins to accept, or
dispatches what its listener gave. -/
theorem step_cases {d : Option Nat} (h : s.step i offer = some (s', d)) :
    (∃ call, s.calls[i]? = some (call, .called) ∧ s' = s.enter i call ∧ d = none) ∨
    (∃ r, s.Returns i offer r ∧ s' = s.finish i r ∧ d = none) ∨
    (∃ token, s.calls[i]? = some (.accept token, .queued) ∧ s.isNext i = true ∧ s.shutdown = false ∧
      s' = s.setPhase i .accepting ∧ d = none) ∨
    (∃ c, s.asksListener i = true ∧ offer = .ready c ∧ s' = s ∧ d = some c) := by
  by_cases hasks : s.asksListener i = true
  · have hheeds := heeds_step hasks offer
    rw [h] at hheeds
    cases hheeds with
    | dispatches c => exact .inr (.inr (.inr ⟨c, hasks, rfl, rfl, rfl⟩))
    | fails f => exact .inr (.inl ⟨_, .failed hasks rfl, rfl, rfl⟩)
  · unfold step at h
    split at h
    · cases h
    · cases h
    · rename_i call hcall
      cases h
      exact .inl ⟨call, hcall, rfl, rfl⟩
    · rename_i p hreturned hcalled hcall
      split at h
      · rename_i hnext
        cases h
        exact .inr (.inl ⟨_, .closed hcall (by rintro rfl; exact hcalled rfl) hnext, rfl, rfl⟩)
      · cases h
    · rename_i token hcall
      split at h
      · rename_i hnext
        split at h
        · rename_i hshutdown
          cases h
          exact .inr (.inl ⟨_, .late hcall hnext hshutdown, rfl, rfl⟩)
        · rename_i hopen
          cases h
          exact .inr (.inr (.inl ⟨token, hcall, hnext, Bool.eq_false_iff.2 hopen, rfl, rfl⟩))
      · cases h
    · rename_i token hcall
      have hstop : (s.shutdown || s.cancelled.contains token) = true := by
        simpa only [asksListener, hcall, ← Bool.not_or, Bool.not_eq_true', Bool.not_eq_false] using hasks
      rw [if_pos hstop] at h
      cases h
      exact .inr (.inl ⟨_, .stopped ⟨token, hcall⟩ (Bool.eq_false_iff.2 hasks), rfl, rfl⟩)

/-- Only a loop that asks its listener dispatches. -/
theorem asksListener_of_dispatches {c : Nat} (h : s.step i offer = some (s', some c)) : s.asksListener i = true := by
  rcases step_cases h with ⟨_, _, _, hd⟩ | ⟨_, _, _, hd⟩ | ⟨_, _, _, _, _, hd⟩ | ⟨_, hasks, _⟩
  · cases hd
  · cases hd
  · cases hd
  · exact hasks

/-- A step that does not know of any cancelled token. -/
def stepLate (s : ServerState) (i : Nat) (offer : Poll Nat) : Option (ServerState × Option Nat) :=
  (ServerState.step { s with shutdown := false, cancelled := [] } i offer).map fun (s', d) =>
    ({ s' with shutdown := s.shutdown, cancelled := s.cancelled }, d)

theorem heeds_stepLate (h : s.Accepts i) (offer : Poll Nat) : s.Heeds i offer (s.stepLate i offer) := by
  obtain ⟨token, hcall⟩ := h
  have hasks : ServerState.asksListener { s with shutdown := false, cancelled := [] } i = true := by
    simp only [asksListener, hcall]
    rfl
  have hheeds := heeds_step hasks offer
  unfold stepLate
  generalize step _ i offer = moved at hheeds
  cases hheeds with
  | dispatches c => exact .dispatches c
  | fails f => exact .fails f
  | waits => exact .waits

/-! ## How phases change -/

/-- How the phase of a call can change. -/
inductive Passes (s : ServerState) : ServerCall → ServerCall.Phase → ServerCall.Phase → Prop
  | stays (call p) : Passes s call p p
  | enters (call) : Passes s call .called .queued
  | misses (token) : Passes s (.accept token) .queued (.returned (.ok ()))
  | begins (token) (hopen : s.shutdown = false) : Passes s (.accept token) .queued .accepting
  | ends (token r) : Passes s (.accept token) .accepting (.returned r)
  | closes (p) : Passes s .close p (.returned (.ok ()))

/-- No call goes back, and a server that was shut down stays so. -/
structure Moves (s s' : ServerState) : Prop where
  shutdown : s.shutdown = true → s'.shutdown = true
  calls : ∀ (i : Nat) (call : ServerCall) (p : ServerCall.Phase), s.calls[i]? = some (call, p) →
    ∃ q, s'.calls[i]? = some (call, q) ∧ s.Passes call p q

theorem Moves.refl (s : ServerState) : s.Moves s := ⟨id, fun _ call p h => ⟨p, h, .stays call p⟩⟩

/-- The phase of one call changes. -/
theorem Moves.of_setPhase {call : ServerCall} {p q : ServerCall.Phase} (hcall : s.calls[i]? = some (call, p))
    (hpasses : s.Passes call p q) (hshutdown : s.shutdown = true → s'.shutdown = true)
    (hcalls : s'.calls = (s.setPhase i q).calls) : s.Moves s' := by
  refine ⟨hshutdown, fun j call' p' h => ?_⟩
  rw [hcalls, calls_setPhase]
  split
  · rename_i hij
    subst hij
    rw [hcall] at h
    cases h
    exact ⟨q, by rw [hcall]; rfl, hpasses⟩
  · exact ⟨p', h, .stays call' p'⟩

theorem begin_moves (s : ServerState) (call : ServerCall) : s.Moves (s.begin call).2 := by
  refine ⟨id, fun j call' p h => ⟨p, ?_, .stays call' p⟩⟩
  have hlt := (Array.getElem?_eq_some_iff.1 h).1
  show (s.calls.push (call, .called))[j]? = _
  rw [Array.getElem?_push, if_neg (Nat.ne_of_lt hlt), h]

theorem Accepts.moves_finish (h : s.Accepts i) (r : Except Fault Unit) : s.Moves (s.finish i r) := by
  obtain ⟨token, hcall⟩ := h
  exact .of_setPhase hcall (.ends token r) id rfl

theorem Returns.moves {r : Except Fault Unit} (h : s.Returns i offer r) : s.Moves (s.finish i r) := by
  cases h with
  | closed hcall _ _ => exact .of_setPhase hcall (.closes _) id rfl
  | late hcall _ _ => exact .of_setPhase hcall (.misses _) id rfl
  | stopped haccepts _ => exact haccepts.moves_finish _
  | failed hasks _ => exact (Accepts.of_asksListener hasks).moves_finish _

theorem step_moves {d : Option Nat} (h : s.step i offer = some (s', d)) : s.Moves s' := by
  rcases step_cases h with ⟨call, hcall, rfl, -⟩ | ⟨r, hreturns, rfl, -⟩ | ⟨token, hcall, -, hopen, rfl, -⟩ |
    ⟨c, -, -, rfl, -⟩
  · have hshutdown : s.shutdown = true → (s.enter i call).shutdown = true := by
      intro h
      show (s.shutdown || call == .close) = true
      rw [h, Bool.true_or]
    exact .of_setPhase hcall (.enters call) hshutdown rfl
  · exact hreturns.moves
  · exact .of_setPhase hcall (.begins token hopen) id rfl
  · exact .refl _

/-- A close call has returned. -/
def Closed (s : ServerState) : Prop :=
  ∃ (i : Nat) (r : Except Fault Unit), s.calls[i]? = some (.close, .returned r)

/-- An accept call has or had the lock before the server was shut down. -/
def Ran (s : ServerState) (i : Nat) : Prop :=
  ∃ token p, s.calls[i]? = some (.accept token, p) ∧ p ≠ .called ∧ p ≠ .queued

/-- The server was shut down before an accept call got the lock; the call has not returned an error. -/
def Barred (s : ServerState) (i : Nat) : Prop :=
  s.shutdown = true ∧
    ∃ token p, s.calls[i]? = some (.accept token, p) ∧ (p = .called ∨ p = .queued ∨ p = .returned (.ok ()))

theorem Accepts.ran (h : s.Accepts i) : s.Ran i := by
  obtain ⟨token, hcall⟩ := h
  exact ⟨token, .accepting, hcall, by simp, by simp⟩

theorem Closed.moves (h : s.Closed) (hs : s.Moves s') : s'.Closed := by
  obtain ⟨i, r, hcall⟩ := h
  obtain ⟨q, hcall', hpasses⟩ := hs.calls i _ _ hcall
  cases hpasses with
  | stays => exact ⟨i, r, hcall'⟩
  | closes => exact ⟨i, _, hcall'⟩

theorem Ran.moves (h : s.Ran i) (hs : s.Moves s') : s'.Ran i := by
  obtain ⟨token, p, hcall, hcalled, hqueued⟩ := h
  obtain ⟨q, hcall', hpasses⟩ := hs.calls i _ _ hcall
  refine ⟨token, q, hcall', ?_⟩
  cases hpasses with
  | stays => exact ⟨hcalled, hqueued⟩
  | enters => exact absurd rfl hcalled
  | misses | begins => exact absurd rfl hqueued
  | ends => simp

theorem Barred.moves (h : s.Barred i) (hs : s.Moves s') : s'.Barred i := by
  obtain ⟨hshutdown, token, p, hcall, hp⟩ := h
  obtain ⟨q, hcall', hpasses⟩ := hs.calls i _ _ hcall
  refine ⟨hs.shutdown hshutdown, token, q, hcall', ?_⟩
  cases hpasses with
  | stays => exact hp
  | enters => exact .inr (.inl rfl)
  | misses => exact .inr (.inr rfl)
  | begins _ hopen =>
    rw [hshutdown] at hopen
    cases hopen
  | ends => simp at hp

theorem Barred.not_accepts (h : s.Barred i) : ¬ s.Accepts i := by
  obtain ⟨-, token, p, hcall, hp⟩ := h
  rintro ⟨token', haccepts⟩
  rw [hcall] at haccepts
  cases haccepts
  simp at hp

theorem Barred.result? (h : s.Barred i) : s.result? i = none ∨ s.result? i = some (.ok ()) := by
  obtain ⟨-, token, p, hcall, hp⟩ := h
  unfold ServerState.result? phase?
  rw [hcall]
  rcases hp with rfl | rfl | rfl
  · exact .inl rfl
  · exact .inl rfl
  · exact .inr rfl

/-- An accept call that gets the lock after the server was shut down returns, whatever its listener answers. -/
theorem Barred.step {token : Nat} (h : s.Barred i) (hcall : s.calls[i]? = some (.accept token, .queued))
    (hnext : s.isNext i = true) (offer : Poll Nat) : s.step i offer = some (s.finish i (.ok ()), none) := by
  unfold ServerState.step
  simp only [hcall, hnext, h.1, if_true]

end ServerState

end RemoteCall
