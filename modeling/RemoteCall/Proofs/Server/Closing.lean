import RemoteCall.Proofs.Server.Phases
/-!
# Accepting until the server is closed

Accept and close calls are made on one server at any time and take their steps in any order; tokens are cancelled
meanwhile, and listeners answer as they like. `Watch` keeps account of what the listeners gave and of what was
dispatched. The invariant is that an accept loop stands first in the line for the lock, and that there is none any
more once a close call has had the lock: `Orderly`.
-/

namespace RemoteCall

namespace ServerState

variable {s s' : ServerState} {i j : Nat} {offer : Poll Nat}

/-! ## The lock -/

/-- An accept loop stands first in the line for the lock. Close calls shut the server down before they get in
line, and once one of them has had the lock there is no accept loop. -/
structure Orderly (s : ServerState) : Prop where
  first : ∀ i, s.Accepts i → s.line.head? = some i
  closing : ∀ (i : Nat) (p : ServerCall.Phase), s.calls[i]? = some (.close, p) → p = .called ∨ s.shutdown = true
  closed : s.Closed → ∀ i, ¬ s.Accepts i

theorem initial_orderly : initial.Orderly where
  first i h := by
    obtain ⟨token, h⟩ := h
    simp [initial] at h
  closing i p h := by simp [initial] at h
  closed h := by
    obtain ⟨i, r, h⟩ := h
    simp [initial] at h

/-- There is one accept loop at most. -/
theorem Orderly.unique (hs : s.Orderly) (hi : s.Accepts i) (hj : s.Accepts j) : i = j := by
  have hboth := (hs.first i hi).symm.trans (hs.first j hj)
  exact Option.some.inj hboth

theorem begin_orderly (hs : s.Orderly) (call : ServerCall) : (s.begin call).2.Orderly := by
  have hcalls : ∀ {i : Nat} {c : ServerCall} {p : ServerCall.Phase}, (s.begin call).2.calls[i]? = some (c, p) →
      p = .called ∨ s.calls[i]? = some (c, p) := by
    intro i c p h
    have h : (s.calls.push (call, .called))[i]? = some (c, p) := h
    rw [Array.getElem?_push] at h
    split at h
    · cases h
      exact .inl rfl
    · exact .inr h
  have haccepts : ∀ {i}, (s.begin call).2.Accepts i → s.Accepts i := by
    rintro i ⟨token, h⟩
    exact ⟨token, (hcalls h).resolve_left nofun⟩
  refine ⟨fun i hi => hs.first i (haccepts hi), fun i p h => ?_, ?_⟩
  · rcases hcalls h with hp | h
    · exact .inl hp
    · exact hs.closing i p h
  · rintro ⟨i, r, h⟩ j hj
    exact hs.closed ⟨i, r, (hcalls h).resolve_left nofun⟩ j (haccepts hj)

theorem Orderly.cancel (hs : s.Orderly) (token : Nat) : (s.cancel token).Orderly :=
  ⟨hs.first, hs.closing, hs.closed⟩

theorem Orderly.shut (hs : s.Orderly) : ServerState.Orderly { s with shutdown := true } :=
  ⟨hs.first, fun _ _ _ => .inr rfl, hs.closed⟩

theorem Orderly.enter (hs : s.Orderly) {call : ServerCall} (hcall : s.calls[i]? = some (call, .called)) :
    (s.enter i call).Orderly := by
  have hcalls : ∀ {j : Nat} {c : ServerCall} {p : ServerCall.Phase}, (s.enter i call).calls[j]? = some (c, p) →
      i ≠ j → s.calls[j]? = some (c, p) := by
    intro j c p h hij
    exact (calls_setPhase_of_ne s .queued hij).symm.trans h
  refine ⟨fun j hj => ?_, fun j p h => ?_, ?_⟩
  · have hhead := hs.first j (accepts_enter hj)
    show (s.line ++ [i]).head? = some j
    rw [List.head?_append, hhead]
    rfl
  · show p = .called ∨ (s.shutdown || call == .close) = true
    by_cases hij : i = j
    · subst hij
      -- the close call gets in line by this step, and shuts the server down
      obtain ⟨-, p', hcall'⟩ := calls_setPhase_self (p := .queued) h
      rw [hcall] at hcall'
      cases hcall'
      exact .inr (Bool.or_true _)
    · rcases hs.closing j p (hcalls h hij) with hp | hshutdown
      · exact .inl hp
      · exact .inr (by rw [hshutdown, Bool.true_or])
  · rintro ⟨j, r, h⟩ k hk
    by_cases hij : i = j
    · subst hij
      cases (calls_setPhase_self (p := .queued) h).1
    · exact hs.closed ⟨j, r, hcalls h hij⟩ k (accepts_enter hk)

/-- Who stands first in line was the only one to accept, if anyone did. -/
theorem Orderly.finish (hs : s.Orderly) {r : Except Fault Unit} (hfirst : s.line.head? = some i)
    (hclosing : ∀ p, s.calls[i]? = some (.close, p) → s.shutdown = true) : (s.finish i r).Orderly := by
  have hnone : ∀ j, ¬ (s.finish i r).Accepts j := by
    intro j hj
    obtain ⟨hne, hj⟩ := accepts_finish hj
    have hboth := (hs.first j hj).symm.trans hfirst
    exact hne (Option.some.inj hboth)
  refine ⟨fun j hj => absurd hj (hnone j), fun j p h => ?_, fun _ => hnone⟩
  by_cases hij : i = j
  · subst hij
    obtain ⟨-, p', hcall⟩ := calls_setPhase_self (p := .returned r) h
    exact .inr (hclosing p' hcall)
  · exact hs.closing j p ((calls_setPhase_of_ne s (.returned r) hij).symm.trans h)

theorem Orderly.finish_accepts (hs : s.Orderly) (h : s.Accepts i) (r : Except Fault Unit) :
    (s.finish i r).Orderly := by
  refine hs.finish (hs.first i h) fun p hclose => ?_
  obtain ⟨token, haccept⟩ := h
  rw [haccept] at hclose
  cases hclose

theorem Orderly.finish_returns (hs : s.Orderly) {r : Except Fault Unit} (h : s.Returns i offer r) :
    (s.finish i r).Orderly := by
  cases h with
  | closed hcall hcalled hnext =>
    have hshutdown := (hs.closing i _ hcall).resolve_left hcalled
    exact hs.finish (by simpa [isNext] using hnext) fun _ _ => hshutdown
  | late _ hnext hshutdown => exact hs.finish (by simpa [isNext] using hnext) fun _ _ => hshutdown
  | stopped haccepts _ => exact hs.finish_accepts haccepts _
  | failed hasks _ => exact hs.finish_accepts (.of_asksListener hasks) _

/-- Who begins to accept stands first in line, and the server is not shut down. -/
theorem Orderly.accepting (hs : s.Orderly) {token : Nat} (hcall : s.calls[i]? = some (.accept token, .queued))
    (hnext : s.isNext i = true) (hopen : s.shutdown = false) : (s.setPhase i .accepting).Orderly := by
  have hclose : ∀ {j : Nat} {p : ServerCall.Phase}, (s.setPhase i .accepting).calls[j]? = some (.close, p) →
      s.calls[j]? = some (.close, p) := by
    intro j p hj
    by_cases hij : i = j
    · subst hij
      obtain ⟨-, p', hcall'⟩ := calls_setPhase_self hj
      rw [hcall] at hcall'
      cases hcall'
    · exact (calls_setPhase_of_ne s .accepting hij).symm.trans hj
  refine ⟨fun j hj => ?_, fun j p hj => hs.closing j p (hclose hj), ?_⟩
  · show s.line.head? = some j
    rcases accepts_setPhase hj with ⟨rfl, -⟩ | ⟨-, hj⟩
    · simpa [isNext] using hnext
    · exact hs.first j hj
  · rintro ⟨j, r, hj⟩
    -- a close call that has returned has shut the server down
    have hshutdown := (hs.closing j _ (hclose hj)).resolve_left nofun
    rw [hopen] at hshutdown
    cases hshutdown

theorem Orderly.step (hs : s.Orderly) {d : Option Nat} (h : s.step i offer = some (s', d)) : s'.Orderly := by
  rcases step_cases h with ⟨call, hcall, rfl, -⟩ | ⟨r, hreturns, rfl, -⟩ | ⟨token, hcall, hnext, hopen, rfl, -⟩ |
    ⟨c, -, -, rfl, -⟩
  · exact hs.enter hcall
  · exact hs.finish_returns hreturns
  · exact hs.accepting hcall hnext hopen
  · exact hs

/-! ## A server that is watched -/

/-- What can happen to a server. -/
inductive Event
  | call (call : ServerCall)
  | cancel (token : Nat)
  /-- A call takes a step, in which its listener answers if it is asked. -/
  | step (i : Nat) (answer : Poll Nat)
  /-- A close call shuts the server down and is not in line yet. -/
  | shut
  /-- A loop that looked at the tokens before they were cancelled asks its listener. -/
  | late (i : Nat) (answer : Poll Nat)

/-- A server and an account of what its loops did. -/
structure Watch where
  server : ServerState
  /-- The loops that asked their listeners, once for each time. -/
  asked : List Nat
  /-- The loops and the connections that their listeners gave them. -/
  given : List (Nat × Nat)
  /-- The loops and the connections that they dispatched. -/
  dispatched : List (Nat × Nat)

namespace Watch

def start : Watch := ⟨initial, [], [], []⟩

/-- Notes that a loop asked its listener. -/
def ask (w : Watch) (i : Nat) : Poll Nat → Watch
  | .ready c => { w with asked := w.asked ++ [i], given := w.given ++ [(i, c)] }
  | _ => { w with asked := w.asked ++ [i] }

/-- Notes what a step of a call did. -/
def move (w : Watch) (i : Nat) : Option (ServerState × Option Nat) → Watch
  | some (server, some c) => { w with server, dispatched := w.dispatched ++ [(i, c)] }
  | some (server, none) => { w with server }
  | none => w

def after (w : Watch) : Event → Watch
  | .call call => { w with server := (w.server.begin call).2 }
  | .cancel token => { w with server := w.server.cancel token }
  | .step i answer =>
    if w.server.asksListener i then (w.ask i answer).move i (w.server.step i answer)
    else w.move i (w.server.step i answer)
  | .shut => { w with server := { w.server with shutdown := true } }
  | .late i answer =>
    match w.server.calls[i]? with
    | some (.accept _, .accepting) => (w.ask i answer).move i (w.server.stepLate i answer)
    | _ => w

def run (w : Watch) (es : List Event) : Watch := es.foldl after w

variable {w w' : Watch} {i : Nat}

/-- An event either changes the server alone, or lets an accept loop hear from its listener. -/
theorem after_cases (w : Watch) (e : Event) :
    (∃ server, w.after e = { w with server } ∧ w.server.Moves server ∧ (w.server.Orderly → server.Orderly)) ∨
    ∃ i answer moved, w.server.Accepts i ∧ w.server.Heeds i answer moved ∧
      w.after e = (w.ask i answer).move i moved := by
  have hnothing : ∃ server, w = { w with server } ∧ w.server.Moves server ∧
      (w.server.Orderly → server.Orderly) := ⟨w.server, rfl, .refl _, id⟩
  cases e with
  | call call => exact .inl ⟨_, rfl, begin_moves _ call, fun hs => begin_orderly hs call⟩
  | cancel token => exact .inl ⟨_, rfl, ⟨id, fun _ _ p h => ⟨p, h, .stays _ p⟩⟩, fun hs => hs.cancel token⟩
  | shut => exact .inl ⟨_, rfl, ⟨fun _ => rfl, fun _ _ p h => ⟨p, h, .stays _ p⟩⟩, fun hs => hs.shut⟩
  | step i answer =>
    unfold after
    simp only
    split
    · rename_i hasks
      exact .inr ⟨i, answer, _, .of_asksListener hasks, heeds_step hasks answer, rfl⟩
    · rename_i hasks
      cases hstep : w.server.step i answer with
      | none => exact .inl hnothing
      | some moved =>
        obtain ⟨server, _ | c⟩ := moved
        · exact .inl ⟨server, rfl, step_moves hstep, fun hs => hs.step hstep⟩
        · exact absurd (asksListener_of_dispatches hstep) hasks
  | late i answer =>
    unfold after
    simp only
    split
    · rename_i token hcall
      exact .inr ⟨i, answer, _, ⟨token, hcall⟩, heeds_stepLate ⟨token, hcall⟩ answer, rfl⟩
    · exact .inl hnothing

theorem moves_after (w : Watch) (e : Event) : w.server.Moves (w.after e).server := by
  rcases w.after_cases e with ⟨server, hw, hmoves, -⟩ | ⟨i, answer, moved, haccepts, hheeds, hw⟩
  · rw [hw]
    exact hmoves
  · rw [hw]
    cases hheeds with
    | dispatches c => exact .refl _
    | fails f => exact haccepts.moves_finish _
    | waits => exact .refl _

/-- What every event keeps is kept by any number of them. -/
theorem run_keeps {I : Watch → Prop} (hafter : ∀ w e, I w → I (w.after e)) (hw : I w) (es : List Event) :
    I (w.run es) := by
  induction es generalizing w with
  | nil => exact hw
  | cons e es ih => exact ih (hafter w e hw)

/-- The line is in order, what was given was dispatched, and who asked had the lock. -/
structure Sound (w : Watch) : Prop where
  orderly : w.server.Orderly
  dispatched_eq : w.dispatched = w.given
  ran : ∀ i ∈ w.asked, w.server.Ran i

theorem start_sound : start.Sound := ⟨initial_orderly, rfl, nofun⟩

theorem Sound.after (hw : w.Sound) (e : Event) : (w.after e).Sound := by
  have hmoves := w.moves_after e
  have hran : ∀ i ∈ w.asked, (w.after e).server.Ran i := fun i hi => (hw.ran i hi).moves hmoves
  rcases w.after_cases e with ⟨server, heq, -, hkept⟩ | ⟨i, answer, moved, haccepts, hheeds, heq⟩
  · rw [heq] at hran ⊢
    exact ⟨hkept hw.orderly, hw.dispatched_eq, hran⟩
  · have hasked : ∀ j ∈ w.asked ++ [i], (w.after e).server.Ran j := by
      intro j hj
      rcases List.mem_append.1 hj with hj | hj
      · exact hran j hj
      · rw [List.mem_singleton.1 hj]
        exact haccepts.ran.moves hmoves
    rw [heq] at hasked ⊢
    cases hheeds with
    | dispatches c =>
      refine ⟨hw.orderly, ?_, hasked⟩
      show w.dispatched ++ [(i, c)] = w.given ++ [(i, c)]
      rw [hw.dispatched_eq]
    | fails f => exact ⟨hw.orderly.finish_accepts haccepts _, hw.dispatched_eq, hasked⟩
    | waits => exact ⟨hw.orderly, hw.dispatched_eq, hasked⟩

theorem Sound.run (hw : w.Sound) (es : List Event) : (w.run es).Sound := run_keeps (fun _ e h => h.after e) hw es

/-- After a close call has returned, nothing is asked and nothing is dispatched. -/
theorem Sound.run_of_closed (hw : w.Sound) (hclosed : w.server.Closed) (es : List Event) :
    (w.run es).asked = w.asked ∧ (w.run es).dispatched = w.dispatched := by
  have hkept : (w.run es).Sound ∧ (w.run es).server.Closed ∧ (w.run es).asked = w.asked ∧
      (w.run es).dispatched = w.dispatched := by
    refine run_keeps (I := fun v => v.Sound ∧ v.server.Closed ∧ v.asked = w.asked ∧ v.dispatched = w.dispatched)
      ?_ ⟨hw, hclosed, rfl, rfl⟩ es
    rintro v e ⟨hv, hclosed, hasked, hdispatched⟩
    refine ⟨hv.after e, hclosed.moves (v.moves_after e), ?_⟩
    rcases v.after_cases e with ⟨server, heq, -, -⟩ | ⟨i, answer, moved, haccepts, -, -⟩
    · rw [heq]
      exact ⟨hasked, hdispatched⟩
    · exact absurd haccepts (hv.orderly.closed hclosed i)
  exact hkept.2.2

/-- An accept call that comes to the lock too late does not ask. -/
theorem run_of_barred (hbarred : w.server.Barred i) (hasked : i ∉ w.asked) (es : List Event) :
    (w.run es).server.Barred i ∧ i ∉ (w.run es).asked := by
  refine run_keeps (I := fun v => v.server.Barred i ∧ i ∉ v.asked) ?_ ⟨hbarred, hasked⟩ es
  rintro v e ⟨hbarred, hasked⟩
  refine ⟨hbarred.moves (v.moves_after e), ?_⟩
  rcases v.after_cases e with ⟨server, heq, -, -⟩ | ⟨j, answer, moved, haccepts, hheeds, heq⟩
  · rw [heq]
    exact hasked
  · have hne : i ≠ j := by
      rintro rfl
      exact hbarred.not_accepts haccepts
    rw [heq]
    have hnot : i ∉ v.asked ++ [j] := by simp [hasked, hne]
    cases hheeds <;> exact hnot

/-- Whatever happens to a server: one accept loop at most is past the lock, and what the listeners gave was
dispatched, each connection once. Once a close call has returned, nothing more is dispatched or asked for. An accept
call that is not past the lock when the server is shut down never asks its listener: it waits for the lock, and
returns without an error when it gets it. -/
theorem dispatch_until_closed (before : List Event) :
    let w := start.run before
    (∀ i j, w.server.Accepts i → w.server.Accepts j → i = j) ∧
    w.dispatched = w.given ∧
    (w.server.Closed → ∀ later, (w.run later).asked = w.asked ∧ (w.run later).dispatched = w.dispatched) ∧
    (w.server.shutdown = true → ∀ i token p, w.server.calls[i]? = some (.accept token, p) →
      p = .called ∨ p = .queued → ∀ later, let v := w.run later
        i ∉ v.asked ∧ (v.server.result? i = none ∨ v.server.result? i = some (.ok ())) ∧
        (v.server.calls[i]? = some (.accept token, .queued) → v.server.isNext i = true →
          ∀ answer, v.server.step i answer = some (v.server.finish i (.ok ()), none))) := by
  intro w
  have hw : w.Sound := start_sound.run before
  refine ⟨fun i j => hw.orderly.unique, hw.dispatched_eq, hw.run_of_closed, ?_⟩
  intro hshutdown i token p hcall hp later v
  have hasked : i ∉ w.asked := by
    intro hi
    obtain ⟨token', p', hcall', hcalled, hqueued⟩ := hw.ran i hi
    rw [hcall] at hcall'
    cases hcall'
    rcases hp with rfl | rfl
    · exact hcalled rfl
    · exact hqueued rfl
  have hbarred : w.server.Barred i :=
    ⟨hshutdown, token, p, hcall, hp.elim .inl fun h => .inr (.inl h)⟩
  obtain ⟨hbarred, hasked⟩ := run_of_barred hbarred hasked later
  exact ⟨hasked, hbarred.result?, fun hqueued hnext answer => hbarred.step hqueued hnext answer⟩

/-- A loop gets one connection before the server is shut down, and another one after that, as it had looked at the
tokens before. It does not ask for a third, and the accept call that waits behind the close call does not ask at all. -/
theorem dispatch_until_closed_two :
    let w := start.run
      [.call (.accept 0), .step 0 .pending, .step 0 .pending, .step 0 (.ready 5), .call .close, .call (.accept 1),
        .step 1 .pending, .step 2 .pending, .late 0 (.ready 6), .step 0 (.ready 7), .step 1 .pending,
        .step 2 (.ready 8)]
    w.asked = [0, 0] ∧ w.given = [(0, 5), (0, 6)] ∧ w.server.result? 2 = some (.ok ()) ∧
      ∀ later, (w.run later).dispatched = [(0, 5), (0, 6)] := by
  intro w
  have hclosed : w.server.Closed := ⟨1, .ok (), rfl⟩
  exact ⟨rfl, rfl, rfl, fun later => ((dispatch_until_closed _).2.2.1 hclosed later).2⟩

end Watch

end ServerState

end RemoteCall
