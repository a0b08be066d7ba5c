import RemoteCall.Proofs.Call.Conversation
/-!
# Conversations that come to an answer

The client sends a request and then receives a reply; the server receives the request, asks the host
once, sends the reply and shuts down. `Asks` and `Answers` say how far each side is, with what it
still has to send and to receive. The invariant `Answered` puts them together: what the server still
receives is on its way or owed by the client, and the other way round. Every step keeps it and
lowers its measure, and a state that keeps it and is at rest has the answer.
-/

namespace RemoteCall.Link

open Exchange

variable {σ α : Type}

/-- How far the client is, what it owes, what is due to it until it answers `a`, and how long that
takes at most. -/
inductive Asks (a : α) : Stage σ α → Bytes → Bytes → Nat → Prop
  | idle {talk : Attempt σ (Exchange σ α)} {m n owed e due} (hs : Sends Attempt.failed n talk.run owed e)
      (hr : Receives m e due (.done (.ok (.done a))) []) :
      Asks a (.idle talk) owed due (n + m + 2 * owed.length + 4)
  | dialing (ticket) {talk : Attempt σ (Exchange σ α)} {m n owed e due}
      (hs : Sends Attempt.failed n talk.run owed e)
      (hr : Receives m e due (.done (.ok (.done a))) []) :
      Asks a (.dialing ticket talk) owed due (n + m + 2 * owed.length + 3)
  | talking (connection) {talk m n owed e due} (hs : Sends Attempt.failed n talk owed e)
      (hr : Receives m e due (.done (.ok (.done a))) []) :
      Asks a (.talking connection talk) owed due (n + m + 2 * owed.length + 2)
  | returned (connection) : Asks a (.returned connection (.done a)) [] [] 1
  | finished : Asks a (.finished a) [] [] 0

/-- How far the server is, what is due to it, what it owes, what the host is by then, and how long
the rest takes at most. -/
inductive Answers (host₀ : σ) (update : σ → σ) :
    Exchange σ (Except ServeError Unit) → Bool → Bytes → Bytes → σ → Nat → Prop
  | reading {e next tail x fail due owed k j} (hr : Receives k e due (.consult next update) [])
      (hs : Sends fail j (next host₀) owed (.shutdown tail)) (htail : tail (.ok ()) = .done x) :
      Answers host₀ update e false due owed host₀ (k + j + 2 * owed.length + 3)
  | sending {e tail x fail owed j} (hs : Sends fail j e owed (.shutdown tail))
      (htail : tail (.ok ()) = .done x) :
      Answers host₀ update e false [] owed (update host₀) (j + 2 * owed.length + 2)
  | closed {x} : Answers host₀ update (.done x) false [] [] (update host₀) 1
  | released {x} : Answers host₀ update (.done x) true [] [] (update host₀) 0

/-- What is on its way in each direction, and what its sender still owes, as one side sees it: its
own direction comes first. A direction is closed only when nothing more is owed in it. -/
inductive Between (l : Link) (s : Side) (sent owed due coming : Bytes) : Prop
  | mk {sentEnds dueEnds} (carries : l.Carries s sent sentEnds due dueEnds)
      (howed : sentEnds = true → owed = [])
      (hcoming : dueEnds = true → coming = [])

/-- A conversation under way that comes to the answer `a`. -/
inductive Answered (a : α) (host₀ : σ) (update : σ → σ) : System Link σ α → Nat → Prop
  | mk {settings l host stage refuse e released out inn asked replied x y}
      (hl : Between l .dialer out asked inn replied) (hc : Asks a stage asked (inn ++ replied) x)
      (hs : Answers host₀ update e released (out ++ asked) replied host y) :
      Answered a host₀ update (conversation settings l host ⟨stage, refuse⟩ e released)
        (x + y + out.length + inn.length)

/-! ## Between the two sides -/

section Between

variable {β : Type} {l : Link} {s : Side} {sent owed due coming : Bytes} {n : Nat} {e eᵣ : Exchange σ β}

theorem Between.other (h : Between l s sent owed due coming) : Between l s.other due coming sent owed := by
  obtain ⟨hcarries, howed, hcoming⟩ := h
  exact ⟨hcarries.other, hcoming, howed⟩

/-- A side that sends has to wait behind its own bytes, or sends some. -/
theorem Between.sends {fail : Fault → Exchange σ β} (h : Between l s sent owed due coming)
    (hs : Sends fail n e owed eᵣ) (hn : 0 < n) (host : σ) :
    e.answer? = none ∧ ((e.step (channel s) l host = none ∧ sent ≠ []) ∨
      ∃ n' e' l' sent' owed', e.step (channel s) l host = some (e', l', host) ∧
        Between l' s sent' owed' due coming ∧ Sends fail n' e' owed' eᵣ ∧ sent' ++ owed' = sent ++ owed ∧
        n' + 2 * owed'.length + sent'.length < n + 2 * owed.length + sent.length) := by
  obtain ⟨hcarries, howed, hcoming⟩ := h
  obtain ⟨hopen, ⟨-, hbehind, hstep⟩ | ⟨hclosed, hne, -⟩ | hmoves⟩ := hs.step_cases hn hcarries host
  · exact ⟨hopen, .inl ⟨hstep, hbehind⟩⟩
  · exact absurd (howed hclosed) hne
  · obtain ⟨n', e', l', sent', owed', hstep, hs', hcarries', hsame, hlen, hless, -⟩ := hmoves
    refine ⟨hopen, .inr ⟨n', e', l', sent', owed', hstep, ⟨hcarries', fun hends => ?_, hcoming⟩, hs',
      hsame, hless⟩⟩
    -- a direction that is closed owes nothing, and owes no more after this step
    rw [howed hends] at hlen
    exact List.eq_nil_of_length_eq_zero (Nat.le_zero.1 hlen)

/-- A side that receives has to wait for bytes that are still to come, or receives some. -/
theorem Between.receives (h : Between l s sent owed due coming) (hr : Receives n e (due ++ coming) eᵣ [])
    (hn : 0 < n) (host : σ) :
    e.answer? = none ∧ ((e.step (channel s) l host = none ∧ due = []) ∨
      ∃ n' e' l' due', e.step (channel s) l host = some (e', l', host) ∧
        Between l' s sent owed due' coming ∧ Receives n' e' (due' ++ coming) eᵣ [] ∧
        n' + due'.length < n + due.length) := by
  obtain ⟨hcarries, howed, hcoming⟩ := h
  obtain ⟨hopen, ⟨-, hempty, hstep⟩ | hmoves⟩ := hr.step_cases hn hcarries hcoming host
  · exact ⟨hopen, .inl ⟨hstep, hempty⟩⟩
  · obtain ⟨n', e', l', due', hstep, hr', hcarries', hless, -⟩ := hmoves
    exact ⟨hopen, .inr ⟨n', e', l', due', hstep, ⟨hcarries', howed, hcoming⟩, hr', hless⟩⟩

end Between

variable {a : α} {host₀ host : σ} {update : σ → σ} {settings : Settings σ} {l : Link} {stage : Stage σ α}
  {refuse : Refusal → α} {e : Exchange σ (Except ServeError Unit)} {released : Bool}
  {out inn asked replied due : Bytes} {x y : Nat}

/-! ## Steps of the client -/

/-- The client has to wait behind its own bytes, or for bytes of the reply, or makes a step that
lowers the measure; or it is finished. -/
theorem Asks.step (h : Asks a stage asked due x) (hdue : inn ++ replied = due)
    (hl : Between l .dialer out asked inn replied) (host : σ) :
    (Operation.step network false ⟨stage, refuse⟩ l host = none ∧
      ((stage = .finished a ∧ asked = [] ∧ due = []) ∨ out ≠ [] ∨ (asked = [] ∧ inn = [] ∧ due ≠ []))) ∨
    ∃ stage' l' out' inn' asked' x',
      Operation.step network false ⟨stage, refuse⟩ l host = some (⟨stage', refuse⟩, l', host) ∧
      Between l' .dialer out' asked' inn' replied ∧ Asks a stage' asked' (inn' ++ replied) x' ∧
      out' ++ asked' = out ++ asked ∧ x' + out'.length + inn'.length < x + out.length + inn.length := by
  cases h with
  | idle hs hr =>
    subst hdue
    exact .inr ⟨_, l, out, inn, _, _, rfl, hl, .dialing 0 hs hr, rfl, by omega⟩
  | dialing _ hs hr =>
    subst hdue
    exact .inr ⟨_, l, out, inn, _, _, rfl, hl, .talking 0 hs hr, rfl, by omega⟩
  | @talking connection talk m n _ e₁ _ hs hr =>
    rcases Nat.eq_zero_or_pos n with rfl | hn
    · -- all is sent
      cases hs
      rcases Nat.eq_zero_or_pos m with rfl | hm
      · -- all is received, too
        cases hr
        refine .inr ⟨_, l, out, inn, [], 1, rfl, hl, ?_, rfl, ?_⟩
        · rw [hdue]
          exact .returned connection
        · simp only [List.length_nil]
          omega
      · have hne := hr.ne_nil hm
        rw [← hdue] at hr
        obtain ⟨hopen, ⟨hstep, hempty⟩ | ⟨m', talk', l', inn', hstep, hl', hr', hless⟩⟩ :=
          hl.receives hr hm host
        · exact .inl ⟨Operation.step_talking_none hopen hstep, .inr (.inr ⟨rfl, hempty, hne⟩)⟩
        · exact .inr ⟨_, l', out, inn', [], _, Operation.step_talking_some hopen hstep, hl',
            .talking connection (.refl _) hr', rfl, by omega⟩
    · subst hdue
      obtain ⟨hopen, ⟨hstep, hbehind⟩ | ⟨n', talk', l', out', asked', hstep, hl', hs', hsame, hless⟩⟩ :=
        hl.sends hs hn host
      · exact .inl ⟨Operation.step_talking_none hopen hstep, .inr (.inl hbehind)⟩
      · exact .inr ⟨_, l', out', inn, asked', _, Operation.step_talking_some hopen hstep, hl',
          .talking connection hs' hr, hsame, by omega⟩
  | returned =>
    obtain ⟨rfl, rfl⟩ := List.append_eq_nil_iff.1 hdue
    obtain ⟨hcarries, -, -⟩ := hl
    -- the reply has come in whole, so the link can be let go of
    exact .inr ⟨_, _, out, [], [], 0, rfl, ⟨release_carries hcarries, fun _ => rfl, fun _ => rfl⟩,
      .finished, rfl, by omega⟩
  | finished => exact .inl ⟨rfl, .inl ⟨rfl, rfl, rfl⟩⟩

/-- A client that is finished has its answer. -/
theorem Asks.answer_eq (h : Asks a stage asked due x) {r : α}
    (hr : (⟨stage, refuse⟩ : Operation σ α).answer? = some r) : r = a := by
  cases h <;> cases hr
  rfl

/-! ## Steps of the server -/

/-- The server has to wait for bytes of the request, or behind its own bytes, or makes a step that
lowers the measure; or it is done. -/
theorem Answers.step (h : Answers host₀ update e released due replied host y) (hdue : out ++ asked = due)
    (hl : Between l .dialer out asked inn replied) (o : Operation σ α) :
    ((conversation settings l host o e released).advance (.served 0) = none ∧
      ((host = update host₀ ∧ due = [] ∧ replied = []) ∨ (out = [] ∧ due ≠ []) ∨ (inn ≠ [] ∧ due = []))) ∨
    ∃ e' released' l' host' out' inn' replied' y',
      (conversation settings l host o e released).advance (.served 0) =
        some (conversation settings l' host' o e' released') ∧
      Between l' .dialer out' asked inn' replied' ∧
      Answers host₀ update e' released' (out' ++ asked) replied' host' y' ∧
        inn' ++ replied' = inn ++ replied ∧
      y' + out'.length + inn'.length < y + out.length + inn.length := by
  cases h with
  | @reading _ next tail z fail _ _ k j hr hs htail =>
    rcases Nat.eq_zero_or_pos k with rfl | hk
    · -- all is received
      cases hr
      have hsending : Answers host₀ update (next host₀) false (out ++ asked) replied (update host₀)
          (j + 2 * replied.length + 2) := by
        rw [hdue]
        exact .sending hs htail
      exact .inr ⟨_, _, l, _, out, inn, replied, _, advance_served_some rfl rfl, hl, hsending, rfl, by omega⟩
    · have hne := hr.ne_nil hk
      rw [← hdue] at hr
      obtain ⟨hopen, ⟨hstep, hempty⟩ | ⟨k', e', l', out', hstep, hl', hr', hless⟩⟩ :=
        hl.other.receives hr hk host₀
      · exact .inl ⟨advance_served_none hopen hstep, .inr (.inl ⟨hempty, hne⟩)⟩
      · exact .inr ⟨e', _, l', host₀, out', inn, replied, _, advance_served_some hopen hstep, hl'.other,
          .reading hr' hs htail, rfl, by omega⟩
  | @sending _ tail z fail _ j hs htail =>
    rcases Nat.eq_zero_or_pos j with rfl | hj
    · -- all is sent
      cases hs
      obtain ⟨hcarries, hasked, hreplied⟩ := hl
      obtain ⟨l', hshut, hcarries'⟩ := shutdown_eq hcarries.other
      have hstep : (Exchange.shutdown tail).step (channel .acceptor) l (update host₀) =
          some (.done z, l', update host₀) := by
        rw [← htail]
        exact congrArg (settle tail (update host₀)) hshut
      have hclosed : Answers host₀ update (.done z) false (out ++ asked) [] (update host₀) 1 := by
        rw [hdue]
        exact .closed
      refine .inr ⟨.done z, false, l', _, out, inn, [], 1, advance_served_some rfl hstep,
        ⟨hcarries'.other, hasked, fun _ => rfl⟩, hclosed, rfl, ?_⟩
      simp only [List.length_nil]
      omega
    · obtain ⟨hopen, ⟨hstep, hbehind⟩ | ⟨j', e', l', inn', replied', hstep, hl', hs', hsame, hless⟩⟩ :=
        hl.other.sends hs hj (update host₀)
      · exact .inl ⟨advance_served_none hopen hstep, .inr (.inr ⟨hbehind, rfl⟩)⟩
      · have hsending : Answers host₀ update e' false (out ++ asked) replied' (update host₀)
            (j' + 2 * replied'.length + 2) := by
          rw [hdue]
          exact .sending hs' htail
        exact .inr ⟨e', _, l', _, out, inn', replied', _, advance_served_some hopen hstep, hl'.other,
          hsending, hsame, by omega⟩
  | @closed z =>
    obtain ⟨-, hasked⟩ := List.append_eq_nil_iff.1 hdue
    obtain ⟨hcarries, -, -⟩ := hl
    have hreleased : Answers host₀ update (.done z) true (out ++ asked) [] (update host₀) 0 := by
      rw [hdue]
      exact .released
    exact .inr ⟨_, _, _, _, out, inn, [], 0, advance_served_done,
      ⟨(release_carries hcarries.other).other, fun _ => hasked, fun _ => rfl⟩, hreleased, rfl, by omega⟩
  | released => exact .inl ⟨advance_served_done, .inl ⟨rfl, rfl, rfl⟩⟩

/-- The host is as it was, or was asked once. -/
theorem Answers.host_eq (h : Answers host₀ update e released due replied host y) :
    host = host₀ ∨ host = update host₀ := by
  cases h with
  | reading => exact .inl rfl
  | sending | closed | released => exact .inr rfl

/-! ## The conversation -/

/-- Every step of the system is one of the two and keeps the invariant. -/
theorem Answered.advance {s s' : System Link σ α} {n : Nat} {p : Part} (h : Answered a host₀ update s n)
    (hadvance : s.advance p = some s') : ∃ m, m < n ∧ Answered a host₀ update s' m := by
  obtain ⟨hl, hc, hs⟩ := h
  -- the operation and the served connection are the only parts that can move
  by_cases hclient : p = .client 0
  · subst hclient
    rw [advance_client] at hadvance
    rcases hc.step rfl hl _ with
      ⟨hwait, -⟩ | ⟨stage', l', out', inn', asked', x', hstep, hl', hc', hsame, hless⟩
    · rw [hwait] at hadvance
      cases hadvance
    · rw [hstep] at hadvance
      cases hadvance
      rw [← hsame] at hs
      exact ⟨_, by omega, .mk hl' hc' hs⟩
  · by_cases hserved : p = .served 0
    · subst hserved
      rcases hs.step rfl hl _ with
        ⟨hwait, -⟩ | ⟨e', released', l', host', out', inn', replied', y', hstep, hl', hs', hsame, hless⟩
      · rw [hwait] at hadvance
        cases hadvance
      · rw [hstep] at hadvance
        cases hadvance
        rw [← hsame] at hc
        exact ⟨_, by omega, .mk hl' hc hs'⟩
    · rw [advance_other hclient hserved] at hadvance
      cases hadvance

/-- There is no answer but `a`, and the host is asked at most once. -/
theorem Answered.sound {s : System Link σ α} {n : Nat} (h : Answered a host₀ update s n) :
    (∀ r, s.answer? 0 = some r → r = a) ∧ (s.host = host₀ ∨ s.host = update host₀) := by
  obtain ⟨-, hc, hs⟩ := h
  exact ⟨fun r hr => hc.answer_eq hr, hs.host_eq⟩

/-- At rest the answer is there, and the host was asked. -/
theorem Answered.complete {s : System Link σ α} {n : Nat} (h : Answered a host₀ update s n)
    (hrest : s.AtRest) :
    s.answer? 0 = some a ∧ s.host = update host₀ := by
  obtain ⟨hl, hc, hs⟩ := h
  have hclient := hrest (.client 0)
  have hserved := hrest (.served 0)
  rw [advance_client] at hclient
  rcases hs.step rfl hl _ with ⟨-, hserver⟩ | ⟨e', released', l', host', out', inn', replied', y', hstep, -⟩
  · rcases hc.step rfl hl _ with ⟨-, hasks⟩ | ⟨stage', l', out', inn', asked', x', hstep, -⟩
    · simp only [ne_eq, List.append_eq_nil_iff] at hserver hasks
      -- what either side waits for cannot be missing: both are done
      rcases hasks with ⟨rfl, hasks⟩ | hasks
      · rcases hserver with ⟨hhost, -⟩ | hserver
        · exact ⟨rfl, hhost⟩
        · exfalso
          grind
      · exfalso
        grind
    · rw [hstep] at hclient
      cases hclient
  · rw [hstep] at hserved
    cases hserved

end RemoteCall.Link
