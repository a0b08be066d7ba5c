import RemoteCall.Proofs.Call.Conversation
/-!
# Conversations that come to nothing

The server receives what it cannot take and gives the connection up, without asking the host or
sending a byte. Meanwhile the client sends its request and waits for a reply; once the connection is
given up, its next write fails or its read finds the end. The invariant `Refused` follows both, and
at rest the client is refused.
-/

namespace RemoteCall.Link

open Exchange

variable {σ α : Type}

/-- How far a client is that will get no reply, what it still has to send, and how long that takes
at most. -/
inductive Pleads : Stage σ α → Bytes → Nat → Prop
  | idle {talk : Attempt σ (Exchange σ α)} {n limit next owed}
      (hs : Sends Attempt.failed n talk.run owed (.receiveRecord limit .start next))
      (hnext : ∀ f, next (.error f) = Attempt.failed f) : Pleads (.idle talk) owed (n + 2 * owed.length + 4)
  | dialing (ticket) {talk : Attempt σ (Exchange σ α)} {n limit next owed}
      (hs : Sends Attempt.failed n talk.run owed (.receiveRecord limit .start next))
      (hnext : ∀ f, next (.error f) = Attempt.failed f) :
      Pleads (.dialing ticket talk) owed (n + 2 * owed.length + 3)
  | talking (connection) {talk n limit next owed}
      (hs : Sends Attempt.failed n talk owed (.receiveRecord limit .start next))
      (hnext : ∀ f, next (.error f) = Attempt.failed f) :
      Pleads (.talking connection talk) owed (n + 2 * owed.length + 2)

/-- A conversation under way in which the client is refused. -/
inductive Refused (refuse : Refusal → α) (host : σ) : System Link σ α → Nat → Prop
  | unheard {settings l stage e out asked left f x k} (hl : l.Carries .dialer out false [] false)
      (hsilent : l.Silent .acceptor) (hc : Pleads stage asked x)
      (hs : Receives k e (out ++ asked) (.done (.error f)) left) :
      Refused refuse host (conversation settings l host ⟨stage, refuse⟩ e false) (x + k + out.length + 1)
  | abandoned {settings l stage z out asked x} (hl : l.Carries .dialer out true [] true)
      (hsilent : l.Silent .acceptor) (hc : Pleads stage asked x) :
      Refused refuse host (conversation settings l host ⟨stage, refuse⟩ (.done z) true) (x + out.length)
  | failed {settings l connection z out f} (hl : l.Carries .dialer out true [] true)
      (hsilent : l.Silent .acceptor) :
      Refused refuse host
        (conversation settings l host ⟨.talking connection (Attempt.failed f), refuse⟩ (.done z) true)
        (out.length + 1)
  | finished {settings l z out f} (hl : l.Carries .dialer out true [] true) (hsilent : l.Silent .acceptor) :
      Refused refuse host
        (conversation settings l host ⟨.finished (refuse (.fault f)), refuse⟩ (.done z) true) out.length

variable {refuse : Refusal → α} {host : σ} {l : Link} {stage : Stage σ α} {out asked : Bytes}
  {ends : Bool} {x : Nat}

/-- The client has to wait, behind its own bytes or because it has sent all, or goes on, or finds
the connection given up. -/
theorem Pleads.step (h : Pleads stage asked x) (hl : l.Carries .dialer out ends [] ends)
    (hsilent : l.Silent .acceptor) (refuse : Refusal → α) (host : σ) :
    (Operation.step network false ⟨stage, refuse⟩ l host = none ∧ ends = false ∧ (out ≠ [] ∨ asked = [])) ∨
    (∃ stage' l' out' asked' x',
      Operation.step network false ⟨stage, refuse⟩ l host = some (⟨stage', refuse⟩, l', host) ∧
      l'.Carries .dialer out' ends [] ends ∧ l'.Silent .acceptor ∧ Pleads stage' asked' x' ∧
      out' ++ asked' = out ++ asked ∧ x' + out'.length < x + out.length) ∨
    ∃ connection f l', Operation.step network false ⟨stage, refuse⟩ l host =
        some (⟨.talking connection (Attempt.failed f), refuse⟩, l', host) ∧
      ends = true ∧ l'.Carries .dialer out ends [] ends ∧ l'.Silent .acceptor ∧ 1 < x := by
  cases h with
  | idle hs hnext =>
    exact .inr (.inl ⟨_, l, out, _, _, rfl, hl, hsilent, .dialing 0 hs hnext, rfl, by omega⟩)
  | dialing _ hs hnext =>
    exact .inr (.inl ⟨_, l, out, _, _, rfl, hl, hsilent, .talking 0 hs hnext, rfl, by omega⟩)
  | @talking connection talk n limit next _ hs hnext =>
    rcases Nat.eq_zero_or_pos n with rfl | hn
    · cases hs
      have hneed : 0 < Record.Gathering.start.need := Nat.succ_pos 3
      have hopen : (receiveRecord limit .start next).answer? = none := rfl
      rcases read_cases hl hneed with ⟨-, hends, l', hread⟩ |
        ⟨piece, rest, l', hread, -, hsplit, hend, hl', hsilent'⟩
      · have hstep : (receiveRecord limit .start next).step (channel .dialer) l host = none := by
          simp only [Exchange.step, hread]
        exact .inl ⟨Operation.step_talking_none hopen hstep, hends, .inr rfl⟩
      · -- nothing is due from the server, so what the client finds is the end
        obtain ⟨rfl, rfl⟩ := List.append_eq_nil_iff.1 hsplit.symm
        have hstep : (receiveRecord limit .start next).step (channel .dialer) l host =
            some (Attempt.failed .earlyEof, l', host) := by
          simp only [Exchange.step, hread, hnext]
        exact .inr (.inr ⟨connection, .earlyEof, l', Operation.step_talking_some hopen hstep,
          (hend rfl).2, hl', hsilent' _ hsilent, by omega⟩)
    · obtain ⟨hopen, ⟨hends, hbehind, hstep⟩ | ⟨hclosed, -, l', hstep, hl', hsilent'⟩ | hmoves⟩ :=
        hs.step_cases hn hl host
      · exact .inl ⟨Operation.step_talking_none hopen hstep, hends, .inl hbehind⟩
      · exact .inr (.inr ⟨connection, .brokenPipe, l', Operation.step_talking_some hopen hstep, hclosed, hl',
          hsilent' _ hsilent, by omega⟩)
      · obtain ⟨n', talk', l', out', asked', hstep, hs', hl', hsame, -, hless, hsilent'⟩ := hmoves
        exact .inr (.inl ⟨_, l', out', asked', _, Operation.step_talking_some hopen hstep, hl',
          hsilent' _ (by decide) hsilent, .talking connection hs' hnext, hsame, by omega⟩)

/-- Every step keeps the invariant. -/
theorem Refused.advance {s s' : System Link σ α} {n : Nat} {p : Part} (h : Refused refuse host s n)
    (hadvance : s.advance p = some s') : ∃ m, m < n ∧ Refused refuse host s' m := by
  by_cases hclient : p = .client 0
  · subst hclient
    cases h with
    | unheard hl hsilent hc hs =>
      rw [advance_client] at hadvance
      rcases hc.step hl hsilent refuse host with
        ⟨hwait, -⟩ | ⟨stage', l', out', asked', x', hstep, hl', hsilent', hc', hsame, hless⟩ |
          ⟨-, -, -, -, hends, -⟩
      · rw [hwait] at hadvance
        cases hadvance
      · rw [hstep] at hadvance
        cases hadvance
        rw [← hsame] at hs
        exact ⟨_, by omega, .unheard hl' hsilent' hc' hs⟩
      · cases hends
    | abandoned hl hsilent hc =>
      rw [advance_client] at hadvance
      rcases hc.step hl hsilent refuse host with
        ⟨-, hends, -⟩ | ⟨stage', l', out', asked', x', hstep, hl', hsilent', hc', -, hless⟩ |
        ⟨connection, f, l', hstep, -, hl', hsilent', hless⟩
      · cases hends
      · rw [hstep] at hadvance
        cases hadvance
        exact ⟨_, hless, .abandoned hl' hsilent' hc'⟩
      · rw [hstep] at hadvance
        cases hadvance
        exact ⟨_, by omega, .failed hl' hsilent'⟩
    | failed hl hsilent =>
      rw [advance_client] at hadvance
      cases hadvance
      exact ⟨_, Nat.lt_succ_self _, .finished (release_carries hl) (release_silent .dialer hsilent)⟩
    | finished hl hsilent =>
      rw [advance_client] at hadvance
      cases hadvance
  · by_cases hserved : p = .served 0
    · subst hserved
      cases h with
      | @unheard settings l stage e out asked left f x k hl hsilent hc hs =>
        rcases Nat.eq_zero_or_pos k with rfl | hk
        · -- the fault makes the server let go of the connection, unread bytes and all
          cases hs
          cases hadvance
          exact ⟨_, by omega,
            .abandoned (release_carries hl.other).other (release_silent .acceptor hsilent) hc⟩
        · obtain ⟨hopen, ⟨-, -, hstep⟩ | ⟨k', e', l', out', hstep, hs', hl', hless, hsilent'⟩⟩ :=
            hs.step_cases hk hl.other (by simp) host
          · rw [advance_served_none hopen hstep] at hadvance
            cases hadvance
          · rw [advance_served_some hopen hstep] at hadvance
            cases hadvance
            exact ⟨_, by omega, .unheard hl'.other (hsilent' _ hsilent) hc hs'⟩
      | abandoned | failed | finished => cases hadvance
    · cases h with
      | unheard | abandoned | failed | finished =>
        rw [advance_other hclient hserved] at hadvance
        cases hadvance

/-- The host is never asked, nothing comes from the server, and the client gets no answer but a
refusal. -/
theorem Refused.sound {s : System Link σ α} {n : Nat} (h : Refused refuse host s n) :
    s.host = host ∧ s.world.Silent .acceptor ∧ s.world.duplex.inbound.data = [] ∧
      ∀ r, s.answer? 0 = some r → ∃ f, r = refuse (.fault f) := by
  cases h with
  | unheard hl hsilent hc =>
    refine ⟨rfl, hsilent, hl.due, fun r hr => ?_⟩
    cases hc <;> cases hr
  | abandoned hl hsilent hc =>
    refine ⟨rfl, hsilent, hl.due, fun r hr => ?_⟩
    cases hc <;> cases hr
  | failed hl hsilent => exact ⟨rfl, hsilent, hl.due, fun _ hr => by cases hr⟩
  | finished hl hsilent =>
    refine ⟨rfl, hsilent, hl.due, fun r hr => ?_⟩
    cases hr
    exact ⟨_, rfl⟩

/-- At rest the client is refused. -/
theorem Refused.complete {s : System Link σ α} {n : Nat} (h : Refused refuse host s n) (hrest : s.AtRest) :
    ∃ f, s.answer? 0 = some (refuse (.fault f)) := by
  have hclient := hrest (.client 0)
  have hserved := hrest (.served 0)
  cases h with
  | @unheard settings l stage e out asked left f x k hl hsilent hc hs =>
    rw [advance_client] at hclient
    exfalso
    rcases hc.step hl hsilent refuse host with
      ⟨-, -, hwaits⟩ | ⟨_, _, _, _, _, hstep, -⟩ | ⟨_, _, _, _, hends, -⟩
    · rcases Nat.eq_zero_or_pos k with rfl | hk
      · cases hs
        cases hserved
      · have hne := hs.ne_nil hk
        obtain ⟨hopen, ⟨-, hout, -⟩ | ⟨_, _, _, _, hstep, -⟩⟩ := hs.step_cases hk hl.other (by simp) host
        · -- the server waits for bytes that the client could send
          rcases hwaits with hbehind | hasked
          · exact hbehind hout
          · exact hne (by rw [hout, hasked, List.nil_append])
        · rw [advance_served_some hopen hstep] at hserved
          cases hserved
    · rw [hstep] at hclient
      cases hclient
    · cases hends
  | abandoned hl hsilent hc =>
    rw [advance_client] at hclient
    rcases hc.step hl hsilent refuse host with ⟨-, hends, -⟩ | ⟨_, _, _, _, _, hstep, -⟩ | ⟨_, _, _, hstep, -⟩
    · cases hends
    · rw [hstep] at hclient
      cases hclient
    · rw [hstep] at hclient
      cases hclient
  | failed => cases hclient
  | finished => exact ⟨_, rfl⟩

end RemoteCall.Link
