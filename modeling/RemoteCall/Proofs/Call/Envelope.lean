import RemoteCall.Proofs.Call.Conversation
import RemoteCall.Proofs.Client.Steps
import RemoteCall.Proofs.System.Approaching
/-!
# Envelopes on a link

A client sends some bytes first and then goes on as it likes; the server takes these bytes in. Whatever the client
does behind them only adds to what is on its way (`Holds`), so the server comes to what follows the bytes it was
sent: `approaches`.
-/

namespace RemoteCall

namespace Conduit

theorem capacity_read (c : Conduit) (n : Nat) : (c.read n).2.capacity = c.capacity := by
  unfold read
  split
  · rfl
  · split <;> rfl

/-- A write adds to what is on its way, or does nothing. -/
theorem write_adds (c : Conduit) (bs : Bytes) :
    (c.write bs).2.capacity = c.capacity ∧ ∃ more, (c.write bs).2.data = c.data ++ more := by
  unfold write
  split
  · exact ⟨rfl, [], (List.append_nil _).symm⟩
  · split
    · exact ⟨rfl, [], (List.append_nil _).symm⟩
    · dsimp only
      split
      · exact ⟨rfl, [], (List.append_nil _).symm⟩
      · exact ⟨rfl, _, ByteQueue.toList_push _ _⟩

end Conduit

namespace Duplex

/-- A read on the side that dialed does not touch what that side has sent. -/
theorem read_dialer (d : Duplex) (n : Nat) :
    (d.read .dialer n).2.outbound = d.outbound ∧ (d.read .dialer n).2.inbound.capacity = d.inbound.capacity := by
  have hcapacity := d.inbound.capacity_read n
  unfold read
  rcases hread : d.inbound.read n with ⟨r, c⟩
  rw [hread] at hcapacity
  simp only [writing, Side.other, hread]
  cases r <;> exact ⟨rfl, hcapacity⟩

/-- A write on the side that dialed adds to what that side has sent, or does nothing. -/
theorem write_dialer (d : Duplex) (bs : Bytes) :
    (d.write .dialer bs).2.inbound = d.inbound ∧
      (d.write .dialer bs).2.outbound.capacity = d.outbound.capacity ∧
      ∃ more, (d.write .dialer bs).2.outbound.data = d.outbound.data ++ more := by
  have hadds := d.outbound.write_adds bs
  unfold write
  rcases hwrite : d.outbound.write bs with ⟨r, c⟩
  rw [hwrite] at hadds
  simp only [writing, hwrite]
  cases r <;> exact ⟨rfl, hadds⟩

end Duplex

namespace Link

open Exchange

variable {σ α : Type}

/-! ## What the client adds -/

/-- Some bytes are on their way to the server. -/
structure Holds (l : Link) (out : Bytes) : Prop where
  data : l.duplex.outbound.data = out
  capacity : 0 < l.duplex.outbound.capacity
  capacity' : 0 < l.duplex.inbound.capacity

variable {l l' : Link} {out : Bytes}

theorem Carries.holds {sentEnds dueEnds : Bool} {due : Bytes} (h : l.Carries .dialer out sentEnds due dueEnds) :
    l.Holds out :=
  ⟨h.sent, h.capacity .dialer, h.capacity .acceptor⟩

theorem Holds.carries (h : l.Holds out) : ∃ sent sentEnds dueEnds, l.Carries .acceptor sent sentEnds out dueEnds := by
  refine ⟨_, _, _, rfl, rfl, h.data, rfl, fun s => ?_⟩
  cases s
  · exact h.capacity
  · exact h.capacity'

/-- Nothing that a client does on a link takes bytes back. -/
theorem Holds.uses (h : l.Holds out) (huses : (channel .dialer).Uses l l') : ∃ more, l'.Holds (out ++ more) := by
  obtain ⟨hdata, hcapacity, hcapacity'⟩ := h
  cases huses with
  | none | flush | shutdown =>
    refine ⟨[], ?_⟩
    rw [List.append_nil]
    exact ⟨hdata, hcapacity, hcapacity'⟩
  | read n =>
    obtain ⟨hout, hin⟩ := l.duplex.read_dialer (min n (l.most l.transfers))
    refine ⟨[], ?_⟩
    rw [List.append_nil]
    exact ⟨(congrArg Conduit.data hout).trans hdata,
      Nat.lt_of_lt_of_eq hcapacity (congrArg Conduit.capacity hout).symm, Nat.lt_of_lt_of_eq hcapacity' hin.symm⟩
  | write bs =>
    obtain ⟨hin, hout, more, hmore⟩ := l.duplex.write_dialer (bs.take (l.most l.transfers))
    exact ⟨more, hmore.trans (congrArg (· ++ more) hdata), Nat.lt_of_lt_of_eq hcapacity hout.symm,
      Nat.lt_of_lt_of_eq hcapacity' (congrArg Conduit.capacity hin).symm⟩

theorem Holds.release (h : l.Holds out) : ((channel .dialer).release l).Holds out := ⟨h.data, h.capacity, h.capacity'⟩

/-- Nothing that an operation does on a link takes bytes back. -/
theorem Holds.moves (h : l.Holds out) {refuse : Refusal → α} {cancelled : Bool} {stage stage' : Stage σ α}
    (hmoves : Operation.Moves network refuse cancelled stage l stage' l') : ∃ more, l'.Holds (out ++ more) := by
  have hsame : ∃ more, l.Holds (out ++ more) := ⟨[], by rwa [List.append_nil]⟩
  have hreleased : ∃ more, ((channel .dialer).release l).Holds (out ++ more) := ⟨[], by
    rw [List.append_nil]
    exact h.release⟩
  cases hmoves with
  | cancel | cancelDial | dial | handOver => exact hsame
  | cancelTalk | talkFailed | giveUp => exact hreleased
  | connect _ hpoll =>
    cases hpoll
    exact hsame
  | dialFailed _ hpoll => cases hpoll
  | talk _ _ huses | use _ _ _ huses => exact h.uses huses

/-! ## A client that sends some bytes first -/

/-- How far a client is that sends some bytes, and what it still has to send of them. -/
inductive Speaks : Stage σ α → Bytes → Prop
  | idle {talk : Attempt σ (Exchange σ α)} {n owed next} (hs : Sends Attempt.failed n talk.run owed next) :
    Speaks (.idle talk) owed
  | dialing (ticket) {talk : Attempt σ (Exchange σ α)} {n owed next}
      (hs : Sends Attempt.failed n talk.run owed next) : Speaks (.dialing ticket talk) owed
  | talking (connection) {talk n owed next} (hs : Sends Attempt.failed n talk owed next) :
    Speaks (.talking connection talk) owed

variable {stage : Stage σ α} {refuse : Refusal → α} {owed due : Bytes} {ends : Bool} {host : σ}

/-- As long as a client has bytes to send, it waits behind its own or sends more of them. -/
theorem Speaks.step (h : Speaks stage owed) (hl : l.Carries .dialer out false due ends) (howed : owed ≠ [])
    (refuse : Refusal → α) (host : σ) :
    (Operation.step network false ⟨stage, refuse⟩ l host = none ∧ out ≠ []) ∨
      ∃ stage' l' out' owed', Operation.step network false ⟨stage, refuse⟩ l host =
          some (⟨stage', refuse⟩, l', host) ∧
        Speaks stage' owed' ∧ l'.Carries .dialer out' false due ends ∧ out' ++ owed' = out ++ owed := by
  cases h with
  | idle hs => exact .inr ⟨_, l, out, owed, rfl, .dialing 0 hs, hl, rfl⟩
  | dialing _ hs => exact .inr ⟨_, l, out, owed, rfl, .talking 0 hs, hl, rfl⟩
  | @talking connection talk n _ next hs =>
    rcases Nat.eq_zero_or_pos n with rfl | hn
    · cases hs
      exact absurd rfl howed
    · obtain ⟨hopen, ⟨-, hbehind, hstep⟩ | ⟨hclosed, -⟩ | hmoves⟩ := hs.step_cases hn hl host
      · exact .inl ⟨Operation.step_talking_none hopen hstep, hbehind⟩
      · cases hclosed
      · obtain ⟨n', talk', l', out', owed', hstep, hs', hl', hsame, -⟩ := hmoves
        exact .inr ⟨_, l', out', owed', Operation.step_talking_some hopen hstep, .talking connection hs', hl', hsame⟩

/-! ## The conversation -/

variable {target : Exchange σ (Except ServeError Unit)}

/-- A conversation in which the server still takes in what leads it to an exchange: the client is about to send
more of it, or has sent it all. The count is how many steps that takes the server at most. -/
inductive Heard (target : Exchange σ (Except ServeError Unit)) : System Link σ α → Nat → Prop
  | speaking {settings l host stage refuse e out owed due ends left k} (hl : l.Carries .dialer out false due ends)
      (hc : Speaks stage owed) (howed : owed ≠ []) (hr : Receives (k + 1) e (out ++ owed) target left) :
      Heard target (conversation settings l host ⟨stage, refuse⟩ e false)
        (k + 1 + (out.length + owed.length - left.length))
  | spoken {settings l host o e out left k} (hl : l.Holds out) (hr : Receives (k + 1) e out target left) :
      Heard target (conversation settings l host o e false) (k + 1 + (out.length - left.length))

theorem serving?_conversation (settings : Settings σ) (l : Link) (host : σ) (o : Operation σ α)
    (e : Exchange σ (Except ServeError Unit)) (released : Bool) :
    (conversation settings l host o e released).serving? 0 = some e := rfl

/-- Without anything left to send, the bytes are all on their way. -/
theorem Heard.of_carries {settings : Settings σ} {e : Exchange σ (Except ServeError Unit)} {left : Bytes} {k : Nat}
    (hl : l.Carries .dialer out false due ends) (hc : Speaks stage owed)
    (hr : Receives (k + 1) e (out ++ owed) target left) :
    Heard target (conversation settings l host ⟨stage, refuse⟩ e false)
      (k + 1 + (out.length + owed.length - left.length)) := by
  by_cases howed : owed = []
  · subst howed
    rw [List.append_nil] at hr
    exact .spoken hl.holds hr
  · exact .speaking hl hc howed hr

/-- A step of the server takes in some bytes, or it has to wait for them. -/
theorem served_cases {settings : Settings σ} {o : Operation σ α} {e : Exchange σ (Except ServeError Unit)}
    {sent left : Bytes} {sentEnds dueEnds : Bool} {k : Nat} (hl : l.Carries .acceptor sent sentEnds out dueEnds)
    (hends : dueEnds = true → owed = []) (hr : Receives (k + 1) e (out ++ owed) target left) :
    ((conversation settings l host o e false).advance (.served 0) = none ∧ out = []) ∨
      ∃ k' e' l' out', (conversation settings l host o e false).advance (.served 0) =
          some (conversation settings l' host o e' false) ∧
        Receives k' e' (out' ++ owed) target left ∧ l'.Carries .acceptor sent sentEnds out' dueEnds ∧
        k' + out'.length < k + 1 + out.length ∧ (k' = 0 → e' = target) := by
  obtain ⟨hopen, ⟨-, hempty, hstep⟩ | ⟨k', e', l', out', hstep, hr', hl', hless, -⟩⟩ :=
    hr.step_cases (Nat.succ_pos k) hl hends host
  · exact .inl ⟨advance_served_none hopen hstep, hempty⟩
  · refine .inr ⟨k', e', l', out', advance_served_some hopen hstep, hr', hl', hless, ?_⟩
    rintro rfl
    generalize out' ++ owed = inp at hr'
    cases hr'
    rfl

/-- The server waits only with nothing on its way. -/
theorem served_waits {settings : Settings σ} {o : Operation σ α} {e : Exchange σ (Except ServeError Unit)}
    {sent left : Bytes} {sentEnds dueEnds : Bool} {k : Nat} (hl : l.Carries .acceptor sent sentEnds out dueEnds)
    (hends : dueEnds = true → owed = []) (hr : Receives (k + 1) e (out ++ owed) target left)
    (hwait : (conversation settings l host o e false).advance (.served 0) = none) : out = [] := by
  rcases served_cases hl hends hr with ⟨-, hout⟩ | ⟨_, _, _, _, hstep, -⟩
  · exact hout
  · rw [hstep] at hwait
    cases hwait

/-- A step brings the server to the exchange, or leaves it with more to take in. -/
theorem served_next {settings : Settings σ} {o : Operation σ α} {e : Exchange σ (Except ServeError Unit)}
    {sent left : Bytes} {sentEnds dueEnds : Bool} {k : Nat} {s' : System Link σ α}
    (hl : l.Carries .acceptor sent sentEnds out dueEnds) (hends : dueEnds = true → owed = [])
    (hr : Receives (k + 1) e (out ++ owed) target left)
    (hadvance : (conversation settings l host o e false).advance (.served 0) = some s') :
    s'.serving? 0 = some target ∨
      ∃ k' e' l' out', s' = conversation settings l' host o e' false ∧
        Receives (k' + 1) e' (out' ++ owed) target left ∧ l'.Carries .acceptor sent sentEnds out' dueEnds ∧
        k' + out'.length + 1 < k + 1 + out.length ∧ left.length ≤ out'.length + owed.length := by
  rcases served_cases hl hends hr with ⟨hwait, -⟩ | ⟨k', e', l', out', hstep, hr', hl', hless, hat⟩
  · rw [hwait] at hadvance
    cases hadvance
  · rw [hstep] at hadvance
    cases hadvance
    cases k' with
    | zero => exact .inl (by rw [serving?_conversation, hat rfl])
    | succ k' =>
      have hleft := hr'.suffix.length_le
      rw [List.length_append] at hleft
      exact .inr ⟨k', e', l', out', rfl, hr', hl', by omega, hleft⟩

/-- Every step keeps the invariant, unless it brings the server to the exchange, and those of the server lower its
count. -/
theorem Heard.advance {s s' : System Link σ α} {n : Nat} {p : Part} (h : Heard target s n)
    (hadvance : s.advance p = some s') :
    s'.serving? 0 = some target ∨ ∃ m, Heard target s' m ∧ m + (if p = .served 0 then 1 else 0) ≤ n := by
  by_cases hserved : p = .served 0
  · subst hserved
    rw [if_pos rfl]
    cases h with
    | @speaking settings l host stage refuse e out owed due ends left k hl hc howed hr =>
      rcases served_next hl.other (by simp) hr hadvance with
        hat | ⟨k', e', l', out', rfl, hr', hl', hless, hleft⟩
      · exact .inl hat
      · exact .inr ⟨_, .speaking hl'.other hc howed hr', by omega⟩
    | @spoken settings l host o e out left k hl hr =>
      obtain ⟨sent, sentEnds, dueEnds, hcarries⟩ := hl.carries
      rw [← List.append_nil out] at hr
      rcases served_next hcarries (fun _ => rfl) hr hadvance with
        hat | ⟨k', e', l', out', rfl, hr', hl', hless, hleft⟩
      · exact .inl hat
      · rw [List.append_nil] at hr'
        rw [List.length_nil] at hleft
        exact .inr ⟨_, .spoken hl'.other.holds hr', by omega⟩
  · by_cases hclient : p = .client 0
    · subst hclient
      rw [if_neg hserved]
      cases h with
      | @speaking settings l host stage refuse e out owed due ends left k hl hc howed hr =>
        rw [advance_client] at hadvance
        rcases hc.step hl howed refuse host with ⟨hwait, -⟩ | ⟨stage', l', out', owed', hstep, hc', hl', hsame⟩
        · rw [hwait] at hadvance
          cases hadvance
        · rw [hstep] at hadvance
          cases hadvance
          rw [← hsame] at hr
          have hlength := congrArg List.length hsame
          simp only [List.length_append] at hlength
          exact .inr ⟨_, .of_carries hl' hc' hr, by omega⟩
      | @spoken settings l host o e out left k hl hr =>
        rw [advance_client] at hadvance
        -- all is sent, and whatever the client does now comes behind it
        obtain ⟨⟨o', l', host'⟩, hstep, heq⟩ := Option.map_eq_some_iff.1 hadvance
        cases heq
        obtain ⟨more, hl'⟩ := hl.moves (Operation.step_cases hstep).2
        refine .inr ⟨_, .spoken hl' (hr.append more), ?_⟩
        simp only [List.length_append]
        omega
    · cases h with
      | speaking | spoken =>
        rw [advance_other hclient hserved] at hadvance
        cases hadvance

/-- Meanwhile the server takes in bytes, and some part can move. -/
theorem Heard.receives {s : System Link σ α} {n : Nat} (h : Heard target s n) : 0 < n ∧ ¬s.AtRest ∧
    ∃ e k due rest, s.serving? 0 = some e ∧ Receives (k + 1) e due target rest := by
  cases h with
  | @speaking settings l host stage refuse e out owed due ends left k hl hc howed hr =>
    refine ⟨by omega, fun hrest => ?_, e, k, _, left, rfl, hr⟩
    have hclient := hrest (.client 0)
    rw [advance_client] at hclient
    have hout := served_waits hl.other (by simp) hr (hrest (.served 0))
    rcases hc.step hl howed refuse host with ⟨-, hbehind⟩ | ⟨_, _, _, _, hstep, -⟩
    · exact hbehind hout
    · rw [hstep] at hclient
      cases hclient
  | @spoken settings l host o e out left k hl hr =>
    refine ⟨by omega, fun hrest => ?_, e, k, _, left, rfl, hr⟩
    have hne := hr.ne_nil (Nat.succ_pos k)
    obtain ⟨sent, sentEnds, dueEnds, hcarries⟩ := hl.carries
    rw [← List.append_nil out] at hr
    exact hne (served_waits hcarries (fun _ => rfl) hr (hrest (.served 0)))

end Link

end RemoteCall
