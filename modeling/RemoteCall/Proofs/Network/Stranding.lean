import RemoteCall.Proofs.Network.Conservation
/-!
# Stranded connections

An accept that is given up with a connection in hand leaves it in the backlog, where only accepts look that
start later. Accepts that wait already are not told: the connection is stranded, and whoever starts to accept
next gets it before them. The main result says that connections get stranded in this way and in no other.
-/

namespace RemoteCall

namespace PipeNet

/-- A connection lies in the backlog while an accept waits for one. -/
def Stranded (p : PipeNet) : Prop := p.backlog ≠ [] ∧ ∃ ticket, p.awaits ticket = true

variable {p q : PipeNet} {ticket : Nat}

/-- As long as the backlog stays as it is and no other accept waits, nothing gets stranded. -/
theorem Stranded.of_awaits (hq : q.Stranded) (hbacklog : q.backlog = p.backlog)
    (hawaits : ∀ t, q.awaits t = true → p.awaits t = true) : p.Stranded := by
  obtain ⟨hne, t, ht⟩ := hq
  exact ⟨hbacklog ▸ hne, t, hawaits t ht⟩

/-- A dial takes nothing from the backlog, and no accept waits because of it. -/
theorem pollDial_awaits (hopen : p.closed = false) (ticket : Nat) :
    (p.pollDial ticket).2.backlog = p.backlog ∧
      ∀ t, (p.pollDial ticket).2.awaits t = true → p.awaits t = true := by
  rcases pollDial_cases hopen ticket with ⟨-, hpoll⟩ | ⟨-, -, hpoll⟩ | ⟨-, gone, a, rest, _, -, -, -, hpoll, rfl⟩
  · rw [hpoll]
    exact ⟨rfl, fun t ht => ht⟩
  · rw [hpoll]
    exact ⟨rfl, fun t ht => ht⟩
  · rw [hpoll]
    refine ⟨rfl, ?_⟩
    intro t ht
    exact ((awaits_deliver (p := (p.skipped gone.length).connect.2) t).1 ht).1

/-- An accept that starts finds the backlog empty, or does not have to wait. -/
theorem not_stranded_startAccept (hopen : p.closed = false) (hp : ¬ p.Stranded) :
    ¬ p.startAccept.2.Stranded := by
  intro hq
  rcases startAccept_cases hopen with ⟨n, rest, hbacklog, hstart⟩ | ⟨hbacklog, hstart⟩
  · -- who waits now waited before, beside a backlog that was not empty
    obtain ⟨-, t, ht⟩ := hq
    rw [hstart, awaits_iff] at ht
    have hbefore : (t, none) ∈ p.accepts := by
      rcases List.mem_append.1 ht with ht | ht
      · exact ht
      · cases List.mem_singleton.1 ht
    exact hp ⟨by rw [hbacklog]; exact List.cons_ne_nil n rest, t, awaits_iff.2 hbefore⟩
  · rw [hstart] at hq
    exact hq.1 hbacklog

/-- An accept that starts while another waits gets a connection at once just when one was stranded. -/
theorem startAccept_overtakes_iff (hopen : p.closed = false) (hp : p.Ticketed) :
    ((∃ n, (p.startAccept.1, some n) ∈ p.startAccept.2.accepts) ∧ ∃ t, p.awaits t = true) ↔ p.Stranded := by
  unfold Stranded
  apply and_congr_left
  intro _
  rcases startAccept_cases hopen with ⟨n, rest, hbacklog, hstart⟩ | ⟨hbacklog, hstart⟩
  · rw [hstart, hbacklog]
    refine iff_of_true ⟨n, ?_⟩ (List.cons_ne_nil n rest)
    exact List.mem_append_right _ List.mem_cons_self
  · rw [hstart, hbacklog]
    refine iff_of_false ?_ (fun h => h rfl)
    rintro ⟨n, hn⟩
    rcases List.mem_append.1 hn with hn | hn
    · exact Nat.lt_irrefl _ (hp.lt _ hn)
    · cases List.mem_singleton.1 hn

/-- An accept that is given up strands what it has in hand if another accept waits. -/
theorem stranded_dropAccept_iff (hp : p.Ticketed) (hstranded : ¬ p.Stranded) (ticket : Nat) :
    (p.dropAccept ticket).Stranded ↔ ∃ n t, (ticket, some n) ∈ p.accepts ∧ p.awaits t = true := by
  rcases dropAccept_cases hp ticket with ⟨n, hn, hdrop⟩ | ⟨hidle, hdrop⟩
  · rw [hdrop]
    constructor
    · rintro ⟨-, t, ht⟩
      exact ⟨n, t, hn, (awaits_forgetAccept t).1 ht |>.1⟩
    · rintro ⟨-, t, -, ht⟩
      have hother : t ≠ ticket := by
        rintro rfl
        cases hp.unique (awaits_iff.1 ht) hn
      have hlast : p.backlog ++ [n] ≠ [] := List.append_ne_nil_of_right_ne_nil _ (List.cons_ne_nil n [])
      exact ⟨hlast, t, (awaits_forgetAccept t).2 ⟨ht, hother⟩⟩
  · rw [hdrop]
    refine iff_of_false ?_ ?_
    · intro hq
      exact hstranded (hq.of_awaits rfl fun t ht => ((awaits_forgetAccept t).1 ht).1)
    · rintro ⟨n, t, hn, -⟩
      exact hidle n hn

namespace Usage

variable {u : Usage}

/-- No event but an accept that is given up strands a connection. -/
theorem Conserved.not_stranded_after (h : u.Conserved) (hp : ¬ u.net.Stranded) {e : Event}
    (he : ∀ ticket, e ≠ .dropAccept ticket) : ¬ (u.after e).net.Stranded := by
  have hatEnd (hend : e.isAtEnd = true) : ¬ (u.after e).net.Stranded := by
    obtain ⟨connections, live, hnet⟩ := u.exists_after hend
    rw [hnet]
    exact fun hq => hp (hq.of_awaits rfl fun t ht => ht)
  cases e with
  | startDial => exact fun hq => hp (hq.of_awaits rfl fun t ht => ht)
  | pollDial ticket =>
    obtain ⟨hbacklog, hawaits⟩ := pollDial_awaits h.sound.opened ticket
    rw [u.net_after_pollDial]
    exact fun hq => hp (hq.of_awaits hbacklog hawaits)
  | dropDial ticket => exact fun hq => hp (hq.of_awaits rfl fun t ht => ht)
  | startAccept => exact not_stranded_startAccept h.sound.opened hp
  | pollAccept ticket =>
    rw [Usage.after]
    rcases pollAccept_cases h.sound.ticketed h.sound.opened ticket with ⟨n, -, hpoll⟩ | ⟨-, hpoll⟩
    · rw [hpoll]
      exact fun hq => hp (hq.of_awaits rfl fun t ht => ((awaits_forgetAccept t).1 ht).1)
    · rw [hpoll]
      exact hp
  | dropAccept ticket => exact absurd rfl (he ticket)
  | read | write | shutdown | release => exact hatEnd rfl

theorem Conserved.stranded_after_iff (h : u.Conserved) (hp : ¬ u.net.Stranded) (e : Event) :
    (u.after e).net.Stranded ↔
      ∃ ticket n t, e = .dropAccept ticket ∧ (ticket, some n) ∈ u.net.accepts ∧ u.net.awaits t = true := by
  by_cases he : ∃ ticket, e = .dropAccept ticket
  · obtain ⟨ticket, rfl⟩ := he
    refine (stranded_dropAccept_iff h.sound.ticketed hp ticket).trans ⟨?_, ?_⟩
    · rintro ⟨n, t, hn, ht⟩
      exact ⟨ticket, n, t, rfl, hn, ht⟩
    · rintro ⟨_, n, t, heq, hn, ht⟩
      cases heq
      exact ⟨n, t, hn, ht⟩
  · refine iff_of_false (h.not_stranded_after hp fun ticket heq => he ⟨ticket, heq⟩) ?_
    rintro ⟨ticket, n, t, heq, -⟩
    exact he ⟨ticket, heq⟩

/-- Whatever the users of a network do, a connection gets stranded exactly when an accept is given up that has
it in hand, and another accept waits; and only from then on does an accept that starts get a connection
before one that waits already. -/
theorem stranded_iff_accept_given_up (capacity : Nat) (events : List Event) :
    let u := (start capacity).run events
    (¬ u.net.Stranded → ∀ e, (u.after e).net.Stranded ↔
        ∃ ticket n t, e = .dropAccept ticket ∧ (ticket, some n) ∈ u.net.accepts ∧ u.net.awaits t = true) ∧
      (((∃ n, (u.net.startAccept.1, some n) ∈ u.net.startAccept.2.accepts) ∧
          ∃ t, u.net.awaits t = true) ↔ u.net.Stranded) := by
  intro u
  have h : u.Conserved := conserved_run capacity events
  exact ⟨fun hp e => h.stranded_after_iff hp e, startAccept_overtakes_iff h.sound.opened h.sound.ticketed⟩

/-- Two accepts wait, a dial comes to the first, and the first is given up: its connection is stranded, and an
accept that starts then gets it while the second still waits. -/
theorem second_accept_overtaken :
    let given : List Event := [.startAccept, .startDial, .pollDial 1, .startAccept, .dropAccept 0]
    ((start defaultCapacity).run given).net.Stranded ∧
      (3, some 0) ∈ ((start defaultCapacity).run (given ++ [.startAccept])).net.accepts ∧
      ((start defaultCapacity).run (given ++ [.startAccept])).net.awaits 2 = true := by
  refine ⟨⟨?_, 2, ?_⟩, ?_, ?_⟩ <;> decide

end Usage

end PipeNet

end RemoteCall
