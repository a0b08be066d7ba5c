import RemoteCall.Proofs.Network.Usage
/-!
# No connection is lost

A connection that a dial came to has its other end in one place at any time: in hand of an accept
under way, in the backlog, or with the user whose accept came to it. `Accounts` ties the ends that
are held to the connections and to the counter of live ends, and says how each change of one of them
changes the others; `Sound` does so for a whole network, and every event keeps it. The main result is
about every usage that events lead to.
-/

namespace RemoteCall

/-! ## Accounts of ends -/

/-- The ends that are held, each once, are those that the connections know to be held, and as many as
are counted. -/
structure Accounts (connections : Array Duplex) (live : Nat) (ends : List (Nat × Side)) : Prop where
  nodup : ends.Nodup
  mem_iff : ∀ n s, (n, s) ∈ ends ↔ ∃ d, connections[n]? = some d ∧ d.isHeld s = true
  live_eq : live = ends.length

namespace Accounts

variable {connections : Array Duplex} {live n : Nat} {ends ends' : List (Nat × Side)} {s : Side}

/-- Ends may change hands. -/
theorem perm (h : Accounts connections live ends) (hends : ends.Perm ends') :
    Accounts connections live ends' :=
  ⟨hends.nodup_iff.1 h.nodup, fun n s => hends.mem_iff.symm.trans (h.mem_iff n s),
    h.live_eq.trans hends.length_eq⟩

theorem lt_size (h : Accounts connections live ends) (hn : (n, s) ∈ ends) : n < connections.size := by
  obtain ⟨d, hd, -⟩ := (h.mem_iff n s).1 hn
  exact (Array.getElem?_eq_some_iff.1 hd).1

/-- Connections of which no end is held do not count. -/
theorem append_spent (h : Accounts connections live ends) (count capacity : Nat) :
    Accounts (connections ++ Array.replicate count (.spent capacity)) live ends := by
  refine ⟨h.nodup, fun n s => (h.mem_iff n s).trans ?_, h.live_eq⟩
  rw [Array.getElem?_append]
  split
  · exact Iff.rfl
  · rename_i hn
    rw [Array.getElem?_eq_none (Nat.not_lt.1 hn)]
    constructor
    · rintro ⟨d, hd, -⟩
      cases hd
    · rintro ⟨d, hd, hs⟩
      obtain ⟨hlt, rfl⟩ := Array.getElem?_eq_some_iff.1 hd
      rw [Array.getElem_replicate, Duplex.isHeld_spent] at hs
      cases hs

/-- A new connection has two ends. -/
theorem push (h : Accounts connections live ends) (capacity : Nat) :
    Accounts (connections.push (.ofCapacity capacity)) (live + 2)
      ((connections.size, .dialer) :: (connections.size, .acceptor) :: ends) := by
  have hnew : ∀ s, (connections.size, s) ∉ ends := fun s hs => Nat.lt_irrefl _ (h.lt_size hs)
  refine ⟨?_, fun n s => ?_, by rw [h.live_eq]; rfl⟩
  · simp [hnew, h.nodup]
  · rw [Array.getElem?_push]
    by_cases hn : n = connections.size
    · subst hn
      rw [if_pos rfl]
      refine iff_of_true ?_ ⟨_, rfl, Duplex.isHeld_ofCapacity capacity s⟩
      cases s <;> simp
    · rw [if_neg hn, ← h.mem_iff]
      simp [hn]

/-- A held end that is given up counts no more. -/
theorem release (h : Accounts connections live ends) (hn : (n, s) ∈ ends) :
    Accounts (connections.modify n (Duplex.release s)) (live - 1) (ends.erase (n, s)) ∧
      live - 1 + 1 = live := by
  have hlive : ends.length - 1 + 1 = ends.length := Nat.sub_add_cancel (List.length_pos_of_mem hn)
  refine ⟨⟨h.nodup.erase _, fun m t => ?_, ?_⟩, by rw [h.live_eq, hlive]⟩
  · rw [h.nodup.mem_erase_iff, Array.getElem?_modify, h.mem_iff]
    by_cases hmn : n = m
    · subst hmn
      rw [if_pos rfl]
      constructor
      · rintro ⟨hne, d, hd, ht⟩
        refine ⟨_, by rw [hd]; rfl, (d.isHeld_release s t).2 ⟨ht, fun hts => hne (by rw [hts])⟩⟩
      · rintro ⟨d', hd', ht⟩
        obtain ⟨d, hd, rfl⟩ := Option.map_eq_some_iff.1 hd'
        obtain ⟨ht, hts⟩ := (d.isHeld_release s t).1 ht
        exact ⟨fun hmt => hts (Prod.mk.inj hmt).2, d, hd, ht⟩
    · rw [if_neg hmn]
      exact and_iff_right fun hmt => hmn (Prod.mk.inj hmt).1.symm
  · rw [h.live_eq, List.length_erase_of_mem hn]

/-- What passes through a connection does not change who holds its ends. -/
theorem set (h : Accounts connections live ends) {d d' : Duplex} (hd : connections[n]? = some d)
    (hd' : ∀ t, d'.isHeld t = d.isHeld t) : Accounts (connections.set! n d') live ends := by
  refine ⟨h.nodup, fun m t => (h.mem_iff m t).trans ?_, h.live_eq⟩
  rw [Array.set!_eq_setIfInBounds, Array.getElem?_setIfInBounds]
  by_cases hmn : n = m
  · subst hmn
    rw [if_pos rfl, if_pos (Array.getElem?_eq_some_iff.1 hd).1, hd]
    simp [hd']
  · rw [if_neg hmn]

end Accounts

/-- How many ends of some connections are held, counted connection by connection. -/
def Duplex.countHeld : List Duplex → Nat
  | [] => 0
  | d :: ds => d.heldEnds + countHeld ds

/-- The sides whose ends are held. -/
def Duplex.heldSides (d : Duplex) : List Side := [Side.dialer, .acceptor].filter d.isHeld

theorem Duplex.length_heldSides (d : Duplex) : d.heldSides.length = d.heldEnds := by
  unfold heldSides heldEnds
  cases hdialer : d.isHeld .dialer <;> cases hacceptor : d.isHeld .acceptor <;> simp [hdialer, hacceptor]

theorem Duplex.mem_heldSides {d : Duplex} {s : Side} : s ∈ d.heldSides ↔ d.isHeld s = true := by
  cases s <;> simp [heldSides]

namespace Accounts

/-- Ends of connections from some place on are as many as these connections count. -/
theorem length_ends (ds : List Duplex) (k : Nat) (ends : List (Nat × Side)) (hnodup : ends.Nodup)
    (hends : ∀ n s, (n, s) ∈ ends ↔ k ≤ n ∧ ∃ d, ds[n - k]? = some d ∧ d.isHeld s = true) :
    ends.length = Duplex.countHeld ds := by
  induction ds generalizing k ends with
  | nil =>
    have hnone : ends = [] := by
      apply List.eq_nil_iff_forall_not_mem.2
      intro e he
      obtain ⟨-, d, hd, -⟩ := (hends e.1 e.2).1 he
      cases hd
    rw [hnone]
    rfl
  | cons d ds ih =>
    -- the ends of the first connection, and those of the others
    have hfirst : (ends.filter fun e => e.1 == k).length = d.heldEnds := by
      have hmem : ∀ e, e ∈ ends.filter (fun e => e.1 == k) ↔ e ∈ d.heldSides.map (k, ·) := by
        intro e
        rw [List.mem_filter, hends, beq_iff_eq, List.mem_map]
        constructor
        · rintro ⟨⟨-, d', hd', hs⟩, hk⟩
          rw [hk, Nat.sub_self, List.getElem?_cons_zero, Option.some.injEq] at hd'
          exact ⟨e.2, Duplex.mem_heldSides.2 (hd' ▸ hs), by rw [← hk]⟩
        · rintro ⟨s, hs, rfl⟩
          exact ⟨⟨Nat.le_refl _, d, by simp, Duplex.mem_heldSides.1 hs⟩, rfl⟩
      have hsides : (d.heldSides.map (k, ·)).Nodup := by
        have hheld : d.heldSides.Nodup :=
          List.Pairwise.filter _ (by decide : [Side.dialer, Side.acceptor].Nodup)
        exact List.Pairwise.map (k, ·) (fun s t hne h => hne (Prod.mk.inj h).2) hheld
      have hperm := (List.perm_ext_iff_of_nodup (hnodup.filter _) hsides).2 hmem
      rw [hperm.length_eq, List.length_map, d.length_heldSides]
    have hrest : (ends.filter fun e => !(e.1 == k)).length = Duplex.countHeld ds := by
      apply ih (k + 1) _ (hnodup.filter _)
      intro n s
      rw [List.mem_filter, hends, Bool.not_eq_true', beq_eq_false_iff_ne]
      constructor
      · rintro ⟨⟨hle, d', hd', hs⟩, hne⟩
        have hlt : k < n := Nat.lt_of_le_of_ne hle (Ne.symm hne)
        have hsub : n - k = n - (k + 1) + 1 := by omega
        rw [hsub, List.getElem?_cons_succ] at hd'
        exact ⟨hlt, d', hd', hs⟩
      · rintro ⟨hlt, d', hd', hs⟩
        have hsub : n - k = n - (k + 1) + 1 := by omega
        refine ⟨⟨by omega, d', ?_, hs⟩, by show n ≠ k; omega⟩
        rw [hsub, List.getElem?_cons_succ]
        exact hd'
    have hsplit := (List.filter_append_perm (fun e : Nat × Side => e.1 == k) ends).length_eq
    rw [Duplex.countHeld, ← hfirst, ← hrest, ← hsplit, List.length_append]

/-- The counter of live ends tells how many ends of all connections are held. -/
theorem live_eq_countHeld {connections : Array Duplex} {live : Nat} {ends : List (Nat × Side)}
    (h : Accounts connections live ends) : live = Duplex.countHeld connections.toList := by
  rw [h.live_eq]
  apply length_ends _ 0 _ h.nodup
  intro n s
  rw [h.mem_iff, Nat.sub_zero, Array.getElem?_toList]
  exact (and_iff_right (Nat.zero_le n)).symm

end Accounts

/-! ## Sound networks -/

namespace PipeNet

/-- The ends that someone holds: users, or the network for its accepts. -/
def ends (p : PipeNet) (held : List (Nat × Side)) : List (Nat × Side) :=
  held ++ p.kept.map (·, .acceptor)

/-- A network that is not closed, whose users hold some ends. -/
structure Sound (p : PipeNet) (held : List (Nat × Side)) : Prop where
  opened : p.closed = false
  ticketed : p.Ticketed
  accounts : Accounts p.connections p.live (p.ends held)

variable {p q : PipeNet} {held : List (Nat × Side)} {ticket n : Nat}

theorem ends_perm (h : p.kept.Perm q.kept) : (p.ends held).Perm (q.ends held) :=
  (h.map _).append_left held

theorem ends_cons_perm (held : List (Nat × Side)) (h : p.kept.Perm (n :: q.kept)) :
    (p.ends held).Perm ((n, .acceptor) :: q.ends held) := by
  have hmap := h.map fun n => (n, Side.acceptor)
  exact (hmap.append_left held).trans List.perm_middle

/-- Ends of the network may change places. -/
theorem Sound.of_perm (hp : p.Sound held) (hclosed : q.closed = p.closed) (hq : q.Ticketed)
    (hconnections : q.connections = p.connections) (hlive : q.live = p.live) (hkept : p.kept.Perm q.kept) :
    q.Sound held := by
  refine ⟨hclosed.trans hp.opened, hq, ?_⟩
  rw [hconnections, hlive]
  exact hp.accounts.perm (ends_perm hkept)

/-- A connection that is not made yet is in no hand. -/
theorem Sound.not_inHand_of_le (hp : p.Sound held) (hn : p.connections.size ≤ n) (ticket : Nat) :
    (ticket, some n) ∉ p.accepts := by
  intro hmem
  have hkept : n ∈ p.kept := List.mem_append_left _ (List.mem_filterMap.2 ⟨_, hmem, rfl⟩)
  have hend : (n, Side.acceptor) ∈ p.ends held := List.mem_append_right _ (List.mem_map.2 ⟨n, hkept, rfl⟩)
  exact Nat.not_lt.2 hn (hp.accounts.lt_size hend)

/-! ## What each attempt keeps -/

/-- A dial has to wait, or comes to a connection that it made, whose other end is in hand of an accept. -/
theorem pollDial_sound (hp : p.Sound held) (ticket : Nat) :
    (∃ q, p.pollDial ticket = (.pending, q) ∧ q.Sound held ∧ q.kept = p.kept ∧ q.accepts = p.accepts ∧
      p.connections.size ≤ q.connections.size) ∨
    ∃ n q, p.pollDial ticket = (.ready n, q) ∧ q.Sound ((n, .dialer) :: held) ∧ q.kept.Perm (n :: p.kept) ∧
      q.accepts.map Prod.fst = p.accepts.map Prod.fst ∧ p.connections.size ≤ n ∧ q.connections.size = n + 1 ∧
      q.connections[n]? = some (.ofCapacity p.capacity) := by
  rcases pollDial_cases hp.opened ticket with
    ⟨-, hpoll⟩ | ⟨-, -, hpoll⟩ | ⟨-, gone, a, rest, _, -, -, ha, hpoll, rfl⟩
  · exact .inl ⟨p, hpoll, hp, rfl, rfl, Nat.le_refl _⟩
  · refine .inl ⟨_, hpoll, ⟨hp.opened, hp.ticketed.of_le rfl (Nat.le_refl _), ?_⟩, rfl, rfl, ?_⟩
    · exact hp.accounts.append_spent p.waiting.length p.capacity
    · simp [skipped]
  · have hsize : (p.skipped gone.length).connections.size = p.connections.size + gone.length := by
      simp [skipped]
    have hwaits : (p.skipped gone.length).connect.2.awaits a = true := ha
    have hticketed : (p.skipped gone.length).connect.2.Ticketed := hp.ticketed.of_le rfl (Nat.le_refl _)
    have hhand := inHand_deliver (n := p.connections.size + gone.length) hticketed hwaits
    have hkept := hhand.append_right p.backlog
    have hmade := (hp.accounts.append_spent gone.length p.capacity).push p.capacity
    rw [show (p.connections ++ Array.replicate gone.length (Duplex.spent p.capacity)).size = _ from hsize]
      at hmade
    refine .inr ⟨_, _, hpoll, ⟨hp.opened, ?_, ?_⟩, hkept, tickets_deliver _ a _, Nat.le_add_right _ _, ?_, ?_⟩
    · exact (hticketed.deliver a _).of_le rfl (Nat.le_refl _)
    · apply hmade.perm
      exact (ends_cons_perm held hkept).symm.cons _
    · show ((p.skipped gone.length).connections.push _).size = _
      rw [Array.size_push, hsize]
    · show ((p.skipped gone.length).connections.push _)[p.connections.size + gone.length]? = _
      rw [← hsize, Array.getElem?_push_size]
      rfl

/-- What an accept takes from the backlog goes into its hand. -/
theorem startAccept_sound (hp : p.Sound held) :
    p.startAccept.2.Sound held ∧ p.startAccept.2.kept = p.kept ∧
      p.startAccept.2.accepts.map Prod.fst = p.accepts.map Prod.fst ++ [p.startAccept.1] ∧
      p.startAccept.2.connections = p.connections := by
  rcases startAccept_cases hp.opened with ⟨n, rest, hbacklog, hstart⟩ | ⟨hbacklog, hstart⟩
  · have hkept : p.startAccept.2.kept = p.kept := by
      rw [hstart]
      show (p.withAccept (some n)).inHand ++ rest = p.inHand ++ p.backlog
      rw [inHand_withAccept, hbacklog, List.append_assoc]
      rfl
    rw [hstart] at hkept ⊢
    refine ⟨hp.of_perm rfl (hp.ticketed.add (some n) rfl rfl) rfl rfl ?_, hkept, List.map_append, rfl⟩
    rw [hkept]
  · have hkept : p.startAccept.2.kept = p.kept := by
      rw [hstart]
      show (p.withAccept none).inHand ++ p.backlog = p.inHand ++ p.backlog
      rw [inHand_withAccept]
      simp
    rw [hstart] at hkept ⊢
    refine ⟨hp.of_perm rfl (hp.ticketed.add none rfl rfl) rfl rfl ?_, hkept, List.map_append, rfl⟩
    rw [hkept]

/-- An accept has to wait, or comes to the connection that it has in hand. -/
theorem pollAccept_sound (hp : p.Sound held) (ticket : Nat) :
    p.pollAccept ticket = (.pending, p) ∨
    ∃ n q, p.pollAccept ticket = (.ready n, q) ∧ q.Sound ((n, .acceptor) :: held) ∧
      p.kept.Perm (n :: q.kept) ∧ q.accepts.map Prod.fst = (p.accepts.map Prod.fst).filter (· != ticket) ∧
      q.connections = p.connections := by
  rcases pollAccept_cases hp.ticketed hp.opened ticket with ⟨n, hn, hpoll⟩ | ⟨-, hpoll⟩
  · have hhand := inHand_forgetAccept hp.ticketed hn
    have hkept : p.kept.Perm (n :: (p.forgetAccept ticket).kept) := hhand.append_right p.backlog
    have haccounts := hp.accounts.perm (ends_cons_perm _ hkept)
    exact .inr ⟨n, _, hpoll, ⟨hp.opened, hp.ticketed.forgetAccept ticket, haccounts⟩, hkept,
      p.tickets_forgetAccept ticket, rfl⟩
  · exact .inl hpoll

/-- What an accept has in hand when it is given up goes into the backlog. -/
theorem dropAccept_sound (hp : p.Sound held) (ticket : Nat) :
    (p.dropAccept ticket).Sound held ∧ p.kept.Perm (p.dropAccept ticket).kept ∧
      (p.dropAccept ticket).accepts.map Prod.fst = (p.accepts.map Prod.fst).filter (· != ticket) ∧
      (p.dropAccept ticket).connections = p.connections := by
  have hticketed := hp.ticketed.forgetAccept ticket
  rcases dropAccept_cases hp.ticketed ticket with ⟨n, hn, hdrop⟩ | ⟨hidle, hdrop⟩
  · have hhand := inHand_forgetAccept hp.ticketed hn
    have hkept : p.kept.Perm ((p.forgetAccept ticket).inHand ++ (p.backlog ++ [n])) := by
      have hlast := (List.perm_append_singleton n ((p.forgetAccept ticket).inHand ++ p.backlog)).symm
      rw [List.append_assoc] at hlast
      exact (hhand.append_right p.backlog).trans hlast
    rw [hdrop]
    exact ⟨hp.of_perm rfl (hticketed.of_le rfl (Nat.le_refl _)) rfl rfl hkept, hkept,
      p.tickets_forgetAccept ticket, rfl⟩
  · have hkept := (inHand_forgetAccept_of_idle hp.ticketed hidle).append_right p.backlog
    rw [hdrop]
    exact ⟨hp.of_perm rfl hticketed rfl rfl hkept, hkept, p.tickets_forgetAccept ticket, rfl⟩

/-- Bytes that pass through a connection change neither who holds ends nor where they are. -/
theorem operate_sound {α : Type} (hp : p.Sound held) (n : Nat) {f : Duplex → Poll α × Duplex}
    (hf : ∀ d t, (f d).2.isHeld t = d.isHeld t) :
    (operate n f p).2.Sound held ∧ (operate n f p).2.kept = p.kept ∧ (operate n f p).2.accepts = p.accepts ∧
      (operate n f p).2.connections.size = p.connections.size := by
  unfold operate
  split
  · rename_i d hd
    split
    · exact ⟨hp, rfl, rfl, rfl⟩
    · rename_i r d' hr hfd
      have hd' : ∀ t, d'.isHeld t = d.isHeld t := fun t => by rw [← hf d t, hfd]
      refine ⟨⟨hp.opened, hp.ticketed.of_le rfl (Nat.le_refl _), ?_⟩, rfl, rfl, ?_⟩
      · exact hp.accounts.set hd hd'
      · show (p.connections.set! n d').size = p.connections.size
        rw [Array.set!_eq_setIfInBounds, Array.size_setIfInBounds]
  · exact ⟨hp, rfl, rfl, rfl⟩

/-- A user's end that is given up counts no more. -/
theorem release_sound {s : Side} (hp : p.Sound held) (hn : (n, s) ∈ held) :
    (release n s p).Sound (held.erase (n, s)) ∧ (release n s p).live + 1 = p.live ∧
      (release n s p).kept = p.kept ∧ (release n s p).accepts = p.accepts ∧
      (release n s p).connections.size = p.connections.size := by
  have hmem : (n, s) ∈ p.ends held := List.mem_append_left _ hn
  obtain ⟨d, hd, hs⟩ := (hp.accounts.mem_iff n s).1 hmem
  obtain ⟨haccounts, hlive⟩ := hp.accounts.release hmem
  have hends : (p.ends held).erase (n, s) = p.ends (held.erase (n, s)) := List.erase_append_left _ hn
  rw [hends] at haccounts
  rw [release_eq hd hs]
  refine ⟨⟨hp.opened, hp.ticketed.of_le rfl (Nat.le_refl _), haccounts⟩, hlive, rfl, rfl, ?_⟩
  show (p.connections.modify n _).size = p.connections.size
  exact Array.size_modify

/-! ## What every usage conserves -/

namespace Usage

/-- Both ends of some connections. -/
def bothEnds (ns : List Nat) : List (Nat × Side) := ns.flatMap fun n => [(n, .dialer), (n, .acceptor)]

/-- What events conserve: the network knows just the accepts that users have under way; each connection that a
dial came to was handed to an accept or is kept, and each of its two ends is held or was released. -/
structure Conserved (u : Usage) : Prop where
  sound : u.net.Sound u.held
  tickets : u.net.accepts.map Prod.fst = u.accepting
  places : u.dialed.Perm (u.accepted ++ u.net.kept)
  ends : (bothEnds u.dialed).Perm (u.net.ends u.held ++ u.released)
  increasing : u.dialed.Pairwise (· < ·)
  made : ∀ n ∈ u.dialed, n < u.net.connections.size

variable {u : Usage}

theorem start_conserved (capacity : Nat) : (start capacity).Conserved where
  sound := {
    opened := rfl
    ticketed := ⟨List.nodup_nil, by intro a ha; cases ha⟩
    accounts := ⟨List.nodup_nil, by simp [start, ofCapacity, PipeNet.ends, kept, inHand], rfl⟩ }
  tickets := rfl
  places := .nil
  ends := .nil
  increasing := .nil
  made := by
    intro n hn
    cases hn

/-- A network that changes without giving connections to users or taking them keeps the account. -/
theorem Conserved.of_net (h : u.Conserved) {net : PipeNet} {accepting : List Nat} (hsound : net.Sound u.held)
    (htickets : net.accepts.map Prod.fst = accepting) (hkept : u.net.kept.Perm net.kept)
    (hsize : u.net.connections.size ≤ net.connections.size) :
    ({ u with net, accepting } : Usage).Conserved where
  sound := hsound
  tickets := htickets
  places := h.places.trans (hkept.append_left u.accepted)
  ends := h.ends.trans ((ends_perm hkept).append_right u.released)
  increasing := h.increasing
  made n hn := Nat.lt_of_lt_of_le (h.made n hn) hsize

/-- Events of who holds an end keep what they keep of its holder. -/
theorem Conserved.byHolder (h : u.Conserved) {e : Nat × Side} {next : Usage}
    (hnext : e ∈ u.held → next.Conserved) : (u.byHolder e next).Conserved := by
  unfold Usage.byHolder
  split
  · rename_i he
    exact hnext he
  · exact h

theorem Conserved.pollDial (h : u.Conserved) (ticket : Nat) : (u.after (.pollDial ticket)).Conserved := by
  rcases pollDial_sound h.sound ticket with
    ⟨q, hpoll, hsound, hkept, haccepts, hsize⟩ | ⟨n, q, hpoll, hsound, hkept, htickets, hnew, hsize, -⟩
  · rw [Usage.after, hpoll]
    exact h.of_net hsound (by rw [haccepts, h.tickets]) (by rw [hkept]) hsize
  · rw [Usage.after, hpoll]
    have hlater : ∀ m ∈ u.dialed, m < n := fun m hm => Nat.lt_of_lt_of_le (h.made m hm) hnew
    refine ⟨hsound, htickets.trans h.tickets, ?_, ?_, ?_, ?_⟩
    · -- the connection goes to the end of `dialed`, and into the hand of an accept
      have hlast : (u.dialed ++ [n]).Perm (n :: u.dialed) := List.perm_append_singleton n u.dialed
      have hplaces : (n :: u.dialed).Perm (n :: (u.accepted ++ u.net.kept)) := h.places.cons n
      have hmiddle : (n :: (u.accepted ++ u.net.kept)).Perm (u.accepted ++ n :: u.net.kept) :=
        List.perm_middle.symm
      exact ((hlast.trans hplaces).trans hmiddle).trans (hkept.symm.append_left u.accepted)
    · have hlast : (bothEnds (u.dialed ++ [n])).Perm ((n, .dialer) :: (n, .acceptor) :: bothEnds u.dialed) := by
        unfold bothEnds
        rw [List.flatMap_append]
        exact List.perm_append_comm
      have hhanded : (q.ends u.held).Perm ((n, .acceptor) :: u.net.ends u.held) := ends_cons_perm _ hkept
      have hends := (h.ends.cons (n, .acceptor)).cons (n, .dialer)
      exact (hlast.trans hends).trans ((hhanded.symm.append_right u.released).cons (n, .dialer))
    · apply List.pairwise_append.2
      refine ⟨h.increasing, List.pairwise_singleton _ n, ?_⟩
      intro m hm k hk
      rw [List.mem_singleton.1 hk]
      exact hlater m hm
    · intro m hm
      show m < q.connections.size
      rw [hsize]
      rcases List.mem_append.1 hm with hm | hm
      · exact Nat.lt_succ_of_lt (hlater m hm)
      · rw [List.mem_singleton.1 hm]
        exact Nat.lt_succ_self n

theorem Conserved.pollAccept (h : u.Conserved) (ticket : Nat) : (u.after (.pollAccept ticket)).Conserved := by
  rcases pollAccept_sound h.sound ticket with hpoll | ⟨n, q, hpoll, hsound, hkept, htickets, hsize⟩
  · rw [Usage.after, hpoll]
    exact h
  · rw [Usage.after, hpoll]
    refine ⟨hsound, htickets.trans (congrArg (List.filter _) h.tickets), ?_, ?_, h.increasing, ?_⟩
    · have hplaces := h.places.trans (hkept.append_left u.accepted)
      rw [show u.accepted ++ n :: q.kept = u.accepted ++ [n] ++ q.kept by simp] at hplaces
      exact hplaces
    · have hhanded : (u.net.ends u.held).Perm ((n, .acceptor) :: q.ends u.held) := ends_cons_perm _ hkept
      exact h.ends.trans (hhanded.append_right u.released)
    · intro m hm
      show m < q.connections.size
      rw [hsize]
      exact h.made m hm

theorem Conserved.release (h : u.Conserved) (n : Nat) (s : Side) : (u.after (.release n s)).Conserved := by
  apply h.byHolder
  intro hn
  obtain ⟨hsound, -, hkept, haccepts, hsize⟩ := release_sound h.sound hn
  refine ⟨hsound, (congrArg _ haccepts).trans h.tickets, ?_, ?_, h.increasing, ?_⟩
  · show u.dialed.Perm (u.accepted ++ (PipeNet.release n s u.net).kept)
    rw [hkept]
    exact h.places
  · -- the end moves from those that are held to those that were released
    have hfirst : u.held.Perm ((n, s) :: u.held.erase (n, s)) := List.perm_cons_erase hn
    have hends : (u.net.ends u.held).Perm ((n, s) :: (PipeNet.release n s u.net).ends (u.held.erase (n, s))) := by
      unfold PipeNet.ends
      rw [hkept]
      exact hfirst.append_right _
    exact (h.ends.trans (hends.append_right u.released)).trans List.perm_middle.symm
  · intro m hm
    show m < (PipeNet.release n s u.net).connections.size
    rw [hsize]
    exact h.made m hm

/-- Every event conserves connections. -/
theorem Conserved.after (h : u.Conserved) (e : Event) : (u.after e).Conserved := by
  have hoperate : ∀ {α : Type} (n : Nat) (s : Side) (f : Duplex → Poll α × Duplex),
      (∀ d t, (f d).2.isHeld t = d.isHeld t) →
        (u.byHolder (n, s) { u with net := (operate n f u.net).2 }).Conserved := by
    intro α n s f hf
    apply h.byHolder
    intro _
    obtain ⟨hsound, hkept, haccepts, hsize⟩ := operate_sound h.sound n hf
    exact h.of_net hsound (by rw [haccepts, h.tickets]) (by rw [hkept]) (Nat.le_of_eq hsize.symm)
  cases e with
  | startDial =>
    have hticketed : u.net.startDial.2.Ticketed := h.sound.ticketed.of_le rfl (Nat.le_succ _)
    exact h.of_net (h.sound.of_perm rfl hticketed rfl rfl .rfl) h.tickets .rfl (Nat.le_refl _)
  | pollDial ticket => exact h.pollDial ticket
  | dropDial ticket =>
    have hticketed : (u.net.dropDial ticket).Ticketed := h.sound.ticketed.of_le rfl (Nat.le_refl _)
    exact h.of_net (h.sound.of_perm rfl hticketed rfl rfl .rfl) h.tickets .rfl (Nat.le_refl _)
  | startAccept =>
    obtain ⟨hsound, hkept, htickets, hconnections⟩ := startAccept_sound h.sound
    exact h.of_net hsound (htickets.trans (congrArg (· ++ _) h.tickets)) (by rw [hkept])
      (Nat.le_of_eq (congrArg Array.size hconnections.symm))
  | pollAccept ticket => exact h.pollAccept ticket
  | dropAccept ticket =>
    obtain ⟨hsound, hkept, htickets, hconnections⟩ := dropAccept_sound h.sound ticket
    exact h.of_net hsound (htickets.trans (congrArg (List.filter _) h.tickets)) hkept
      (Nat.le_of_eq (congrArg Array.size hconnections.symm))
  | read n s count => exact hoperate n s _ fun d t => d.isHeld_read s count t
  | write n s bs => exact hoperate n s _ fun d t => d.isHeld_write s bs t
  | shutdown n s => exact hoperate n s _ fun d t => d.isHeld_shutdown s t
  | release n s => exact h.release n s

theorem conserved_run (capacity : Nat) (events : List Event) : ((start capacity).run events).Conserved :=
  run_induction (start_conserved capacity) (fun e h => h.after e) events

/-! ## Consequences -/

theorem peer_inj {m n : Nat} (h : peer m = peer n) : m = n := by
  have hnames := congrArg String.toList h
  have hdigits : Nat.toDigits 10 m = Nat.toDigits 10 n := by
    simpa [peer, Nat.toString_eq_ofList_toDigits] using hnames
  rw [← Nat.ofDigitChars_ten_toDigits (n := m), ← Nat.ofDigitChars_ten_toDigits (n := n), hdigits]

theorem mem_bothEnds {ns : List Nat} {n : Nat} {s : Side} : (n, s) ∈ bothEnds ns ↔ n ∈ ns := by
  cases s <;> simp [bothEnds]

theorem Conserved.dialed_nodup (h : u.Conserved) : u.dialed.Nodup :=
  h.increasing.imp fun hlt => Nat.ne_of_lt hlt

/-- An end of a connection that a dial came to is held as long as no user releases it. -/
theorem Conserved.isHeld_of_not_released (h : u.Conserved) {n : Nat} {s : Side} (hn : n ∈ u.dialed)
    (hs : (n, s) ∉ u.released) : ∃ d, u.net.connections[n]? = some d ∧ d.isHeld s = true := by
  apply (h.sound.accounts.mem_iff n s).1
  have hmem : (n, s) ∈ u.net.ends u.held ++ u.released := h.ends.mem_iff.1 (mem_bothEnds.2 hn)
  exact (List.mem_append.1 hmem).resolve_right hs

/-- A connection that no dial came to was made for an accept that had been given up, and is gone. -/
theorem Conserved.heldEnds_of_not_dialed (h : u.Conserved) {n : Nat} {d : Duplex}
    (hd : u.net.connections[n]? = some d) (hn : n ∉ u.dialed) : d.heldEnds = 0 := by
  have hnone : ∀ s, d.isHeld s = false := by
    intro s
    apply Bool.eq_false_iff.2
    intro hs
    have hmem : (n, s) ∈ u.net.ends u.held := (h.sound.accounts.mem_iff n s).2 ⟨d, hd, hs⟩
    exact hn (mem_bothEnds.1 (h.ends.mem_iff.2 (List.mem_append_left _ hmem)))
  rw [Duplex.heldEnds, hnone, hnone]
  rfl

/-- What an accept comes to is what it has in hand. -/
theorem Conserved.pollAccept_iff (h : u.Conserved) {ticket n : Nat} :
    (u.net.pollAccept ticket).1 = .ready n ↔ (ticket, some n) ∈ u.net.accepts :=
  pollAccept_fst_iff h.sound.ticketed h.sound.opened

/-- A connection that is in hand is what an accept comes to that a user has under way. -/
theorem Conserved.mem_inHand_iff (h : u.Conserved) {n : Nat} :
    n ∈ u.net.inHand ↔ ∃ ticket ∈ u.accepting, (u.net.pollAccept ticket).1 = .ready n := by
  simp only [h.pollAccept_iff]
  constructor
  · intro hn
    obtain ⟨⟨ticket, _⟩, hmem, rfl⟩ := List.mem_filterMap.1 hn
    exact ⟨ticket, h.tickets ▸ List.mem_map_of_mem hmem, hmem⟩
  · rintro ⟨ticket, -, hmem⟩
    exact List.mem_filterMap.2 ⟨_, hmem, rfl⟩

/-- No two accepts come to the same connection. -/
theorem Conserved.accept_unique (h : u.Conserved) {n t t' : Nat} (ht : (u.net.pollAccept t).1 = .ready n)
    (ht' : (u.net.pollAccept t').1 = .ready n) : t = t' := by
  have hkept : u.net.kept.Nodup := (List.nodup_append.1 (h.places.nodup_iff.1 h.dialed_nodup)).2.1
  have hhand := (inHand_forgetAccept h.sound.ticketed (h.pollAccept_iff.1 ht)).nodup_iff.1
    (List.nodup_append.1 hkept).1
  -- what is left when the first accept is forgotten does not hold the connection
  refine Classical.byContradiction fun hne => ?_
  have hother : (t', some n) ∈ (u.net.forgetAccept t).accepts :=
    List.mem_filter.2 ⟨h.pollAccept_iff.1 ht', bne_iff_ne.2 (Ne.symm hne)⟩
  exact (List.nodup_cons.1 hhand).1 (List.mem_filterMap.2 ⟨_, hother, rfl⟩)

/-- A network that is not closed conserves connections, whatever its users do: every dial that succeeds makes
a connection of its own; the other end of each is handed to an accept under way, or in the backlog, or was
returned by an accept, and only in one of these places; a connection that is handed to an accept is what this
accept, and no other, comes to; the network itself drops neither of its ends; and the counter tells how many
ends users and the network hold, connections that were skipped having none. -/
theorem connections_conserved (capacity : Nat) (events : List Event) :
    let u := (start capacity).run events
    let net := u.net
    -- connections that dials come to are new, and named apart
    (∀ ticket n net', net.pollDial ticket = (.ready n, net') →
        net.connections.size ≤ n ∧ net'.connections[n]? = some (.ofCapacity net.capacity)) ∧
      (u.dialed.map peer).Nodup ∧
      -- where the accepted ends are
      u.dialed.Perm (u.accepted ++ net.inHand ++ net.backlog) ∧
      (u.accepted ++ net.inHand ++ net.backlog).Nodup ∧
      -- which accepts they are handed to
      (∀ n, n ∈ net.inHand ↔ ∃ ticket ∈ u.accepting, (net.pollAccept ticket).1 = .ready n) ∧
      (∀ n t t', (net.pollAccept t).1 = .ready n → (net.pollAccept t').1 = .ready n → t = t') ∧
      net.accepts.map Prod.fst = u.accepting ∧ u.accepting.Nodup ∧
      -- no end is dropped but by users
      (bothEnds u.dialed).Perm
        (u.held ++ net.inHand.map (·, .acceptor) ++ net.backlog.map (·, .acceptor) ++ u.released) ∧
      (∀ n ∈ u.dialed, ∀ s, (n, s) ∉ u.released →
        ∃ d, net.connections[n]? = some d ∧ d.isHeld s = true) ∧
      -- what the counter tells
      net.live = u.held.length + net.inHand.length + net.backlog.length ∧
      net.live = Duplex.countHeld net.connections.toList ∧
      (∀ n d, net.connections[n]? = some d → n ∉ u.dialed → d.heldEnds = 0) ∧
      ∀ n s, (n, s) ∈ u.held → (PipeNet.release n s net).live + 1 = net.live := by
  intro u net
  have h : u.Conserved := conserved_run capacity events
  have hplaces : u.dialed.Perm (u.accepted ++ net.inHand ++ net.backlog) := by
    rw [List.append_assoc]
    exact h.places
  refine ⟨?_, ?_, hplaces, hplaces.nodup_iff.1 h.dialed_nodup, fun _ => h.mem_inHand_iff,
    fun _ _ _ => h.accept_unique, h.tickets, h.tickets ▸ h.sound.ticketed.nodup, ?_, ?_, ?_, ?_, ?_, ?_⟩
  · intro ticket n net' hpoll
    rcases pollDial_sound h.sound ticket with ⟨q, hq, -⟩ | ⟨m, q, hq, -, -, -, hnew, -, hopen⟩
    · rw [hq] at hpoll
      cases hpoll
    · rw [hq] at hpoll
      cases hpoll
      exact ⟨hnew, hopen⟩
  · exact List.Pairwise.map peer (fun m n hne hpeer => hne (peer_inj hpeer)) h.dialed_nodup
  · have hends := h.ends
    rw [PipeNet.ends, kept, List.map_append, ← List.append_assoc] at hends
    exact hends
  · exact fun n hn s hs => h.isHeld_of_not_released hn hs
  · have hlive := h.sound.accounts.live_eq
    rw [PipeNet.ends, kept, List.length_append, List.length_map, List.length_append, ← Nat.add_assoc] at hlive
    exact hlive
  · exact h.sound.accounts.live_eq_countHeld
  · exact fun n d hd hn => h.heldEnds_of_not_dialed hd hn
  · exact fun n s hn => (release_sound h.sound hn).2.1

/-- An accept waits, a dial comes to it, and the accept is given up: no accept is under way any more, and the
connection is in the backlog, with both of its ends held. -/
theorem connections_conserved_given_up :
    let u := (start defaultCapacity).run [.startAccept, .startDial, .pollDial 1, .dropAccept 0]
    u.accepting = [] ∧ u.dialed = [0] ∧ u.net.inHand = [] ∧ u.net.backlog = [0] ∧ u.net.live = 2 := by
  intro u
  have haccepting : u.accepting = [] := by decide
  have hdialed : u.dialed = [0] := by decide
  have haccepted : u.accepted = [] := by decide
  have hheld : u.held = [(0, .dialer)] := by decide
  obtain ⟨-, -, hplaces, -, hinHand, -, -, -, -, -, hlive, -⟩ := connections_conserved defaultCapacity
    [.startAccept, .startDial, .pollDial 1, .dropAccept 0]
  have hhand : u.net.inHand = [] := by
    refine List.eq_nil_iff_forall_not_mem.2 fun n hn => ?_
    obtain ⟨ticket, hticket, -⟩ := (hinHand n).1 hn
    rw [haccepting] at hticket
    cases hticket
  have hbacklog : u.net.backlog = [0] := by
    change u.dialed.Perm (u.accepted ++ u.net.inHand ++ u.net.backlog) at hplaces
    rw [hdialed, haccepted, hhand] at hplaces
    exact List.perm_singleton.1 hplaces.symm
  refine ⟨haccepting, hdialed, hhand, hbacklog, hlive.trans ?_⟩
  change u.held.length + u.net.inHand.length + u.net.backlog.length = 2
  rw [hheld, hhand, hbacklog]
  rfl

end Usage

end PipeNet

end RemoteCall
