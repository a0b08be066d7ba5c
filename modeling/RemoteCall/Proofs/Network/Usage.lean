import RemoteCall.Network.Pipe
/-!
# A network in memory and its users

Users start, poll and drop dials and accepts, and use and drop the ends of connections that come of
them, one event at a time and in any order. `Usage` keeps account of what they hold and of what they
were given; statements about a network in memory are about the usages that events lead to. What
`meet` does is said once, in `meet_cases`: it makes a connection for each accept that was given up
and drops it, up to the first accept that is still under way.
-/

namespace RemoteCall

namespace PipeNet

/-! ## Events -/

/-- What users do with a network, each time one attempt. -/
inductive Event
  | startDial
  | pollDial (ticket : Nat)
  | dropDial (ticket : Nat)
  | startAccept
  | pollAccept (ticket : Nat)
  | dropAccept (ticket : Nat)
  | read (connection : Nat) (side : Side) (count : Nat)
  | write (connection : Nat) (side : Side) (bs : Bytes)
  | shutdown (connection : Nat) (side : Side)
  | release (connection : Nat) (side : Side)

/-- Whether an event is about an end of a connection. -/
def Event.isAtEnd : Event → Bool
  | .read .. | .write .. | .shutdown .. | .release .. => true
  | _ => false

/-- A network, and what its users have of it. -/
structure Usage where
  net : PipeNet
  /-- The ends of connections that users hold. -/
  held : List (Nat × Side)
  /-- The accepts that users started and that neither came to a connection nor were given up, the oldest first. -/
  accepting : List Nat
  /-- The connections that dials came to, the oldest first. -/
  dialed : List Nat
  /-- The connections that accepts came to, the oldest first. -/
  accepted : List Nat
  /-- The ends of connections that users had and gave up. -/
  released : List (Nat × Side)

namespace Usage

/-- A network that nobody has used yet. -/
def start (capacity : Nat) : Usage := ⟨.ofCapacity capacity, [], [], [], [], []⟩

/-- An accept is over. -/
def doneAccepting (u : Usage) (ticket : Nat) : List Nat := u.accepting.filter (· != ticket)

/-- Only who holds an end uses it. -/
def byHolder (u : Usage) (e : Nat × Side) (next : Usage) : Usage :=
  if e ∈ u.held then next else u

/-- A user's event. -/
def after (u : Usage) : Event → Usage
  | .startDial => { u with net := u.net.startDial.2 }
  | .pollDial ticket =>
    match u.net.pollDial ticket with
    | (.ready n, net) => { u with net, held := (n, .dialer) :: u.held, dialed := u.dialed ++ [n] }
    | (_, net) => { u with net }
  | .dropDial ticket => { u with net := u.net.dropDial ticket }
  | .startAccept => { u with net := u.net.startAccept.2, accepting := u.accepting ++ [u.net.startAccept.1] }
  | .pollAccept ticket =>
    match u.net.pollAccept ticket with
    | (.ready n, net) =>
      { u with
        net
        held := (n, .acceptor) :: u.held
        accepting := u.doneAccepting ticket
        accepted := u.accepted ++ [n] }
    | (_, net) => { u with net }
  | .dropAccept ticket => { u with net := u.net.dropAccept ticket, accepting := u.doneAccepting ticket }
  | .read n s count => u.byHolder (n, s) { u with net := ((channel s n).read count u.net).2 }
  | .write n s bs => u.byHolder (n, s) { u with net := ((channel s n).write bs u.net).2 }
  | .shutdown n s => u.byHolder (n, s) { u with net := ((channel s n).shutdown u.net).2 }
  | .release n s =>
    u.byHolder (n, s)
      { u with
        net := PipeNet.release n s u.net
        held := u.held.erase (n, s)
        released := (n, s) :: u.released }

theorem net_after_pollDial (u : Usage) (ticket : Nat) :
    (u.after (.pollDial ticket)).net = (u.net.pollDial ticket).2 := by
  rw [after]
  split <;> rename_i hpoll <;> rw [hpoll]

theorem net_after_pollAccept (u : Usage) (ticket : Nat) :
    (u.after (.pollAccept ticket)).net = (u.net.pollAccept ticket).2 := by
  rw [after]
  split <;> rename_i hpoll <;> rw [hpoll]

/-- Events one after another. -/
def run (u : Usage) (events : List Event) : Usage := events.foldl after u

/-- What holds of an unused network and is kept by every event holds of every usage. -/
theorem run_induction {P : Usage → Prop} {capacity : Nat} (hstart : P (start capacity))
    (hafter : ∀ {u} e, P u → P (u.after e)) (events : List Event) : P ((start capacity).run events) := by
  suffices h : ∀ u, P u → P (u.run events) from h _ hstart
  induction events with
  | nil => exact fun u hu => hu
  | cons e events ih => exact fun u hu => ih _ (hafter e hu)

end Usage

/-! ## Accepts by their tickets -/

/-- The connections that were handed to accepts under way. -/
def inHand (p : PipeNet) : List Nat := p.accepts.filterMap Prod.snd

/-- The connections that no accept has come to yet. -/
def kept (p : PipeNet) : List Nat := p.inHand ++ p.backlog

section Keyed

variable {α β : Type} [BEq α] [LawfulBEq α] {l : List (α × β)} {a : α} {b : β}

/-- An entry under a key of its own, and the others. -/
theorem perm_cons_filter (hl : (l.map Prod.fst).Nodup) (h : (a, b) ∈ l) :
    l.Perm ((a, b) :: l.filter fun x => x.1 != a) := by
  induction l with
  | nil => cases h
  | cons x l ih =>
    rw [List.map_cons, List.nodup_cons] at hl
    rw [List.filter_cons]
    rcases List.mem_cons.1 h with rfl | h
    · -- no other entry has the key
      have hothers : l.filter (fun x => x.1 != a) = l :=
        List.filter_eq_self.2 fun y hy => bne_iff_ne.2 fun hya => hl.1 (List.mem_map.2 ⟨y, hy, hya⟩)
      rw [if_neg (by simp), hothers]
    · have hx : (x.1 != a) = true := bne_iff_ne.2 fun hxa => hl.1 (List.mem_map.2 ⟨_, h, hxa.symm⟩)
      rw [if_pos hx]
      exact ((ih hl.2 h).cons x).trans (List.Perm.swap _ _ _)

end Keyed

/-- Accepts under way have tickets of their own, which were given out before. -/
structure Ticketed (p : PipeNet) : Prop where
  nodup : (p.accepts.map Prod.fst).Nodup
  lt : ∀ a ∈ p.accepts, a.1 < p.nextTicket

variable {p : PipeNet} {ticket n : Nat}

theorem Ticketed.unique (hp : p.Ticketed) {c d : Option Nat} (hc : (ticket, c) ∈ p.accepts)
    (hd : (ticket, d) ∈ p.accepts) : c = d := by
  have hmem := (perm_cons_filter hp.nodup hc).mem_iff.1 hd
  rcases List.mem_cons.1 hmem with h | h
  · exact (Prod.mk.inj h).2.symm
  · exact absurd rfl (bne_iff_ne.1 (List.mem_filter.1 h).2)

/-- A ticket finds its accept, if that is still under way. -/
theorem find?_eq (p : PipeNet) (ticket : Nat) :
    (∃ c, (ticket, c) ∈ p.accepts ∧ p.accepts.find? (fun a => a.1 == ticket) = some (ticket, c)) ∨
      (∀ c, (ticket, c) ∉ p.accepts) ∧ p.accepts.find? (fun a => a.1 == ticket) = none := by
  rcases hfind : p.accepts.find? (fun a => a.1 == ticket) with _ | ⟨t, c⟩
  · refine .inr ⟨fun c hc => ?_, hfind⟩
    exact List.find?_eq_none.1 hfind _ hc (beq_self_eq_true ticket)
  · have hticket : t = ticket := by simpa using List.find?_some hfind
    subst hticket
    exact .inl ⟨c, List.mem_of_find?_eq_some hfind, hfind⟩

theorem awaits_iff : p.awaits ticket = true ↔ (ticket, none) ∈ p.accepts := by
  simp only [awaits, List.any_eq_true, Bool.and_eq_true, beq_iff_eq, Option.isNone_iff_eq_none]
  constructor
  · rintro ⟨⟨t, c⟩, h, rfl, rfl⟩
    exact h
  · exact fun h => ⟨_, h, rfl, rfl⟩

theorem awaits_forgetAccept (t : Nat) :
    (p.forgetAccept ticket).awaits t = true ↔ p.awaits t = true ∧ t ≠ ticket := by
  rw [awaits_iff, awaits_iff]
  unfold forgetAccept
  rw [List.mem_filter, bne_iff_ne]

/-- Only the accept that a connection is delivered to waits no more. -/
theorem awaits_deliver (t : Nat) : (p.deliver ticket n).awaits t = true ↔ p.awaits t = true ∧ t ≠ ticket := by
  rw [awaits_iff, awaits_iff]
  unfold deliver
  rw [List.mem_map]
  constructor
  · rintro ⟨a, ha, hat⟩
    by_cases hticket : a.1 = ticket
    · rw [if_pos hticket] at hat
      cases (Prod.mk.inj hat).2
    · rw [if_neg hticket] at hat
      subst hat
      exact ⟨ha, hticket⟩
  · rintro ⟨ht, hticket⟩
    exact ⟨_, ht, if_neg hticket⟩

theorem tickets_forgetAccept (p : PipeNet) (ticket : Nat) :
    (p.forgetAccept ticket).accepts.map Prod.fst = (p.accepts.map Prod.fst).filter (· != ticket) := by
  rw [List.filter_map]
  rfl

theorem tickets_deliver (p : PipeNet) (ticket n : Nat) :
    (p.deliver ticket n).accepts.map Prod.fst = p.accepts.map Prod.fst := by
  rw [PipeNet.deliver, List.map_map]
  refine List.map_congr_left fun a _ => ?_
  dsimp only [Function.comp_apply]
  split <;> rfl

/-- An accept that is forgotten takes what it has in hand with it. -/
theorem inHand_forgetAccept (hp : p.Ticketed) {c : Option Nat} (h : (ticket, c) ∈ p.accepts) :
    p.inHand.Perm (c.toList ++ (p.forgetAccept ticket).inHand) := by
  have hperm := (perm_cons_filter hp.nodup h).filterMap Prod.snd
  cases c <;> exact hperm

/-- An accept that has nothing in hand leaves nothing when it is forgotten. -/
theorem inHand_forgetAccept_of_idle (hp : p.Ticketed) (h : ∀ n, (ticket, some n) ∉ p.accepts) :
    p.inHand.Perm (p.forgetAccept ticket).inHand := by
  rcases find?_eq p ticket with ⟨_ | n, hc, -⟩ | ⟨habsent, -⟩
  · exact inHand_forgetAccept hp hc
  · exact absurd hc (h n)
  · have hothers : p.accepts.filter (fun a => a.1 != ticket) = p.accepts := by
      apply List.filter_eq_self.2
      intro a ha
      exact bne_iff_ne.2 fun hticket => habsent a.2 (hticket ▸ ha)
    unfold inHand forgetAccept
    rw [hothers]

/-- An accept that waits gets the connection in hand that is delivered to it. -/
theorem inHand_deliver (hp : p.Ticketed) (h : p.awaits ticket = true) :
    (p.deliver ticket n).inHand.Perm (n :: p.inHand) := by
  have hperm := perm_cons_filter hp.nodup (awaits_iff.1 h)
  have hothers : (p.accepts.filter fun a => a.1 != ticket).map
      (fun a => if a.1 = ticket then (a.1, some n) else a) = p.accepts.filter fun a => a.1 != ticket := by
    rw [List.map_congr_left (g := id), List.map_id]
    intro a ha
    exact if_neg (bne_iff_ne.1 (List.mem_filter.1 ha).2)
  have hhanded := (hperm.map fun a => if a.1 = ticket then (a.1, some n) else a).filterMap Prod.snd
  rw [List.map_cons, if_pos rfl, hothers] at hhanded
  exact hhanded.trans ((hperm.filterMap Prod.snd).symm.cons n)

theorem Ticketed.forgetAccept (hp : p.Ticketed) (ticket : Nat) : (p.forgetAccept ticket).Ticketed where
  nodup := hp.nodup.sublist (List.filter_sublist.map Prod.fst)
  lt a ha := hp.lt a (List.mem_filter.1 ha).1

theorem Ticketed.deliver (hp : p.Ticketed) (ticket n : Nat) : (p.deliver ticket n).Ticketed := by
  have htickets := p.tickets_deliver ticket n
  refine ⟨htickets ▸ hp.nodup, fun a ha => ?_⟩
  have hmem : a.1 ∈ p.accepts.map Prod.fst := htickets ▸ List.mem_map_of_mem ha
  obtain ⟨b, hb, hba⟩ := List.mem_map.1 hmem
  exact hba ▸ hp.lt b hb

/-- What becomes of the rest of a network does not matter for the tickets. -/
theorem Ticketed.of_le (hp : p.Ticketed) {q : PipeNet} (haccepts : q.accepts = p.accepts)
    (hnext : p.nextTicket ≤ q.nextTicket) : q.Ticketed := by
  constructor
  · rw [haccepts]
    exact hp.nodup
  · intro a ha
    rw [haccepts] at ha
    exact Nat.lt_of_lt_of_le (hp.lt a ha) hnext

/-- An accept that starts gets a ticket of its own. -/
theorem Ticketed.add (hp : p.Ticketed) (c : Option Nat) {q : PipeNet}
    (haccepts : q.accepts = p.accepts ++ [(p.nextTicket, c)]) (hnext : q.nextTicket = p.nextTicket + 1) :
    q.Ticketed := by
  constructor
  · rw [haccepts, List.map_append, List.nodup_append]
    refine ⟨hp.nodup, by simp, fun t ht u hu htu => ?_⟩
    obtain ⟨a, ha, rfl⟩ := List.mem_map.1 ht
    have hu : u = p.nextTicket := by simpa using hu
    exact Nat.ne_of_lt (hp.lt a ha) (htu.trans hu)
  · intro a ha
    rw [haccepts, List.mem_append, List.mem_singleton] at ha
    rw [hnext]
    rcases ha with ha | rfl
    · exact Nat.lt_succ_of_lt (hp.lt a ha)
    · exact Nat.lt_succ_self _

/-! ## What an accept does -/

/-- The network in which an accept starts, with a connection in hand or without. -/
def withAccept (p : PipeNet) (c : Option Nat) : PipeNet :=
  { p with accepts := p.accepts ++ [(p.nextTicket, c)], nextTicket := p.nextTicket + 1 }

theorem inHand_withAccept (c : Option Nat) : (p.withAccept c).inHand = p.inHand ++ c.toList := by
  unfold inHand withAccept
  rw [List.filterMap_append]
  cases c <;> rfl

/-- An accept that starts takes the oldest connection of the backlog, or waits behind the others. -/
theorem startAccept_cases (hopen : p.closed = false) :
    (∃ n rest, p.backlog = n :: rest ∧
      p.startAccept = (p.nextTicket, { p.withAccept (some n) with backlog := rest })) ∨
    (p.backlog = [] ∧
      p.startAccept = (p.nextTicket, { p.withAccept none with waiting := p.waiting ++ [p.nextTicket] })) := by
  cases hbacklog : p.backlog with
  | nil =>
    refine .inr ⟨rfl, ?_⟩
    simp only [startAccept, withAccept, hopen, hbacklog, Bool.false_eq_true, if_false]
  | cons n rest =>
    refine .inl ⟨n, rest, rfl, ?_⟩
    simp only [startAccept, withAccept, hopen, hbacklog, Bool.false_eq_true, if_false]

/-- An accept comes to the connection that it has in hand, or has to wait. -/
theorem pollAccept_cases (hp : p.Ticketed) (hopen : p.closed = false) (ticket : Nat) :
    (∃ n, (ticket, some n) ∈ p.accepts ∧ p.pollAccept ticket = (.ready n, p.forgetAccept ticket)) ∨
    ((∀ n, (ticket, some n) ∉ p.accepts) ∧ p.pollAccept ticket = (.pending, p)) := by
  unfold pollAccept
  simp only [hopen, Bool.false_eq_true, if_false]
  rcases find?_eq p ticket with ⟨_ | n, hc, hfind⟩ | ⟨habsent, hfind⟩
  · refine .inr ⟨fun n hn => ?_, by rw [hfind]⟩
    cases hp.unique hc hn
  · exact .inl ⟨n, hc, by rw [hfind]⟩
  · exact .inr ⟨fun n => habsent (some n), by rw [hfind]⟩

/-- An accept comes to the connection that it has in hand, and to no other. -/
theorem pollAccept_fst_iff (hp : p.Ticketed) (hopen : p.closed = false) {ticket n : Nat} :
    (p.pollAccept ticket).1 = .ready n ↔ (ticket, some n) ∈ p.accepts := by
  rcases pollAccept_cases hp hopen ticket with ⟨m, hm, hpoll⟩ | ⟨hidle, hpoll⟩
  · rw [hpoll]
    constructor
    · rintro ⟨⟩
      exact hm
    · intro hn
      cases hp.unique hm hn
      rfl
  · rw [hpoll]
    exact iff_of_false nofun (hidle n)

/-- An accept that is given up leaves the connection that it has in hand in the backlog. -/
theorem dropAccept_cases (hp : p.Ticketed) (ticket : Nat) :
    (∃ n, (ticket, some n) ∈ p.accepts ∧
      p.dropAccept ticket = { p.forgetAccept ticket with backlog := p.backlog ++ [n] }) ∨
    ((∀ n, (ticket, some n) ∉ p.accepts) ∧ p.dropAccept ticket = p.forgetAccept ticket) := by
  unfold dropAccept
  rcases find?_eq p ticket with ⟨_ | n, hc, hfind⟩ | ⟨habsent, hfind⟩
  · refine .inr ⟨fun n hn => ?_, by rw [hfind]⟩
    cases hp.unique hc hn
  · refine .inl ⟨n, hc, ?_⟩
    rw [hfind]
    rfl
  · exact .inr ⟨fun n => habsent (some n), by rw [hfind]⟩

end PipeNet

/-! ## Ends that are held -/

namespace Duplex

theorem isHeld_setWriting (d : Duplex) (s t : Side) (c : Conduit) :
    (d.setWriting s c).isHeld t = d.isHeld t := by
  cases s <;> cases t <;> rfl

theorem isHeld_count (d : Duplex) (s t : Side) (received sent : Nat) :
    (d.count s received sent).isHeld t = d.isHeld t := by
  cases s <;> cases t <;> simp [count, isHeld, traffic?]

theorem isHeld_read (d : Duplex) (s : Side) (n : Nat) (t : Side) : (d.read s n).2.isHeld t = d.isHeld t := by
  unfold read
  split
  split <;> simp only [isHeld_count, isHeld_setWriting]

theorem isHeld_write (d : Duplex) (s : Side) (bs : Bytes) (t : Side) :
    (d.write s bs).2.isHeld t = d.isHeld t := by
  unfold write
  split
  split <;> simp only [isHeld_count, isHeld_setWriting]

theorem isHeld_shutdown (d : Duplex) (s t : Side) : (d.shutdown s).isHeld t = d.isHeld t :=
  d.isHeld_setWriting s t _

theorem isHeld_ofCapacity (capacity : Nat) (s : Side) : (ofCapacity capacity).isHeld s = true := by
  cases s <;> rfl

/-- Giving one end up leaves the other. -/
theorem isHeld_release (d : Duplex) (s t : Side) :
    (d.release s).isHeld t = true ↔ d.isHeld t = true ∧ t ≠ s := by
  cases s <;> cases t <;> simp [release, isHeld, traffic?, setWriting, Side.other]

/-- A connection of which both ends were given up at once. -/
def spent (capacity : Nat) : Duplex := ((ofCapacity capacity).release .dialer).release .acceptor

theorem isHeld_spent (capacity : Nat) (s : Side) : (spent capacity).isHeld s = false := by
  cases s <;> rfl

end Duplex

namespace PipeNet

variable {p : PipeNet} {ticket n : Nat}

theorem release_eq {d : Duplex} {s : Side} (hd : p.connections[n]? = some d) (hs : d.isHeld s = true) :
    release n s p = { p.modify n (Duplex.release s) with live := p.live - 1 } := by
  simp only [release, hd, hs, if_true]

/-! ## What a dial does -/

/-- The network after some connections were made and given up at once. -/
def skipped (p : PipeNet) (count : Nat) : PipeNet :=
  { p with connections := p.connections ++ Array.replicate count (.spent p.capacity) }

theorem skipped_zero : p.skipped 0 = p := by simp [skipped]

theorem modify_push {α : Type} (xs : Array α) (x : α) (f : α → α) :
    (xs.push x).modify xs.size f = xs.push (f x) := by
  apply Array.ext_getElem?
  intro i
  rw [Array.getElem?_modify, Array.getElem?_push, Array.getElem?_push]
  by_cases hi : i = xs.size
  · rw [if_pos hi, if_pos hi.symm, if_pos hi]
    rfl
  · rw [if_neg hi, if_neg (Ne.symm hi), if_neg hi]

/-- A skipped connection leaves nothing behind but its number. -/
theorem skip_eq : p.skip = p.skipped 1 := by
  have hlast : ∀ (d : Duplex), (p.connections.push d)[p.connections.size]? = some d := fun d => by simp
  have hboth := Duplex.isHeld_ofCapacity p.capacity
  simp only [skip, connect]
  rw [release_eq (s := .dialer) (hlast _) (hboth _)]
  simp only [modify, modify_push]
  rw [release_eq (hlast _) ((Duplex.isHeld_release _ _ _).2 ⟨hboth _, by decide⟩)]
  simp only [modify, modify_push]
  rfl

theorem skip_skipped (count : Nat) : p.skip.skipped count = p.skipped (count + 1) := by
  rw [skip_eq]
  simp only [skipped, Array.append_assoc, Array.replicate_append_replicate, Nat.add_comm]

/-- A dial skips accepts that were given up, until it finds none or meets one that waits. -/
theorem meet_cases (p : PipeNet) (waiting : List Nat) :
    ∃ gone later, waiting = gone ++ later ∧ (∀ a ∈ gone, p.awaits a = false) ∧
      ((later = [] ∧ p.meet waiting = (none, { p.skipped gone.length with waiting := [] })) ∨
        ∃ a rest, later = a :: rest ∧ p.awaits a = true ∧ p.meet waiting =
          (some (p.connections.size + gone.length),
            { (p.skipped gone.length).connect.2.deliver a (p.connections.size + gone.length) with
              waiting := rest })) := by
  induction waiting generalizing p with
  | nil =>
    refine ⟨[], [], rfl, by simp, .inl ⟨rfl, ?_⟩⟩
    rw [List.length_nil, skipped_zero]
    rfl
  | cons a rest ih =>
    rw [meet]
    by_cases ha : p.awaits a = true
    · refine ⟨[], a :: rest, rfl, by simp, .inr ⟨a, rest, rfl, ha, ?_⟩⟩
      rw [if_pos ha, List.length_nil, skipped_zero]
      rfl
    · obtain ⟨gone, later, hsplit, hgone, hmeet⟩ := ih p.skip
      rw [if_neg ha]
      have hawaits : ∀ t, p.skip.awaits t = p.awaits t := fun t => by rw [skip_eq]; rfl
      have hsize : p.skip.connections.size + gone.length = p.connections.size + (gone.length + 1) := by
        rw [skip_eq]
        simp [skipped]
        omega
      rw [skip_skipped, hsize] at hmeet
      refine ⟨a :: gone, later, by rw [hsplit, List.cons_append], ?_, ?_⟩
      · rw [List.forall_mem_cons]
        exact ⟨by simpa using ha, fun t ht => hawaits t ▸ hgone t ht⟩
      · rw [List.length_cons]
        exact hmeet.imp_right fun ⟨t, rest, hlater, ht, hmeet⟩ => ⟨t, rest, hlater, hawaits t ▸ ht, hmeet⟩

/-- A dial that is not the first in the line has to wait, and the first one has to if no accept waits; otherwise it
comes to a connection, of which the oldest accept that waits has the other end in hand. -/
theorem pollDial_cases (hopen : p.closed = false) (ticket : Nat) :
    (p.dials.head? ≠ some ticket ∧ p.pollDial ticket = (.pending, p)) ∨
    (p.dials.head? = some ticket ∧ (∀ a ∈ p.waiting, p.awaits a = false) ∧
      p.pollDial ticket = (.pending, { p.skipped p.waiting.length with waiting := [] })) ∨
    p.dials.head? = some ticket ∧ ∃ gone a rest q, p.waiting = gone ++ a :: rest ∧
      (∀ t ∈ gone, p.awaits t = false) ∧ p.awaits a = true ∧
      p.pollDial ticket = (.ready (p.connections.size + gone.length), q) ∧
      q = { (p.skipped gone.length).connect.2.deliver a (p.connections.size + gone.length) with
        waiting := rest
        dials := p.dials.filter (· != ticket) } := by
  unfold pollDial
  rw [hopen, if_neg Bool.false_ne_true]
  by_cases hhead : p.dials.head? = some ticket
  · rw [if_pos hhead]
    obtain ⟨gone, later, hwaiting, hgone, ⟨rfl, hmeet⟩ | ⟨a, rest, rfl, ha, hmeet⟩⟩ := p.meet_cases p.waiting
    · rw [List.append_nil] at hwaiting
      subst hwaiting
      rw [hmeet]
      exact .inr (.inl ⟨hhead, hgone, rfl⟩)
    · rw [hmeet]
      exact .inr (.inr ⟨hhead, gone, a, rest, _, hwaiting, hgone, ha, rfl, rfl⟩)
  · rw [if_neg hhead]
    exact .inl ⟨hhead, rfl⟩

/-! ## What is done at connections -/

/-- What is done at a connection changes nothing but the connections. -/
theorem exists_operate {α : Type} (p : PipeNet) (n : Nat) (f : Duplex → Poll α × Duplex) :
    ∃ connections live, (operate n f p).2 = { p with connections, live } := by
  unfold operate
  split
  · split <;> exact ⟨_, _, rfl⟩
  · exact ⟨_, _, rfl⟩

/-- Giving up an end of a connection changes nothing but the connections and the counter. -/
theorem exists_release (p : PipeNet) (n : Nat) (s : Side) :
    ∃ connections live, release n s p = { p with connections, live } := by
  unfold release
  split
  · split <;> exact ⟨_, _, rfl⟩
  · exact ⟨_, _, rfl⟩

/-- What users do at the ends of connections is seen neither by dials and accepts nor in the backlog. -/
theorem Usage.exists_after (u : Usage) {e : Event} (he : e.isAtEnd = true) :
    ∃ connections live, (u.after e).net = { u.net with connections, live } := by
  have hbyHolder : ∀ {next : Usage} (e : Nat × Side),
      (∃ connections live, next.net = { u.net with connections, live }) →
        ∃ connections live, (u.byHolder e next).net = { u.net with connections, live } := by
    intro next e hnext
    unfold byHolder
    split
    · exact hnext
    · exact ⟨_, _, rfl⟩
  cases e with
  | read | write | shutdown => exact hbyHolder _ (u.net.exists_operate _ _)
  | release n s => exact hbyHolder _ (u.net.exists_release n s)
  | _ => cases he

end PipeNet

end RemoteCall
