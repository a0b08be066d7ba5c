import RemoteCall.Proofs.Network.Conservation
import RemoteCall.Proofs.Network.Line
/-!
# Who is served first

Dials stand in a line of their own, of which only the first one looks for accepts, and the accepts that found no
connection in the backlog stand in another one. `Chronicle` keeps account of both lines, as their users see them: who
joined, who was served and who gave up. The main result says that a network in memory serves both lines in order,
whatever its users do: what it keeps in its own queues is tied to the lines by `InOrder`, which every event keeps.
-/

namespace RemoteCall

namespace PipeNet

/-- The connection that an accept under way has in hand. -/
def inHandOf (p : PipeNet) (ticket : Nat) : Option Nat :=
  (p.accepts.find? fun a => a.1 == ticket).bind Prod.snd

/-- The accept under way that has a connection in hand. -/
def holder? (p : PipeNet) (n : Nat) : Option Nat :=
  (p.accepts.find? fun a => a.2 == some n).map Prod.fst

variable {p q : PipeNet} {ticket n : Nat}

theorem inHandOf_eq_some (hp : p.Ticketed) (h : (ticket, some n) ∈ p.accepts) : p.inHandOf ticket = some n := by
  unfold inHandOf
  rcases find?_eq p ticket with ⟨c, hc, hfind⟩ | ⟨habsent, -⟩
  · rw [hfind, Option.bind_some, hp.unique hc h]
  · exact absurd h (habsent _)

theorem inHandOf_eq_none (h : ∀ n, (ticket, some n) ∉ p.accepts) : p.inHandOf ticket = none := by
  unfold inHandOf
  rcases find?_eq p ticket with ⟨_ | n, hc, hfind⟩ | ⟨-, hfind⟩
  · rw [hfind]
    rfl
  · exact absurd hc (h n)
  · rw [hfind]
    rfl

/-- A new connection is in hand of the accept that it is delivered to, and of no other. -/
theorem mem_deliver (hnew : ∀ t, (t, some n) ∉ p.accepts) (ha : p.awaits ticket = true) {t : Nat} :
    (t, some n) ∈ (p.deliver ticket n).accepts ↔ t = ticket := by
  constructor
  · intro hmem
    obtain ⟨a, ha, hat⟩ := List.mem_map.1 hmem
    -- an accept that was not delivered to has none but an older connection
    by_cases hticket : a.1 = ticket
    · rw [if_pos hticket] at hat
      exact (Prod.mk.inj hat).1.symm.trans hticket
    · rw [if_neg hticket] at hat
      exact absurd (hat ▸ ha) (hnew t)
  · rintro rfl
    exact List.mem_map.2 ⟨_, awaits_iff.1 ha, if_pos rfl⟩

theorem holder?_deliver (hnew : ∀ t, (t, some n) ∉ p.accepts) (ha : p.awaits ticket = true) :
    (p.deliver ticket n).holder? n = some ticket := by
  unfold holder?
  rcases hfind : (p.deliver ticket n).accepts.find? fun a => a.2 == some n with _ | ⟨t, c⟩
  · exact absurd (beq_self_eq_true (some n)) (List.find?_eq_none.1 hfind _ ((mem_deliver hnew ha).2 rfl))
  · obtain rfl : c = some n := by simpa using List.find?_some hfind
    rw [hfind]
    exact congrArg some ((mem_deliver hnew ha).1 (List.mem_of_find?_eq_some hfind))

theorem pollAccept_ready_iff (hp : p.Ticketed) (hopen : p.closed = false) :
    (∃ q, p.pollAccept ticket = (.ready n, q)) ↔ (ticket, some n) ∈ p.accepts := by
  rw [← pollAccept_fst_iff hp hopen]
  exact ⟨fun ⟨q, h⟩ => by rw [h], fun h => ⟨_, Prod.ext h rfl⟩⟩

/-! ## What users see of the lines -/

/-- What users did with a network, as far as it is about who comes first. -/
structure Chronicle where
  /-- The dials. -/
  dials : Line
  /-- The accepts that found no connection in the backlog when they started. -/
  accepts : Line
  /-- The connections that were put into the backlog, in order. -/
  stored : List Nat
  /-- The connections that accepts found in the backlog, in order. -/
  resumed : List Nat
deriving DecidableEq, Repr

namespace Chronicle

def empty : Chronicle := ⟨.empty, .empty, [], []⟩

/-- An event on a network. A dial that comes to a connection is served, and so is the accept that it meets. -/
def after (h : Chronicle) (p : PipeNet) : Event → Chronicle
  | .startDial => { h with dials := h.dials.join p.startDial.1 }
  | .pollDial ticket =>
    match p.pollDial ticket with
    | (.ready n, q) =>
      { h with dials := h.dials.serve ticket, accepts := (q.holder? n).elim h.accepts h.accepts.serve }
    | _ => h
  | .dropDial ticket => { h with dials := h.dials.leave ticket }
  | .startAccept =>
    let (ticket, q) := p.startAccept
    match q.inHandOf ticket with
    | some n => { h with resumed := h.resumed ++ [n] }
    | none => { h with accepts := h.accepts.join ticket }
  | .dropAccept ticket =>
    { h with accepts := h.accepts.leave ticket, stored := h.stored ++ (p.inHandOf ticket).toList }
  | _ => h

/-- Events one after another. -/
def run (u : Usage) (h : Chronicle) : List Event → Chronicle
  | [] => h
  | e :: events => run (u.after e) (h.after u.net e) events

/-- All that users did with a network since it was new. -/
def ofEvents (capacity : Nat) (events : List Event) : Chronicle := run (.start capacity) .empty events

end Chronicle

/-! ## What every event keeps -/

/-- The queues of a network are what the lines have come to. -/
structure InOrder (p : PipeNet) (h : Chronicle) : Prop where
  dials : h.dials.Tracks p.dials
  dialing : ∀ t, t ∈ p.dials ↔ h.dials.Waits t
  accepts : h.accepts.Tracks p.waiting
  awaiting : ∀ t, p.awaits t = true ↔ h.accepts.Waits t
  waiting : p.waiting <:+ h.accepts.joined
  ticketed : ∀ t, t ∈ h.dials.joined ∨ t ∈ h.accepts.joined → t < p.nextTicket
  paired : h.dials.served.length = h.accepts.served.length
  backlog : h.stored = h.resumed ++ p.backlog

namespace InOrder

variable {h : Chronicle} {u : Usage} {held : List (Nat × Side)}

theorem ofCapacity (capacity : Nat) : (ofCapacity capacity).InOrder .empty where
  dials := .empty
  dialing t := iff_of_false List.not_mem_nil fun ht => List.not_mem_nil ht.1
  accepts := .empty
  awaiting t := iff_of_false Bool.false_ne_true fun ht => List.not_mem_nil ht.1
  waiting := List.suffix_rfl
  ticketed t ht := by rcases ht with ht | ht <;> cases ht
  paired := rfl
  backlog := rfl

/-- What goes on at connections does not matter. -/
theorem of_connections (hp : p.InOrder h) (connections : Array Duplex) (live : Nat) :
    { p with connections, live }.InOrder h :=
  ⟨hp.dials, hp.dialing, hp.accepts, hp.awaiting, hp.waiting, hp.ticketed, hp.paired, hp.backlog⟩

/-- The first in the queue of dials is the first in the line. -/
theorem head?_eq_some_iff (hp : p.InOrder h) : p.dials.head? = some ticket ↔ h.dials.IsFirst ticket := by
  have hfirst : ∀ {t rest}, p.dials = t :: rest → h.dials.IsFirst t := by
    intro t rest hdials
    have htracks : h.dials.Tracks ([] ++ t :: rest) := hdials ▸ hp.dials
    have hwaits : h.dials.Waits t := (hp.dialing t).1 (by rw [hdials]; exact List.mem_cons_self)
    exact htracks.isFirst (by simp) hwaits.2
  constructor
  · intro hhead
    obtain ⟨rest, hdials⟩ := List.head?_eq_some_iff.1 hhead
    exact hfirst hdials
  · intro hticket
    have hmem := (hp.dialing ticket).2 hticket.waits
    cases hdials : p.dials with
    | nil =>
      rw [hdials] at hmem
      cases hmem
    | cons t rest => rw [List.head?_cons, (hfirst hdials).unique hticket]

/-- An accept in the queue that does not wait was given up. -/
theorem over_of_mem_waiting (hp : p.InOrder h) {t : Nat} (ht : t ∈ p.waiting) (hawaits : p.awaits t = false) :
    h.accepts.Over t := by
  by_contra hover
  obtain ⟨ahead, behind, hjoined, -, -, hqueue⟩ := hp.accepts.passed
  have hmem : t ∈ h.accepts.joined := by
    rw [hjoined]
    exact List.mem_append_right _ (hqueue.subset ht)
  rw [(hp.awaiting t).2 ⟨hmem, hover⟩] at hawaits
  cases hawaits

theorem startDial (hp : p.InOrder h) : p.startDial.2.InOrder (h.after p .startDial) := by
  have hnew : p.nextTicket ∉ h.dials.joined := fun hmem => Nat.lt_irrefl _ (hp.ticketed _ (.inl hmem))
  refine ⟨hp.dials.join hnew, ?_, hp.accepts, hp.awaiting, hp.waiting, ?_, hp.paired, hp.backlog⟩
  · intro t
    refine Iff.trans ?_ (hp.dials.waits_join hnew).symm
    rw [← hp.dialing]
    simp [PipeNet.startDial]
  · intro t ht
    apply Nat.lt_succ_of_le
    rcases ht with ht | ht
    · rcases List.mem_append.1 ht with ht | ht
      · exact Nat.le_of_lt (hp.ticketed t (.inl ht))
      · exact Nat.le_of_eq (List.mem_singleton.1 ht)
    · exact Nat.le_of_lt (hp.ticketed t (.inr ht))

/-- The first dial leaves the queue when it is served. -/
theorem serve_dials (hp : p.InOrder h) (hhead : p.dials.head? = some ticket) :
    (h.dials.serve ticket).Tracks (p.dials.filter (· != ticket)) := by
  obtain ⟨rest, hdials⟩ := List.head?_eq_some_iff.1 hhead
  have hwaits : h.dials.Waits ticket := (hp.dialing ticket).1 (by rw [hdials]; exact List.mem_cons_self)
  have htracks : h.dials.Tracks ([] ++ ticket :: rest) := hdials ▸ hp.dials
  have hserve : (h.dials.serve ticket).Tracks rest := htracks.serve (by simp) hwaits.2
  rw [hdials, List.filter_cons_of_neg (by simp)]
  exact hserve.remove fun hticket => (Line.waits_serve.1 hticket).2 rfl

theorem pollDial (hp : p.InOrder h) (hsound : p.Sound held) (ticket : Nat) :
    (p.pollDial ticket).2.InOrder (h.after p (.pollDial ticket)) := by
  rw [Chronicle.after]
  rcases pollDial_cases hsound.opened ticket with
    ⟨-, hpoll⟩ | ⟨-, hidle, hpoll⟩ | ⟨hhead, gone, a, rest, q, hwaiting, hgone, ha, hpoll, hq⟩
  · rw [hpoll]
    exact hp
  · rw [hpoll]
    refine ⟨hp.dials, hp.dialing, hp.accepts.shrink (List.nil_sublist _) ?_, hp.awaiting, List.nil_suffix,
      hp.ticketed, hp.paired, hp.backlog⟩
    intro t ht
    -- nobody waits, since all in the queue were given up
    have hawaits := (hp.awaiting t).2 ht
    rw [hidle t (hp.accepts.holds t ht)] at hawaits
    cases hawaits
  · have hnew : ∀ t, (t, some (p.connections.size + gone.length)) ∉ p.accepts :=
      hsound.not_inHand_of_le (Nat.le_add_right _ _)
    have hholder : q.holder? (p.connections.size + gone.length) = some a := by
      rw [hq]
      exact holder?_deliver (p := (p.skipped gone.length).connect.2) hnew ha
    have hover : ∀ t ∈ gone, h.accepts.Over t := by
      intro t ht
      exact hp.over_of_mem_waiting (by rw [hwaiting]; exact List.mem_append_left _ ht) (hgone t ht)
    have haccepts := hp.accepts
    rw [hwaiting] at haccepts
    rw [hpoll]
    dsimp only
    rw [hholder, hq]
    refine ⟨hp.serve_dials hhead, ?_, haccepts.serve hover ((hp.awaiting a).1 ha).2, ?_, ?_, hp.ticketed, ?_,
      hp.backlog⟩
    · intro t
      refine Iff.trans ?_ Line.waits_serve.symm
      rw [← hp.dialing, List.mem_filter, bne_iff_ne]
    · intro t
      refine (awaits_deliver t).trans (Iff.trans ?_ Line.waits_serve.symm)
      exact and_congr_left fun _ => hp.awaiting t
    · have hwaitingSuffix := hp.waiting
      rw [hwaiting, ← List.singleton_append, ← List.append_assoc] at hwaitingSuffix
      exact (List.suffix_append _ rest).trans hwaitingSuffix
    · simp only [Line.serve, Option.elim, List.length_append, hp.paired, List.length_singleton]

theorem dropDial (hp : p.InOrder h) (ticket : Nat) :
    (p.dropDial ticket).InOrder (h.after p (.dropDial ticket)) := by
  refine ⟨(hp.dials.leave ticket).remove fun hticket => (Line.waits_leave.1 hticket).2 rfl, ?_, hp.accepts,
    hp.awaiting, hp.waiting, ?_, ?_, hp.backlog⟩
  · intro t
    refine Iff.trans ?_ Line.waits_leave.symm
    rw [← hp.dialing]
    exact List.mem_filter.trans (and_congr_right fun _ => bne_iff_ne)
  · intro t ht
    rw [Chronicle.after, h.dials.joined_leave] at ht
    exact hp.ticketed t ht
  · rw [Chronicle.after, h.dials.served_leave]
    exact hp.paired

theorem startAccept (hp : p.InOrder h) (hsound : p.Sound held) :
    p.startAccept.2.InOrder (h.after p .startAccept) := by
  have hnew : p.nextTicket ∉ h.accepts.joined := fun hmem => Nat.lt_irrefl _ (hp.ticketed _ (.inr hmem))
  have hlater : ∀ t, t ∈ h.dials.joined ∨ t ∈ h.accepts.joined → t < p.nextTicket + 1 :=
    fun t ht => Nat.lt_succ_of_lt (hp.ticketed t ht)
  have hticketed : ∀ c, (p.withAccept c).Ticketed := fun c => hsound.ticketed.add c rfl rfl
  rw [Chronicle.after]
  rcases startAccept_cases hsound.opened with ⟨n, rest, hbacklog, hstart⟩ | ⟨hbacklog, hstart⟩
  · have hhand : p.startAccept.2.inHandOf p.startAccept.1 = some n := by
      have hlast : (p.nextTicket, some n) ∈ (p.withAccept (some n)).accepts :=
        List.mem_append_right _ List.mem_cons_self
      rw [hstart]
      exact inHandOf_eq_some ((hticketed (some n)).of_le rfl (Nat.le_refl _)) hlast
    dsimp only
    rw [hhand, hstart]
    refine ⟨hp.dials, hp.dialing, hp.accepts, ?_, hp.waiting, hlater, hp.paired, ?_⟩
    · intro t
      rw [← hp.awaiting, awaits_iff, awaits_iff]
      simp [withAccept]
    · rw [hp.backlog, hbacklog, List.append_assoc]
      rfl
  · have hhand : p.startAccept.2.inHandOf p.startAccept.1 = none := by
      rw [hstart]
      apply inHandOf_eq_none
      intro n hn
      rcases List.mem_append.1 hn with hn | hn
      · exact Nat.lt_irrefl _ (hsound.ticketed.lt _ hn)
      · cases List.mem_singleton.1 hn
    dsimp only
    rw [hhand, hstart]
    refine ⟨hp.dials, hp.dialing, hp.accepts.join hnew, ?_, ?_, ?_, hp.paired, ?_⟩
    · intro t
      refine Iff.trans ?_ (hp.accepts.waits_join hnew).symm
      rw [← hp.awaiting, awaits_iff, awaits_iff]
      simp [withAccept]
    · obtain ⟨passed, hpassed⟩ := hp.waiting
      refine ⟨passed, ?_⟩
      rw [← List.append_assoc, hpassed]
      rfl
    · intro t ht
      rw [Line.join, List.mem_append, List.mem_singleton, ← or_assoc] at ht
      rcases ht with ht | rfl
      · exact hlater t ht
      · exact Nat.lt_succ_self _
    · show h.stored = h.resumed ++ p.backlog
      exact hp.backlog

theorem pollAccept (hp : p.InOrder h) (hsound : p.Sound held) (ticket : Nat) :
    (p.pollAccept ticket).2.InOrder h := by
  rcases pollAccept_cases hsound.ticketed hsound.opened ticket with ⟨n, hn, hpoll⟩ | ⟨-, hpoll⟩
  · rw [hpoll]
    refine ⟨hp.dials, hp.dialing, hp.accepts, ?_, hp.waiting, hp.ticketed, hp.paired, hp.backlog⟩
    intro t
    rw [awaits_forgetAccept, ← hp.awaiting]
    -- an accept that has a connection in hand does not wait
    refine and_iff_left_of_imp fun ht => ?_
    rintro rfl
    cases hsound.ticketed.unique hn (awaits_iff.1 ht)
  · rw [hpoll]
    exact hp

theorem dropAccept (hp : p.InOrder h) (hsound : p.Sound held) (ticket : Nat) :
    (p.dropAccept ticket).InOrder (h.after p (.dropAccept ticket)) := by
  have hawaiting : ∀ t, (p.forgetAccept ticket).awaits t = true ↔ (h.accepts.leave ticket).Waits t := by
    intro t
    rw [awaits_forgetAccept, Line.waits_leave, hp.awaiting]
  have hticketed : ∀ t, t ∈ h.dials.joined ∨ t ∈ (h.accepts.leave ticket).joined → t < p.nextTicket := by
    rw [h.accepts.joined_leave]
    exact hp.ticketed
  have hwaiting : p.waiting <:+ (h.accepts.leave ticket).joined := by
    rw [h.accepts.joined_leave]
    exact hp.waiting
  have hpaired : h.dials.served.length = (h.accepts.leave ticket).served.length := by
    rw [h.accepts.served_leave]
    exact hp.paired
  rw [Chronicle.after]
  rcases dropAccept_cases hsound.ticketed ticket with ⟨n, hn, hdrop⟩ | ⟨hidle, hdrop⟩
  · rw [hdrop, inHandOf_eq_some hsound.ticketed hn]
    refine ⟨hp.dials, hp.dialing, hp.accepts.leave ticket, hawaiting, hwaiting, hticketed, hpaired, ?_⟩
    rw [hp.backlog, List.append_assoc]
    rfl
  · rw [hdrop, inHandOf_eq_none hidle]
    refine ⟨hp.dials, hp.dialing, hp.accepts.leave ticket, hawaiting, hwaiting, hticketed, hpaired, ?_⟩
    rw [hp.backlog]
    exact List.append_nil _

/-- Every event keeps the lines in order. -/
theorem after (hu : u.Conserved) (hp : u.net.InOrder h) (e : Event) : (u.after e).net.InOrder (h.after u.net e) := by
  have hatEnd (hend : e.isAtEnd = true) : (u.after e).net.InOrder h := by
    obtain ⟨connections, live, hnet⟩ := u.exists_after hend
    rw [hnet]
    exact hp.of_connections connections live
  cases e with
  | startDial => exact hp.startDial
  | pollDial ticket =>
    rw [u.net_after_pollDial]
    exact hp.pollDial hu.sound ticket
  | dropDial ticket => exact hp.dropDial ticket
  | startAccept => exact hp.startAccept hu.sound
  | pollAccept ticket =>
    rw [u.net_after_pollAccept]
    exact hp.pollAccept hu.sound ticket
  | dropAccept ticket => exact hp.dropAccept hu.sound ticket
  | read | write | shutdown | release => exact hatEnd rfl

theorem run (events : List Event) (hu : u.Conserved) (hp : u.net.InOrder h) :
    (u.run events).net.InOrder (Chronicle.run u h events) := by
  induction events generalizing u h with
  | nil => exact hp
  | cons e events ih => exact ih (hu.after e) (hp.after hu e)

theorem ofEvents (capacity : Nat) (events : List Event) :
    ((Usage.start capacity).run events).net.InOrder (.ofEvents capacity events) :=
  run events (Usage.start_conserved capacity) (ofCapacity capacity)

/-- What is in the queue of accepts ahead of one that waits has given up, and was not served. -/
theorem left_of_skipped (hp : p.InOrder h) {t : Nat} (ht : t ∈ p.waiting) (hawaits : p.awaits t = false) :
    t ∈ h.accepts.left ∧ t ∉ h.accepts.served := by
  have hserved := hp.accepts.not_served ht
  exact ⟨(hp.over_of_mem_waiting ht hawaits).resolve_left hserved, hserved⟩

end InOrder

/-! ## The order in which a network serves -/

/-- A dial came to a connection, which is for the first accept in the line and for no other. The accepts that were
passed over for it, each with a connection of its own, are just those in the line that had given up and were not
passed over before. -/
structure Handed (p : PipeNet) (h : Chronicle) (n a : Nat) (q : PipeNet) : Prop where
  first : h.accepts.IsFirst a
  taken : ∀ t, (∃ r, q.pollAccept t = (.ready n, r)) ↔ t = a
  skipped : ∃ passed gone, h.accepts.joined = passed ++ gone ++ a :: q.waiting ∧ p.waiting = gone ++ a :: q.waiting ∧
    n = p.connections.size + gone.length ∧ ∀ t ∈ gone, t ∈ h.accepts.left ∧ t ∉ h.accepts.served
  others : ∀ t, q.awaits t = true ↔ h.accepts.Waits t ∧ t ≠ a

/-- A network serves the lines of its dials and accepts in order. -/
structure Serves (p : PipeNet) (h : Chronicle) : Prop where
  /-- The dials under way are those that wait in their line. -/
  dialing : ∀ d, d ∈ p.dials ↔ h.dials.Waits d
  /-- The accepts without a connection are those that wait in their line. -/
  awaiting : ∀ t, p.awaits t = true ↔ h.accepts.Waits t
  /-- A dial gets through just when it is the first of those that wait and an accept waits too, whoever gave up. -/
  ready_iff : ∀ d, (∃ n q, p.pollDial d = (.ready n, q)) ↔ h.dials.IsFirst d ∧ ∃ a, h.accepts.Waits a
  /-- Who it meets is the first of the accepts that wait. -/
  handed : ∀ {d n q}, p.pollDial d = (.ready n, q) → ∃ a, Handed p h n a q
  /-- An attempt that does not get through takes no accept that waits. -/
  pending : ∀ {d q}, p.pollDial d = (.pending, q) → ∀ t, q.awaits t = true ↔ h.accepts.Waits t
  /-- Nor does a dial that is given up, which leaves the other dials in the line. -/
  dropped : ∀ d, (∀ t, (p.dropDial d).awaits t = true ↔ h.accepts.Waits t) ∧
    ∀ t, t ∈ (p.dropDial d).dials ↔ h.dials.Waits t ∧ t ≠ d
  /-- The dials that got through did so in the order in which they came. -/
  dials : h.dials.ServedInOrder
  accepts : h.accepts.ServedInOrder
  /-- One accept was served for each dial that got through, and none for others. -/
  paired : h.dials.served.length = h.accepts.served.length
  /-- What accepts took from the backlog is what came into it first. -/
  resumed : h.stored = h.resumed ++ p.backlog

theorem InOrder.handed {h : Chronicle} {held : List (Nat × Side)} (hp : p.InOrder h) (hsound : p.Sound held)
    (hpoll : p.pollDial ticket = (.ready n, q)) : ∃ a, Handed p h n a q := by
  rcases pollDial_cases hsound.opened ticket with
    ⟨-, hpending⟩ | ⟨-, -, hpending⟩ | ⟨-, gone, a, rest, r, hwaiting, hgone, ha, hready, hr⟩
  · rw [hpending] at hpoll
    cases hpoll
  · rw [hpending] at hpoll
    cases hpoll
  · rw [hready] at hpoll
    cases hpoll
    have hmem : ∀ t ∈ gone, t ∈ p.waiting := by
      rw [hwaiting]
      exact fun t ht => List.mem_append_left _ ht
    have hskipped : ∀ t ∈ gone, t ∈ h.accepts.left ∧ t ∉ h.accepts.served :=
      fun t ht => hp.left_of_skipped (hmem t ht) (hgone t ht)
    have haccepts := hp.accepts
    rw [hwaiting] at haccepts
    refine ⟨a, haccepts.isFirst (fun t ht => .inr (hskipped t ht).1) ((hp.awaiting a).1 ha).2, ?_, ?_, ?_⟩
    · intro t
      have hticketed : (p.skipped gone.length).connect.2.Ticketed := hsound.ticketed.of_le rfl (Nat.le_refl _)
      have hnew : ∀ u, (u, some (p.connections.size + gone.length)) ∉ (p.skipped gone.length).connect.2.accepts :=
        hsound.not_inHand_of_le (Nat.le_add_right _ _)
      have hdelivered : q.Ticketed := by
        rw [hr]
        exact (hticketed.deliver a _).of_le rfl (Nat.le_refl _)
      have hopen : q.closed = false := by
        rw [hr]
        exact hsound.opened
      rw [pollAccept_ready_iff hdelivered hopen, hr]
      exact mem_deliver hnew ha
    · obtain ⟨passed, hpassed⟩ := hp.waiting
      rw [hr]
      refine ⟨passed, gone, ?_, hwaiting, rfl, hskipped⟩
      rw [List.append_assoc, ← hwaiting, hpassed]
    · intro t
      rw [hr, ← hp.awaiting]
      exact awaits_deliver t

theorem InOrder.ready_iff {h : Chronicle} {held : List (Nat × Side)} (hp : p.InOrder h) (hsound : p.Sound held)
    (d : Nat) : (∃ n q, p.pollDial d = (.ready n, q)) ↔ h.dials.IsFirst d ∧ ∃ a, h.accepts.Waits a := by
  rw [← hp.head?_eq_some_iff]
  rcases pollDial_cases hsound.opened d with
    ⟨hhead, hpoll⟩ | ⟨-, hidle, hpoll⟩ | ⟨hhead, gone, a, rest, r, -, -, ha, hpoll, -⟩
  · rw [hpoll]
    refine iff_of_false ?_ fun hd => hhead hd.1
    rintro ⟨n, q, hready⟩
    cases hready
  · rw [hpoll]
    refine iff_of_false ?_ ?_
    · rintro ⟨n, q, hready⟩
      cases hready
    · rintro ⟨-, a, ha⟩
      have hawaits := (hp.awaiting a).2 ha
      rw [hidle a (hp.accepts.holds a ha)] at hawaits
      cases hawaits
  · exact iff_of_true ⟨_, _, hpoll⟩ ⟨hhead, a, (hp.awaiting a).1 ha⟩

theorem InOrder.pending {h : Chronicle} {held : List (Nat × Side)} (hp : p.InOrder h) (hsound : p.Sound held)
    (hpoll : p.pollDial ticket = (.pending, q)) (t : Nat) : q.awaits t = true ↔ h.accepts.Waits t := by
  rw [← hp.awaiting]
  rcases pollDial_cases hsound.opened ticket with ⟨-, hpending⟩ | ⟨-, -, hpending⟩ | ⟨-, _, _, _, _, -, -, -, hready, -⟩
  · rw [hpending] at hpoll
    cases hpoll
    exact Iff.rfl
  · rw [hpending] at hpoll
    cases hpoll
    exact Iff.rfl
  · rw [hready] at hpoll
    cases hpoll

/-- Whatever the users of a network in memory do, each dial that gets through meets the accept that has waited
longest, dials get through in the order in which they came, those given up hold nobody up and take no accept, and the
backlog goes out oldest first. -/
theorem serves_in_order (capacity : Nat) (events : List Event) :
    Serves ((Usage.start capacity).run events).net (Chronicle.ofEvents capacity events) := by
  have hsound := (Usage.conserved_run capacity events).sound
  have hp := InOrder.ofEvents capacity events
  exact {
    dialing := hp.dialing
    awaiting := hp.awaiting
    ready_iff := hp.ready_iff hsound
    handed := hp.handed hsound
    pending := hp.pending hsound
    dropped := fun d => ⟨hp.awaiting, fun t => ((hp.dropDial d).dialing t).trans Line.waits_leave⟩
    dials := hp.dials.servedInOrder
    accepts := hp.accepts.servedInOrder
    paired := hp.paired
    resumed := hp.backlog }

-- of three accepts the first gives up, and of three dials the second
example : let h := Chronicle.ofEvents 0x10 [.startAccept, .startAccept, .startAccept, .dropAccept 0, .startDial,
      .startDial, .startDial, .dropDial 4, .pollDial 5, .pollDial 3, .pollDial 5]
    h.dials.served = [3, 5] ∧ h.accepts.served = [1, 2] := by decide

end PipeNet

end RemoteCall
