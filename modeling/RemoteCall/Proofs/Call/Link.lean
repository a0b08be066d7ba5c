import RemoteCall.Network.Duplex
import RemoteCall.Network
/-!
# A single connection that moves bytes as it pleases

A `Link` is a duplex connection whose every transfer moves at most as many bytes as some sequence
tells, so that over all sequences reads and writes are split in every possible way. As a network it
has just this one connection. `Link.Carries` says what is on its way, seen from one side;
`read_cases`, `write_cases` and the equations for the other operations are all that is known of a
link from there on.
-/

namespace RemoteCall

namespace Conduit

/-- A read of at least one byte gives what is there, or the end, or has to wait. -/
theorem read_eq (c : Conduit) {n : Nat} (hn : 0 < n) :
    (c.data = [] ∧ c.read n = (if c.closed then .ready [] else .pending, c)) ∨
      ∃ c', c.read n = (.ready (c.data.take n), c') ∧ c.data ≠ [] ∧ c'.data = c.data.drop n ∧
        c'.closed = c.closed ∧ c'.capacity = c.capacity := by
  have hsize : c.queue.size = c.data.length := c.queue.size_eq_length
  unfold read
  rw [if_neg (Nat.ne_of_gt hn), hsize]
  by_cases hdata : c.data = []
  · refine .inl ⟨hdata, ?_⟩
    rw [if_pos (List.length_eq_zero_iff.2 hdata)]
  · refine .inr ⟨{ c with queue := (c.queue.pop n).2 }, ?_, hdata, c.queue.toList_pop n, rfl, rfl⟩
    rw [if_neg fun h => hdata (List.length_eq_zero_iff.1 h)]
    show (Poll.ready (c.queue.pop n).1, _) = _
    rw [ByteQueue.fst_pop]
    rfl

/-- A write of at least one byte fails, or has to wait behind other bytes, or is taken in part. -/
theorem write_eq (c : Conduit) {bs : Bytes} (hbs : bs ≠ []) (hcapacity : 0 < c.capacity) :
    (c.closed = true ∧ c.write bs = (.failed .brokenPipe, c)) ∨
    (c.closed = false ∧ c.data ≠ [] ∧ c.write bs = (.pending, c)) ∨
    (c.closed = false ∧ ∃ piece rest c', c.write bs = (.ready piece.length, c') ∧ piece ≠ [] ∧
      bs = piece ++ rest ∧ c'.data = c.data ++ piece ∧ c'.closed = false ∧ c'.capacity = c.capacity) := by
  unfold write
  cases hclosed : c.closed with
  | true => exact .inl ⟨rfl, by rw [if_pos rfl]⟩
  | false =>
    have hempty : bs.isEmpty = false := by simpa using hbs
    simp only [hempty, Bool.false_eq_true, if_false, true_and, false_and, false_or]
    by_cases hroom : c.capacity - c.queue.size = 0
    · -- the capacity is not zero, so what leaves no room is bytes on their way
      refine .inl ⟨?_, if_pos hroom⟩
      intro hdata
      rw [c.queue.size_eq_length, show c.queue.toList = [] from hdata] at hroom
      exact Nat.ne_of_gt hcapacity hroom
    · refine .inr ⟨bs.take (c.capacity - c.queue.size), bs.drop (c.capacity - c.queue.size), _,
        if_neg hroom, ?_, (List.take_append_drop _ bs).symm, ByteQueue.toList_push _ _, rfl, rfl⟩
      intro htake
      rcases List.take_eq_nil_iff.1 htake with h | h
      · exact hroom h
      · exact hbs h

end Conduit

namespace Duplex

@[simp] theorem writing_setWriting (d : Duplex) (s : Side) (c : Conduit) :
    (d.setWriting s c).writing s = c := by
  cases s <;> rfl

@[simp] theorem writing_setWriting_other (d : Duplex) (s : Side) (c : Conduit) :
    (d.setWriting s.other c).writing s = d.writing s := by
  cases s <;> rfl

@[simp] theorem writing_other_setWriting (d : Duplex) (s : Side) (c : Conduit) :
    (d.setWriting s c).writing s.other = d.writing s.other := by
  cases s <;> rfl

@[simp] theorem setWriting_writing (d : Duplex) (s : Side) : d.setWriting s (d.writing s) = d := by
  cases s <;> rfl

@[simp] theorem writing_count (d : Duplex) (s t : Side) (received sent : Nat) :
    (d.count s received sent).writing t = d.writing t := by
  cases s <;> cases t <;> rfl

theorem traffic?_setWriting (d : Duplex) (s t : Side) (c : Conduit) :
    (d.setWriting s c).traffic? t = d.traffic? t := by
  cases s <;> cases t <;> rfl

theorem traffic?_count (d : Duplex) (s t : Side) (received sent : Nat) :
    (d.count s received sent).traffic? t =
      if s = t then (d.traffic? t).map fun u => ⟨u.received + received, u.sent + sent⟩ else d.traffic? t := by
  cases s <;> cases t <;> rfl

theorem read_of_ready {d : Duplex} {s : Side} {n : Nat} {bs : Bytes} {c : Conduit}
    (h : (d.writing s.other).read n = (.ready bs, c)) :
    (channel s).read n d = (.ready bs, (d.setWriting s.other c).count s bs.length 0) := by
  simp only [channel, read, h]

theorem read_of_pending {d : Duplex} {s : Side} {n : Nat} {c : Conduit}
    (h : (d.writing s.other).read n = (.pending, c)) :
    (channel s).read n d = (.pending, d.setWriting s.other c) := by
  simp only [channel, read, h]

theorem write_of_ready {d : Duplex} {s : Side} {bs : Bytes} {n : Nat} {c : Conduit}
    (h : (d.writing s).write bs = (.ready n, c)) :
    (channel s).write bs d = (.ready n, (d.setWriting s c).count s 0 n) := by
  simp only [channel, write, h]

theorem write_of_failed {d : Duplex} {s : Side} {bs : Bytes} {f : Fault} {c : Conduit}
    (h : (d.writing s).write bs = (.failed f, c)) :
    (channel s).write bs d = (.failed f, d.setWriting s c) := by
  simp only [channel, write, h]

theorem write_of_pending {d : Duplex} {s : Side} {bs : Bytes} {c : Conduit}
    (h : (d.writing s).write bs = (.pending, c)) :
    (channel s).write bs d = (.pending, d.setWriting s c) := by
  simp only [channel, write, h]

end Duplex

/-- A connection, and how many bytes each transfer on it moves at most. -/
structure Link where
  duplex : Duplex
  most : Nat → Nat
  most_pos : ∀ k, 0 < most k
  /-- How many transfers there were. -/
  transfers : Nat

namespace Link

/-- The link after a transfer. -/
def after (l : Link) (d : Duplex) : Link := { l with duplex := d, transfers := l.transfers + 1 }

/-- An end of a link. -/
def channel (s : Side) : Channel Link where
  read n l := let (r, d) := (Duplex.channel s).read (min n (l.most l.transfers)) l.duplex; (r, l.after d)
  write bs l := let (r, d) := (Duplex.channel s).write (bs.take (l.most l.transfers)) l.duplex; (r, l.after d)
  flush l := (.ready (), l)
  shutdown l := (.ready (), { l with duplex := l.duplex.shutdown s })
  release l := { l with duplex := l.duplex.release s }

/-- A network with one connection, which is there at once. -/
def network : Network Link where
  startDial l := (0, l)
  pollDial _ l := (.ready 0, l)
  dropDial _ l := l
  startAccept l := (0, l)
  pollAccept _ l := (.pending, l)
  dropAccept _ l := l
  dialed _ := channel .dialer
  accepted _ := channel .acceptor
  peer _ := "link"
  turnLength? := none

/-- What is on its way, as one side sees it: the bytes it has sent and those it will receive, each
with whether that direction is closed. -/
structure Carries (l : Link) (s : Side) (sent : Bytes) (sentEnds : Bool) (due : Bytes)
    (dueEnds : Bool) : Prop where
  sent : (l.duplex.writing s).data = sent
  sentEnds : (l.duplex.writing s).closed = sentEnds
  due : (l.duplex.writing s.other).data = due
  dueEnds : (l.duplex.writing s.other).closed = dueEnds
  capacity : ∀ t, 0 < (l.duplex.writing t).capacity

variable {l : Link} {s : Side} {sent due : Bytes} {sentEnds dueEnds : Bool}

/-- The other side sees the same. -/
theorem Carries.other (h : l.Carries s sent sentEnds due dueEnds) :
    l.Carries s.other due dueEnds sent sentEnds := by
  have hother : s.other.other = s := by cases s <;> rfl
  exact ⟨h.due, h.dueEnds, by rw [hother]; exact h.sent, by rw [hother]; exact h.sentEnds, h.capacity⟩

/-- An end has not sent a byte, as far as it still counts. -/
def Silent (l : Link) (s : Side) : Prop := ∀ t, l.duplex.traffic? s = some t → t.sent = 0

/-- Receiving does not break the silence of an end. -/
theorem Silent.count {d : Duplex} {t : Side} (h : ∀ u, d.traffic? t = some u → u.sent = 0) (s : Side)
    (received sent : Nat) (hsent : s = t → sent = 0) :
    ∀ u, (d.count s received sent).traffic? t = some u → u.sent = 0 := by
  intro u hu
  rw [d.traffic?_count] at hu
  split at hu
  · rename_i hst
    obtain ⟨u', hu', rfl⟩ := Option.map_eq_some_iff.1 hu
    show u'.sent + sent = 0
    rw [h u' hu', hsent hst]
  · exact h u hu

/-- What a link carries after bytes were taken out of the direction that comes in. -/
theorem Carries.receive (h : l.Carries s sent sentEnds due dueEnds) {c : Conduit} {rest : Bytes}
    (hdata : c.data = rest) (hclosed : c.closed = dueEnds) (hcapacity : 0 < c.capacity) (n : Nat) :
    (l.after ((l.duplex.setWriting s.other c).count s n 0)).Carries s sent sentEnds rest dueEnds := by
  refine ⟨?_, ?_, ?_, ?_, ?_⟩
  · simpa [after] using h.sent
  · simpa [after] using h.sentEnds
  · simpa [after] using hdata
  · simpa [after] using hclosed
  · intro t
    rcases (by cases s <;> cases t <;> decide : t = s ∨ t = s.other) with rfl | rfl
    · simpa [after] using h.capacity t
    · simpa [after] using hcapacity

/-- What a link carries after bytes were put into the direction that goes out. -/
theorem Carries.send (h : l.Carries s sent sentEnds due dueEnds) {c : Conduit} {more : Bytes}
    (hdata : c.data = more) (hclosed : c.closed = sentEnds) (hcapacity : 0 < c.capacity) (n : Nat) :
    (l.after ((l.duplex.setWriting s c).count s 0 n)).Carries s more sentEnds due dueEnds := by
  refine ⟨?_, ?_, ?_, ?_, ?_⟩
  · simpa [after] using hdata
  · simpa [after] using hclosed
  · simpa [after] using h.due
  · simpa [after] using h.dueEnds
  · intro t
    rcases (by cases s <;> cases t <;> decide : t = s ∨ t = s.other) with rfl | rfl
    · simpa [after] using hcapacity
    · simpa [after] using h.capacity s.other

theorem channel_read {r : Poll Bytes} {n : Nat} {d : Duplex}
    (h : (Duplex.channel s).read (min n (l.most l.transfers)) l.duplex = (r, d)) :
    (channel s).read n l = (r, l.after d) := by
  simp only [channel, h]

theorem channel_write {r : Poll Nat} {bs : Bytes} {d : Duplex}
    (h : (Duplex.channel s).write (bs.take (l.most l.transfers)) l.duplex = (r, d)) :
    (channel s).write bs l = (r, l.after d) := by
  simp only [channel, h]

/-- A read of at least one byte has to wait, or finds the end, or gives some of the bytes that are
due. -/
theorem read_cases (h : l.Carries s sent sentEnds due dueEnds) {n : Nat} (hn : 0 < n) :
    (due = [] ∧ dueEnds = false ∧ ∃ l', (channel s).read n l = (.pending, l')) ∨
    ∃ piece rest l', (channel s).read n l = (.ready piece, l') ∧ piece.length ≤ n ∧ due = piece ++ rest ∧
      (piece = [] → due = [] ∧ dueEnds = true) ∧ l'.Carries s sent sentEnds rest dueEnds ∧
      ∀ t, l.Silent t → l'.Silent t := by
  have hmost := l.most_pos l.transfers
  -- the link moves at least one byte, so a read is empty only at the end
  have hm : 0 < min n (l.most l.transfers) := by omega
  have hcapacity := h.capacity s.other
  have hsilent : ∀ c k t, l.Silent t → (l.after ((l.duplex.setWriting s.other c).count s k 0)).Silent t := by
    intro c k t ht
    refine Silent.count (fun u hu => ht u ?_) s k 0 fun _ => rfl
    rwa [Duplex.traffic?_setWriting] at hu
  rcases (l.duplex.writing s.other).read_eq hm with ⟨hdata, hread⟩ | ⟨c, hread, hne, hdata, hclosed, hcap⟩
  · have hdue : due = [] := by rw [← h.due, hdata]
    rw [h.dueEnds] at hread
    cases dueEnds with
    | false =>
      exact .inl ⟨hdue, rfl, _, channel_read (Duplex.read_of_pending hread)⟩
    | true =>
      exact .inr ⟨[], due, _, channel_read (Duplex.read_of_ready hread), Nat.zero_le n, rfl,
        fun _ => ⟨hdue, rfl⟩, h.receive h.due h.dueEnds hcapacity 0, hsilent _ 0⟩
  · rw [h.due] at hread hdata
    refine .inr ⟨_, _, _, channel_read (Duplex.read_of_ready hread), ?_,
      (List.take_append_drop (min n (l.most l.transfers)) due).symm, ?_,
      h.receive hdata (by rw [hclosed, h.dueEnds]) (by rw [hcap]; exact hcapacity) _, hsilent _ _⟩
    · rw [List.length_take]
      omega
    · intro hpiece
      rcases List.take_eq_nil_iff.1 hpiece with hzero | hnil
      · omega
      · exact absurd (h.due.trans hnil) hne

/-- A write of at least one byte has to wait behind other bytes, or fails on a closed direction, or
is taken in part. -/
theorem write_cases (h : l.Carries s sent sentEnds due dueEnds) {bs : Bytes} (hbs : bs ≠ []) :
    (sentEnds = false ∧ sent ≠ [] ∧ ∃ l', (channel s).write bs l = (.pending, l')) ∨
    (sentEnds = true ∧ ∃ l', (channel s).write bs l = (.failed .brokenPipe, l') ∧
      l'.Carries s sent sentEnds due dueEnds ∧ ∀ t, l.Silent t → l'.Silent t) ∨
    (sentEnds = false ∧ ∃ piece rest l', (channel s).write bs l = (.ready piece.length, l') ∧ piece ≠ [] ∧
      bs = piece ++ rest ∧ l'.Carries s (sent ++ piece) sentEnds due dueEnds ∧
      ∀ t, t ≠ s → l.Silent t → l'.Silent t) := by
  have hmost := l.most_pos l.transfers
  have hcapacity := h.capacity s
  have htake : bs.take (l.most l.transfers) ≠ [] := by
    intro htake
    rcases List.take_eq_nil_iff.1 htake with hzero | hnil
    · omega
    · exact hbs hnil
  rcases (l.duplex.writing s).write_eq htake hcapacity with
    ⟨hclosed, hwrite⟩ | ⟨hclosed, hdata, hwrite⟩ |
      ⟨hclosed, piece, rest, c, hwrite, hpiece, hsplit, hdata, hc, hcap⟩
  · refine .inr (.inl ⟨by rw [← h.sentEnds, hclosed], _,
      channel_write (Duplex.write_of_failed hwrite), ?_, ?_⟩)
    · rw [Duplex.setWriting_writing]
      exact ⟨h.sent, h.sentEnds, h.due, h.dueEnds, h.capacity⟩
    · intro t ht
      rw [Duplex.setWriting_writing]
      exact ht
  · exact .inl ⟨by rw [← h.sentEnds, hclosed], by rw [← h.sent]; exact hdata, _,
      channel_write (Duplex.write_of_pending hwrite)⟩
  · refine .inr (.inr ⟨by rw [← h.sentEnds, hclosed], piece, rest ++ bs.drop (l.most l.transfers), _,
      channel_write (Duplex.write_of_ready hwrite), hpiece, ?_,
      h.send (by rw [hdata, h.sent]) (by rw [hc, ← h.sentEnds, hclosed])
        (by rw [hcap]; exact hcapacity) _, ?_⟩)
    · rw [← List.append_assoc, ← hsplit, List.take_append_drop]
    · intro t hts ht
      refine Silent.count (fun u hu => ht u ?_) s 0 _ fun hst => absurd hst.symm hts
      rwa [Duplex.traffic?_setWriting] at hu

/-- Shutting down closes the direction that goes out. -/
theorem shutdown_eq (h : l.Carries s sent sentEnds due dueEnds) :
    ∃ l', (channel s).shutdown l = (.ready (), l') ∧ l'.Carries s sent true due dueEnds := by
  refine ⟨_, rfl, ?_, ?_, ?_, ?_, ?_⟩
  · simpa [Duplex.shutdown, Conduit.close, Conduit.data] using h.sent
  · simp [Duplex.shutdown, Conduit.close]
  · simpa [Duplex.shutdown] using h.due
  · simpa [Duplex.shutdown] using h.dueEnds
  · intro t
    have hcapacity := h.capacity t
    cases s <;> cases t <;> exact hcapacity

/-- Giving an end up closes both directions. -/
theorem release_carries (h : l.Carries s sent sentEnds due dueEnds) :
    ((channel s).release l).Carries s sent true due true := by
  obtain ⟨hsent, -, hdue, -, hcapacity⟩ := h
  refine ⟨?_, ?_, ?_, ?_, ?_⟩
  · cases s <;> exact hsent
  · cases s <;> rfl
  · cases s <;> exact hdue
  · cases s <;> rfl
  · intro t
    have hcap := hcapacity t
    cases s <;> cases t <;> exact hcap

theorem release_silent (s : Side) {t : Side} (h : l.Silent t) : ((channel s).release l).Silent t := by
  intro u hu
  cases s <;> cases t
  · cases hu
  · exact h u hu
  · exact h u hu
  · cases hu

end Link

end RemoteCall
