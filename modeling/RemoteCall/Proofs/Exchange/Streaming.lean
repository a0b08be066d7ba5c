import RemoteCall.Proofs.Exchange.Copying
import RemoteCall.Proofs.Exchange.Dialogue
import RemoteCall.Proofs.Exchange.Receiving
/-!
# Streams

A stream takes bytes at its end and delivers them at its front, in pieces of any size. What an exchange sends
comes behind what the stream holds (`Sends.streamed`), and what it receives is taken off the front
(`Receives.delivered`), so that what `Sends` and `Receives` say of byte strings holds of every stream.
`chunkedQueue` is one that moves its bytes as a chunking tells.
-/

namespace RemoteCall

variable {ω σ α : Type}

/-- A stream takes what is written behind the bytes that it holds, in pieces of any size, and delivers it in
order. -/
structure Channel.Streams (c : Channel ω) (holds : ω → Bytes → Prop) : Prop extends c.Delivers holds where
  write : ∀ {w bs out}, holds w bs → out ≠ [] → ∃ piece rest w', c.write out w = (.ready piece.length, w') ∧
    piece ≠ [] ∧ out = piece ++ rest ∧ holds w' (bs ++ piece)
  flush : ∀ {w bs}, holds w bs → ∃ w', c.flush w = (.ready (), w') ∧ holds w' bs

/-- A queue whose operations move as many bytes as a chunking tells; its state counts them. -/
def chunkedQueue (chunking : Chunking) : Channel (Bytes × Nat) where
  read n q :=
    let count := chunking.count q.2 n
    (.ready (q.1.take count), q.1.drop count, q.2 + 1)
  write bs q :=
    let piece := chunking.piece q.2 bs
    (.ready piece.length, q.1 ++ piece, q.2 + 1)
  flush q := (.ready (), q)
  shutdown q := (.ready (), q)
  release q := q

/-- Whatever the sizes of its pieces, a queue is a stream if none of them is empty. -/
theorem chunkedQueue_streams {chunking : Chunking} (h : ∀ k, chunking k ≠ some 0) :
    (chunkedQueue chunking).Streams fun q bs => q.1 = bs where
  read := by
    rintro n ⟨bs, k⟩ _ rfl hbs hn
    have hpos := Chunking.count_pos (h k) hn
    have hpiece : bs.take (chunking.count k n) ≠ [] := by
      intro hnil
      rcases List.take_eq_nil_iff.1 hnil with hzero | hempty
      · exact Nat.ne_of_gt hpos hzero
      · exact hbs hempty
    refine ⟨_, bs.drop (chunking.count k n), _, rfl, hpiece, ?_, (List.take_append_drop _ bs).symm, rfl⟩
    exact Nat.le_trans (List.length_take_le _ bs) (chunking.count_le k n)
  bounded := by
    rintro n ⟨q, k⟩ bs q' hread
    cases hread
    exact Nat.le_trans (List.length_take_le _ q) (chunking.count_le k n)
  write := by
    rintro ⟨bs, k⟩ _ out rfl hout
    obtain ⟨n, hpiece, hpos⟩ := chunking.piece_eq k out
    have htaken : out.take n ≠ [] := by
      intro hnil
      rcases List.take_eq_nil_iff.1 hnil with hzero | hempty
      · exact Nat.ne_of_gt ((hpos (h k)).resolve_right hout) hzero
      · exact hout hempty
    refine ⟨out.take n, out.drop n, (bs ++ out.take n, k + 1), ?_, htaken, (List.take_append_drop n out).symm, rfl⟩
    simp only [chunkedQueue, hpiece]
  flush := by
    rintro q _ rfl
    exact ⟨q, rfl, rfl⟩

namespace Exchange

variable {c : Channel ω} {holds : ω → Bytes → Prop}

/-- What is left of a write comes behind what the stream holds. -/
theorem streamed_send (hc : c.Streams holds) (next : Except Fault Unit → Exchange σ α) {w : ω} {bs : Bytes}
    (host : σ) (hw : holds w bs) (out : Bytes) :
    ∃ w', holds w' (bs ++ out) ∧ Leads c (.send out next) w host (next (.ok ())) w' host := by
  -- the stream chooses the pieces, so the induction is on the bytes that are left
  induction hn : out.length using Nat.strongRecOn generalizing w bs out with
  | ind n ih =>
    cases out with
    | nil =>
      rw [List.append_nil]
      exact ⟨w, hw, .cons rfl (.refl _ _ _ _)⟩
    | cons b out =>
      obtain ⟨piece, rest, w₁, hwrite, hpiece, hsplit, hw₁⟩ := hc.write hw (List.cons_ne_nil b out)
      have hpos : 0 < piece.length := List.length_pos_iff.2 hpiece
      have hless : rest.length < n := by
        rw [← hn, hsplit, List.length_append]
        omega
      have hstep : step c (.send (b :: out) next) w host = some (.send rest next, w₁, host) := by
        obtain ⟨k, hk⟩ := Nat.exists_eq_succ_of_ne_zero (Nat.ne_of_gt hpos)
        have hrest : (b :: out).drop piece.length = rest := by rw [hsplit, List.drop_left]
        rw [hk] at hwrite hrest
        simp only [step, hwrite, hrest]
      obtain ⟨w', hw', hleads⟩ := ih _ hless hw₁ rest rfl
      rw [List.append_assoc, ← hsplit] at hw'
      exact ⟨w', hw', .cons hstep hleads⟩

/-- What an exchange sends comes behind what the stream holds. -/
theorem Sends.streamed (hc : c.Streams holds) {fail : Fault → Exchange σ α} {n : Nat} {e e' : Exchange σ α}
    {out : Bytes} (h : Sends fail n e out e') {w : ω} {bs : Bytes} (host : σ) (hw : holds w bs) :
    ∃ w', holds w' (bs ++ out) ∧ Leads c e w host e' w' host := by
  induction h generalizing w bs with
  | refl =>
    rw [List.append_nil]
    exact ⟨w, hw, .refl _ _ _ _⟩
  | send next _ _ ih =>
    obtain ⟨w₁, hw₁, hleads⟩ := streamed_send hc next host hw _
    obtain ⟨w', hw', hleads'⟩ := ih hw₁
    rw [List.append_assoc] at hw'
    exact ⟨w', hw', hleads.trans hleads'⟩
  | flush next _ _ ih =>
    obtain ⟨w₁, hflush, hw₁⟩ := hc.flush hw
    have hstep : step c (.flush next) w host = some (next (.ok ()), w₁, host) := by
      simp only [step, hflush, settle]
    obtain ⟨w', hw', hleads⟩ := ih hw₁
    exact ⟨w', hw', .cons hstep hleads⟩

/-- What an exchange receives off the front of a byte string, it receives from a channel that delivers the
string; the rest is left there. -/
theorem Receives.delivered (hc : c.Delivers holds) {n : Nat} {e e' : Exchange σ α} {inp rest : Bytes}
    (h : Receives n e inp e' rest) {w : ω} (host : σ) (hw : holds w inp) :
    ∃ w', holds w' rest ∧ Leads c e w host e' w' host := by
  induction h generalizing w with
  | refl => exact ⟨w, hw, .refl _ _ _ _⟩
  | @byte n next b inp _ _ _ ih =>
    obtain ⟨piece, left, w₁, hread, hpiece, hlength, hsplit, hw₁⟩ :=
      hc.read hw (List.cons_ne_nil b inp) Nat.one_pos
    obtain ⟨b', bs, rfl⟩ := List.exists_cons_of_ne_nil hpiece
    obtain rfl : bs = [] := List.eq_nil_of_length_eq_zero (by simpa using hlength)
    obtain ⟨rfl, rfl⟩ : b = b' ∧ inp = left := by simpa using hsplit
    have hstep : step c (.receiveByte next) w host = some (next (.ok b), w₁, host) := by
      simp only [step, hread]
    obtain ⟨w', hw', hleads⟩ := ih hw₁
    exact ⟨w', hw', .cons hstep hleads⟩
  | record hneed hg _ ih =>
    obtain ⟨w₁, hw₁, hleads⟩ := leads_receiveRecord hc _ _ host hneed hw
    rw [hg] at hw₁ hleads
    obtain ⟨w', hw', hleads'⟩ := ih hw₁
    exact ⟨w', hw', hleads.trans hleads'⟩
  | tooLong hneed hg _ ih =>
    obtain ⟨w₁, hw₁, hleads⟩ := leads_receiveRecord hc _ _ host hneed hw
    rw [hg] at hw₁ hleads
    obtain ⟨w', hw', hleads'⟩ := ih hw₁
    exact ⟨w', hw', hleads.trans hleads'⟩

end Exchange

end RemoteCall
