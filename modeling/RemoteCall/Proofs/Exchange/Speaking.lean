import RemoteCall.Proofs.Exchange.Dialogue
import RemoteCall.Proofs.Exchange.Hearing
/-!
# Exchanges that send to a scripted stream

What an exchange sends arrives in order: at any time a scripted stream has taken a prefix of it, and all of
it in the end, unless the stream is made to fail. Nothing is read meanwhile.
-/

namespace RemoteCall

variable {σ α : Type}

namespace Intake

/-- Nothing keeps a stream from taking all that is written. -/
structure Unobstructed (t : Intake) : Prop where
  chunking : ∀ k, t.chunking k ≠ some 0
  room : t.room = none
  shutdown : t.shutdownFault? = none

theorem taken_take (t : Intake) (piece : Bytes) : (t.take piece).taken = t.taken ++ piece := by
  unfold taken take
  rw [List.reverse_append, List.reverse_reverse]

end Intake

/-- One operation moves the first bytes, and none only if it may move none. -/
theorem Chunking.piece_eq (c : Chunking) (k : Nat) (bs : Bytes) :
    ∃ n, c.piece k bs = bs.take n ∧ (c k ≠ some 0 → 0 < n ∨ bs = []) := by
  unfold piece
  cases hk : c k with
  | none =>
    refine ⟨bs.length, by rw [List.take_length], ?_⟩
    intro _
    rcases List.eq_nil_or_concat bs with h | ⟨_, _, h⟩
    · exact .inr h
    · rw [h]
      simp
  | some most =>
    refine ⟨most, rfl, ?_⟩
    intro hmost
    exact .inl (Nat.pos_of_ne_zero fun hzero => hmost (by rw [hzero]))

namespace Intake

/-- A write takes the first bytes, or fails. -/
theorem write_cases (t : Intake) {bs : Bytes} (hbs : bs ≠ []) :
    (∃ n t', t.write bs = (.ready (bs.take n).length, t') ∧ t'.taken = t.taken ++ bs.take n ∧
      (t.Unobstructed → t'.Unobstructed ∧ 0 < n)) ∨
    ¬ t.Unobstructed ∧ ∃ f, t.write bs = (.failed f, t) := by
  obtain ⟨n, hpiece, hpos⟩ := t.chunking.piece_eq t.writes bs
  unfold write
  rw [hpiece]
  cases hroom : t.room with
  | none =>
    refine .inl ⟨n, _, rfl, t.taken_take _, ?_⟩
    intro ht
    exact ⟨⟨ht.chunking, ht.room, ht.shutdown⟩, (hpos (ht.chunking _)).resolve_right hbs⟩
  | some room =>
    have hobstructed : ¬ t.Unobstructed := by
      intro ht
      rw [ht.room] at hroom
      cases hroom
    obtain ⟨left, f⟩ := room
    cases left with
    | zero => exact .inr ⟨hobstructed, f, rfl⟩
    | succ left =>
      -- the room cuts off what the chunk has left
      have hboth : (bs.take n).take (left + 1) = bs.take (min (left + 1) n) := List.take_take
      refine .inl ⟨min (left + 1) n,
        { t.take ((bs.take n).take (left + 1)) with
          room := some (left + 1 - ((bs.take n).take (left + 1)).length, f) }, ?_, ?_,
        fun ht => absurd ht hobstructed⟩
      · rw [← hboth]
      · rw [← hboth]
        exact t.taken_take _

end Intake

namespace Exchange

variable {fail : Fault → Exchange σ α} {n : Nat} {e e' : Exchange σ α} {owed : Bytes}

/-- One step of sending bytes: the stream takes the first of them, or makes the exchange fail. -/
theorem step_send_scripted {bs : Bytes} (hbs : bs ≠ []) (next : Except Fault Unit → Exchange σ α)
    (w : Scripted) (host : σ) :
    (∃ k t, (send bs next).step Scripted.channel w host =
          some (send (bs.drop k) next, { w with outgoing := t }, host) ∧
        t.taken = w.sent ++ bs.take k ∧ (bs.drop k).length < bs.length ∧
        (w.outgoing.Unobstructed → t.Unobstructed)) ∨
      ¬ w.outgoing.Unobstructed ∧
        ∃ f t, (send bs next).step Scripted.channel w host =
            some (next (.error f), { w with outgoing := t }, host) ∧ t.taken = w.sent := by
  obtain ⟨b, rest, hcons⟩ := List.exists_cons_of_ne_nil hbs
  rcases w.outgoing.write_cases hbs with ⟨k, t, hwrite, htaken, hfree⟩ | ⟨hobstructed, f, hwrite⟩
  · have hchannel : Scripted.channel.write bs w = (.ready (bs.take k).length, { w with outgoing := t }) := by
      simp only [Scripted.channel, hwrite]
    cases hcount : (bs.take k).length with
    | zero =>
      -- nothing was taken, which the sender takes for a failure
      refine .inr ⟨?_, .writeZero, t, ?_, ?_⟩
      · intro ht
        have hk := (hfree ht).2
        rw [hcons, List.length_take, List.length_cons] at hcount
        omega
      · rw [hcount, hcons] at hchannel
        rw [hcons]
        simp only [Exchange.step, hchannel]
      · rw [htaken, List.eq_nil_of_length_eq_zero hcount, List.append_nil]
        rfl
    | succ j =>
      have hlength : (bs.take k).length + (bs.drop k).length = bs.length := by
        rw [← List.length_append, List.take_append_drop]
      have hdrop : bs.drop (j + 1) = bs.drop k := by
        rw [← hcount, List.length_take]
        by_cases hk : k ≤ bs.length
        · rw [Nat.min_eq_left hk]
        · rw [Nat.min_eq_right (by omega), List.drop_length, List.drop_eq_nil_of_le (by omega)]
      refine .inl ⟨k, t, ?_, htaken, by omega, fun ht => (hfree ht).1⟩
      rw [hcount, hcons] at hchannel
      rw [← hdrop, hcons]
      simp only [Exchange.step, hchannel]
  · have hchannel : Scripted.channel.write bs w = (.failed f, w) := by
      simp only [Scripted.channel, hwrite]
    refine .inr ⟨hobstructed, f, w.outgoing, ?_, rfl⟩
    rw [hcons] at hchannel ⊢
    simp only [Exchange.step, hchannel]

/-- One step of an exchange that sends: some of what is owed is taken, or the stream makes it fail. -/
theorem Sends.step_scripted (h : Sends fail n e owed e') (hn : 0 < n) (w : Scripted) (host : σ) :
    ∃ e₁ t, e.step Scripted.channel w host = some (e₁, { w with outgoing := t }, host) ∧
      ((∃ n' owed', Sends fail n' e₁ owed' e' ∧ t.taken ++ owed' = w.sent ++ owed ∧
          n' + owed'.length < n + owed.length ∧ (w.outgoing.Unobstructed → t.Unobstructed)) ∨
        ¬ w.outgoing.Unobstructed ∧ t.taken = w.sent ∧ ∃ f, e₁ = fail f) := by
  cases h with
  | refl => exact absurd hn (Nat.lt_irrefl 0)
  | @flush n _ _ next hfail hnext =>
    refine ⟨_, _, rfl, .inl ⟨n, owed, hnext, rfl, by omega, ?_⟩⟩
    exact fun ht => ⟨ht.chunking, ht.room, ht.shutdown⟩
  | @send n bs out _ next hfail hnext =>
    by_cases hbs : bs = []
    · subst hbs
      exact ⟨_, w.outgoing, rfl, .inl ⟨n, out, hnext, rfl, by simp, id⟩⟩
    · rcases step_send_scripted hbs next w host with
        ⟨k, t, hs, htaken, hless, hfree⟩ | ⟨hobstructed, f, t, hs, htaken⟩
      · refine ⟨_, t, hs, .inl ⟨n + 1, bs.drop k ++ out, .send next hfail hnext, ?_, ?_, hfree⟩⟩
        · rw [htaken, List.append_assoc, ← List.append_assoc (bs.take k), List.take_append_drop]
        · rw [List.length_append, List.length_append]
          omega
      · exact ⟨_, t, hs, .inr ⟨hobstructed, htaken, f, hfail f⟩⟩

/-- Shutting a stream down comes to an end at once. -/
theorem step_shutdown_scripted (next : Except Fault Unit → Exchange σ α) (w : Scripted) (host : σ) :
    ∃ r t, (shutdown next).step Scripted.channel w host = some (next r, { w with outgoing := t }, host) ∧
      t.taken = w.sent ∧ (w.outgoing.Unobstructed → r = .ok ()) := by
  let t : Intake := { w.outgoing with shutdowns := w.outgoing.shutdowns + 1, unflushed := 0 }
  cases hfault : w.outgoing.shutdownFault? with
  | none =>
    refine ⟨.ok (), t, ?_, rfl, fun _ => rfl⟩
    simp only [step, settle, Scripted.channel, Intake.shutdown, hfault, t]
  | some f =>
    refine ⟨.error f, t, ?_, rfl, ?_⟩
    · simp only [step, settle, Scripted.channel, Intake.shutdown, hfault, t]
    · intro hw
      rw [hw.shutdown] at hfault
      cases hfault

/-- Whatever the stream does, it takes a prefix of what is sent, and nothing is read. -/
theorem Sends.run_prefix {tail : Except Fault Unit → Exchange σ α} (h : Sends fail n e owed (.shutdown tail))
    (hfail : ∀ f, ∃ a, fail f = .done a) (htail : ∀ r, ∃ a, tail r = .done a) (fuel : Nat) (w : Scripted)
    (host : σ) :
    ∃ e₁ t, e.run Scripted.channel fuel w host = (e₁, { w with outgoing := t }, host) ∧
      t.taken <+: w.sent ++ owed := by
  induction fuel generalizing n e owed w with
  | zero => exact ⟨e, w.outgoing, rfl, List.prefix_append _ _⟩
  | succ fuel ih =>
    rcases Nat.eq_zero_or_pos n with rfl | hn
    · cases h
      -- all was sent, and what follows is done whether shutting down fails or not
      obtain ⟨r, t, hs, ht, -⟩ := step_shutdown_scripted tail w host
      obtain ⟨a, ha⟩ := htail r
      refine ⟨.done a, t, ?_, ?_⟩
      · rw [run, hs, ha]
        exact run_done _ fuel a _ host
      · rw [ht]
        exact List.prefix_append _ _
    · obtain ⟨e₁, t, hs, hgoes⟩ := h.step_scripted hn w host
      rw [run, hs]
      rcases hgoes with ⟨n', owed', h', hsame, -, -⟩ | ⟨-, ht, f, rfl⟩
      · obtain ⟨e₂, t', hrun, hsent⟩ := ih h' { w with outgoing := t }
        refine ⟨e₂, t', hrun, ?_⟩
        rw [← hsame]
        exact hsent
      · obtain ⟨a, ha⟩ := hfail f
        refine ⟨.done a, t, ?_, ?_⟩
        · rw [ha]
          exact run_done _ fuel a _ host
        · rw [ht]
          exact List.prefix_append _ _

/-- A stream that takes all takes all that is sent. -/
theorem Sends.run_unobstructed {tail : Except Fault Unit → Exchange σ α} {a : α}
    (h : Sends fail n e owed (.shutdown tail)) (htail : tail (.ok ()) = .done a) (w : Scripted)
    (hw : w.outgoing.Unobstructed) (host : σ) :
    ∃ fuel t, e.run Scripted.channel fuel w host = (.done a, { w with outgoing := t }, host) ∧
      t.taken = w.sent ++ owed := by
  induction hm : n + owed.length using Nat.strongRecOn generalizing n e owed w with
  | ind m ih =>
    rcases Nat.eq_zero_or_pos n with rfl | hn
    · cases h
      obtain ⟨r, t, hs, ht, hr⟩ := step_shutdown_scripted tail w host
      rw [hr hw, htail] at hs
      refine ⟨1, t, ?_, ?_⟩
      · rw [run, hs]
        rfl
      · rw [ht, List.append_nil]
    · obtain ⟨e₁, t, hs, ⟨n', owed', h', hsame, hless, hfree⟩ | ⟨hobstructed, -⟩⟩ := h.step_scripted hn w host
      · obtain ⟨fuel, t', hrun, ht'⟩ := ih _ (hm ▸ hless) h' { w with outgoing := t } (hfree hw) rfl
        refine ⟨fuel + 1, t', ?_, ?_⟩
        · rw [run, hs]
          exact hrun
        · rw [ht', ← hsame]
          rfl
      · exact absurd hw hobstructed

end Exchange

end RemoteCall
