import RemoteCall.Proofs.Record.Gathering
import RemoteCall.Message
/-!
# Records received from a channel

`Exchange.Leads` says where the steps of an exchange lead on a channel. A channel that delivers a
byte string, in whatever pieces it chooses, leads a record to what `Gathering.absorb` makes of the
byte string: `leads_receiveRecord`. Queues and scripted streams deliver.
-/

namespace RemoteCall

variable {ω σ α : Type}

/-! ## Runs -/

namespace Exchange

/-- An exchange comes to another state in some number of steps. -/
def Leads (c : Channel ω) (e : Exchange σ α) (w : ω) (host : σ) (e' : Exchange σ α) (w' : ω) (host' : σ) :
    Prop := ∃ fuel, e.run c fuel w host = (e', w', host')

theorem Leads.refl (c : Channel ω) (e : Exchange σ α) (w : ω) (host : σ) : Leads c e w host e w host :=
  ⟨0, rfl⟩

/-- A step before the others. -/
theorem Leads.cons {c : Channel ω} {e e₁ e' : Exchange σ α} {w w₁ w' : ω} {host h₁ host' : σ}
    (hs : e.step c w host = some (e₁, w₁, h₁)) (h : Leads c e₁ w₁ h₁ e' w' host') :
    Leads c e w host e' w' host' := by
  obtain ⟨fuel, hfuel⟩ := h
  refine ⟨fuel + 1, ?_⟩
  rw [run, hs]
  exact hfuel

/-- What is done stays as it is. -/
theorem run_done (c : Channel ω) (fuel : Nat) (a : α) (w : ω) (host : σ) :
    run c fuel (.done a) w host = (.done a, w, host) := by
  cases fuel <;> rfl

/-- What is done has no more steps, so a run that comes to an answer comes to no other. -/
theorem Leads.unique {c : Channel ω} {e : Exchange σ α} {w w₁ w₂ : ω} {host h₁ h₂ : σ} {a₁ a₂ : α}
    (h : Leads c e w host (.done a₁) w₁ h₁) (h' : Leads c e w host (.done a₂) w₂ h₂) :
    a₁ = a₂ ∧ w₁ = w₂ ∧ h₁ = h₂ := by
  -- more fuel changes nothing, so both runs can be given the same fuel
  have hmore : ∀ {fuel} {e : Exchange σ α} {w host a w' host'},
      e.run c fuel w host = (.done a, w', host') → e.run c (fuel + 1) w host = (.done a, w', host') := by
    intro fuel
    induction fuel with
    | zero =>
      intro e w host a w' host' hrun
      cases hrun
      rfl
    | succ fuel ih =>
      intro e w host a w' host' hrun
      rw [run] at hrun ⊢
      split
      · rename_i hs
        simpa only [hs] using hrun
      · rename_i hs
        simp only [hs] at hrun
        exact ih hrun
  have hat : ∀ {m n} {e : Exchange σ α} {w host a w' host'},
      e.run c n w host = (.done a, w', host') → e.run c (n + m) w host = (.done a, w', host') := by
    intro m
    induction m with
    | zero => exact id
    | succ m ih => exact fun hrun => hmore (ih hrun)
  obtain ⟨m, hm⟩ := h
  obtain ⟨n, hn⟩ := h'
  have h₁ := hat (m := n) hm
  have h₂ := hat (m := m) hn
  rw [Nat.add_comm n m, h₁] at h₂
  simpa using h₂

end Exchange

/-! ## Channels that deliver -/

/-- A channel that, from a state of which `holds` tells the bytes to come, delivers them in order in
pieces of any size, and never more at a time than asked for. -/
structure Channel.Delivers (c : Channel ω) (holds : ω → Bytes → Prop) : Prop where
  read : ∀ {n w bs}, holds w bs → bs ≠ [] → 0 < n → ∃ piece rest w', c.read n w = (.ready piece, w') ∧
    piece ≠ [] ∧ piece.length ≤ n ∧ bs = piece ++ rest ∧ holds w' rest
  bounded : ∀ {n w bs w'}, c.read n w = (.ready bs, w') → bs.length ≤ n

namespace Exchange

open Record (Gathering)

/-- What a record that is under way goes on as, when a stream has come to an end of it or to its own
end. -/
def afterAbsorb (limit : Nat) (next : Except Fault Bytes → Exchange σ α) : Record.Gathered → Exchange σ α
  | .more g => .receiveRecord limit g next
  | .complete whole => next (.ok whole)
  | .tooLong length => next (.error (.recordTooLong length limit))

/-- One read of a record under way. -/
theorem step_receiveRecord {c : Channel ω} (limit : Nat) {g : Gathering}
    (next : Except Fault Bytes → Exchange σ α) {w w' : ω} (host : σ) {piece : Bytes}
    (hr : c.read g.need w = (.ready piece, w')) (hpiece : piece ≠ []) :
    (receiveRecord limit g next).step c w host =
      some (afterAbsorb limit next (g.feed limit piece), w', host) := by
  obtain ⟨b, bs, rfl⟩ := List.exists_cons_of_ne_nil hpiece
  simp only [step, hr]
  cases g.feed limit (b :: bs) <;> rfl

/-- A record is gathered from a delivering channel as from the byte string that it delivers. -/
theorem leads_receiveRecord {c : Channel ω} {holds : ω → Bytes → Prop} (hc : c.Delivers holds) (limit : Nat)
    {g : Gathering} (next : Except Fault Bytes → Exchange σ α) {w : ω} {inp : Bytes} (host : σ)
    (hneed : 0 < g.need) (hw : holds w inp) :
    ∃ w', holds w' (g.absorb limit inp).2 ∧
      Leads c (.receiveRecord limit g next) w host
        (afterAbsorb limit next (g.absorb limit inp).1) w' host := by
  -- the channel chooses the pieces, so the induction is on the bytes to come, of which each takes some
  induction hn : inp.length using Nat.strongRecOn generalizing g w inp with
  | ind n ih =>
    by_cases hinp : inp = []
    · rw [hinp] at hw ⊢
      exact ⟨w, hw, .refl _ _ _ _⟩
    · obtain ⟨piece, rest, w', hread, hpiece, hlen, rfl, hw'⟩ := hc.read hw hinp hneed
      have hstep := step_receiveRecord limit next host hread hpiece
      rw [Gathering.absorb_append limit g piece rest hpiece hlen]
      cases hfeed : g.feed limit piece with
      | complete whole =>
        rw [hfeed] at hstep
        exact ⟨w', hw', .cons hstep (.refl _ _ _ _)⟩
      | tooLong length =>
        rw [hfeed] at hstep
        exact ⟨w', hw', .cons hstep (.refl _ _ _ _)⟩
      | more g' =>
        rw [hfeed] at hstep
        have hpos : 0 < piece.length := List.length_pos_iff.2 hpiece
        have hless : rest.length < n := by
          rw [← hn, List.length_append]
          omega
        obtain ⟨w₂, hw₂, hleads⟩ := ih _ hless (Gathering.need_pos_of_feed hfeed) hw' rfl
        exact ⟨w₂, hw₂, .cons hstep hleads⟩

end Exchange

/-! ## Instances -/

/-- A queue delivers what it holds. -/
theorem queueChannel_delivers : queueChannel.Delivers (fun q bs => q = bs) where
  read := by
    rintro n q _ rfl hq hn
    refine ⟨q.take n, q.drop n, q.drop n, rfl, ?_, List.length_take_le n q,
      (List.take_append_drop n q).symm, rfl⟩
    cases q with
    | nil => exact absurd rfl hq
    | cons b bs =>
      obtain ⟨n, rfl⟩ := Nat.exists_eq_succ_of_ne_zero (Nat.ne_of_gt hn)
      simp
  bounded := by
    intro n q bs q' h
    cases h
    exact List.length_take_le n q

theorem Chunking.count_le (chunking : Chunking) (k n : Nat) : chunking.count k n ≤ n := by
  unfold count
  split
  · exact Nat.le_refl n
  · exact Nat.min_le_left n _

theorem Chunking.count_pos {chunking : Chunking} {k n : Nat} (hk : chunking k ≠ some 0) (hn : 0 < n) :
    0 < chunking.count k n := by
  unfold count
  split
  · exact hn
  · rename_i most hmost
    have hpos : most ≠ 0 := fun h => hk (by rw [hmost, h])
    omega

/-- A supply that holds bytes gives some of them, if its pieces are not empty. -/
theorem Supply.read_eq {s : Supply} {n : Nat} (hchunk : s.chunking s.reads ≠ some 0) (hdata : s.data ≠ [])
    (hn : 0 < n) :
    ∃ piece, s.read n = (.ready piece, { s with data := s.data.drop piece.length, reads := s.reads + 1 }) ∧
      piece ≠ [] ∧ piece.length ≤ n ∧ s.data = piece ++ s.data.drop piece.length := by
  have hcount := Chunking.count_pos hchunk hn
  have hle := s.chunking.count_le s.reads n
  generalize hm : s.chunking.count s.reads n = m at hcount hle
  have htake : s.data.take m ≠ [] := by
    intro h
    rcases List.take_eq_nil_iff.1 h with h | h
    · omega
    · exact hdata h
  refine ⟨s.data.take m, ?_, htake, ?_, ?_⟩
  · obtain ⟨b, bs, hpiece⟩ := List.exists_cons_of_ne_nil htake
    simp only [read, hm, hpiece]
  · rw [List.length_take]
    omega
  · conv => lhs; rw [← List.take_append_drop m s.data]
    congr 1
    rw [List.length_take]
    by_cases h : m ≤ s.data.length
    · rw [Nat.min_eq_left h]
    · rw [Nat.min_eq_right (by omega), List.drop_length, List.drop_eq_nil_of_le (by omega)]

/-- Behind the last byte there is the end, or a fault, or nothing ever. -/
theorem Supply.read_end {s : Supply} (hdata : s.data = []) (n : Nat) :
    s.read n =
      (match s.ending with
        | .eof => .ready []
        | .silence => .pending
        | .fault f => .failed f, s) := by
  have htake : s.data.take (s.chunking.count s.reads n) = [] := by rw [hdata, List.take_nil]
  simp only [read, htake]
  cases s.ending <;> rfl

theorem Supply.length_read {s s' : Supply} {n : Nat} {bs : Bytes} (h : s.read n = (.ready bs, s')) :
    bs.length ≤ n := by
  have hle := s.chunking.count_le s.reads n
  unfold read at h
  split at h
  · split at h <;> cases h
    exact Nat.zero_le n
  · cases h
    rw [List.length_take]
    omega

/-- A scripted stream delivers its data, whatever the sizes of its pieces, if none of them is empty. -/
theorem Scripted.channel_delivers :
    Scripted.channel.Delivers (fun s bs => s.incoming.data = bs ∧ ∀ k, s.incoming.chunking k ≠ some 0) where
  read := by
    rintro n s _ ⟨rfl, hchunk⟩ hdata hn
    obtain ⟨piece, hread, hpiece, hlen, hsplit⟩ := Supply.read_eq (hchunk _) hdata hn
    refine ⟨piece, _, { s with
      incoming := { s.incoming with
        data := s.incoming.data.drop piece.length
        reads := s.incoming.reads + 1 }
      consumed := s.consumed + piece.length }, ?_, hpiece, hlen, hsplit, rfl, hchunk⟩
    simp only [channel, Scripted.read, hread]
  bounded := by
    intro n s bs s' h
    simp only [channel, Scripted.read] at h
    rcases hread : s.incoming.read n with ⟨_ | _ | _, left⟩ <;> rw [hread] at h <;> cases h
    exact Supply.length_read hread

end RemoteCall
