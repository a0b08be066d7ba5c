import RemoteCall.Proofs.Exchange.Speaking
/-!
# Writing and copying into an intake

An intake takes what is written into it until its room is used up, in pieces of any size. `Intake.accepts` says
what it takes of a byte string, and `Intake.verdict` how writing the string ends. `Writer` and `Copier` say in
one place what the loops have in common that write what they hold and that copy a supply through a buffer; they do
not care where the intake is, at the other end of the connection or in the host.
-/

namespace RemoteCall

variable {ω σ κ α : Type}

/-! ## What an intake takes -/

namespace Intake

variable {t t' t'' : Intake} {bs bs' rest : Bytes}

/-- What is taken of a byte string: as much as there is room for. -/
def accepts (t : Intake) (bs : Bytes) : Bytes :=
  match t.room with
  | none => bs
  | some (k, _) => bs.take k

/-- How writing a byte string ends. -/
def verdict (t : Intake) (bs : Bytes) : Except Fault Unit :=
  match t.room with
  | none => .ok ()
  | some (k, f) => if bs.length ≤ k then .ok () else .error f

/-- The whole of a byte string is taken just if writing it does not fail. -/
theorem verdict_eq_ok : t.verdict bs = .ok () ↔ t.accepts bs = bs := by
  unfold verdict accepts
  cases t.room with
  | none => exact iff_of_true rfl rfl
  | some room =>
    obtain ⟨k, f⟩ := room
    dsimp only
    split
    · rename_i hfits
      exact iff_of_true rfl (List.take_of_length_le hfits)
    · rename_i hlong
      refine iff_of_false nofun fun hfits => hlong ?_
      rw [← hfits]
      exact List.length_take_le k bs

theorem accepts_nil (t : Intake) : t.accepts [] = [] := by
  unfold accepts
  split
  · rfl
  · exact List.take_nil

theorem verdict_nil (t : Intake) : t.verdict [] = .ok () := verdict_eq_ok.2 t.accepts_nil

/-- The pieces of an intake are never empty. -/
def Moves (t : Intake) : Prop := ∀ k, t.chunking k ≠ some 0

/-- An intake has taken some more bytes, for which there was room, and was not shut down meanwhile. -/
structure Took (t t' : Intake) (bs : Bytes) : Prop where
  taken : t'.taken = t.taken ++ bs
  chunking : t'.chunking = t.chunking
  room : t'.room = t.room.map fun (k, f) => (k - bs.length, f)
  fits : t.accepts bs = bs
  shutdownFault? : t'.shutdownFault? = t.shutdownFault?
  shutdowns : t'.shutdowns = t.shutdowns
  released : t'.released = t.released

namespace Took

theorem refl (t : Intake) : t.Took t [] := by
  refine ⟨(List.append_nil _).symm, rfl, ?_, t.accepts_nil, rfl, rfl, rfl⟩
  cases t.room <;> rfl

theorem flush (t : Intake) : t.Took t.flush.2 [] := by
  have h := refl t
  exact ⟨h.taken, h.chunking, h.room, h.fits, h.shutdownFault?, h.shutdowns, h.released⟩

theorem moves (h : t.Took t' bs) (ht : t.Moves) : t'.Moves := by
  intro k
  rw [h.chunking]
  exact ht k

/-- What is taken of a longer string is what was taken and what is taken of the rest. -/
theorem accepts_append (h : t.Took t' bs) (rest : Bytes) : t.accepts (bs ++ rest) = bs ++ t'.accepts rest := by
  have hfits := h.fits
  unfold accepts at hfits ⊢
  rw [h.room]
  cases hroom : t.room with
  | none => rfl
  | some room =>
    obtain ⟨k, f⟩ := room
    rw [hroom] at hfits
    rw [Option.map_some]
    dsimp only at hfits ⊢
    rw [List.take_append, hfits]

theorem verdict_append (h : t.Took t' bs) (rest : Bytes) : t.verdict (bs ++ rest) = t'.verdict rest := by
  have hfits := h.fits
  unfold accepts at hfits
  unfold verdict
  rw [h.room]
  cases hroom : t.room with
  | none => rfl
  | some room =>
    obtain ⟨k, f⟩ := room
    rw [hroom] at hfits
    have hlength : bs.length ≤ k := by
      rw [← hfits]
      exact List.length_take_le k bs
    have hsame : (bs ++ rest).length ≤ k ↔ rest.length ≤ k - bs.length := by
      rw [List.length_append]
      omega
    rw [Option.map_some]
    simp only [hsame]

theorem trans (h : t.Took t' bs) (h' : t'.Took t'' bs') : t.Took t'' (bs ++ bs') := by
  refine ⟨?_, h'.chunking.trans h.chunking, ?_, ?_, h'.shutdownFault?.trans h.shutdownFault?,
    h'.shutdowns.trans h.shutdowns, h'.released.trans h.released⟩
  · rw [h'.taken, h.taken, List.append_assoc]
  · rw [h'.room, h.room, List.length_append]
    cases t.room with
    | none => rfl
    | some room => simp only [Option.map_some, Nat.sub_sub]
  · rw [h.accepts_append, h'.fits]

end Took

/-- A write takes some of the first bytes, or fails as there is no room. -/
theorem took_of_write (ht : t.Moves) (hbs : bs ≠ []) :
    (∃ piece rest t', bs = piece ++ rest ∧ piece ≠ [] ∧ t.write bs = (.ready piece.length, t') ∧ t.Took t' piece) ∨
      ∃ f, t.write bs = (.failed f, t) ∧ t.accepts bs = [] ∧ t.verdict bs = .error f := by
  obtain ⟨n, hpiece, hpos⟩ := t.chunking.piece_eq t.writes bs
  have hn : 0 < n := (hpos (ht _)).resolve_right hbs
  have hnonempty : ∀ k, 0 < k → bs.take k ≠ [] := by
    intro k hk h
    rcases List.take_eq_nil_iff.1 h with hzero | hnil
    · exact Nat.ne_of_gt hk hzero
    · exact hbs hnil
  unfold write
  rw [hpiece]
  cases hroom : t.room with
  | none =>
    refine .inl ⟨bs.take n, bs.drop n, _, (List.take_append_drop n bs).symm, hnonempty n hn, rfl, t.taken_take _, rfl,
      hroom.trans ?_, ?_, rfl, rfl, rfl⟩
    · rw [hroom]
      rfl
    · unfold accepts
      rw [hroom]
  | some room =>
    obtain ⟨left, f⟩ := room
    cases left with
    | zero =>
      refine .inr ⟨f, rfl, ?_, ?_⟩
      · unfold accepts
        rw [hroom]
        rfl
      · unfold verdict
        rw [hroom]
        exact if_neg fun h => hbs (List.eq_nil_of_length_eq_zero (Nat.le_zero.1 h))
    | succ left =>
      -- the room cuts off what the chunk has left
      have hboth : (bs.take n).take (left + 1) = bs.take (min (left + 1) n) := List.take_take
      simp only [hboth]
      refine .inl ⟨bs.take (min (left + 1) n), bs.drop (min (left + 1) n), _, (List.take_append_drop _ bs).symm,
        hnonempty _ (by omega), rfl, t.taken_take _, rfl, ?_, ?_, rfl, rfl, rfl⟩
      · rw [hroom]
        rfl
      · unfold accepts
        rw [hroom]
        apply List.take_of_length_le
        rw [List.length_take]
        omega

/-- Shutting an intake down is noted, whether it succeeds or not. -/
theorem shutdown_eq (t : Intake) :
    t.shutdown =
      (match t.shutdownFault? with
        | none => .ready ()
        | some f => .failed f, { t with shutdowns := t.shutdowns + 1, unflushed := 0 }) := by
  unfold shutdown
  cases t.shutdownFault? <;> rfl

/-- Where there is no room for a byte string, what follows it is not taken either. -/
theorem append_of_refused {f : Fault} (h : t.verdict bs = .error f) (rest : Bytes) :
    t.accepts (bs ++ rest) = t.accepts bs ∧ t.verdict (bs ++ rest) = .error f := by
  unfold verdict at h ⊢
  unfold accepts
  split at h
  · cases h
  · split at h
    · cases h
    · rename_i k f' hroom hlong
      refine ⟨List.take_append_of_le_length (by omega), ?_⟩
      rw [if_neg (by rw [List.length_append]; omega)]
      exact h

end Intake

/-- A channel writes into an intake that is part of its state. -/
structure Channel.IsIntake (c : Channel ω) (place : Intake → ω) : Prop where
  write : ∀ bs t, c.write bs (place t) = ((t.write bs).1, place (t.write bs).2)
  flush : ∀ t, c.flush (place t) = (t.flush.1, place t.flush.2)
  shutdown : ∀ t, c.shutdown (place t) = (t.shutdown.1, place t.shutdown.2)
  release : ∀ t, c.release (place t) = place { t with released := true }

theorem Scripted.channel_isIntake (w : Scripted) : channel.IsIntake fun t => { w with outgoing := t } :=
  ⟨fun _ _ => rfl, fun _ => rfl, fun _ => rfl, fun _ => rfl⟩

namespace Exchange

/-! ## Runs that come to rest -/

section Runs

variable {c : Channel ω} {e e₁ e' : Exchange σ α} {w w₁ w' : ω} {host host₁ host' : σ}

theorem run_add (c : Channel ω) (m n : Nat) (e : Exchange σ α) (w : ω) (host : σ) :
    e.run c (m + n) w host =
      (e.run c m w host).1.run c n (e.run c m w host).2.1 (e.run c m w host).2.2 := by
  induction m generalizing e w host with
  | zero => rw [Nat.zero_add]; rfl
  | succ m ih =>
    rw [Nat.add_right_comm, run, run]
    cases hs : e.step c w host with
    | none => exact (run_of_stuck hs n).symm
    | some moved => exact ih _ _ _

theorem Leads.trans (h : Leads c e w host e₁ w₁ host₁) (h' : Leads c e₁ w₁ host₁ e' w' host') :
    Leads c e w host e' w' host' := by
  obtain ⟨m, hm⟩ := h
  obtain ⟨n, hn⟩ := h'
  refine ⟨m + n, ?_⟩
  rw [run_add, hm]
  exact hn

/-- A run that comes to an exchange that makes no more steps stays there. -/
theorem Leads.settles (h : Leads c e w host e' w' host') (hstuck : e'.step c w' host' = none) :
    ∃ n, ∀ fuel, n ≤ fuel → e.run c fuel w host = (e', w', host') := by
  obtain ⟨n, hn⟩ := h
  refine ⟨n, fun fuel hfuel => ?_⟩
  obtain ⟨k, rfl⟩ := Nat.exists_eq_add_of_le hfuel
  rw [run_add, hn]
  exact run_of_stuck hstuck k

/-- There is only one exchange that makes no more steps to come to. -/
theorem Leads.eq_of_stuck {e₂ : Exchange σ α} {w₂ : ω} {host₂ : σ} (h : Leads c e w host e₁ w₁ host₁)
    (hstuck : e₁.step c w₁ host₁ = none) (h' : Leads c e w host e₂ w₂ host₂)
    (hstuck' : e₂.step c w₂ host₂ = none) : e₁ = e₂ := by
  obtain ⟨m, hm⟩ := h.settles hstuck
  obtain ⟨n, hn⟩ := h'.settles hstuck'
  have hboth := (hm (max m n) (Nat.le_max_left m n)).symm.trans (hn (max m n) (Nat.le_max_right m n))
  exact (Prod.mk.inj hboth).1

theorem Hears.leads {n : Nat} {e e' : Exchange σ α} {w w' : Scripted} (h : Hears n e w e' w') (host : σ) :
    Leads Scripted.channel e w host e' w' host := ⟨n, h.run 0 host⟩

end Runs

/-! ## Loops that write and loops that copy -/

/-- An exchange writes what it holds into an intake, wherever that is, and fails when a write fails. -/
def Writes (c : Channel ω) (e : Bytes → Exchange σ α) (conn : Intake → ω) (host : Intake → σ)
    (fail : Fault → Exchange σ α) : Prop :=
  ∀ b bs t, (e (b :: bs)).step c (conn t) (host t) =
    match t.write (b :: bs) with
    | (.ready 0, t) => some (fail .writeZero, conn t, host t)
    | (.ready n, t) => some (e ((b :: bs).drop n), conn t, host t)
    | (.failed f, t) => some (fail f, conn t, host t)
    | (.pending, _) => none

/-- An exchange copies a supply into an intake through a buffer, and flushes the intake at the end. -/
structure Copies (c : Channel ω) (capacity : Nat) (e : κ → Bytes → Exchange σ α) (supply : κ → Supply)
    (conn : κ → Intake → ω) (host : Intake → σ) (next : Except Fault Unit → Exchange σ α) : Prop where
  writes : ∀ s, Writes c (e s) (conn s) host fun f => next (.error f)
  reads : ∀ s t, ∃ s', supply s' = ((supply s).read capacity).2 ∧
    (e s []).step c (conn s t) (host t) =
      match ((supply s).read capacity).1 with
      | .ready [] => some (next (.ok ()), conn s' t.flush.2, host t.flush.2)
      | .ready (b :: bs) => some (e s' (b :: bs), conn s' t, host t)
      | .failed f => some (next (.error f), conn s' t, host t)
      | .pending => none

section Loops

variable {c : Channel ω} {t : Intake}

/-- A loop that writes comes to the end of what it holds, or fails; the intake has taken what it accepts. -/
theorem Writes.leads {e : Bytes → Exchange σ α} {conn : Intake → ω} {host : Intake → σ}
    {fail : Fault → Exchange σ α} (h : Writes c e conn host fail) (ht : t.Moves) (bs : Bytes) :
    ∃ t', t.Took t' (t.accepts bs) ∧
      Leads c (e bs) (conn t) (host t)
        (match t.verdict bs with
          | .ok () => e []
          | .error f => fail f) (conn t') (host t') := by
  induction hn : bs.length using Nat.strongRecOn generalizing bs t with
  | ind n ih =>
    cases bs with
    | nil =>
      refine ⟨t, ?_, ?_⟩
      · rw [t.accepts_nil]
        exact .refl t
      · rw [t.verdict_nil]
        exact .refl _ _ _ _
    | cons b bs =>
      have hstep := h b bs t
      obtain ⟨piece, rest, t₁, hsplit, hpiece, hwrite, htook⟩ | ⟨f, hwrite, haccepts, hverdict⟩ :=
        Intake.took_of_write ht (List.cons_ne_nil b bs)
      · rw [hwrite] at hstep
        have hlength : 0 < piece.length := List.length_pos_iff.2 hpiece
        have hless : rest.length < n := by
          rw [← hn, hsplit, List.length_append]
          omega
        have hgoes : (e (b :: bs)).step c (conn t) (host t) = some (e rest, conn t₁, host t₁) := by
          have hrest : (b :: bs).drop piece.length = rest := by rw [hsplit, List.drop_left]
          obtain ⟨k, hk⟩ := Nat.exists_eq_succ_of_ne_zero (Nat.ne_of_gt hlength)
          rw [hstep, ← hrest, hk]
          rfl
        obtain ⟨t', htook', hleads⟩ := ih _ hless (htook.moves ht) rest rfl
        refine ⟨t', ?_, ?_⟩
        · rw [hsplit, htook.accepts_append]
          exact htook.trans htook'
        · rw [hsplit, htook.verdict_append, ← hsplit]
          exact .cons hgoes hleads
      · rw [hwrite] at hstep
        refine ⟨t, ?_, ?_⟩
        · rw [haccepts]
          exact .refl t
        · rw [hverdict]
          exact .cons hstep (.refl _ _ _ _)

/-- How a copy ends, given how writing all of the supply ends, and how the supply ends; `none` if never. -/
def copyResult? (verdict : Except Fault Unit) (ending : Ending) : Option (Except Fault Unit) :=
  match verdict, ending with
  | .error f, _ => some (.error f)
  | .ok (), .eof => some (.ok ())
  | .ok (), .fault f => some (.error f)
  | .ok (), .silence => none

/-- A loop that copies goes on with the result of the copy, or waits for ever; the intake has taken what it accepts
of the supply. -/
theorem Copies.leads {capacity : Nat} {e : κ → Bytes → Exchange σ α} {supply : κ → Supply}
    {conn : κ → Intake → ω} {host : Intake → σ} {next : Except Fault Unit → Exchange σ α}
    (h : Copies c capacity e supply conn host next) (hcapacity : 0 < capacity) {s : κ}
    (hs : ∀ k, (supply s).chunking k ≠ some 0) (ht : t.Moves) (held : Bytes) :
    ∃ s' t' e', t.Took t' (t.accepts (held ++ (supply s).data)) ∧
      Leads c (e s held) (conn s t) (host t) e' (conn s' t') (host t') ∧
      match copyResult? (t.verdict (held ++ (supply s).data)) (supply s).ending with
      | some r => e' = next r
      | none => e' = e s' [] ∧ e'.step c (conn s' t') (host t') = none := by
  -- what is held is written before the next bytes are read, so the induction is on the bytes to be read
  induction hn : (supply s).data.length using Nat.strongRecOn generalizing s held t with
  | ind n ih =>
    obtain ⟨t₁, htook, hleads⟩ := (h.writes s).leads ht held
    cases hverdict : t.verdict held with
    | error f =>
      rw [hverdict] at hleads
      obtain ⟨haccepts, hrefused⟩ := Intake.append_of_refused hverdict (supply s).data
      refine ⟨s, t₁, _, ?_, hleads, ?_⟩
      · rw [haccepts]
        exact htook
      · rw [hrefused]
        rfl
    | ok done =>
      rw [hverdict] at hleads
      rw [Intake.verdict_eq_ok.1 hverdict] at htook
      rw [htook.accepts_append, htook.verdict_append]
      obtain ⟨s', hs', hstep⟩ := h.reads s t₁
      by_cases hdata : (supply s).data = []
      · rw [hdata, t₁.accepts_nil, t₁.verdict_nil, List.append_nil]
        rw [Supply.read_end hdata] at hstep
        cases hending : (supply s).ending with
        | eof =>
          rw [hending] at hstep
          refine ⟨s', t₁.flush.2, _, ?_, hleads.trans (.cons hstep (.refl _ _ _ _)), rfl⟩
          rw [← List.append_nil held]
          exact htook.trans (.flush t₁)
        | fault f =>
          rw [hending] at hstep
          exact ⟨s', t₁, _, htook, hleads.trans (.cons hstep (.refl _ _ _ _)), rfl⟩
        | silence =>
          rw [hending] at hstep
          exact ⟨s, t₁, _, htook, hleads, rfl, hstep⟩
      · obtain ⟨piece, hread, hpiece, -, hsplit⟩ := Supply.read_eq (hs (supply s).reads) hdata hcapacity
        rw [hread] at hs' hstep
        obtain ⟨b, bs, rfl⟩ := List.exists_cons_of_ne_nil hpiece
        have hless : (supply s').data.length < n := by
          rw [← hn, hs']
          show ((supply s).data.drop (b :: bs).length).length < _
          rw [List.length_drop, List.length_cons]
          exact Nat.sub_lt (List.length_pos_iff.2 hdata) (Nat.succ_pos _)
        have hrest : b :: bs ++ (supply s').data = (supply s).data := by
          rw [hs']
          exact hsplit.symm
        have hending : (supply s').ending = (supply s).ending := by rw [hs']
        obtain ⟨s'', t', e', htook', hleads', hresult⟩ :=
          ih _ hless (s := s') (by rw [hs']; exact hs) (htook.moves ht) (b :: bs) rfl
        rw [hrest] at htook' hresult
        rw [hending] at hresult
        exact ⟨s'', t', e', htook.trans htook', (hleads.trans (.cons hstep (.refl _ _ _ _))).trans hleads', hresult⟩

end Loops

/-! ## The loops of exchanges -/

section Instances

variable {c : Channel ω} {place : Intake → ω}

theorem writes_send (hc : c.IsIntake place) (next : Except Fault Unit → Exchange σ α) (host : σ) :
    Writes c (fun bs => send bs next) place (fun _ => host) fun f => next (.error f) := by
  intro b bs t
  simp only [step, hc.write]
  rcases t.write (b :: bs) with ⟨(_ | n) | _ | _, t'⟩ <;> rfl

theorem copies_pour (hc : c.IsIntake place) (capacity : Nat) (next : Except Fault Unit → Exchange σ α) (host : σ) :
    Copies c capacity (fun source held => pour source held capacity next) id (fun _ => place) (fun _ => host)
      next where
  writes source := by
    intro b bs t
    simp only [step, hc.write]
    rcases t.write (b :: bs) with ⟨(_ | n) | _ | _, t'⟩ <;> rfl
  reads source t := by
    refine ⟨(source.read capacity).2, rfl, ?_⟩
    simp only [step, hc.flush, id]
    rcases source.read capacity with ⟨(_ | ⟨b, bs⟩) | _ | _, source'⟩ <;> rfl

/-- What is drained goes from the connection into the sink; nothing goes out on the connection. -/
theorem copies_drain {sink : Channel σ} {place : Intake → σ} (hsink : sink.IsIntake place) (out : Intake)
    (capacity : Nat) (next : Except Fault Unit → Exchange σ α) :
    Copies Scripted.channel capacity (fun (_ : Supply × Nat) held => drain sink held capacity next) Prod.fst
      (fun s _ => ⟨s.1, out, s.2⟩) place next where
  writes s := by
    intro b bs t
    simp only [step, hsink.write]
    rcases t.write (b :: bs) with ⟨(_ | n) | _ | _, t'⟩ <;> rfl
  reads s t := by
    have hread : ∃ consumed, Scripted.channel.read capacity ⟨s.1, out, s.2⟩ =
        ((s.1.read capacity).1, ⟨(s.1.read capacity).2, out, consumed⟩) := by
      simp only [Scripted.channel, Scripted.read]
      rcases s.1.read capacity with ⟨bs | _ | _, source'⟩ <;> exact ⟨_, rfl⟩
    obtain ⟨consumed, hread⟩ := hread
    refine ⟨((s.1.read capacity).2, consumed), rfl, ?_⟩
    simp only [step, hread, hsink.flush]
    rcases s.1.read capacity with ⟨(_ | ⟨b, bs⟩) | _ | _, source'⟩ <;> rfl

/-- What an exchange sends is taken as far as there is room, and it goes on, or fails. -/
theorem Sends.leads (hc : c.IsIntake place) {fail : Fault → Exchange σ α} {n : Nat} {e e' : Exchange σ α}
    {owed : Bytes} (h : Sends fail n e owed e') {t : Intake} (ht : t.Moves) (host : σ) :
    ∃ t', t.Took t' (t.accepts owed) ∧
      Leads c e (place t) host
        (match t.verdict owed with
          | .ok () => e'
          | .error f => fail f) (place t') host := by
  induction h generalizing t with
  | refl =>
    rw [t.accepts_nil, t.verdict_nil]
    exact ⟨t, .refl t, .refl _ _ _ _⟩
  | @send n bs out e' next hfail _ ih =>
    obtain ⟨t₁, htook, hleads⟩ := (writes_send hc next host).leads ht bs
    cases hverdict : t.verdict bs with
    | error f =>
      obtain ⟨haccepts, hrefused⟩ := Intake.append_of_refused hverdict out
      rw [hverdict] at hleads
      rw [haccepts, hrefused]
      refine ⟨t₁, htook, ?_⟩
      show Leads c _ (place t) host (fail f) (place t₁) host
      rw [← hfail f]
      exact hleads
    | ok done =>
      rw [hverdict] at hleads
      rw [Intake.verdict_eq_ok.1 hverdict] at htook
      rw [htook.accepts_append, htook.verdict_append]
      obtain ⟨t', htook', hleads'⟩ := ih (htook.moves ht)
      exact ⟨t', htook.trans htook', hleads.trans (.cons rfl hleads')⟩
  | @flush n out e' next hfail _ ih =>
    have htook := Intake.Took.flush t
    have hstep : (Exchange.flush next).step c (place t) host = some (next (.ok ()), place t.flush.2, host) := by
      simp only [step, hc.flush]
      rfl
    rw [← List.nil_append out, htook.accepts_append, htook.verdict_append]
    obtain ⟨t', htook', hleads'⟩ := ih (htook.moves ht)
    exact ⟨t', htook.trans htook', .cons hstep hleads'⟩

end Instances

end Exchange

end RemoteCall
