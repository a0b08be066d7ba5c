import RemoteCall.Proofs.Exchange.Receiving
import RemoteCall.Proofs.Exchange.Steps
/-!
# Exchanges that only listen

`Hears` says what an exchange comes to on a scripted stream by steps that read and do nothing else: they
send nothing, end nothing, and do not ask the host. A record is heard as far as the stream has it, whatever
the sizes of its pieces; `ending_cases` says what comes of one that the stream does not have in whole. In an
exchange that `NeverAsks`, the host is not asked on any path.
-/

namespace RemoteCall

variable {σ ω α β : Type}

/-! ## Reading a scripted stream -/

namespace Scripted

/-- The stream after some of its bytes were read, and nothing else was done to it. -/
structure Hearing (w w' : Scripted) : Prop where
  outgoing : w'.outgoing = w.outgoing
  chunking : w'.incoming.chunking = w.incoming.chunking
  ending : w'.incoming.ending = w.incoming.ending
  consumed : w'.consumed + w'.incoming.data.length = w.consumed + w.incoming.data.length

theorem Hearing.refl (w : Scripted) : w.Hearing w := ⟨rfl, rfl, rfl, rfl⟩

theorem Hearing.trans {w w' w'' : Scripted} (h : w.Hearing w') (h' : w'.Hearing w'') : w.Hearing w'' :=
  ⟨h'.outgoing.trans h.outgoing, h'.chunking.trans h.chunking, h'.ending.trans h.ending,
    h'.consumed.trans h.consumed⟩

/-- The pieces of a stream are never empty. -/
def Moves (w : Scripted) : Prop := ∀ k, w.incoming.chunking k ≠ some 0

theorem Hearing.moves {w w' : Scripted} (h : w.Hearing w') (hw : w.Moves) : w'.Moves := by
  intro k
  rw [h.chunking]
  exact hw k

variable {w : Scripted} {n : Nat}

/-- As long as there are bytes, a read gives some of them. -/
theorem read_piece (hw : w.Moves) (hdata : w.incoming.data ≠ []) (hn : 0 < n) :
    ∃ piece w', channel.read n w = (.ready piece, w') ∧ piece ≠ [] ∧ piece.length ≤ n ∧
      w.incoming.data = piece ++ w'.incoming.data ∧ w.Hearing w' := by
  obtain ⟨piece, hread, hpiece, hlen, hsplit⟩ := Supply.read_eq (hw w.incoming.reads) hdata hn
  have hcount := congrArg List.length hsplit
  rw [List.length_append] at hcount
  refine ⟨piece, { w with
    incoming := { w.incoming with
      data := w.incoming.data.drop piece.length
      reads := w.incoming.reads + 1 }
    consumed := w.consumed + piece.length }, ?_, hpiece, hlen, hsplit, rfl, rfl, rfl, ?_⟩
  · simp only [channel, read, hread]
  · show w.consumed + piece.length + (w.incoming.data.drop piece.length).length = _
    omega

/-- Behind the last byte there is the end, or a fault, or nothing ever. -/
theorem read_end (hdata : w.incoming.data = []) (n : Nat) :
    channel.read n w =
      (match w.incoming.ending with
        | .eof => .ready []
        | .silence => .pending
        | .fault f => .failed f, w) := by
  simp only [channel, read, Supply.read_end hdata]
  cases w.incoming.ending <;> rfl

end Scripted

namespace Exchange

open Record (Gathering)

/-! ## Asking the host -/

/-- Whether the next step asks the host. -/
def asks : Exchange σ α → Bool
  | consult .. => true
  | _ => false

/-- Whether the host is not asked, whatever the steps come to. -/
def NeverAsks : Exchange σ α → Prop
  | done _ | stall => True
  | consult .. => False
  | receiveByte next => ∀ r, (next r).NeverAsks
  | receiveRecord _ _ next => ∀ r, (next r).NeverAsks
  | send _ next | flush next | shutdown next => ∀ r, (next r).NeverAsks
  | pour _ _ _ next | drain _ _ _ next | close _ next => ∀ r, (next r).NeverAsks
  | collect _ next => ∀ r bs, (next r bs).NeverAsks

theorem NeverAsks.asks_eq {e : Exchange σ α} (h : e.NeverAsks) : e.asks = false := by
  cases e with
  | consult => exact h.elim
  | _ => rfl

/-- No step makes an exchange ask. -/
theorem NeverAsks.step {c : Channel ω} {e e' : Exchange σ α} (h : e.NeverAsks) {w w' : ω} {host host' : σ}
    (hs : e.step c w host = some (e', w', host')) : e'.NeverAsks := by
  cases (step_cases hs).1 with
  | consult => exact h.elim
  | gather | sendMore | pourMore | drainMore | collectMore => exact h
  | collect => exact h _ _
  | _ => exact h _

theorem NeverAsks.run {c : Channel ω} (fuel : Nat) {e e' : Exchange σ α} (h : e.NeverAsks) {w w' : ω}
    {host host' : σ} (hrun : e.run c fuel w host = (e', w', host')) : e'.NeverAsks := by
  induction fuel generalizing e w host with
  | zero =>
    cases hrun
    exact h
  | succ fuel ih =>
    rw [Exchange.run] at hrun
    split at hrun
    · cases hrun
      exact h
    · rename_i hs
      exact ih (h.step hs) hrun

/-! ## Listening -/

/-- After `n` steps that only read, an exchange goes on as another one. -/
inductive Hears : Nat → Exchange σ α → Scripted → Exchange σ α → Scripted → Prop
  | refl (e : Exchange σ α) (w : Scripted) : Hears 0 e w e w
  | step {n e e₁ e' w w₁ w'} (hasks : e.asks = false) (hw : w.Hearing w₁)
      (hs : ∀ host, e.step Scripted.channel w host = some (e₁, w₁, host)) (h : Hears n e₁ w₁ e' w') :
      Hears (n + 1) e w e' w'

section Hears

variable {m n : Nat} {e e' e'' : Exchange σ α} {w w' w'' : Scripted}

theorem Hears.trans (h : Hears m e w e' w') (h' : Hears n e' w' e'' w'') : Hears (n + m) e w e'' w'' := by
  induction h with
  | refl => exact h'
  | step hasks hw hs _ ih => exact .step hasks hw hs (ih h')

theorem Hears.hearing (h : Hears n e w e' w') : w.Hearing w' := by
  induction h with
  | refl => exact .refl _
  | step _ hw _ _ ih => exact hw.trans ih

/-- A run that is long enough goes on from what was come to. -/
theorem Hears.run (h : Hears n e w e' w') (fuel : Nat) (host : σ) :
    e.run Scripted.channel (n + fuel) w host = e'.run Scripted.channel fuel w' host := by
  induction h with
  | refl => rw [Nat.zero_add]
  | @step n _ _ _ _ _ _ _ _ hs _ ih =>
    rw [Nat.add_right_comm, Exchange.run, hs]
    exact ih

/-- A shorter run has only read, and the host is not asked next. -/
theorem Hears.run_lt (h : Hears n e w e' w') {fuel : Nat} (hfuel : fuel < n) (host : σ) :
    ∃ e₁ w₁, e.run Scripted.channel fuel w host = (e₁, w₁, host) ∧ e₁.asks = false ∧ w.Hearing w₁ := by
  induction h generalizing fuel with
  | refl => exact absurd hfuel (Nat.not_lt_zero fuel)
  | step hasks hw hs _ ih =>
    cases fuel with
    | zero => exact ⟨_, _, rfl, hasks, .refl _⟩
    | succ fuel =>
      obtain ⟨e₁, w₁, hrun, hasks₁, hw₁⟩ := ih (Nat.lt_of_succ_lt_succ hfuel)
      refine ⟨e₁, w₁, ?_, hasks₁, hw.trans hw₁⟩
      rw [Exchange.run, hs]
      exact hrun

/-- Whether a run has not got as far as what is come to, or has got there or beyond. -/
theorem Hears.run_cases (h : Hears n e w e' w') (fuel : Nat) (host : σ) :
    (∃ e₁ w₁, fuel < n ∧ e.run Scripted.channel fuel w host = (e₁, w₁, host) ∧ e₁.asks = false ∧
        w.Hearing w₁) ∨
      ∃ k, fuel = n + k ∧ e.run Scripted.channel fuel w host = e'.run Scripted.channel k w' host := by
  by_cases hfuel : fuel < n
  · obtain ⟨e₁, w₁, hrun⟩ := h.run_lt hfuel host
    exact .inl ⟨e₁, w₁, hfuel, hrun⟩
  · obtain ⟨k, rfl⟩ := Nat.exists_eq_add_of_le (Nat.not_lt.1 hfuel)
    exact .inr ⟨k, rfl, h.run k host⟩

/-- A question to the host that no other follows is asked at one moment of a run only. -/
theorem Hears.asks_iff {answer : σ → Exchange σ α} {update : σ → σ} (h : Hears n e w (.consult answer update) w')
    (hanswer : ∀ host, (answer host).NeverAsks) (fuel : Nat) (host : σ) :
    (e.run Scripted.channel fuel w host).1.asks = true ↔ fuel = n := by
  rcases h.run_cases fuel host with ⟨e₁, w₁, hfuel, hrun, hasks, -⟩ | ⟨k, rfl, hrun⟩
  · rw [hrun, hasks]
    exact iff_of_false Bool.false_ne_true (Nat.ne_of_lt hfuel)
  · cases k with
    | zero =>
      rw [hrun]
      exact iff_of_true rfl rfl
    | succ k =>
      have hlater : (answer host |>.run Scripted.channel k w' (update host)).1.asks = false :=
        ((hanswer host).run k rfl).asks_eq
      rw [hrun]
      refine iff_of_false ?_ (by omega)
      show ¬ (answer host |>.run Scripted.channel k w' (update host)).1.asks = true
      rw [hlater]
      exact Bool.false_ne_true

/-- The host is not asked by what comes to an exchange that never asks. -/
theorem Hears.never_asks (h : Hears n e w e' w') (he' : e'.NeverAsks) (fuel : Nat) (host : σ) :
    (e.run Scripted.channel fuel w host).1.asks = false := by
  rcases h.run_cases fuel host with ⟨e₁, w₁, -, hrun, hasks, -⟩ | ⟨k, -, hrun⟩
  · rw [hrun]
    exact hasks
  · rw [hrun]
    exact (he'.run k rfl).asks_eq

/-- An exchange makes no more steps. -/
theorem run_of_stuck {c : Channel ω} {e : Exchange σ α} {w : ω} {host : σ} (h : e.step c w host = none)
    (fuel : Nat) : e.run c fuel w host = (e, w, host) := by
  cases fuel with
  | zero => rfl
  | succ fuel => rw [Exchange.run, h]

/-- What comes by reading to an exchange that makes no more steps has only read, at any time. -/
theorem Hears.run_stuck (h : Hears n e w e' w') (hasks : e'.asks = false) {host : σ}
    (hstuck : e'.step Scripted.channel w' host = none) (fuel : Nat) :
    ∃ e₁ w₁, e.run Scripted.channel fuel w host = (e₁, w₁, host) ∧ e₁.asks = false ∧ w.Hearing w₁ := by
  rcases h.run_cases fuel host with ⟨e₁, w₁, -, hrun⟩ | ⟨k, -, hrun⟩
  · exact ⟨e₁, w₁, hrun⟩
  · rw [run_of_stuck hstuck] at hrun
    exact ⟨e', w', hrun, hasks, h.hearing⟩

end Hears

/-! ## Hearing a tag and a record -/

section Hearing

variable {w : Scripted} {g : Gathering}

/-- An exchange has to wait on a stream that stays silent. -/
structure Waits (e : Exchange σ α) (w : Scripted) : Prop where
  silent : w.incoming.ending = .silence
  asks_eq : e.asks = false
  answer_eq : e.answer? = none
  step_eq : ∀ host, e.step Scripted.channel w host = none

theorem hears_receiveByte (hw : w.Moves) {b : UInt8} {rest : Bytes} (hdata : w.incoming.data = b :: rest)
    (next : Except Fault UInt8 → Exchange σ α) :
    ∃ w', Hears 1 (.receiveByte next) w (next (.ok b)) w' ∧ w'.incoming.data = rest := by
  obtain ⟨piece, w', hread, hpiece, hlen, hsplit, hhearing⟩ :=
    Scripted.read_piece hw (by rw [hdata]; exact List.cons_ne_nil b rest) Nat.one_pos
  obtain ⟨b', bs, rfl⟩ := List.exists_cons_of_ne_nil hpiece
  have hbs : bs = [] := List.eq_nil_of_length_eq_zero (by simpa using hlen)
  subst hbs
  rw [hdata, List.singleton_append] at hsplit
  obtain ⟨rfl, rfl⟩ := List.cons.inj hsplit
  refine ⟨w', .step rfl hhearing ?_ (.refl _ _), rfl⟩
  intro host
  simp only [Exchange.step, hread]

/-- At the end of the stream an exchange that reads fails, or waits for ever. -/
theorem hears_end (n : Nat) (hdata : w.incoming.data = []) {e : Exchange σ α} (hasks : e.asks = false)
    (hopen : e.answer? = none) (fail : Fault → Exchange σ α) (atEnd : Fault)
    (heof : Scripted.channel.read n w = (.ready [], w) →
      ∀ host, e.step Scripted.channel w host = some (fail atEnd, w, host))
    (hfault : ∀ f, Scripted.channel.read n w = (.failed f, w) →
      ∀ host, e.step Scripted.channel w host = some (fail f, w, host))
    (hpending : Scripted.channel.read n w = (.pending, w) →
      ∀ host, e.step Scripted.channel w host = none) :
    (∃ f, Hears 1 e w (fail f) w) ∨ Waits e w := by
  have hread := Scripted.read_end hdata n
  cases hending : w.incoming.ending with
  | eof =>
    rw [hending] at hread
    exact .inl ⟨atEnd, .step hasks (.refl w) (heof hread) (.refl _ _)⟩
  | fault f =>
    rw [hending] at hread
    exact .inl ⟨f, .step hasks (.refl w) (hfault f hread) (.refl _ _)⟩
  | silence =>
    rw [hending] at hread
    exact .inr ⟨hending, hasks, hopen, hpending hread⟩

theorem hears_receiveByte_end (hdata : w.incoming.data = []) (next : Except Fault UInt8 → Exchange σ α) :
    (∃ f, Hears 1 (.receiveByte next) w (next (.error f)) w) ∨ Waits (.receiveByte next) w :=
  hears_end 1 hdata rfl rfl (fun f => next (.error f)) .missingTag
    (fun hread host => by simp only [Exchange.step, hread])
    (fun f hread host => by simp only [Exchange.step, hread])
    fun hread host => by simp only [Exchange.step, hread]

theorem hears_receiveRecord_end (limit : Nat) (next : Except Fault Bytes → Exchange σ α)
    (hdata : w.incoming.data = []) (g : Gathering) :
    (∃ f, Hears 1 (.receiveRecord limit g next) w (next (.error f)) w) ∨
      Waits (.receiveRecord limit g next) w :=
  hears_end g.need hdata rfl rfl (fun f => next (.error f)) .earlyEof
    (fun hread host => by simp only [Exchange.step, hread])
    (fun f hread host => by simp only [Exchange.step, hread])
    fun hread host => by simp only [Exchange.step, hread]

/-- A record is heard as it is gathered from all bytes of the stream. -/
theorem hears_receiveRecord (limit : Nat) (next : Except Fault Bytes → Exchange σ α) (hw : w.Moves)
    (hneed : 0 < g.need) :
    ∃ n w', Hears n (.receiveRecord limit g next) w
        (afterAbsorb limit next (g.absorb limit w.incoming.data).1) w' ∧
      w'.incoming.data = (g.absorb limit w.incoming.data).2 := by
  -- the stream chooses the pieces, so the induction is on the bytes to come, of which each takes some
  induction hn : w.incoming.data.length using Nat.strongRecOn generalizing g w with
  | ind n ih =>
    by_cases hdata : w.incoming.data = []
    · rw [hdata]
      exact ⟨0, w, .refl _ _, hdata⟩
    · obtain ⟨piece, w₁, hread, hpiece, hlen, hsplit, hhearing⟩ := Scripted.read_piece hw hdata hneed
      have hs : ∀ host, (receiveRecord limit g next).step Scripted.channel w host =
          some (afterAbsorb limit next (g.feed limit piece), w₁, host) :=
        fun host => step_receiveRecord limit next host hread hpiece
      have hpos : 0 < piece.length := List.length_pos_iff.2 hpiece
      have hless : w₁.incoming.data.length < n := by
        rw [← hn, hsplit, List.length_append]
        omega
      rw [hsplit, Gathering.absorb_append limit g piece _ hpiece hlen]
      cases hfeed : g.feed limit piece with
      | complete whole =>
        rw [hfeed] at hs
        exact ⟨1, w₁, .step rfl hhearing hs (.refl _ _), rfl⟩
      | tooLong length =>
        rw [hfeed] at hs
        exact ⟨1, w₁, .step rfl hhearing hs (.refl _ _), rfl⟩
      | more g' =>
        rw [hfeed] at hs
        obtain ⟨k, w', hk, hw'⟩ := ih _ hless (hhearing.moves hw) (Gathering.need_pos_of_feed hfeed) rfl
        exact ⟨k + 1, w', .step rfl hhearing hs hk, hw'⟩

end Hearing

end Exchange

end RemoteCall
