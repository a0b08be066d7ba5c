import RemoteCall.Proofs.Call.Link
import RemoteCall.Proofs.Client.Talking
import RemoteCall.Proofs.Exchange.Dialogue
import RemoteCall.Proofs.Exchange.Receiving
import RemoteCall.Proofs.System.Interleaving
/-!
# Conversations on a link

One operation of a client and one served connection, on a link. A step of either side is known from
what it still receives or sends: `Receives.step_cases`, `Sends.step_cases`.
-/

namespace RemoteCall

variable {σ α : Type}

namespace Exchange

open Record (Gathering)

variable {s : Side} {l : Link} {sent due owed : Bytes} {sentEnds dueEnds : Bool}

/-- Receiving takes bytes. -/
theorem Receives.ne_nil {n : Nat} {e e' : Exchange σ α} {inp rest : Bytes}
    (h : Receives n e inp e' rest) (hn : 0 < n) :
    inp ≠ [] := by
  rintro rfl
  cases h with
  | refl => exact Nat.lt_irrefl 0 hn
  | record _ hg => cases hg
  | tooLong _ hg => cases hg

/-- One step of a record under way, whose bytes are partly on their way and partly owed: it has to
wait, or goes on with fewer bytes on their way, or ends as it would with all bytes at once. -/
theorem step_record {limit : Nat} {g : Gathering} {next : Except Fault Bytes → Exchange σ α} {mid : Bytes}
    {r : Record.Gathered} (hl : l.Carries s sent sentEnds due dueEnds) (hneed : 0 < g.need)
    (hends : dueEnds = true → owed = []) (hg : g.absorb limit (due ++ owed) = (r, mid))
    (hr : ∀ g', r ≠ .more g') (host : σ) :
    (dueEnds = false ∧ due = [] ∧ step (Link.channel s) (.receiveRecord limit g next) l host = none) ∨
    ∃ e₁ l' due', step (Link.channel s) (.receiveRecord limit g next) l host = some (e₁, l', host) ∧
      l'.Carries s sent sentEnds due' dueEnds ∧ due'.length < due.length ∧ (∀ t, l.Silent t → l'.Silent t) ∧
      ((∃ g', e₁ = .receiveRecord limit g' next ∧ 0 < g'.need ∧ g'.absorb limit (due' ++ owed) = (r, mid)) ∨
        (e₁ = afterAbsorb limit next r ∧ due' ++ owed = mid)) := by
  rcases Link.read_cases hl hneed with ⟨hdue, hopen, l', hread⟩ |
    ⟨piece, due', l', hread, hlen, hsplit, hend, hl', hsilent⟩
  · exact .inl ⟨hopen, hdue, by simp only [step, hread]⟩
  · have hpiece : piece ≠ [] := by
      intro hpiece
      obtain ⟨hdue, hclosed⟩ := hend hpiece
      -- nothing is owed behind the end of a direction, so the record would be complete by now
      rw [hdue, hends hclosed] at hg
      cases hg
      exact hr g rfl
    have hless : due'.length < due.length := by
      have hpos := List.length_pos_iff.2 hpiece
      rw [hsplit, List.length_append]
      omega
    rw [hsplit, List.append_assoc, Gathering.absorb_append limit g piece _ hpiece hlen] at hg
    refine .inr ⟨_, l', due', step_receiveRecord limit next host hread hpiece, hl', hless, hsilent, ?_⟩
    cases hfeed : g.feed limit piece with
    | more g' =>
      rw [hfeed] at hg
      exact .inl ⟨g', rfl, Gathering.need_pos_of_feed hfeed, hg⟩
    | complete whole =>
      rw [hfeed] at hg
      cases hg
      exact .inr ⟨rfl, rfl⟩
    | tooLong length =>
      rw [hfeed] at hg
      cases hg
      exact .inr ⟨rfl, rfl⟩

/-- One step of an exchange that receives: it has to wait for bytes that are owed, or receives the
rest. -/
theorem Receives.step_cases {n : Nat} {e e' : Exchange σ α} {rest : Bytes}
    (h : Receives n e (due ++ owed) e' rest)
    (hn : 0 < n) (hl : l.Carries s sent sentEnds due dueEnds) (hends : dueEnds = true → owed = [])
    (host : σ) :
    e.answer? = none ∧
    ((dueEnds = false ∧ due = [] ∧ e.step (Link.channel s) l host = none) ∨
    ∃ n' e₁ l' due', e.step (Link.channel s) l host = some (e₁, l', host) ∧
      Receives n' e₁ (due' ++ owed) e' rest ∧
      l'.Carries s sent sentEnds due' dueEnds ∧ n' + due'.length < n + due.length ∧
      ∀ t, l.Silent t → l'.Silent t) := by
  have hne := h.ne_nil hn
  -- what is on its way and what is owed make one input, however they are split
  generalize hinp : due ++ owed = inp at h hne
  cases h with
  | refl => exact absurd hn (Nat.lt_irrefl 0)
  | @byte n next b inp _ _ hnext =>
    refine ⟨rfl, ?_⟩
    rcases Link.read_cases hl Nat.one_pos with
      ⟨hdue, hopen, l', hread⟩ | ⟨piece, due', l', hread, hlen, hsplit, hend, hl', hsilent⟩
    · exact .inl ⟨hopen, hdue, by simp only [step, hread]⟩
    · have hpiece : piece ≠ [] := by
        intro hpiece
        obtain ⟨hdue, hclosed⟩ := hend hpiece
        rw [hdue, hends hclosed] at hinp
        cases hinp
      obtain ⟨b', bs, rfl⟩ := List.exists_cons_of_ne_nil hpiece
      obtain rfl : bs = [] := List.eq_nil_of_length_eq_zero (by simpa using hlen)
      rw [hsplit] at hinp
      obtain ⟨rfl, rfl⟩ : b' = b ∧ due' ++ owed = inp := by simpa using hinp
      refine .inr ⟨n, _, l', due', by simp only [step, hread], hnext, hl', ?_, hsilent⟩
      rw [hsplit]
      simp only [List.length_append, List.length_singleton]
      omega
  | @record n limit g next _ whole mid _ _ hneed hg hnext =>
    refine ⟨rfl, ?_⟩
    rw [← hinp] at hg
    rcases step_record hl hneed hends hg (by simp) host with
      hwait | ⟨e₁, l', due', hstep, hl', hless, hsilent, ⟨g', rfl, hneed', hg'⟩ | ⟨rfl, rfl⟩⟩
    · exact .inl hwait
    · exact .inr ⟨n + 1, _, l', due', hstep, .record hneed' hg' hnext, hl', by omega, hsilent⟩
    · exact .inr ⟨n, _, l', due', hstep, hnext, hl', by omega, hsilent⟩
  | @tooLong n limit g next _ length mid _ _ hneed hg hnext =>
    refine ⟨rfl, ?_⟩
    rw [← hinp] at hg
    rcases step_record hl hneed hends hg (by simp) host with
      hwait | ⟨e₁, l', due', hstep, hl', hless, hsilent, ⟨g', rfl, hneed', hg'⟩ | ⟨rfl, rfl⟩⟩
    · exact .inl hwait
    · exact .inr ⟨n + 1, _, l', due', hstep, .tooLong hneed' hg' hnext, hl', by omega, hsilent⟩
    · exact .inr ⟨n, _, l', due', hstep, hnext, hl', by omega, hsilent⟩

/-- One step of an exchange that sends: it has to wait behind bytes on their way, or fails on a
closed direction, or sends the rest. -/
theorem Sends.step_cases {fail : Fault → Exchange σ α} {n : Nat} {e e' : Exchange σ α}
    (h : Sends fail n e owed e')
    (hn : 0 < n) (hl : l.Carries s sent sentEnds due dueEnds) (host : σ) :
    e.answer? = none ∧
    ((sentEnds = false ∧ sent ≠ [] ∧ e.step (Link.channel s) l host = none) ∨
    (sentEnds = true ∧ owed ≠ [] ∧ ∃ l', e.step (Link.channel s) l host = some (fail .brokenPipe, l', host) ∧
      l'.Carries s sent sentEnds due dueEnds ∧ ∀ t, l.Silent t → l'.Silent t) ∨
    ∃ n' e₁ l' sent' owed', e.step (Link.channel s) l host = some (e₁, l', host) ∧ Sends fail n' e₁ owed' e' ∧
      l'.Carries s sent' sentEnds due dueEnds ∧ sent' ++ owed' = sent ++ owed ∧ owed'.length ≤ owed.length ∧
      n' + 2 * owed'.length + sent'.length < n + 2 * owed.length + sent.length ∧
      ∀ t, t ≠ s → l.Silent t → l'.Silent t) := by
  cases h with
  | refl => exact absurd hn (Nat.lt_irrefl 0)
  | @flush n _ _ next hfail hnext =>
    exact ⟨rfl, .inr (.inr ⟨n, _, l, sent, owed, rfl, hnext, hl, rfl, Nat.le_refl _, by omega,
      fun _ _ h => h⟩)⟩
  | @send n bs out _ next hfail hnext =>
    cases bs with
    | nil =>
      exact ⟨rfl, .inr (.inr ⟨n, _, l, sent, out, rfl, hnext, hl, rfl, Nat.le_refl _, by
        rw [List.nil_append]
        omega, fun _ _ h => h⟩)⟩
    | cons b bs =>
      refine ⟨rfl, ?_⟩
      rcases Link.write_cases hl (List.cons_ne_nil b bs) with
        ⟨hopen, hsent, l', hwrite⟩ | ⟨hclosed, l', hwrite, hl', hsilent⟩ |
        ⟨-, piece, rest, l', hwrite, hpiece, hsplit, hl', hsilent⟩
      · exact .inl ⟨hopen, hsent, by simp only [step, hwrite]⟩
      · exact .inr (.inl ⟨hclosed, List.cons_ne_nil _ _, l', by simp only [step, hwrite, hfail], hl',
          hsilent⟩)
      · have hpos := List.length_pos_iff.2 hpiece
        obtain ⟨k, hk⟩ := Nat.exists_eq_succ_of_ne_zero (Nat.ne_of_gt hpos)
        -- the exchange drops as many bytes as the link has taken
        have hdrop : (b :: bs).drop piece.length = rest := by rw [hsplit, List.drop_left]
        have hstep : step (Link.channel s) (.send (b :: bs) next) l host =
            some (.send rest next, l', host) := by
          rw [hk] at hwrite hdrop
          simp only [step, hwrite, hdrop]
        refine .inr (.inr ⟨n + 1, _, l', sent ++ piece, rest ++ out, hstep, .send next hfail hnext,
          hl', ?_, ?_, ?_, hsilent⟩)
        · rw [hsplit, List.append_assoc, List.append_assoc]
        · rw [hsplit]
          simp only [List.length_append]
          omega
        · rw [hsplit]
          simp only [List.length_append]
          omega

end Exchange

/-! ## The two parts -/

namespace Link

/-- A server that serves one connection, and one operation on the other end of it. -/
def conversation (settings : Settings σ) (l : Link) (host : σ) (o : Operation σ α)
    (e : Exchange σ (Except ServeError Unit)) (released : Bool) : System Link σ α where
  settings := settings
  network := network
  world := l
  host := host
  server := .initial
  tickets := []
  served := #[⟨0, e, released⟩]
  clients := #[⟨o, none⟩]
  fired := []

/-- A server begins to serve a connection, and an operation begins. -/
def opening (settings : Settings σ) (l : Link) (host : σ) (p : Plan σ α) : System Link σ α :=
  (((System.initial settings network l host).dispatch 0).submit p none).2

theorem opening_eq (settings : Settings σ) (l : Link) (host : σ) (p : Plan σ α) :
    opening settings l host p =
      conversation settings l host (.start p) (Serving.connection (settings.context "link")).run false := rfl

variable {settings : Settings σ} {l l' : Link} {host host' : σ} {o : Operation σ α}
  {e e' : Exchange σ (Except ServeError Unit)} {released : Bool}

/-- The operation makes its own steps. -/
theorem advance_client : (conversation settings l host o e released).advance (.client 0) =
    (o.step network false l host).map fun (o, l, host) => conversation settings l host o e released := by
  cases h : o.step network false l host <;> simp [System.advance, System.stepClient, conversation, h]

/-- Serving makes the steps of its exchange. -/
theorem advance_served (hopen : e.answer? = none) :
    (conversation settings l host o e released).advance (.served 0) =
      (e.step (channel .acceptor) l host).bind fun (e, l, host) =>
        some (conversation settings l host o e released) := by
  cases e with
  | done _ => cases hopen
  | _ => rfl

theorem advance_served_none (hopen : e.answer? = none) (h : e.step (channel .acceptor) l host = none) :
    (conversation settings l host o e released).advance (.served 0) = none := by
  rw [advance_served hopen, h]
  rfl

theorem advance_served_some (hopen : e.answer? = none)
    (h : e.step (channel .acceptor) l host = some (e', l', host')) :
    (conversation settings l host o e released).advance (.served 0) =
      some (conversation settings l' host' o e' released) := by
  rw [advance_served hopen, h]
  rfl

/-- What is done with serving gives its end up, once. -/
theorem advance_served_done {a : Except ServeError Unit} :
    (conversation settings l host o (.done a) released).advance (.served 0) =
      if released then none
      else some (conversation settings ((channel .acceptor).release l) host o (.done a) true) := rfl

/-- There are no other parts. -/
theorem advance_other {p : Part} (hclient : p ≠ .client 0) (hserved : p ≠ .served 0) :
    (conversation settings l host o e released).advance p = none := by
  cases p with
  | client i =>
    have hi : (conversation settings l host o e released).clients[i]? = none := by
      apply Array.getElem?_eq_none
      show 1 ≤ i
      grind
    simp [System.advance, System.stepClient, hi]
  | served i =>
    have hi : (conversation settings l host o e released).served[i]? = none := by
      apply Array.getElem?_eq_none
      show 1 ≤ i
      grind
    simp [System.advance, System.stepServed, hi]
  | serverCall i => simp [System.advance, System.stepServerCall, conversation, ServerState.asksListener,
      ServerState.initial, ServerState.step]

end Link

end RemoteCall
