import RemoteCall.Proofs.Exchange.Dialogue
import RemoteCall.Proofs.System.Interleaving
/-!
# What a served connection comes to

A served connection may take in bytes for a while before it does anything else. `System.Approaches` says that it
comes to some exchange by doing nothing but that, on every interleaving; `approaches_of_lowers` gets it from an
invariant which steps of that connection lower and others keep.
-/

namespace RemoteCall.System

open Exchange

variable {ω σ α : Type}

/-- What a served connection is about to do. -/
def serving? (s : System ω σ α) (i : Nat) : Option (Exchange σ (Except ServeError Unit)) :=
  s.served[i]?.map (·.exchange)

/-- At some moment of an interleaving a served connection is at an exchange. -/
def Passes (s : System ω σ α) (ps : List Part) (i : Nat) (e : Exchange σ (Except ServeError Unit)) : Prop :=
  ∃ earlier s', earlier <+: ps ∧ s.follow earlier = some s' ∧ s'.serving? i = some e

/-- Until it is at an exchange, a served connection takes in bytes that lead to it, and does nothing else; and it
gets there, if it makes steps for long enough or until no part can move. -/
structure Approaches (s : System ω σ α) (i : Nat) (target : Exchange σ (Except ServeError Unit)) : Prop where
  receives : ∀ ps s', s.follow ps = some s' → s.Passes ps i target ∨
    ∃ e n due rest, s'.serving? i = some e ∧ Receives (n + 1) e due target rest
  arrives : ∃ bound, ∀ ps s', s.follow ps = some s' → bound ≤ ps.count (.served i) ∨ s'.AtRest →
    s.Passes ps i target

variable {s s₁ : System ω σ α} {p : Part} {ps : List Part} {i : Nat} {target : Exchange σ (Except ServeError Unit)}

theorem Passes.cons (h : s₁.Passes ps i target) (hadvance : s.advance p = some s₁) :
    s.Passes (p :: ps) i target := by
  obtain ⟨earlier, s', hprefix, hfollow, hat⟩ := h
  refine ⟨p :: earlier, s', List.prefix_cons_inj p |>.2 hprefix, ?_, hat⟩
  rw [follow, hadvance]
  exact hfollow

/-- Where a served connection is, it need not get. -/
theorem Approaches.refl (h : s.serving? i = some target) : s.Approaches i target := by
  have hpasses : ∀ ps, s.Passes ps i target := fun ps => ⟨[], s, List.nil_prefix, rfl, h⟩
  exact ⟨fun ps _ _ => .inl (hpasses ps), 0, fun ps _ _ _ => hpasses ps⟩

/-- Whether one step leads to the exchange or an invariant goes on, which the steps of the connection lower. -/
theorem passes_or_lowered {I : System ω σ α → Nat → Prop}
    (hstep : ∀ {s n p s'}, I s n → s.advance p = some s' → s'.serving? i = some target ∨
      ∃ m, I s' m ∧ m + (if p = .served i then 1 else 0) ≤ n)
    {n : Nat} (hs : I s n) {s' : System ω σ α} (hfollow : s.follow ps = some s') :
    s.Passes ps i target ∨ ∃ m, I s' m ∧ m + ps.count (.served i) ≤ n := by
  induction ps generalizing s n with
  | nil =>
    cases hfollow
    exact .inr ⟨n, hs, Nat.le_refl n⟩
  | cons p ps ih =>
    obtain ⟨s₁, hadvance, hrest⟩ := Option.bind_eq_some_iff.1 hfollow
    rcases hstep hs hadvance with hat | ⟨m₁, hs₁, hless₁⟩
    · refine .inl ⟨[p], s₁, ⟨ps, rfl⟩, ?_, hat⟩
      rw [follow, hadvance]
      rfl
    · rcases ih hs₁ hrest with hpasses | ⟨m, hs', hless⟩
      · exact .inl (hpasses.cons hadvance)
      · refine .inr ⟨m, hs', ?_⟩
        rw [List.count_cons]
        simp only [beq_iff_eq]
        omega

/-- An invariant that the steps of a served connection lower, and under which it takes in bytes and some part can
move, leads it to the exchange. -/
theorem approaches_of_lowers {I : System ω σ α → Nat → Prop}
    (hstep : ∀ {s n p s'}, I s n → s.advance p = some s' → s'.serving? i = some target ∨
      ∃ m, I s' m ∧ m + (if p = .served i then 1 else 0) ≤ n)
    (hreceives : ∀ {s n}, I s n → 0 < n ∧ ¬s.AtRest ∧
      ∃ e n due rest, s.serving? i = some e ∧ Receives (n + 1) e due target rest)
    {n : Nat} (hs : I s n) : s.Approaches i target where
  receives ps s' hfollow := by
    rcases passes_or_lowered hstep hs hfollow with hpasses | ⟨m, hs', -⟩
    · exact .inl hpasses
    · exact .inr (hreceives hs').2.2
  arrives := by
    refine ⟨n, fun ps s' hfollow hlong => ?_⟩
    rcases passes_or_lowered hstep hs hfollow with hpasses | ⟨m, hs', hless⟩
    · exact hpasses
    · obtain ⟨hpos, hmoves, -⟩ := hreceives hs'
      rcases hlong with hcount | hrest
      · omega
      · exact absurd hrest hmoves

end RemoteCall.System
