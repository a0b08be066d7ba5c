import RemoteCall.System
/-!
# Interleavings

An interleaving is a list of parts, each of which makes one step when its turn comes. Statements
about a system are about all interleavings: what holds after each of them, how long they get, and
what holds when no part can move. An invariant that carries a measure, which every step lowers,
gives all three: `follow_of_lowers`.
-/

namespace RemoteCall

namespace System

variable {ω σ α : Type}

/-- The steps of some parts one after another; `none` if one of them has to wait. -/
def follow (s : System ω σ α) : List Part → Option (System ω σ α)
  | [] => some s
  | p :: ps => (s.advance p).bind fun s => s.follow ps

theorem follow_append (s : System ω σ α) (ps qs : List Part) :
    s.follow (ps ++ qs) = (s.follow ps).bind (·.follow qs) := by
  induction ps generalizing s with
  | nil => rfl
  | cons p ps ih =>
    simp only [List.cons_append, follow, Option.bind_assoc]
    exact congrArg _ (funext ih)

/-! ## Steps of the parts -/

section Steps

variable {s : System ω σ α} {i : Nat}

/-- Without a token, an operation makes its own steps. -/
theorem stepClient_eq {o : Operation σ α} (h : s.clients[i]? = some ⟨o, none⟩) :
    s.stepClient i = (o.step s.network false s.world s.host).map fun moved =>
      { s with world := moved.2.1, host := moved.2.2, clients := s.clients.set! i ⟨moved.1, none⟩ } := by
  simp only [stepClient, h, Option.bind_eq_bind, Option.bind_some, Option.any_none]
  cases o.step s.network false s.world s.host <;> rfl

theorem stepServed_open {c : Served σ} (h : s.served[i]? = some c) (hopen : c.exchange.answer? = none) :
    s.stepServed i = (c.exchange.step (s.network.accepted c.connection) s.world s.host).map fun moved =>
      { s with world := moved.2.1, host := moved.2.2, served := s.served.set! i { c with exchange := moved.1 } } := by
  obtain ⟨connection, exchange, released⟩ := c
  simp only [stepServed, h, Option.bind_eq_bind, Option.bind_some]
  cases exchange with
  | done => cases hopen
  | _ => exact Option.map_eq_bind.symm

/-- When the exchange is done, what is left is to give the connection up. -/
theorem stepServed_done {connection : Nat} {r : Except ServeError Unit} {released : Bool}
    (h : s.served[i]? = some ⟨connection, .done r, released⟩) :
    s.stepServed i = if released then none else some { s with
      world := (s.network.accepted connection).release s.world
      served := s.served.set! i ⟨connection, .done r, true⟩ } := by
  simp only [stepServed, h, Option.bind_eq_bind, Option.bind_some]

end Steps

/-! ## Answers and rest -/

/-- The answer to an operation, once it is finished. -/
def answer? (s : System ω σ α) (i : Nat) : Option α := s.clients[i]?.bind (·.operation.answer?)

/-- No part can move. -/
def AtRest (s : System ω σ α) : Prop := ∀ p, s.advance p = none

/-- Something holds after every interleaving. -/
def Always (s : System ω σ α) (P : System ω σ α → Prop) : Prop := ∀ ps s', s.follow ps = some s' → P s'

/-- No interleaving goes on for ever, and something holds whenever no part can move. -/
def Reaches (s : System ω σ α) (P : System ω σ α → Prop) : Prop :=
  (∃ bound, ∀ ps s', s.follow ps = some s' → ps.length ≤ bound) ∧ s.Always fun s' => s'.AtRest → P s'

/-- What every step keeps, and lowers in measure, is kept by every interleaving, which is no longer
than the measure was. -/
theorem follow_of_lowers {I : System ω σ α → Nat → Prop}
    (hstep : ∀ {s n p s'}, I s n → s.advance p = some s' → ∃ m, m < n ∧ I s' m) {s s' : System ω σ α}
    {n : Nat}
    (hs : I s n) (ps : List Part) (hfollow : s.follow ps = some s') : ∃ m, m + ps.length ≤ n ∧ I s' m := by
  induction ps generalizing s n with
  | nil =>
    cases hfollow
    exact ⟨n, Nat.le_refl n, hs⟩
  | cons p ps ih =>
    obtain ⟨s₁, hadvance, hrest⟩ := Option.bind_eq_some_iff.1 hfollow
    obtain ⟨m₁, hless, hs₁⟩ := hstep hs hadvance
    obtain ⟨m, hlength, hs'⟩ := ih hs₁ hrest
    refine ⟨m, ?_, hs'⟩
    rw [List.length_cons]
    omega

theorem always_of_lowers {I : System ω σ α → Nat → Prop}
    (hstep : ∀ {s n p s'}, I s n → s.advance p = some s' → ∃ m, m < n ∧ I s' m) {s : System ω σ α} {n : Nat}
    (hs : I s n) {P : System ω σ α → Prop} (hP : ∀ {s n}, I s n → P s) : s.Always P := by
  intro ps s' hfollow
  obtain ⟨m, -, hs'⟩ := follow_of_lowers hstep hs ps hfollow
  exact hP hs'

theorem reaches_of_lowers {I : System ω σ α → Nat → Prop}
    (hstep : ∀ {s n p s'}, I s n → s.advance p = some s' → ∃ m, m < n ∧ I s' m) {s : System ω σ α} {n : Nat}
    (hs : I s n) {P : System ω σ α → Prop} (hP : ∀ {s n}, I s n → s.AtRest → P s) : s.Reaches P := by
  refine ⟨⟨n, fun ps s' hfollow => ?_⟩, always_of_lowers hstep hs fun hs' => hP hs'⟩
  obtain ⟨m, hlength, -⟩ := follow_of_lowers hstep hs ps hfollow
  omega

end System

end RemoteCall
