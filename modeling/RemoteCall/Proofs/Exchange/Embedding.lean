import RemoteCall.Proofs.Exchange.Steps
/-!
# Channels inside larger states

A network keeps many connections in one state, and an operation on one of them is the same operation on the
connection by itself, whose new state is then put in its place. `Channel.Embeds` says so of a channel, and from it
`Exchange.step_of_embeds` has it of exchanges.
-/

namespace RemoteCall

variable {σ ω τ α β : Type}

/-! ## Entries of arrays -/

section Entries

variable {xs : Array τ} {n m : Nat} {x : τ}

theorem entry_set_self (h : xs[n]? = some x) (y : τ) : (xs.set! n y)[n]? = some y := by
  obtain ⟨hn, -⟩ := Array.getElem?_eq_some_iff.1 h
  rw [Array.set!_eq_setIfInBounds, Array.getElem?_setIfInBounds_self_of_lt hn]

theorem entry_set_of_ne (h : n ≠ m) (y : τ) : (xs.set! n y)[m]? = xs[m]? := by
  rw [Array.set!_eq_setIfInBounds, Array.getElem?_setIfInBounds_ne h]

theorem size_set (xs : Array τ) (n : Nat) (y : τ) : (xs.set! n y).size = xs.size := by
  rw [Array.set!_eq_setIfInBounds, Array.size_setIfInBounds]

theorem set_set (xs : Array τ) (n : Nat) (x y : τ) : (xs.set! n x).set! n y = xs.set! n y := by
  simp only [Array.set!_eq_setIfInBounds, Array.setIfInBounds_setIfInBounds]

/-- Putting an entry where it is changes nothing. -/
theorem set_entry (h : xs[n]? = some x) : xs.set! n x = xs := by
  apply Array.ext_getElem?
  intro i
  by_cases hi : n = i
  · subst hi
    rw [entry_set_self h, h]
  · rw [entry_set_of_ne hi]

theorem modify_entry (h : xs[n]? = some x) (f : τ → τ) : xs.modify n f = xs.set! n (f x) := by
  apply Array.ext_getElem?
  intro i
  rw [Array.getElem?_modify]
  by_cases hi : n = i
  · subst hi
    rw [if_pos rfl, h, entry_set_self h]
    rfl
  · rw [if_neg hi, entry_set_of_ne hi]

end Entries

/-! ## Channels and exchanges -/

/-- The result of an operation on a part of a larger state; one that has to wait changes nothing. -/
def Poll.into (put : τ → ω) (w : ω) : Poll β × τ → Poll β × ω
  | (.pending, _) => (.pending, w)
  | (r, d) => (r, put d)

/-- In the state `w` the operations of a channel are those of another one on the part `d`. -/
structure Channel.Embeds (outer : Channel ω) (inner : Channel τ) (put : τ → ω) (w : ω) (d : τ) : Prop where
  put_self : put d = w
  read : ∀ n, outer.read n w = Poll.into put w (inner.read n d)
  write : ∀ bs, outer.write bs w = Poll.into put w (inner.write bs d)
  flush : outer.flush w = Poll.into put w (inner.flush d)
  shutdown : outer.shutdown w = Poll.into put w (inner.shutdown d)

namespace Exchange

variable {outer : Channel ω} {inner : Channel τ} {put : τ → ω} {w : ω} {d : τ}

/-- What comes of a step on the part, put in its place. -/
def putBack (put : τ → ω) : Option (Exchange σ α × τ × σ) → Option (Exchange σ α × ω × σ) :=
  Option.map fun moved => (moved.1, put moved.2.1, moved.2.2)

theorem settle_into (next : Except Fault β → Exchange σ α) (host : σ) (p : Poll β × τ) :
    settle next host (Poll.into put w p) = putBack put (settle next host p) := by
  obtain ⟨r, d⟩ := p
  cases r <;> rfl

/-- An exchange makes the steps that it makes on the part. -/
theorem step_of_embeds (h : outer.Embeds inner put w d) (e : Exchange σ α) (host : σ) :
    e.step outer w host = putBack put (e.step inner d host) := by
  have hself : ∀ (e : Exchange σ α) (host : σ), some (e, w, host) = putBack put (some (e, d, host)) := by
    intro e host
    rw [← h.put_self]
    rfl
  cases e with
  | done | stall => rfl
  | consult next update => exact hself _ _
  | receiveByte next =>
    simp only [step, h.read]
    rcases inner.read 1 d with ⟨(_ | ⟨b, bs⟩) | _ | _, d'⟩ <;> rfl
  | receiveRecord limit soFar next =>
    simp only [step, h.read]
    rcases inner.read soFar.need d with ⟨(_ | ⟨b, bs⟩) | _ | _, d'⟩ <;> try rfl
    simp only [Poll.into]
    cases soFar.feed limit (b :: bs) <;> rfl
  | send left next =>
    cases left with
    | nil => exact hself _ _
    | cons b bs =>
      simp only [step, h.write]
      rcases inner.write (b :: bs) d with ⟨(_ | k) | _ | _, d'⟩ <;> rfl
  | flush next =>
    simp only [step, h.flush]
    exact settle_into next host _
  | shutdown next =>
    simp only [step, h.shutdown]
    exact settle_into next host _
  | pour source held capacity next =>
    cases held with
    | nil =>
      simp only [step, h.flush]
      rcases source.read capacity with ⟨(_ | ⟨b, bs⟩) | _ | _, source'⟩
      · exact settle_into next host _
      · exact hself _ _
      · rfl
      · exact hself _ _
    | cons b bs =>
      simp only [step, h.write]
      rcases inner.write (b :: bs) d with ⟨(_ | k) | _ | _, d'⟩ <;> rfl
  | drain sink held capacity next =>
    cases held with
    | nil =>
      simp only [step, h.read]
      rcases inner.read capacity d with ⟨(_ | ⟨b, bs⟩) | _ | _, d'⟩ <;> try rfl
      simp only [Poll.into]
      rcases sink.flush host with ⟨_ | _ | _, host'⟩ <;> rfl
    | cons b bs =>
      simp only [step]
      rcases sink.write (b :: bs) host with ⟨(_ | k) | _ | _, host'⟩
      · exact hself _ _
      · exact hself _ _
      · rfl
      · exact hself _ _
  | close sink next =>
    simp only [step]
    rcases sink.shutdown host with ⟨_ | _ | _, host'⟩
    · exact hself _ _
    · rfl
    · exact hself _ _
  | collect soFar next =>
    simp only [step, h.read]
    rcases inner.read collectSize d with ⟨(_ | ⟨b, bs⟩) | _ | _, d'⟩ <;> rfl

/-- A step is one on the part. -/
theorem step_some_of_embeds (h : outer.Embeds inner put w d) {e e' : Exchange σ α} {host host' : σ} {w' : ω}
    (hstep : e.step outer w host = some (e', w', host')) :
    ∃ d', e.step inner d host = some (e', d', host') ∧ w' = put d' := by
  rw [step_of_embeds h] at hstep
  obtain ⟨⟨e₁, d', host₁⟩, hinner, heq⟩ := Option.map_eq_some_iff.1 hstep
  cases heq
  exact ⟨d', hinner, rfl⟩

end Exchange

end RemoteCall
