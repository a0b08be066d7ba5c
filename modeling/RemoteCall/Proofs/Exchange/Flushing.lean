import RemoteCall.Message
import RemoteCall.Proofs.Exchange.Steps
/-!
# Bytes that wait to be flushed

A channel may keep back what is written to it until it is flushed or shut down. Whoever then waits for an answer to
bytes that are still kept back may wait in vain. `Exchange.Flushes` says how many bytes are kept back whenever an
exchange reads, and every step on a channel that keeps bytes back preserves it. Every value is flushed behind its
record; a tag alone is not.
-/

namespace RemoteCall

variable {σ ω β γ : Type}

/-- A channel that may keep back what is written to it until it is flushed or shut down: `kept` counts the bytes. -/
structure Channel.Withholds (c : Channel ω) (kept : ω → Nat) : Prop where
  read : ∀ {n w r w'}, c.read n w = (r, w') → kept w' = kept w
  write : ∀ {bs w n w'}, c.write bs w = (.ready n, w') → kept w' = kept w + min n bs.length
  flush : ∀ {w w'}, c.flush w = (.ready (), w') → kept w' = 0
  shutdown : ∀ {w w'}, c.shutdown w = (.ready (), w') → kept w' = 0

namespace Exchange

/-- An exchange that begins with some bytes kept back: whenever it reads from the connection they are `k`, and when it
comes to a result their number has a property. Nothing is said of what follows a fault. -/
def Flushes (k : Nat) (P : Nat → Prop) : Exchange σ (Except Fault β) → Nat → Prop
  | done (.ok _), kept => P kept
  | done (.error _), _ => True
  | stall, _ => True
  | consult next _, kept => ∀ s, (next s).Flushes k P kept
  | receiveByte next, kept => kept = k ∧ ∀ r, (next r).Flushes k P kept
  | receiveRecord _ _ next, kept => kept = k ∧ ∀ r, (next r).Flushes k P kept
  | collect _ next, kept => kept = k ∧ ∀ r bs, (next r bs).Flushes k P kept
  | send left next, kept =>
    (next (.ok ())).Flushes k P (kept + left.length) ∧ ∀ f kept', (next (.error f)).Flushes k P kept'
  | flush next, _ | shutdown next, _ =>
    (next (.ok ())).Flushes k P 0 ∧ ∀ f kept', (next (.error f)).Flushes k P kept'
  | pour .., _ | drain .., _ | close .., _ => False

variable {k n : Nat} {P Q : Nat → Prop}

/-- What is kept back when an exchange has come to its result decides what may follow; a fault ends it. -/
theorem Flushes.bind {e : Exchange σ (Except Fault β)} {f : Except Fault β → Exchange σ (Except Fault γ)}
    (h : e.Flushes k Q n) (hok : ∀ b n, Q n → (f (.ok b)).Flushes k P n)
    (herror : ∀ fault n, (f (.error fault)).Flushes k P n) : (e.bind f).Flushes k P n := by
  induction e generalizing n with
  | done r =>
    cases r with
    | ok b => exact hok b n h
    | error fault => exact herror fault n
  | stall => trivial
  | consult next update ih => exact fun s => ih s (h s)
  | receiveByte next ih | receiveRecord limit soFar next ih => exact ⟨h.1, fun r => ih r (h.2 r)⟩
  | collect soFar next ih => exact ⟨h.1, fun r bs => ih r bs (h.2 r bs)⟩
  | send left next ih | flush next ih | shutdown next ih =>
    exact ⟨ih _ h.1, fun fault n => ih _ (h.2 fault n)⟩
  | pour | drain | close => exact h.elim

theorem flushes_andThen {a : Attempt σ β} {next : β → Attempt σ γ} (ha : a.run.Flushes k Q n)
    (hnext : ∀ b n, Q n → (next b).run.Flushes k P n) : (a >>= next).run.Flushes k P n :=
  ha.bind hnext fun _ _ => trivial

/-- The result of flushing or shutting down decides what follows, and if it is good nothing is kept back. -/
theorem flushes_settle {kept : ω → Nat} {next : Except Fault Unit → Exchange σ (Except Fault β)} {p : Poll Unit × ω}
    {e' : Exchange σ (Except Fault β)} {w' : ω} {host host' : σ}
    (h : (next (.ok ())).Flushes k P 0 ∧ ∀ f n, (next (.error f)).Flushes k P n)
    (hp : ∀ w, p = (.ready (), w) → kept w = 0) (hsettle : settle next host p = some (e', w', host')) :
    e'.Flushes k P (kept w') := by
  obtain ⟨r, w⟩ := p
  cases r <;> cases hsettle
  · rw [hp _ rfl]
    exact h.1
  · exact h.2 _ _

/-- Every step on a channel that keeps bytes back preserves it. -/
theorem Flushes.step {c : Channel ω} {kept : ω → Nat} (hc : c.Withholds kept)
    {e e' : Exchange σ (Except Fault β)} {w w' : ω} {host host' : σ} (h : e.Flushes k P (kept w))
    (hstep : e.step c w host = some (e', w', host')) : e'.Flushes k P (kept w') := by
  cases e with
  | done | stall => cases hstep
  | consult next update =>
    cases hstep
    exact h _
  | receiveByte next =>
    simp only [Exchange.step] at hstep
    split at hstep <;> cases hstep <;> rw [hc.read ‹_›] <;> exact h.2 _
  | receiveRecord limit soFar next =>
    simp only [Exchange.step] at hstep
    split at hstep
    · cases hstep
      rw [hc.read ‹_›]
      exact h.2 _
    · rename_i hread
      rw [← hc.read hread] at h
      split at hstep <;> cases hstep
      · exact h
      · exact h.2 _
      · exact h.2 _
    · cases hstep
      rw [hc.read ‹_›]
      exact h.2 _
    · cases hstep
  | collect soFar next =>
    simp only [Exchange.step] at hstep
    split at hstep <;> cases hstep <;> rw [hc.read ‹_›]
    · exact h.2 _ _
    · exact h
    · exact h.2 _ _
  | send left next =>
    cases left with
    | nil =>
      cases hstep
      exact h.1
    | cons b bs =>
      simp only [Exchange.step] at hstep
      split at hstep <;> cases hstep
      · exact h.2 _ _
      · -- what is kept back and what is left to send come to the same as before
        rename_i taken _ hwrite
        have hsum : kept w' + ((b :: bs).drop taken).length = kept w + (b :: bs).length := by
          rw [hc.write hwrite, List.length_drop]
          omega
        refine ⟨?_, h.2⟩
        rw [hsum]
        exact h.1
      · exact h.2 _ _
  | flush next => exact flushes_settle h (fun _ hp => hc.flush hp) hstep
  | shutdown next => exact flushes_settle h (fun _ hp => hc.shutdown hp) hstep
  | pour | drain | close => exact h.elim

end Exchange

/-! ## Messages -/

namespace Attempt

open Exchange

variable {α : Type}

theorem flushes_send (k n : Nat) (bs : Bytes) :
    (send bs : Attempt σ Unit).run.Flushes k (· = n + bs.length) n := ⟨rfl, fun _ _ => trivial⟩

/-- A tag is kept back until something else is flushed. -/
theorem flushes_sendTag (k n : Nat) (tag : Tag) : (sendTag tag : Attempt σ Unit).run.Flushes k (· = n + 1) n :=
  flushes_send k n [tag.code]

theorem flushes_sendAll (k n : Nat) (pieces : List Bytes) :
    (sendAll pieces : Attempt σ Unit).run.Flushes k (fun _ => True) n := by
  induction pieces generalizing n with
  | nil => trivial
  | cons bs rest ih => exact flushes_andThen (flushes_send k n bs) fun _ n _ => ih n

/-- A value is flushed with all that was kept back before it. -/
theorem flushes_sendValue (k n : Nat) (c : Codec α) (x : α) :
    (sendValue c x : Attempt σ Unit).run.Flushes k (· = 0) n := by
  unfold sendValue
  split
  · exact flushes_andThen (flushes_sendAll k n _) fun _ _ _ => ⟨rfl, fun _ _ => trivial⟩
  · trivial

theorem flushes_sendCall (k n : Nat) (call : Envelope) :
    (sendCall call : Attempt σ Unit).run.Flushes k (· = 0) n :=
  flushes_andThen (flushes_sendTag k n _) fun _ n _ =>
    flushes_andThen (flushes_sendValue k n _ _) fun _ n _ => flushes_sendValue k n _ _

theorem flushes_shutdown (k n : Nat) : (shutdown : Attempt σ Unit).run.Flushes k (· = 0) n :=
  ⟨rfl, fun _ _ => trivial⟩

/-- Receiving leaves what is kept back as it is. -/
theorem flushes_receiveValue (n limit : Nat) (c : Codec α) :
    (receiveValue limit c : Attempt σ α).run.Flushes n (· = n) n := by
  refine flushes_andThen (Q := (· = n)) ⟨rfl, ?_⟩ fun body m hm => ?_
  · rintro (f | body)
    · trivial
    · exact rfl
  · split
    · exact hm
    · trivial

end Attempt

end RemoteCall
