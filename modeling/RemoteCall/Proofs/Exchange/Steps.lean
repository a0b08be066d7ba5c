import RemoteCall.Exchange
/-!
# What one step of an exchange does

One step does at most one operation on the connection, and it leads to what follows the result, or to the same
operation with some progress made. `Exchange.step_cases` says both; what holds of every state of an exchange, or
of everything it does to its connection, follows from that without a look at the steps.
-/

namespace RemoteCall

variable {σ ω α β : Type}

/-- What the state of a channel is after at most one operation of its user, apart from giving it up. -/
inductive Channel.Uses (c : Channel ω) (w : ω) : ω → Prop
  | none : Uses c w w
  | read (n : Nat) : Uses c w (c.read n w).2
  | write (bs : Bytes) : Uses c w (c.write bs w).2
  | flush : Uses c w (c.flush w).2
  | shutdown : Uses c w (c.shutdown w).2

namespace Channel

variable {c : Channel ω} {w w' : ω}

theorem uses_of_read {n : Nat} {r : Poll Bytes} (h : c.read n w = (r, w')) : c.Uses w w' := by
  have hread := Uses.read (c := c) (w := w) n
  rwa [h] at hread

theorem uses_of_write {bs : Bytes} {r : Poll Nat} (h : c.write bs w = (r, w')) : c.Uses w w' := by
  have hwrite := Uses.write (c := c) (w := w) bs
  rwa [h] at hwrite

end Channel

namespace Exchange

/-- What an exchange may be after a step: what follows some result, or the same operation with some progress. -/
inductive Next : Exchange σ α → Exchange σ α → Prop
  | consult (next : σ → Exchange σ α) (update host) : Next (.consult next update) (next host)
  | receiveByte (next : Except Fault UInt8 → Exchange σ α) (r) : Next (.receiveByte next) (next r)
  | receiveRecord (limit soFar) (next : Except Fault Bytes → Exchange σ α) (r) :
    Next (.receiveRecord limit soFar next) (next r)
  | gather (limit soFar more) (next : Except Fault Bytes → Exchange σ α) :
    Next (.receiveRecord limit soFar next) (.receiveRecord limit more next)
  | send (left) (next : Except Fault Unit → Exchange σ α) (r) : Next (.send left next) (next r)
  | sendMore (left rest) (next : Except Fault Unit → Exchange σ α) : Next (.send left next) (.send rest next)
  | flush (next : Except Fault Unit → Exchange σ α) (r) : Next (.flush next) (next r)
  | shutdown (next : Except Fault Unit → Exchange σ α) (r) : Next (.shutdown next) (next r)
  | pour (source held capacity) (next : Except Fault Unit → Exchange σ α) (r) :
    Next (.pour source held capacity next) (next r)
  | pourMore (source source' held held' capacity) (next : Except Fault Unit → Exchange σ α) :
    Next (.pour source held capacity next) (.pour source' held' capacity next)
  | drain (sink held capacity) (next : Except Fault Unit → Exchange σ α) (r) :
    Next (.drain sink held capacity next) (next r)
  | drainMore (sink held held' capacity) (next : Except Fault Unit → Exchange σ α) :
    Next (.drain sink held capacity next) (.drain sink held' capacity next)
  | close (sink) (next : Except Fault Unit → Exchange σ α) (r) : Next (.close sink next) (next r)
  | collect (soFar) (next : Except Fault Unit → Bytes → Exchange σ α) (r bs) :
    Next (.collect soFar next) (next r bs)
  | collectMore (soFar more) (next : Except Fault Unit → Bytes → Exchange σ α) :
    Next (.collect soFar next) (.collect more next)

variable {c : Channel ω} {e e' : Exchange σ α} {w w' : ω} {host host' : σ}

/-- The result of an attempt decides what follows, and the attempt is all that is done. -/
theorem settle_eq_some {next : Except Fault β → Exchange σ α} {p : Poll β × ω}
    (h : settle next host p = some (e', w', host')) : (∃ r, e' = next r) ∧ w' = p.2 := by
  unfold settle at h
  split at h <;> cases h <;> exact ⟨⟨_, rfl⟩, rfl⟩

/-- One step does at most one operation on the connection, and goes on as what follows or makes progress. -/
theorem step_cases (h : e.step c w host = some (e', w', host')) : e.Next e' ∧ c.Uses w w' := by
  cases e with
  | done | stall => cases h
  | consult next update =>
    cases h
    exact ⟨.consult _ _ _, .none⟩
  | receiveByte next =>
    simp only [step] at h
    split at h <;> cases h <;> exact ⟨.receiveByte _ _, Channel.uses_of_read ‹_›⟩
  | receiveRecord limit soFar next =>
    simp only [step] at h
    split at h
    · cases h
      exact ⟨.receiveRecord _ _ _ _, Channel.uses_of_read ‹_›⟩
    · split at h <;> cases h
      · exact ⟨.gather _ _ _ _, Channel.uses_of_read ‹_›⟩
      · exact ⟨.receiveRecord _ _ _ _, Channel.uses_of_read ‹_›⟩
      · exact ⟨.receiveRecord _ _ _ _, Channel.uses_of_read ‹_›⟩
    · cases h
      exact ⟨.receiveRecord _ _ _ _, Channel.uses_of_read ‹_›⟩
    · cases h
  | send left next =>
    cases left with
    | nil =>
      cases h
      exact ⟨.send _ _ _, .none⟩
    | cons b bs =>
      simp only [step] at h
      split at h <;> cases h
      · exact ⟨.send _ _ _, Channel.uses_of_write ‹_›⟩
      · exact ⟨.sendMore _ _ _, Channel.uses_of_write ‹_›⟩
      · exact ⟨.send _ _ _, Channel.uses_of_write ‹_›⟩
  | flush next =>
    obtain ⟨⟨r, rfl⟩, rfl⟩ := settle_eq_some h
    exact ⟨.flush _ _, .flush⟩
  | shutdown next =>
    obtain ⟨⟨r, rfl⟩, rfl⟩ := settle_eq_some h
    exact ⟨.shutdown _ _, .shutdown⟩
  | pour source held capacity next =>
    cases held with
    | nil =>
      simp only [step] at h
      split at h
      · obtain ⟨⟨r, rfl⟩, rfl⟩ := settle_eq_some h
        exact ⟨.pour _ _ _ _ _, .flush⟩
      · cases h
        exact ⟨.pourMore _ _ _ _ _ _, .none⟩
      · cases h
        exact ⟨.pour _ _ _ _ _, .none⟩
      · cases h
    | cons b bs =>
      simp only [step] at h
      split at h <;> cases h
      · exact ⟨.pour _ _ _ _ _, Channel.uses_of_write ‹_›⟩
      · exact ⟨.pourMore _ _ _ _ _ _, Channel.uses_of_write ‹_›⟩
      · exact ⟨.pour _ _ _ _ _, Channel.uses_of_write ‹_›⟩
  | drain sink held capacity next =>
    cases held with
    | nil =>
      simp only [step] at h
      split at h
      · split at h <;> cases h <;> exact ⟨.drain _ _ _ _ _, Channel.uses_of_read ‹_›⟩
      · cases h
        exact ⟨.drainMore _ _ _ _ _, Channel.uses_of_read ‹_›⟩
      · cases h
        exact ⟨.drain _ _ _ _ _, Channel.uses_of_read ‹_›⟩
      · cases h
    | cons b bs =>
      -- bytes that are held go into the sink, so the connection rests
      simp only [step] at h
      split at h <;> cases h
      · exact ⟨.drain _ _ _ _ _, .none⟩
      · exact ⟨.drainMore _ _ _ _ _, .none⟩
      · exact ⟨.drain _ _ _ _ _, .none⟩
  | close sink next =>
    simp only [step] at h
    split at h <;> cases h <;> exact ⟨.close _ _ _, .none⟩
  | collect soFar next =>
    simp only [step] at h
    split at h <;> cases h
    · exact ⟨.collect _ _ _ _, Channel.uses_of_read ‹_›⟩
    · exact ⟨.collectMore _ _ _, Channel.uses_of_read ‹_›⟩
    · exact ⟨.collect _ _ _ _, Channel.uses_of_read ‹_›⟩

/-! ## Answers -/

/-- Every answer that an exchange can come to has a property. -/
def Yields (P : α → Prop) : Exchange σ α → Prop
  | done a => P a
  | stall => True
  | consult next _ => ∀ s, (next s).Yields P
  | receiveByte next => ∀ r, (next r).Yields P
  | receiveRecord _ _ next => ∀ r, (next r).Yields P
  | send _ next | flush next | shutdown next => ∀ r, (next r).Yields P
  | pour _ _ _ next | drain _ _ _ next | close _ next => ∀ r, (next r).Yields P
  | collect _ next => ∀ r bs, (next r bs).Yields P

variable {P : α → Prop}

theorem Next.yields (h : e.Next e') (he : e.Yields P) : e'.Yields P := by
  cases h with
  | gather | sendMore | pourMore | drainMore | collectMore => exact he
  | collect => exact he _ _
  | _ => exact he _

theorem yields_of_forall (e : Exchange σ α) (h : ∀ a, P a) : e.Yields P := by
  induction e with
  | done a => exact h a
  | stall => trivial
  | consult next update ih => exact ih
  | receiveByte next ih | receiveRecord limit g next ih | send bs next ih | flush next ih
  | shutdown next ih | pour source held capacity next ih | drain sink held capacity next ih
  | close sink next ih => exact ih
  | collect soFar next ih => exact ih

/-- What follows may rely on what the first answer has. -/
theorem Yields.andThen {Q : β → Prop} {e : Exchange σ β} {f : β → Exchange σ α} (he : e.Yields Q)
    (h : ∀ b, Q b → (f b).Yields P) : (e.bind f).Yields P := by
  induction e with
  | done b => exact h b he
  | stall => trivial
  | collect soFar next ih => exact fun r bs => ih r bs (he r bs)
  | consult next update ih => exact fun s => ih s (he s)
  | receiveByte next ih | receiveRecord limit g next ih | send bs next ih | flush next ih
  | shutdown next ih | pour source held capacity next ih | drain sink held capacity next ih
  | close sink next ih => exact fun r => ih r (he r)

/-- Unless it fails, a talk comes to what is said of its last part. -/
theorem yields_talk {ε : Type} {Q : β → Prop} {talk : ExceptT ε (Exchange σ) β} {next : β → ExceptT ε (Exchange σ) α}
    (htalk : talk.run.Yields fun r => ∀ b, r = .ok b → Q b)
    (hnext : ∀ b, Q b → (next b).run.Yields fun r => ∀ a, r = .ok a → P a) :
    (talk >>= next).run.Yields fun r => ∀ a, r = .ok a → P a := by
  refine htalk.andThen fun r hr => ?_
  cases r with
  | error f => exact nofun
  | ok b => exact hnext b (hr b rfl)

/-- Whatever a talk comes to, what it hands over is what it makes of it. -/
theorem yields_return {ε : Type} (talk : ExceptT ε (Exchange σ) β) {g : β → α} (h : ∀ b, P (g b)) :
    (talk >>= fun b => (pure (g b) : ExceptT ε (Exchange σ) α)).run.Yields fun r => ∀ a, r = .ok a → P a := by
  have htalk : talk.run.Yields fun r => ∀ b, r = .ok b → True := yields_of_forall _ fun _ _ _ => trivial
  refine yields_talk htalk fun b _ => ?_
  rintro _ ⟨⟩
  exact h b

end Exchange

end RemoteCall
