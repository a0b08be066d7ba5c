import RemoteCall.Proofs.Client.Steps
/-!
# Watching an operation

A `watched` network behaves as before and notes what a client does to it: dials, what they open, and every use and
release of a connection. An operation on it is followed through any sequence of moments: it makes a step, its token
fires, or others change the network and the host as they like. `Ledger` says what has been noted by which stage.
-/

namespace RemoteCall

variable {ω σ α : Type}

/-- What a client does to a network. -/
inductive Use
  | dial
  /-- The dial got through. -/
  | opened (connection : Nat)
  /-- The dial was given up. -/
  | dropped
  /-- A connection was read from, written to, flushed or shut down. -/
  | used (connection : Nat)
  | released (connection : Nat)
deriving DecidableEq

/-- The same channel, with a note of every use. -/
def Channel.watched (c : Channel ω) (connection : Nat) : Channel (ω × List Use) where
  read n w := ((c.read n w.1).1, (c.read n w.1).2, w.2 ++ [.used connection])
  write bs w := ((c.write bs w.1).1, (c.write bs w.1).2, w.2 ++ [.used connection])
  flush w := ((c.flush w.1).1, (c.flush w.1).2, w.2 ++ [.used connection])
  shutdown w := ((c.shutdown w.1).1, (c.shutdown w.1).2, w.2 ++ [.used connection])
  release w := (c.release w.1, w.2 ++ [.released connection])

/-- The same network, with notes of what its clients do. -/
def Network.watched (n : Network ω) : Network (ω × List Use) where
  startDial w := ((n.startDial w.1).1, (n.startDial w.1).2, w.2 ++ [.dial])
  pollDial ticket w :=
    match n.pollDial ticket w.1 with
    | (.ready connection, w') => (.ready connection, w', w.2 ++ [.opened connection])
    | (.failed f, w') => (.failed f, w', w.2)
    | (.pending, w') => (.pending, w', w.2)
  dropDial ticket w := (n.dropDial ticket w.1, w.2 ++ [.dropped])
  startAccept w := ((n.startAccept w.1).1, (n.startAccept w.1).2, w.2)
  pollAccept ticket w := ((n.pollAccept ticket w.1).1, (n.pollAccept ticket w.1).2, w.2)
  dropAccept ticket w := (n.dropAccept ticket w.1, w.2)
  dialed connection := (n.dialed connection).watched connection
  accepted connection := (n.accepted connection).lift Prod.fst fun w' w => (w', w.2)
  peer := n.peer
  turnLength? := n.turnLength?

/-- What happens next: an operation makes a step if it can, or its token fires, or others do something. -/
inductive Moment (ω σ : Type)
  | step
  | fire
  | others (changeWorld : ω → ω) (changeHost : σ → σ)

/-- An operation on a watched network. -/
structure Watched (ω σ α : Type) where
  operation : Operation σ α
  world : ω × List Use
  host : σ
  /-- Whether the token has fired. -/
  cancelled : Bool

namespace Watched

/-- An operation begins. -/
def start (p : Plan σ α) (w : ω) (host : σ) (cancelled : Bool) : Watched ω σ α := ⟨.start p, (w, []), host, cancelled⟩

/-- What has been noted so far. -/
def uses (s : Watched ω σ α) : List Use := s.world.2

def answer? (s : Watched ω σ α) : Option α := s.operation.answer?

/-- What comes of a moment; a step that the operation cannot make is none. -/
def next (n : Network ω) (s : Watched ω σ α) : Moment ω σ → Watched ω σ α
  | .step =>
    match s.operation.step n.watched s.cancelled s.world s.host with
    | some (operation, world, host) => { s with operation, world, host }
    | none => s
  | .fire => { s with cancelled := true }
  | .others changeWorld changeHost =>
    { s with world := (changeWorld s.world.1, s.world.2), host := changeHost s.host }

/-- What comes of some moments, one after another. -/
def after (n : Network ω) (s : Watched ω σ α) (moments : List (Moment ω σ)) : Watched ω σ α :=
  moments.foldl (next n) s

end Watched

/-! ## The ledger -/

open Operation (Moves)

variable {n : Network ω} {w w' : ω × List Use}

/-- A use of a connection is noted as such. -/
theorem Channel.Uses.watched {connection : Nat} (h : (n.watched.dialed connection).Uses w w') :
    ∃ more, w'.2 = w.2 ++ more ∧ ∀ u ∈ more, u = .used connection := by
  cases h with
  | none => exact ⟨[], (List.append_nil _).symm, nofun⟩
  | read | write | flush | shutdown => exact ⟨[.used connection], rfl, by simp⟩

/-- What has been noted when an operation is at a stage. What is handed over has a property that its steps keep. -/
inductive Ledger (P : Exchange σ α → Prop) : Stage σ α → List Use → Prop
  | idle {talk : Attempt σ (Exchange σ α)} (htalk : talk.run.Yields fun r => ∀ rest, r = .ok rest → P rest) :
    Ledger P (.idle talk) []
  | dialing (ticket) {talk : Attempt σ (Exchange σ α)}
    (htalk : talk.run.Yields fun r => ∀ rest, r = .ok rest → P rest) : Ledger P (.dialing ticket talk) [.dial]
  | talking (connection) {talk : Exchange σ (Except Fault (Exchange σ α))} {uses}
    (htalk : talk.Yields fun r => ∀ rest, r = .ok rest → P rest) (huses : ∀ u ∈ uses, u = .used connection) :
    Ledger P (.talking connection talk) (.dial :: .opened connection :: uses)
  | returned (connection) {rest uses} (hrest : P rest) (huses : ∀ u ∈ uses, u = .used connection) :
    Ledger P (.returned connection rest) (.dial :: .opened connection :: uses)
  | untouched (a) : Ledger P (.finished a) []
  | unreached (a) : Ledger P (.finished a) [.dial]
  | dropped (a) : Ledger P (.finished a) [.dial, .dropped]
  | released (connection a) {uses} (huses : ∀ u ∈ uses, u = .used connection) :
    Ledger P (.finished a) (.dial :: .opened connection :: (uses ++ [.released connection]))

/-- Every step keeps the ledger. -/
theorem Ledger.moves {P : Exchange σ α → Prop} (hP : ∀ rest rest', P rest → rest.Next rest' → P rest')
    {refuse : Refusal → α} {cancelled : Bool} {stage stage' : Stage σ α} (h : Ledger P stage w.2)
    (hmoves : Moves n.watched refuse cancelled stage w stage' w') : Ledger P stage' w'.2 := by
  obtain ⟨w, noted⟩ := w
  cases hmoves with
  | cancel =>
    cases h
    exact .untouched _
  | cancelDial =>
    cases h
    exact .dropped _
  | cancelTalk connection =>
    cases h with
    | talking _ _ huses => exact .released connection _ huses
  | dial =>
    cases h with
    | idle htalk => exact .dialing _ htalk
  | @connect ticket _ connection w' talk hpoll =>
    cases h with
    | dialing _ htalk =>
      -- a poll is noted only if it brought a connection
      have hnoted : w'.2 = [.dial, .opened connection] := by
        simp only [Network.watched] at hpoll
        split at hpoll <;> cases hpoll
        rfl
      rw [hnoted]
      exact .talking connection htalk nofun
  | @dialFailed ticket _ f w' talk hpoll =>
    cases h with
    | dialing _ htalk =>
      have hnoted : w'.2 = [.dial] := by
        simp only [Network.watched] at hpoll
        split at hpoll <;> cases hpoll
        rfl
      rw [hnoted]
      exact .unreached _
  | talk connection hnext huses =>
    cases h with
    | talking _ htalk hnoted =>
      obtain ⟨more, heq, hmore⟩ := huses.watched
      rw [heq]
      exact .talking connection (hnext.yields htalk) fun u hu => (List.mem_append.1 hu).elim (hnoted u) (hmore u)
  | handOver connection rest =>
    cases h with
    | talking _ htalk hnoted => exact .returned connection (htalk rest rfl) hnoted
  | talkFailed connection f =>
    cases h with
    | talking _ _ hnoted => exact .released connection _ hnoted
  | use _ connection hnext huses =>
    cases h with
    | returned _ hrest hnoted =>
      obtain ⟨more, heq, hmore⟩ := huses.watched
      rw [heq]
      exact .returned connection (hP _ _ hrest hnext) fun u hu =>
        (List.mem_append.1 hu).elim (hnoted u) (hmore u)
  | giveUp _ connection a =>
    cases h with
    | returned _ _ hnoted => exact .released connection a hnoted

/-! ## Whole runs -/

namespace Watched

variable {s : Watched ω σ α} {a : α} {noted : List Use}

/-- A step is one of those of the operation, or none. -/
theorem next_step_cases (n : Network ω) (s : Watched ω σ α) : s.next n .step = s ∨
    ∃ o w host, s.next n .step = ⟨o, w, host, s.cancelled⟩ ∧ o.refuse = s.operation.refuse ∧
      Moves n.watched s.operation.refuse s.cancelled s.operation.stage s.world o.stage w := by
  unfold next
  cases h : s.operation.step n.watched s.cancelled s.world s.host with
  | none => exact .inl rfl
  | some moved =>
    obtain ⟨o, w, host⟩ := moved
    exact .inr ⟨o, w, host, rfl, Operation.step_cases h⟩

/-- What every moment keeps holds of whole runs. -/
theorem after_induction {I : Watched ω σ α → Prop} (hnext : ∀ s moment, I s → I (s.next n moment)) (hs : I s)
    (moments : List (Moment ω σ)) : I (s.after n moments) := by
  induction moments generalizing s with
  | nil => exact hs
  | cons moment moments ih => exact ih (hnext s moment hs)

/-- The ledger is kept, whatever happens at any moment. -/
theorem ledger_after {P : Exchange σ α → Prop} (hP : ∀ rest rest', P rest → rest.Next rest' → P rest')
    (hs : Ledger P s.operation.stage s.uses) (moments : List (Moment ω σ)) :
    Ledger P (s.after n moments).operation.stage (s.after n moments).uses := by
  refine after_induction (n := n) (I := fun s => Ledger P s.operation.stage s.uses) ?_ hs moments
  intro s moment hs
  cases moment with
  | step =>
    rcases s.next_step_cases n with heq | ⟨o, w, host, heq, -, hmoves⟩
    · rw [heq]
      exact hs
    · rw [heq]
      exact hs.moves hP hmoves
  | fire | others => exact hs

theorem refuse_after (moments : List (Moment ω σ)) :
    (s.after n moments).operation.refuse = s.operation.refuse := by
  refine after_induction (n := n) (I := fun s' => s'.operation.refuse = s.operation.refuse) ?_ rfl moments
  intro s' moment hs'
  cases moment with
  | step =>
    rcases s'.next_step_cases n with heq | ⟨o, w, host, heq, hrefuse, -⟩
    · rw [heq]
      exact hs'
    · rw [heq]
      exact hrefuse.trans hs'
  | fire | others => exact hs'

end Watched

/-! ## Operations that are as good as over -/

/-- Whether a note is of something given up. -/
def Use.GivesUp : Use → Prop
  | dropped | released _ => True
  | _ => False

namespace Watched

/-- An operation that is as good as over, with the answer `a`: its token has fired before it handed anything over, or
its reply is there, or it is finished. It may still give up what it holds, and does nothing else. -/
inductive Closing (a : α) (noted : List Use) (s : Watched ω σ α) : Prop
  | fired (hfired : s.cancelled = true) (hstage : s.operation.isCancellable = true)
    (ha : s.operation.refuse .cancelled = a) (huses : s.uses = noted)
  | replied {connection} (hstage : s.operation.stage = .returned connection (.done a)) (huses : s.uses = noted)
  | finished (hstage : s.operation.stage = .finished a) {more} (huses : s.uses = noted ++ more)
    (hmore : ∀ u ∈ more, u.GivesUp)

variable {s : Watched ω σ α} {a : α} {noted : List Use}

/-- What was noted since is of what it gave up. -/
theorem Closing.uses_eq (h : Closing a noted s) : ∃ more, s.uses = noted ++ more ∧ ∀ u ∈ more, u.GivesUp := by
  cases h with
  | fired _ _ _ huses | replied _ huses => exact ⟨[], by rw [huses, List.append_nil], nofun⟩
  | finished _ huses hmore => exact ⟨_, huses, hmore⟩

theorem Closing.answer_eq (h : Closing a noted s) {r : α} (hr : s.answer? = some r) : r = a := by
  unfold answer? Operation.answer? at hr
  cases h with
  | fired _ hstage =>
    unfold Operation.isCancellable at hstage
    split at hr
    · rename_i hfinished
      rw [hfinished] at hstage
      cases hstage
    · cases hr
  | replied hstage =>
    rw [hstage] at hr
    cases hr
  | finished hstage =>
    rw [hstage] at hr
    cases hr
    rfl

/-- The next step ends it. -/
theorem Closing.next_step (h : Closing a noted s) (n : Network ω) :
    (s.next n .step).operation.stage = .finished a ∧
      ∃ more, (s.next n .step).uses = noted ++ more ∧ ∀ u ∈ more, u.GivesUp := by
  obtain ⟨⟨stage, refuse⟩, ⟨w, uses⟩, host, cancelled⟩ := s
  cases h with
  | fired hfired hstage ha huses =>
    cases hfired
    cases huses
    cases ha
    cases stage with
    | idle talk => exact ⟨rfl, [], (List.append_nil _).symm, nofun⟩
    | dialing ticket talk => exact ⟨rfl, [.dropped], rfl, by simp [Use.GivesUp]⟩
    | talking connection talk => exact ⟨rfl, [.released connection], rfl, by simp [Use.GivesUp]⟩
    | returned | finished => cases hstage
  | @replied connection hstage huses =>
    cases hstage
    cases huses
    cases cancelled <;> exact ⟨rfl, [.released connection], rfl, by simp [Use.GivesUp]⟩
  | @finished hstage more huses hmore =>
    cases hstage
    cases huses
    cases cancelled <;> exact ⟨rfl, more, rfl, hmore⟩

/-- Nothing keeps it from ending so. -/
theorem Closing.next (h : Closing a noted s) (n : Network ω) (moment : Moment ω σ) :
    Closing a noted (s.next n moment) := by
  cases moment with
  | step =>
    obtain ⟨hstage, more, huses, hmore⟩ := h.next_step n
    exact .finished hstage huses hmore
  | fire =>
    cases h with
    | fired _ hstage ha huses => exact .fired rfl hstage ha huses
    | replied hstage huses => exact .replied hstage huses
    | finished hstage huses hmore => exact .finished hstage huses hmore
  | others =>
    cases h with
    | fired hfired hstage ha huses => exact .fired hfired hstage ha huses
    | replied hstage huses => exact .replied hstage huses
    | finished hstage huses hmore => exact .finished hstage huses hmore

theorem Closing.after (h : Closing a noted s) (n : Network ω) (moments : List (Moment ω σ)) :
    Closing a noted (s.after n moments) :=
  after_induction (fun _ moment hs => hs.next n moment) h moments

/-- What is finished stays so. -/
theorem stage_after_of_finished (n : Network ω) (hs : s.operation.stage = .finished a)
    (moments : List (Moment ω σ)) : (s.after n moments).operation.stage = .finished a := by
  refine after_induction (n := n) (I := fun s => s.operation.stage = .finished a) ?_ hs moments
  intro s moment hs
  cases moment with
  | step =>
    have hclosing : Closing a s.uses s := .finished hs (List.append_nil _).symm nofun
    exact (hclosing.next_step n).1
  | fire | others => exact hs

/-- Once a step was made, it is finished. -/
theorem Closing.finished_of_step (h : Closing a noted s) (n : Network ω) {moments : List (Moment ω σ)}
    (hstep : Moment.step ∈ moments) : (s.after n moments).answer? = some a := by
  -- the first step ends it, and nothing later changes that
  obtain ⟨earlier, later, rfl⟩ := List.append_of_mem hstep
  have hfinished := stage_after_of_finished n ((h.after n earlier).next_step n).1 later
  unfold Watched.after at hfinished ⊢
  rw [List.foldl_append, List.foldl_cons]
  show Operation.answer? _ = some a
  unfold Operation.answer?
  rw [hfinished]

end Watched

end RemoteCall
