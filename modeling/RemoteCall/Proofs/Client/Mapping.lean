import RemoteCall.Proofs.Client.Uses
/-!
# Operations whose answers are mapped

What is made of the answers of an operation has no part in its steps: an operation and the same operation with its
answers mapped do the same to the network and the host, through any sequence of moments. So a request that makes
something of the answer of another needs no look at its own steps.
-/

namespace RemoteCall

variable {σ ω α β γ : Type}

namespace Exchange

/-- It makes no difference in which order exchanges are put behind each other. -/
theorem bind_assoc (e : Exchange σ α) (f : α → Exchange σ β) (g : β → Exchange σ γ) :
    (e.bind f).bind g = e.bind fun a => (f a).bind g := by
  induction e with
  | done a | stall => rfl
  | consult next update ih => exact congrArg (consult · update) (funext ih)
  | receiveByte next ih => exact congrArg receiveByte (funext ih)
  | receiveRecord limit soFar next ih => exact congrArg (receiveRecord limit soFar) (funext ih)
  | send left next ih => exact congrArg (send left) (funext ih)
  | flush next ih => exact congrArg flush (funext ih)
  | shutdown next ih => exact congrArg shutdown (funext ih)
  | pour source held capacity next ih => exact congrArg (pour source held capacity) (funext ih)
  | drain sink held capacity next ih => exact congrArg (drain sink held capacity) (funext ih)
  | close sink next ih => exact congrArg (close sink) (funext ih)
  | collect soFar next ih => exact congrArg (collect soFar) (funext fun r => funext (ih r))

/-- What comes of a step, if there was one, with more to do behind it. -/
def andThen (f : α → Exchange σ β) : Option (Exchange σ α × ω × σ) → Option (Exchange σ β × ω × σ) :=
  Option.map fun moved => (moved.1.bind f, moved.2)

theorem settle_bind (next : Except Fault γ → Exchange σ α) (f : α → Exchange σ β) (host : σ) (p : Poll γ × ω) :
    settle (fun r => (next r).bind f) host p = andThen f (settle next host p) := by
  obtain ⟨r, w⟩ := p
  cases r <;> rfl

/-- An exchange that is not done makes its own steps, whatever is to follow its answer. -/
theorem step_bind (c : Channel ω) {e : Exchange σ α} (hopen : e.answer? = none) (f : α → Exchange σ β) (w : ω)
    (host : σ) : (e.bind f).step c w host = andThen f (e.step c w host) := by
  cases e with
  | done a => cases hopen
  | stall | consult => rfl
  | receiveByte next =>
    simp only [Exchange.bind, step]
    split <;> rfl
  | receiveRecord limit soFar next =>
    simp only [Exchange.bind, step]
    split
    · rfl
    · split <;> rfl
    · rfl
    · rfl
  | send left next =>
    cases left with
    | nil => rfl
    | cons b bs =>
      simp only [Exchange.bind, step]
      split <;> rfl
  | flush next => exact settle_bind next f host _
  | shutdown next => exact settle_bind next f host _
  | pour source held capacity next =>
    cases held with
    | nil =>
      simp only [Exchange.bind, step]
      split
      · exact settle_bind next f host _
      all_goals rfl
    | cons b bs =>
      simp only [Exchange.bind, step]
      split <;> rfl
  | drain sink held capacity next =>
    cases held with
    | nil =>
      simp only [Exchange.bind, step]
      split
      · split <;> rfl
      all_goals rfl
    | cons b bs =>
      simp only [Exchange.bind, step]
      split <;> rfl
  | close sink next =>
    simp only [Exchange.bind, step]
    split <;> rfl
  | collect soFar next =>
    simp only [Exchange.bind, step]
    split <;> rfl

/-- Makes something of the answer. -/
def map (g : α → β) (e : Exchange σ α) : Exchange σ β := e.bind fun a => .done (g a)

/-- Makes something of the answer to which a talk leads. -/
def mapTalk (g : α → β) (talk : Exchange σ (Except Fault (Exchange σ α))) :
    Exchange σ (Except Fault (Exchange σ β)) :=
  talk.map (Except.map (map g))

theorem abandon_bind {e : Exchange σ α} (f : α → Exchange σ β) (hopen : e.answer? = none) (host : σ) :
    (e.bind f).abandon host = e.abandon host := by
  cases e with
  | done a => cases hopen
  | _ => rfl

theorem abandon_map (g : α → β) (e : Exchange σ α) (host : σ) : (e.map g).abandon host = e.abandon host := by
  cases hanswer : e.answer? with
  | none => exact abandon_bind _ hanswer host
  | some a =>
    cases e <;> cases hanswer
    rfl

theorem answer?_map (g : α → β) (e : Exchange σ α) : (e.map g).answer? = e.answer?.map g := by
  cases e <;> rfl

end Exchange

open Exchange (mapTalk)

/-- Makes something of the answer. -/
def Stage.map (g : α → β) : Stage σ α → Stage σ β
  | idle talk => idle (.mk (mapTalk g talk.run))
  | dialing ticket talk => dialing ticket (.mk (mapTalk g talk.run))
  | talking connection talk => talking connection (mapTalk g talk)
  | returned connection rest => returned connection (rest.map g)
  | finished answer => finished (g answer)

/-- Makes something of the answers to which a plan leads. -/
def Plan.map (g : α → β) (p : Plan σ α) : Plan σ β := ⟨.mk (mapTalk g p.talk.run), g ∘ p.refuse⟩

namespace Operation

/-- Makes something of the answer. -/
def map (g : α → β) (o : Operation σ α) : Operation σ β := ⟨o.stage.map g, g ∘ o.refuse⟩

theorem answer?_map (g : α → β) (o : Operation σ α) : (o.map g).answer? = o.answer?.map g := by
  obtain ⟨stage, refuse⟩ := o
  cases stage <;> rfl

/-- What comes of a step, if there was one, with its answer mapped. -/
def mapMoved (g : α → β) : Option (Operation σ α × ω × σ) → Option (Operation σ β × ω × σ) :=
  Option.map fun moved => (moved.1.map g, moved.2)

theorem stop_map (g : α → β) (n : Network ω) (o : Operation σ α) (r : Refusal) (w : ω) (host : σ) :
    (o.map g).stop n r w host = ((o.stop n r w host).1.map g, (o.stop n r w host).2) := by
  obtain ⟨stage, refuse⟩ := o
  cases stage with
  | idle talk | dialing ticket talk | returned connection rest | finished a => rfl
  | talking connection talk =>
    have habandon : (mapTalk g talk).abandon host = talk.abandon host := Exchange.abandon_map _ talk host
    show (_, _, (mapTalk g talk).abandon host) = (_, _, talk.abandon host)
    rw [habandon]
    rfl

/-- An operation with its answer mapped makes the steps of the operation. -/
theorem step_map (g : α → β) (n : Network ω) (cancelled : Bool) (o : Operation σ α) (w : ω) (host : σ) :
    (o.map g).step n cancelled w host = mapMoved g (o.step n cancelled w host) := by
  obtain ⟨stage, refuse⟩ := o
  cases stage with
  | idle talk | finished a => cases cancelled <;> rfl
  | dialing ticket talk =>
    cases cancelled with
    | true => rfl
    | false =>
      simp only [step, map, Stage.map, Bool.false_and, Bool.false_eq_true, if_false]
      split <;> rfl
  | talking connection talk =>
    cases cancelled with
    | true =>
      have hstop := stop_map g n ⟨.talking connection talk, refuse⟩ .cancelled w host
      exact congrArg some hstop
    | false =>
      cases hanswer : talk.answer? with
      | none =>
        have hopen : (mapTalk g talk).answer? = none := by
          rw [mapTalk, Exchange.answer?_map, hanswer]
          rfl
        rw [step_talking hanswer]
        show Operation.step n false ⟨.talking connection (mapTalk g talk), g ∘ refuse⟩ w host = _
        rw [step_talking hopen, mapTalk, Exchange.map, Exchange.step_bind _ hanswer]
        cases talk.step (n.dialed connection) w host <;> rfl
      | some r =>
        cases talk <;> cases hanswer
        cases r <;> rfl
  | returned connection rest =>
    cases hanswer : rest.answer? with
    | none =>
      have hopen : (rest.map g).answer? = none := by
        rw [Exchange.answer?_map, hanswer]
        rfl
      rw [step_returned hanswer]
      show Operation.step n cancelled ⟨.returned connection (rest.map g), g ∘ refuse⟩ w host = _
      rw [step_returned hopen, Exchange.map, Exchange.step_bind _ hanswer]
      cases rest.step (n.dialed connection) w host <;> rfl
    | some a =>
      cases rest <;> cases hanswer
      cases cancelled <;> rfl

end Operation

namespace Watched

/-- Makes something of the answer. -/
def map (g : α → β) (s : Watched ω σ α) : Watched ω σ β := ⟨s.operation.map g, s.world, s.host, s.cancelled⟩

theorem next_map (g : α → β) (n : Network ω) (s : Watched ω σ α) (moment : Moment ω σ) :
    (s.map g).next n moment = (s.next n moment).map g := by
  cases moment with
  | step =>
    have hstep : (s.map g).operation.step n.watched (s.map g).cancelled (s.map g).world (s.map g).host =
        Operation.mapMoved g (s.operation.step n.watched s.cancelled s.world s.host) :=
      Operation.step_map g n.watched s.cancelled s.operation s.world s.host
    simp only [next, hstep]
    cases s.operation.step n.watched s.cancelled s.world s.host <;> rfl
  | fire | others => rfl

/-- Whatever happens, an operation with its answer mapped does what the operation does. -/
theorem after_map (g : α → β) (n : Network ω) (s : Watched ω σ α) (moments : List (Moment ω σ)) :
    (s.map g).after n moments = (s.after n moments).map g := by
  induction moments generalizing s with
  | nil => rfl
  | cons moment moments ih =>
    show ((s.map g).next n moment).after n moments = ((s.next n moment).after n moments).map g
    rw [next_map, ih]

theorem start_map (g : α → β) (p : Plan σ α) (w : ω) (host : σ) (cancelled : Bool) :
    start (p.map g) w host cancelled = (start p w host cancelled).map g := rfl

theorem answer?_map (g : α → β) (s : Watched ω σ α) : (s.map g).answer? = s.answer?.map g :=
  s.operation.answer?_map g

end Watched

end RemoteCall
