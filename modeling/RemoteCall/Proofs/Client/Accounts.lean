import RemoteCall.Network.Scripted
import RemoteCall.Proofs.Client.Calling
import RemoteCall.Proofs.Client.Uses
/-!
# Accounts of the connections of a client

A request that makes a call dials at most once, and not at all if its class is refused or its token has fired.
When it is over, the connection it got is with its caller or was given up; and from the moment its token fires,
unless it was over by then, it gives up what it holds and does nothing else. All of this holds on every network,
whatever others do to it, and whenever the token fires.
-/

namespace RemoteCall

variable {ω σ α : Type}

namespace Watched

/-- Whether a note is of a connection that a dial opened. -/
def opens : Use → Bool
  | .opened _ => true
  | _ => false

/-- The accounts of an operation that may hand its connection over, or may not. At most one dial, and at most one
connection of it. While the operation is under way or its caller has the connection, nothing was given up; when all
is over, what was opened was given up, and once. -/
structure Accounted (mayHandOver : Prop) (s : Watched ω σ α) : Prop where
  dials : s.uses.count .dial ≤ 1
  opened : s.uses.countP opens ≤ s.uses.count .dial
  kept : s.operation.isCancellable = true → ∀ connection, .released connection ∉ s.uses
  handed : ∀ connection rest, s.operation.stage = .returned connection rest →
    .opened connection ∈ s.uses ∧ (∀ other, .released other ∉ s.uses) ∧ (mayHandOver ∨ ∃ a, rest = .done a)
  closed : ∀ a, s.operation.stage = .finished a →
    ∀ connection, s.uses.count (.released connection) = s.uses.count (.opened connection)

variable {s : Watched ω σ α} {connection : Nat} {uses : List Use}

theorem count_of_used (h : ∀ u ∈ uses, u = .used connection) {u : Use} (hu : u ≠ .used connection) :
    uses.count u = 0 :=
  List.count_eq_zero.2 fun hmem => hu (h u hmem)

theorem countP_opens_of_used (h : ∀ u ∈ uses, u = .used connection) : uses.countP opens = 0 :=
  List.countP_eq_zero.2 fun u hu => by
    rw [h u hu]
    exact Bool.false_ne_true

/-- A connection that was only used was not released. -/
theorem not_released_of_used (h : ∀ u ∈ uses, u = .used connection) (other : Nat) :
    .released other ∉ Use.dial :: .opened connection :: uses := by
  simpa using fun hmem => nomatch h _ hmem

/-- The accounts as the ledger has them. -/
theorem accounted_of_ledger {P : Exchange σ α → Prop} {mayHandOver : Prop}
    (hP : ∀ rest, P rest → mayHandOver ∨ ∃ a, rest = .done a) (h : Ledger P s.operation.stage s.uses) :
    s.Accounted mayHandOver := by
  obtain ⟨⟨stage, refuse⟩, ⟨w, noted⟩, host, cancelled⟩ := s
  change Ledger P stage noted at h
  cases h with
  | idle =>
    exact ⟨Nat.zero_le 1, Nat.le_refl 0, fun _ _ => nofun, nofun, nofun⟩
  | dialing ticket =>
    exact ⟨Nat.le_refl 1, Nat.zero_le 1, fun _ _ => by simp [uses], nofun, nofun⟩
  | talking connection _ hused =>
    refine ⟨?_, ?_, fun _ => not_released_of_used hused, nofun, nofun⟩
    · simp [uses, count_of_used hused (u := .dial) nofun]
    · simp [uses, List.countP_cons, opens, countP_opens_of_used hused]
  | returned connection hrest hused =>
    refine ⟨?_, ?_, nofun, fun other rest hstage => ?_, nofun⟩
    · simp [uses, count_of_used hused (u := .dial) nofun]
    · simp [uses, List.countP_cons, opens, countP_opens_of_used hused]
    · cases hstage
      exact ⟨by simp [uses], not_released_of_used hused, hP _ hrest⟩
  | untouched =>
    exact ⟨Nat.zero_le 1, Nat.le_refl 0, nofun, nofun, fun _ _ _ => rfl⟩
  | unreached =>
    exact ⟨Nat.le_refl 1, Nat.zero_le 1, nofun, nofun, fun _ _ _ => rfl⟩
  | dropped =>
    exact ⟨Nat.le_refl 1, Nat.zero_le 1, nofun, nofun, fun _ _ _ => rfl⟩
  | released connection _ hused =>
    refine ⟨?_, ?_, nofun, nofun, fun _ _ other => ?_⟩
    · simp [uses, count_of_used hused (u := .dial) nofun]
    · simp [uses, List.countP_cons, opens, countP_opens_of_used hused]
    · have hopened := count_of_used hused (u := .opened other) nofun
      have hreleased := count_of_used hused (u := .released other) nofun
      simp [uses, List.count_cons, hopened, hreleased]

/-! ## Requests -/

/-- An operation has come to its end but for a step: whatever happens from here on, it gives up what it holds and
does nothing else to the network, it answers with `a` or not yet, and it does as soon as it makes a step. -/
structure Ends (n : Network ω) (s : Watched ω σ α) (a : α) : Prop where
  uses : ∀ moments, ∃ more, (s.after n moments).uses = s.uses ++ more ∧ ∀ u ∈ more, u.GivesUp
  answers : ∀ moments r, (s.after n moments).answer? = some r → r = a
  steps : ∀ moments, .step ∈ moments → (s.after n moments).answer? = some a

theorem Closing.ends {a : α} (h : Closing a s.uses s) (n : Network ω) : Ends n s a where
  uses moments := (h.after n moments).uses_eq
  answers moments _ hr := (h.after n moments).answer_eq hr
  steps _ hstep := h.finished_of_step n hstep

end Watched

namespace Request

open Exchange Watched

variable {c : Client} {request : Request} {name : String} {inputs : List Value} {cls : CallClass}

/-- A request hands its connection over only if it calls a method that sends or takes bytes. -/
theorem yields_plan (h : request.callee? = some (name, inputs, cls)) {plan : Plan σ Response}
    (hplan : request.plan c = .ok plan) :
    plan.refuse .cancelled = request.refusal .cancelled ∧
      plan.talk.run.Yields fun r => ∀ rest, r = .ok rest → cls ≠ .normal ∨ ∃ a, rest = .done a := by
  have hclass : c.expectClass name cls = .ok () :=
    Client.expectClass_eq_ok.2 ((plan_isOk_iff h).1 ⟨plan, hplan⟩)
  cases request <;> cases h
  · simp only [Request.plan, Client.callValues, hclass] at hplan
    cases hplan
    exact ⟨rfl, Exchange.yields_return _ fun _ => .inr ⟨_, rfl⟩⟩
  · simp only [Request.plan, Client.callValues, hclass] at hplan
    cases hplan
    exact ⟨rfl, Exchange.yields_return _ fun _ => .inr ⟨_, rfl⟩⟩
  · simp only [Request.plan, Client.callRead, hclass] at hplan
    cases hplan
    exact ⟨rfl, Exchange.yields_return _ fun _ => .inl (by decide)⟩
  · simp only [Request.plan, Client.callWrite, hclass] at hplan
    cases hplan
    exact ⟨rfl, Exchange.yields_return _ fun _ => .inl (by decide)⟩

/-- The connection of a call is accounted for. A request whose class is refused is refused with that, whether its
token has fired or not, and dials nothing. Otherwise, on every network and whatever others do meanwhile, it keeps
its accounts; it dials nothing if its token has fired from the start; when its token fires before it hands anything
over, it only gives up what it holds and is cancelled, which leaves the places of its caller as they are; and once
the reply of a normal method is there, it only gives up what it holds. -/
theorem connections_accounted (h : request.callee? = some (name, inputs, cls)) :
    (∀ e, c.expectClass name cls = .error e → ∀ {ω : Type} (w : RequestWorker ω σ) (token? : Option String),
      RequestWorker.start c ⟨.request request, token?, false⟩ w = (.error (.response (request.refusal e)), w)) ∧
    (c.expectClass name cls = .ok () → ∃ plan : Plan σ Response, request.plan c = .ok plan ∧
      ∀ {ω : Type} (n : Network ω) (w : ω) (host : σ) (cancelled : Bool) (moments : List (Moment ω σ)),
        let start := Watched.start plan w host cancelled
        let s := start.after n moments
        s.Accounted (cls ≠ .normal) ∧
        (cancelled = true → .dial ∉ s.uses ∧ start.Ends n (request.refusal .cancelled)) ∧
        (s.operation.isCancellable = true → (s.next n .fire).Ends n (request.refusal .cancelled)) ∧
        (cls = .normal → s.operation.isCancellable = false → ∃ r, s.Ends n r)) ∧
    ∀ e, request.refusal e = match request with
      | .call _ _ places => .called (.error e) places
      | _ => .refused e := by
  refine ⟨fun e he ω w token? => start_of_plan_error ((plan_eq_error_iff h).2 he) token?, fun hclass => ?_,
    fun e => by cases request <;> rfl⟩
  obtain ⟨plan, hplan⟩ := (plan_isOk_iff (σ := σ) h).2 (Client.expectClass_eq_ok.1 hclass)
  obtain ⟨hrefuse, htalk⟩ := yields_plan h hplan
  refine ⟨plan, hplan, fun n w host cancelled moments => ?_⟩
  intro start s
  let P : Exchange σ Response → Prop := fun rest => cls ≠ .normal ∨ ∃ a, rest = .done a
  have hP : ∀ rest rest', P rest → rest.Next rest' → P rest' := by
    rintro rest rest' (hclass | ⟨a, rfl⟩) hnext
    · exact .inl hclass
    · cases hnext
  have hledger : Ledger P s.operation.stage s.uses := ledger_after hP (.idle htalk) moments
  have hcancelled : s.operation.refuse .cancelled = request.refusal .cancelled := by
    rw [refuse_after]
    exact hrefuse
  refine ⟨accounted_of_ledger (fun _ => id) hledger, fun hfired => ?_, fun hstage => ?_,
    fun hnormal hstage => ?_⟩
  · have hends : start.Ends n (request.refusal .cancelled) := Closing.ends (.fired hfired rfl hrefuse rfl) n
    obtain ⟨more, huses, hmore⟩ := hends.uses moments
    refine ⟨fun hdial => ?_, hends⟩
    rw [huses] at hdial
    exact hmore _ hdial
  · exact Closing.ends (s := s.next n .fire) (.fired rfl hstage hcancelled rfl) n
  · -- a normal method hands nothing over but its reply
    generalize hs : s.operation.stage = stage, s.uses = noted at hledger
    unfold Operation.isCancellable at hstage
    rw [hs] at hstage
    cases hledger with
    | idle | dialing | talking => cases hstage
    | returned connection hrest =>
      obtain ⟨r, rfl⟩ := hrest.resolve_left fun hne => hne hnormal
      exact ⟨r, Closing.ends (.replied hs rfl) n⟩
    | untouched r | unreached r | dropped r | released _ r =>
      exact ⟨r, Closing.ends (.finished hs (List.append_nil _).symm nofun) n⟩

/-- A token that fires when the connection is there: the call is cancelled, and the connection is given up unused. -/
theorem connections_accounted_cancelled :
    let c : Client := ⟨SortedMap.empty.insert "a.b" .readStream, 16⟩
    let net : Network ScriptedNet := ScriptedNet.network
    ∃ plan : Plan Unit Response, (Request.read "a.b" []).plan c = .ok plan ∧
      let s := (Watched.start plan (.ofOffers [.ok (.ofSupply (.ofBytes [7]))] none) () false).after net [.step, .step]
      let s' := (s.next net .fire).after net [.step]
      s.Accounted (CallClass.readStream ≠ .normal) ∧ s'.answer? = some (.refused .cancelled) ∧
        s'.uses = [.dial, .opened 0, .released 0] := by
  intro c net
  have hcallee : (Request.read "a.b" []).callee? = some ("a.b", [], .readStream) := rfl
  have hknown : c.classOf? "a.b" = some .readStream := SortedMap.find?_insert_self _ _ _
  obtain ⟨-, haccounts, -⟩ := connections_accounted (σ := Unit) (c := c) hcallee
  obtain ⟨plan, hplan, hruns⟩ := haccounts (Client.expectClass_eq_ok.2 hknown)
  obtain ⟨haccounted, -, hends, -⟩ :=
    hruns net (.ofOffers [.ok (.ofSupply (.ofBytes [7]))] none) () false [.step, .step]
  exact ⟨plan, hplan, haccounted, (hends rfl).steps [.step] (List.mem_singleton.2 rfl), rfl⟩

end Request

end RemoteCall
