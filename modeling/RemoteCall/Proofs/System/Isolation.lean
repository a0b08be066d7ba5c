import RemoteCall.Proofs.Call.Normal
import RemoteCall.Proofs.System.Separation
/-!
# Isolation

A server accepts connections from a network in memory, and any number of operations dial there side by side. What one
of them and its connection do in an interleaving of all steps is what they do in a system that is nothing but this
operation and this connection: `System.calls_isolated`.
-/

namespace RemoteCall

variable {ω σ τ α : Type}

/-- The response is a reply of just this boolean. -/
def Response.repliesWith (b : Bool) : Response → Bool
  | replied [.bool b'] => b' == b
  | _ => false

theorem Response.any_repliesWith_iff {r? : Option Response} {b : Bool} :
    r?.any (repliesWith b) = true ↔ r? = some (.replied [.bool b]) := by
  constructor
  · rw [Option.any_eq_true]
    rintro ⟨r, rfl, hr⟩
    unfold repliesWith at hr
    split at hr
    · rw [beq_iff_eq.1 hr]
    · cases hr
  · rintro rfl
    exact beq_self_eq_true b

namespace System

/-- A server that accepts connections on a network in memory, and operations that are carried out there. -/
def concurrent (settings : Settings (Array τ)) (capacity token : Nat) (plans : List (Plan (Array τ) α)) :
    System PipeNet (Array τ) α :=
  plans.foldl (fun s plan => (s.submit plan none).2)
    ((initial settings PipeNet.network (.ofCapacity capacity) #[]).callServer (.accept token)).2

/-- The connection that an operation comes to have in the course of some steps. -/
def dialed? (s : System ω σ α) (i : Nat) : List Part → Option Nat
  | [] => s.connection? i
  | p :: ps => (s.connection? i).or ((s.advance p).bind fun s => s.dialed? i ps)

variable {settings : Settings (Array τ)} {capacity token : Nat} {plans : List (Plan (Array τ) α)} {plan : Plan (Array τ) α}
  {dialed sinks : Nat → Option Nat} {own : Nat → System Duplex (Array τ) α} {s s' : System PipeNet (Array τ) α}
  {p : Part} {ps : List Part} {i n : Nat}

/-! ## Whole interleavings -/

theorem connection?_or_dialed? (s : System ω σ α) (i : Nat) (ps : List Part) :
    (s.connection? i).or (s.dialed? i ps) = s.dialed? i ps := by
  cases ps with
  | nil => exact Option.or_self
  | cons p ps =>
    rw [dialed?, ← Option.or_assoc, Option.or_self]

/-- A step is the same to an operation that has yet to dial, whichever connection it comes to later. -/
theorem Separate.onto_eq (h : Separate settings capacity token dialed sinks own s) (hs : s.advance p = some s')
    {later : Nat → Option Nat} {bound : Nat} (hlater : Numbered bound later)
    (hkept : ∀ i n, dialed i = some n → later i = some n) (i : Nat) : p.onto i (later i) = p.onto i (dialed i) := by
  cases p with
  | client j | serverCall j => rfl
  | served n =>
    obtain ⟨-, j, -, -, hj⟩ := h.dialer_of_served hs
    by_cases hi : dialed i = some n
    · rw [hkept i n hi, hi]
    · have hi' : later i ≠ some n := by
        intro hi'
        rw [hlater.inj hi' (hkept j n hj)] at hi
        exact hi hj
      simp only [Part.onto, if_neg hi, if_neg hi']

/-- What an interleaving is to each operation is a run of its own system. -/
theorem Separate.follow (h : Separate settings capacity token dialed sinks own s) (hs : s.follow ps = some s') :
    s'.clients.size = s.clients.size ∧
    ∃ sinks' own', Separate settings capacity token (fun i => (dialed i).or (s.dialed? i ps)) sinks' own' s' ∧
      ∀ i, (own i).follow (ps.filterMap (·.onto i ((dialed i).or (s.dialed? i ps)))) = some (own' i) := by
  induction ps generalizing s dialed sinks own with
  | nil =>
    cases hs
    have hdialed : (fun i => (dialed i).or (s'.dialed? i [])) = dialed := funext h.dialed_or_connection?
    rw [hdialed]
    exact ⟨rfl, sinks, own, h, fun i => rfl⟩
  | cons p ps ih =>
    obtain ⟨s₁, hadvance, hrest⟩ := Option.bind_eq_some_iff.1 hs
    obtain ⟨hclients₁, dialed₁, sinks₁, own₁, hseparate₁, hdialed₁, hown₁⟩ := h.advance hadvance
    obtain ⟨hclients', sinks', own', hseparate', hown'⟩ := ih hseparate₁ hrest
    have hdialed : ∀ i, (dialed i).or (s.dialed? i (p :: ps)) = (dialed₁ i).or (s₁.dialed? i ps) := by
      intro i
      rw [dialed?, hadvance, Option.bind_some, ← Option.or_assoc, h.dialed_or_connection?, hdialed₁, Option.or_assoc,
        connection?_or_dialed?]
    refine ⟨hclients'.trans hclients₁, sinks', own', ?_, fun i => ?_⟩
    · rw [funext hdialed]
      exact hseparate'
    · -- a connection that was served has its dialer already, so what is dialed later makes no difference to the step
      have honto : p.onto i ((dialed₁ i).or (s₁.dialed? i ps)) = p.onto i (dialed₁ i) := by
        have hbefore := h.onto_eq hadvance hseparate'.dialed_numbered (fun i n hi => by rw [hdialed₁, hi]; rfl) i
        have hafter := h.onto_eq hadvance hseparate₁.dialed_numbered (fun i n hi => by rw [hdialed₁, hi]; rfl) i
        exact hbefore.trans hafter.symm
      have hsplit : ∀ f : Part → Option Part, (p :: ps).filterMap f = (f p).toList ++ ps.filterMap f := by
        intro f
        rw [List.filterMap_cons]
        cases f p <;> rfl
      rw [hdialed, hsplit, follow_append, honto, hown₁, Option.bind_some, hown']

/-! ## The beginning -/

theorem foldl_submit (plans : List (Plan σ α)) (s : System ω σ α) :
    plans.foldl (fun s plan => (s.submit plan none).2) s =
      { s with clients := s.clients ++ (plans.map fun plan => ⟨.start plan, none⟩).toArray } := by
  induction plans generalizing s with
  | nil => simp
  | cons plan plans ih =>
    rw [List.foldl_cons, ih]
    simp [submit]

theorem clients_concurrent (settings : Settings (Array τ)) (capacity token : Nat) (plans : List (Plan (Array τ) α)) :
    (concurrent settings capacity token plans).clients = (plans.map fun plan => ⟨.start plan, none⟩).toArray := by
  rw [concurrent, foldl_submit]
  exact Array.empty_append

theorem size_clients_concurrent (settings : Settings (Array τ)) (capacity token : Nat)
    (plans : List (Plan (Array τ) α)) : (concurrent settings capacity token plans).clients.size = plans.length := by
  rw [clients_concurrent, List.size_toArray, List.length_map]

/-- An operation that has not done anything yet is the same alone. -/
theorem owns_start (hmethods : settings.registry.IsFunctional) (hplan : TalksHostless plan.talk.run)
    (hclient : s.clients[i]? = some ⟨.start plan, none⟩) :
    Owns (.ofCapacity capacity) settings.opening s i none none (alone settings capacity plan) where
  stage := Owns.stage_of_client hclient hplan (.idle _)
  connection := nofun
  numbered := nofun
  mirrors :=
    { network := rfl
      clients := ⟨_, hclient, rfl⟩
      world := rfl
      serves := ⟨settings.opening, rfl, .before (Serving.isolated_connection _ hmethods) _⟩ }

/-- At the beginning all operations are apart. -/
theorem separate_concurrent (capacity token : Nat) (hmethods : settings.registry.IsFunctional)
    (hplans : ∀ plan ∈ plans, TalksHostless plan.talk.run) :
    ∃ own, Separate settings capacity token (fun _ => none) (fun _ => none) own (concurrent settings capacity token plans) ∧
      ∀ i plan, plans[i]? = some plan → own i = alone settings capacity plan := by
  let nothing : System Duplex (Array τ) α := initial settings Duplex.network (.ofCapacity capacity) #[]
  have hclients := clients_concurrent settings capacity token plans
  have howns : ∀ i, i < (concurrent settings capacity token plans).clients.size →
      Owns (.ofCapacity capacity) settings.opening (concurrent settings capacity token plans) i none none
        ((plans[i]?.map (alone settings capacity)).getD nothing) := by
    intro i hi
    rw [size_clients_concurrent] at hi
    have hplan : plans[i]? = some plans[i] := List.getElem?_eq_getElem hi
    rw [hplan, Option.map_some, Option.getD_some]
    refine owns_start hmethods (hplans _ (List.getElem_mem _)) ?_
    rw [hclients, List.getElem?_toArray, List.getElem?_map, hplan, Option.map_some]
  refine ⟨fun i => (plans[i]?.map (alone settings capacity)).getD nothing, ?_, fun i plan hplan => by simp [hplan]⟩
  rw [concurrent, foldl_submit] at howns ⊢
  exact ⟨rfl, rfl, ⟨⟨rfl, rfl, .called, rfl, nofun⟩, rfl, rfl, rfl, .apart rfl rfl rfl rfl⟩, ⟨nofun, nofun⟩, nofun,
    ⟨nofun, nofun⟩, howns⟩

/-! ## Isolation -/

/-- What some operations have come to side by side is, for operation `i` with its connection `n?` and its sink `k?`, what
it has come to by itself. -/
structure Projects (s : System PipeNet (Array τ) α) (i : Nat) (n? k? : Option Nat) (t : System Duplex (Array τ) α) :
    Prop where
  answer : t.answer? 0 = s.answer? i
  connection : ∀ n, n? = some n → s.world.connections[n]? = some t.world
  served : ∀ n c, n? = some n → s.served[n]? = some c →
    ∃ e, t.served = #[⟨0, e, c.released⟩] ∧ e.answer? = c.exchange.answer?
  sink : t.host.toList = (k?.bind (s.host[·]?)).toList

theorem Owns.projects {fresh : Duplex} {start : Exchange (Array τ) (Except ServeError Unit)} {n? k? : Option Nat}
    {t : System Duplex (Array τ) α} (h : Owns fresh start s i n? k? t) : Projects s i n? k? t where
  answer := by
    obtain ⟨o, ho, hclients⟩ := h.mirrors.clients
    rw [answer?, answer?, ho, hclients]
    exact o.answer?_alone
  connection := by
    rintro n rfl
    obtain ⟨d, hd, -⟩ := h.connection n rfl
    rw [h.mirrors.world, Option.bind_some, hd, Option.getD_some]
  served := by
    rintro n c rfl hc
    obtain ⟨d, hd, -⟩ := h.connection n rfl
    obtain ⟨-, e, -, ht, halike⟩ := h.mirrors.served hc hd
    exact ⟨e, ht, halike.answer?_eq⟩
  sink := by
    obtain ⟨e, -, halike⟩ := h.mirrors.serves
    exact halike.sinks_eq

/-- The server serves the connections in the order in which they were dialed. -/
theorem Separate.accepted_eq (h : Separate settings capacity token dialed sinks own s) :
    s.accepted = List.range s.served.size := by
  refine List.ext_getElem (by simp [accepted]) fun n hn _ => ?_
  have hlt : n < s.served.size := by simpa [accepted] using hn
  obtain ⟨i, hi, hdialed⟩ := h.dialer n (Nat.lt_of_lt_of_le hlt h.rendezvous.served_le)
  rw [List.getElem_range]
  simpa [accepted] using (h.owns i hi).numbered n _ hdialed (Array.getElem?_eq_getElem hlt)

/-- A connection that was dialed is served already, or it is the next. -/
theorem Separate.accepted_or_next (h : Separate settings capacity token dialed sinks own s) (hn : dialed i = some n) :
    n ∈ s.accepted ∨ ∃ s', s.advance (.serverCall 0) = some s' ∧ s'.accepted = s.accepted ++ [n] := by
  rw [h.accepted_eq, List.mem_range]
  by_cases hserved : n < s.served.size
  · exact .inl hserved
  · have hlt := h.dialed_numbered.lt hn
    obtain ⟨world, hstep, -⟩ := stepServerCall_met h.network_eq h.rendezvous (by omega)
    refine .inr ⟨_, hstep, ?_⟩
    have hnext : n = s.served.size := by
      rcases h.rendezvous.size_eq with hsize | hsize <;> omega
    rw [← h.accepted_eq, hnext]
    simp [accepted, dispatch]

/-- What is not done for an operation leaves its connection alone. -/
theorem Separate.connection_eq (h : Separate settings capacity token dialed sinks own s) (hn : dialed i = some n)
    (hs : s.advance p = some s') (hp : p.onto i (some n) = none) :
    s'.world.connections[n]? = s.world.connections[n]? := by
  obtain ⟨hclients, dialed', sinks', own', h', hdialed', hown'⟩ := h.advance hs
  obtain ⟨j, hj, hjn⟩ := h.dialer n (h.dialed_numbered.lt hn)
  obtain rfl := h.dialed_numbered.inj hjn hn
  have hn' : dialed' j = some n := by
    rw [hdialed', hn]
    rfl
  have hsame : own' j = own j := by
    have hown := hown' j
    rw [hn', hp] at hown
    exact (Option.some.inj hown).symm
  rw [(h'.owns j (hclients ▸ hj)).projects.connection n hn', (h.owns j hj).projects.connection n hn, hsame]

/-- Operations that are carried out side by side are isolated. Whatever the order of all steps, those that are made for
one of them are a run of it alone, with the same answer, the same bytes at its connection, the same fate of the call at
the server and the same sink. No two operations have the same connection; the connections are served in the order in
which they were dialed, each once, and one that is not served yet is the next. Steps that are not made for an operation
leave its connection alone. -/
theorem calls_isolated (settings : Settings (Array τ)) (hmethods : settings.registry.IsFunctional)
    (capacity token : Nat) (plans : List (Plan (Array τ) Response))
    (hplans : ∀ plan ∈ plans, ∃ (c : Client) (request : Request), request.plan c = .ok plan) (ps : List Part)
    (s : System PipeNet (Array τ) Response) (hs : (concurrent settings capacity token plans).follow ps = some s) :
    let dialed i := (concurrent settings capacity token plans).dialed? i ps
    (∃ sinks, Numbered s.host.size sinks ∧ ∀ i plan, plans[i]? = some plan → ∃ t,
      (alone settings capacity plan).follow (ps.filterMap (·.onto i (dialed i))) = some t ∧
        Projects s i (dialed i) (sinks i) t) ∧
    Numbered s.world.connections.size dialed ∧
    (∀ n, n < s.world.connections.size → ∃ i, i < plans.length ∧ dialed i = some n) ∧
    s.accepted = List.range s.served.size ∧
    (∀ i n, dialed i = some n → n ∈ s.accepted ∨
      ∃ s', s.advance (.serverCall 0) = some s' ∧ s'.accepted = s.accepted ++ [n]) ∧
    ∀ i n p s', dialed i = some n → s.advance p = some s' → p.onto i (some n) = none →
      s'.world.connections[n]? = s.world.connections[n]? := by
  intro dialed
  have hhostless : ∀ plan ∈ plans, TalksHostless plan.talk.run := by
    intro plan hplan
    obtain ⟨c, request, hrequest⟩ := hplans plan hplan
    exact Request.talksHostless_plan hrequest
  obtain ⟨start, hstart, halone⟩ := separate_concurrent capacity token hmethods hhostless
  obtain ⟨hclients, sinks, own, hseparate, hown⟩ := hstart.follow hs
  simp only [Option.none_or] at hseparate hown
  rw [size_clients_concurrent] at hclients
  refine ⟨⟨sinks, hseparate.sinks_numbered, fun i plan hplan => ⟨own i, ?_, ?_⟩⟩, hseparate.dialed_numbered, ?_,
    hseparate.accepted_eq, fun i n hn => hseparate.accepted_or_next hn,
    fun i n p s' hn hstep hp => hseparate.connection_eq hn hstep hp⟩
  · rw [← halone i plan hplan]
    exact hown i
  · obtain ⟨hi, -⟩ := List.getElem?_eq_some_iff.1 hplan
    exact (hseparate.owns i (hclients ▸ hi)).projects
  · rw [← hclients]
    exact hseparate.dialer

/-- Two calls side by side, where the server answers the second one first: each gets back what it sent, as it would
alone. -/
theorem calls_isolated_two_echoes :
    let echo : Behaviour Unit := .normal fun args => .ok args.values
    let settings : Settings (Array Unit) :=
      .ofSize ⟨SortedMap.empty.insert "a.b" ⟨"a.b", echo.handler⟩⟩ 64 64
    let c : Client := ⟨SortedMap.empty.insert "a.b" .normal, 64⟩
    let ps : List Part := [.client 0, .client 1] ++ List.replicate 3 (.serverCall 0) ++ List.replicate 13 (.client 0) ++
      List.replicate 2 (.serverCall 0) ++ List.replicate 13 (.client 1) ++ List.replicate 2 (.serverCall 0) ++
      List.replicate 13 (.served 1) ++ List.replicate 13 (.served 0) ++ List.replicate 4 (.client 1) ++
      List.replicate 4 (.client 0)
    let own : List Part := List.replicate 14 (.client 0) ++ List.replicate 13 (.served 0) ++ List.replicate 4 (.client 0)
    ∃ first second s, (Request.values "a.b" [.bool true]).plan c = .ok first ∧
      (Request.values "a.b" [.bool false]).plan c = .ok second ∧
      (concurrent settings 64 0 [first, second]).follow ps = some s ∧ s.accepted = [0, 1] ∧
      (∃ t, (alone settings 64 first).follow own = some t ∧ s.world.connections[0]? = some t.world ∧
        t.answer? 0 = s.answer? 0 ∧ s.answer? 0 = some (.replied [.bool true])) ∧
      ∃ t, (alone settings 64 second).follow own = some t ∧ s.world.connections[1]? = some t.world ∧
        t.answer? 0 = s.answer? 1 ∧ s.answer? 1 = some (.replied [.bool false]) := by
  intro echo settings c ps own
  have hmethods : settings.registry.IsFunctional := by
    intro name m hget
    have hget' : (SortedMap.empty.insert "a.b" (⟨"a.b", echo.handler⟩ : Method (Array Unit))).find? name = some m := hget
    rw [SortedMap.find?_insert] at hget'
    split at hget'
    · cases hget'
      exact ⟨echo, rfl⟩
    · cases hget'
  have hknown : c.classOf? "a.b" = some .normal := SortedMap.find?_insert_self _ _ _
  let plan (b : Bool) : Plan (Array Unit) Response :=
    (Request.values "a.b" [.bool b]).callPlan (Request.valuesTalk 64 "a.b" [.bool b])
  have hplan : ∀ b, (Request.values "a.b" [.bool b]).plan c = .ok (plan b) :=
    fun b => Request.plan_values hknown [.bool b]
  have hplans : ∀ p ∈ [plan true, plan false], ∃ (c : Client) (request : Request), request.plan c = .ok p := by
    intro p hp
    rcases List.mem_cons.1 hp with rfl | hp
    · exact ⟨c, _, hplan true⟩
    · rw [List.mem_singleton.1 hp]
      exact ⟨c, _, hplan false⟩
  let start := concurrent settings 64 0 [plan true, plan false]
  have hdialed₀ : start.dialed? 0 ps = some 0 := by decide +kernel
  have hdialed₁ : start.dialed? 1 ps = some 1 := by decide +kernel
  have hrun : (start.follow ps).any (fun s => s.served.size == 2 && (s.answer? 0).any (Response.repliesWith true) &&
      (s.answer? 1).any (Response.repliesWith false)) = true := by decide +kernel
  obtain ⟨s, hs, hend⟩ := (Option.any_eq_true _ _).1 hrun
  simp only [Bool.and_eq_true, beq_iff_eq, Response.any_repliesWith_iff] at hend
  obtain ⟨⟨hserved, hanswer₀⟩, hanswer₁⟩ := hend
  obtain ⟨⟨sinks, -, hprojects⟩, -, -, haccepted, -⟩ :=
    calls_isolated settings hmethods 64 0 [plan true, plan false] hplans ps s hs
  dsimp only at hprojects
  obtain ⟨t₀, hfollow₀, hsame₀⟩ := hprojects 0 (plan true) rfl
  obtain ⟨t₁, hfollow₁, hsame₁⟩ := hprojects 1 (plan false) rfl
  rw [hdialed₀] at hfollow₀ hsame₀
  rw [hdialed₁] at hfollow₁ hsame₁
  rw [hserved] at haccepted
  exact ⟨plan true, plan false, s, hplan true, hplan false, hs, haccepted,
    ⟨t₀, hfollow₀, hsame₀.connection 0 rfl, hsame₀.answer, hanswer₀⟩,
    t₁, hfollow₁, hsame₁.connection 1 rfl, hsame₁.answer, hanswer₁⟩

end System

end RemoteCall
