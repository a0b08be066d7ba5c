import RemoteCall.Arguments
/-!
# Arguments one by one and all at once

The arguments of a call can be asked for by their positions, or read all at once by a signature. The places of a
signature tell which type each position is read as and which component of the tuple it goes to. The main result says
that both ways come to the same: all arguments are read at once just if they are as many as the signature has places
and each can be got by itself, and what fails is the first of them that cannot.
-/

namespace RemoteCall

namespace Signature

/-- What one position of a signature is read as, and the component of the arguments that it becomes. -/
structure Place (τ : Type) where
  Target : Type
  [reads : FromValue Target]
  component : τ → Target

attribute [instance] Place.reads

/-- The same place behind one more position. -/
def Place.behind {α τ : Type} (p : Place τ) : Place (α × τ) := ⟨p.Target, fun xs => p.component xs.2⟩

/-- The places of a signature, in order. -/
def places : {τ : Type} → Signature τ → List (Place τ)
  | _, none => []
  | _, @next α _ _ rest => ⟨α, Prod.fst⟩ :: rest.places.map Place.behind

theorem length_places {τ : Type} (signature : Signature τ) : signature.places.length = signature.arity := by
  induction signature with
  | none => rfl
  | next rest ih =>
    show (rest.places.map Place.behind).length + 1 = rest.arity + 1
    rw [List.length_map, ih]

/-- A place of a longer signature is the new one, or one that was there, behind it. -/
theorem places_next_succ {α τ : Type} [FromValue α] {rest : Signature τ} {i : Nat} {p : Place (α × τ)} :
    (next rest).places[i + 1]? = some p ↔ ∃ q, rest.places[i]? = some q ∧ q.behind = p := by
  show (rest.places.map Place.behind)[i]? = some p ↔ _
  rw [List.getElem?_map, Option.map_eq_some_iff]

end Signature

namespace Arguments

open Signature

variable {α τ : Type} {args : Arguments} {i : Nat} {v : Value} {vs : List Value} {e : AppError}

/-! ## One argument -/

theorem get_eq_ok_iff [FromValue α] {x : α} :
    args.get α i = .ok x ↔ ∃ v, args.values[i]? = some v ∧ fromValue v = .ok x := by
  unfold Arguments.get
  cases args.values[i]? with
  | none => simp
  | some v =>
    simp only [Option.some.injEq, exists_eq_left']
    cases (fromValue v : Except AppError α) <;> simp

/-- A failing conversion is reported with the position. -/
theorem get_of_misfit [FromValue α] (hv : args.values[i]? = some v)
    (hmisfit : (fromValue v : Except AppError α) = .error e) :
    args.get α i = .error (.ofMessage s!"argument {i}: {e.display}") := by
  unfold Arguments.get
  simp only [hv, hmisfit]

/-! ## All arguments -/

/-- The first value is read, and then the others. -/
theorem convert_cons [FromValue α] (rest : Signature τ) (v : Value) (vs : List Value) :
    convert (.next rest : Signature (α × τ)) (v :: vs) =
      match (fromValue v : Except AppError α), convert rest vs with
      | .error e, _ => .error e
      | .ok _, .error e => .error e
      | .ok x, .ok xs => .ok (x, xs) := by
  simp only [convert, bind, Except.bind, pure, Except.pure]
  cases (fromValue v : Except AppError α) with
  | error e => rfl
  | ok x => cases convert rest vs <;> rfl

/-- As many values as a signature has places are converted to a tuple just if each is read as its component. -/
theorem convert_eq_ok_iff {signature : Signature τ} (hsize : vs.length = signature.arity) {xs : τ} :
    convert signature vs = .ok xs ↔
      ∀ (i : Nat) (p : Place τ) (v : Value), signature.places[i]? = some p → vs[i]? = some v →
        fromValue v = .ok (p.component xs) := by
  induction signature generalizing vs with
  | none =>
    refine iff_of_true rfl ?_
    rintro i p v ⟨⟩
  | @next α τ _ rest ih =>
    obtain ⟨x, xs⟩ := xs
    obtain _ | ⟨v, vs⟩ := vs
    · cases hsize
    · rw [convert_cons]
      have ih : convert rest vs = .ok xs ↔ _ := ih (Nat.succ.inj hsize)
      constructor
      · intro h
        split at h <;> cases h
        rename_i hv hvs
        rintro (_ | i) p u hp hu
        · cases hp
          cases hu
          exact hv
        · obtain ⟨q, hq, rfl⟩ := places_next_succ.1 hp
          exact ih.1 hvs i q u hq hu
      · intro h
        have hv : fromValue v = .ok x := h 0 ⟨α, Prod.fst⟩ v rfl rfl
        have hvs : convert rest vs = .ok xs :=
          ih.2 fun i q u hq hu => h (i + 1) q.behind u (places_next_succ.2 ⟨q, hq, rfl⟩) hu
        simp only [hv, hvs]

/-- A value is the first one that cannot be read as what its place asks for. -/
structure FirstMisfit (signature : Signature τ) (vs : List Value) (i : Nat) (e : AppError) : Prop where
  misfit : ∃ (p : Place τ) (v : Value), signature.places[i]? = some p ∧ vs[i]? = some v ∧
    (fromValue v : Except AppError p.Target) = .error e
  before : ∀ j < i, ∀ (q : Place τ) (u : Value), signature.places[j]? = some q → vs[j]? = some u →
    ∃ x : q.Target, fromValue u = .ok x

theorem firstMisfit_zero [FromValue α] {rest : Signature τ} :
    FirstMisfit (.next rest : Signature (α × τ)) (v :: vs) 0 e ↔ (fromValue v : Except AppError α) = .error e := by
  constructor
  · rintro ⟨⟨p, u, hp, hu, hmisfit⟩, -⟩
    cases hp
    cases hu
    exact hmisfit
  · exact fun h => ⟨⟨⟨α, Prod.fst⟩, v, rfl, rfl, h⟩, fun j hj => absurd hj (Nat.not_lt_zero j)⟩

theorem firstMisfit_succ [FromValue α] {rest : Signature τ} :
    FirstMisfit (.next rest : Signature (α × τ)) (v :: vs) (i + 1) e ↔
      (∃ x : α, fromValue v = .ok x) ∧ FirstMisfit rest vs i e := by
  constructor
  · rintro ⟨⟨p, u, hp, hu, hmisfit⟩, hbefore⟩
    obtain ⟨q, hq, rfl⟩ := places_next_succ.1 hp
    refine ⟨hbefore 0 (Nat.succ_pos i) ⟨α, Prod.fst⟩ v rfl rfl, ⟨q, u, hq, hu, hmisfit⟩, ?_⟩
    intro j hj q' u' hq' hu'
    exact hbefore (j + 1) (Nat.succ_lt_succ hj) q'.behind u' (places_next_succ.2 ⟨q', hq', rfl⟩) hu'
  · rintro ⟨hv, ⟨q, u, hq, hu, hmisfit⟩, hbefore⟩
    refine ⟨⟨q.behind, u, places_next_succ.2 ⟨q, hq, rfl⟩, hu, hmisfit⟩, ?_⟩
    rintro (_ | j) hj p u' hp hu'
    · cases hp
      cases hu'
      exact hv
    · obtain ⟨q', hq', rfl⟩ := places_next_succ.1 hp
      exact hbefore j (Nat.lt_of_succ_lt_succ hj) q' u' hq' hu'

/-- What fails is the first value that cannot be read. -/
theorem convert_eq_error_iff {signature : Signature τ} (hsize : vs.length = signature.arity) :
    convert signature vs = .error e ↔ ∃ i, FirstMisfit signature vs i e := by
  induction signature generalizing vs with
  | none =>
    refine iff_of_false nofun ?_
    rintro ⟨i, ⟨p, v, hp, -⟩, -⟩
    cases hp
  | @next α τ _ rest ih =>
    obtain _ | ⟨v, vs⟩ := vs
    · cases hsize
    · have ih := ih (Nat.succ.inj hsize)
      rw [convert_cons]
      cases hv : (fromValue v : Except AppError α) with
      | error e' =>
        constructor
        · rintro ⟨⟩
          exact ⟨0, firstMisfit_zero.2 hv⟩
        · rintro ⟨_ | i, h⟩
          · cases hv.symm.trans (firstMisfit_zero.1 h)
            rfl
          · obtain ⟨⟨x, hx⟩, -⟩ := firstMisfit_succ.1 h
            cases hv.symm.trans hx
      | ok x =>
        have hlater : (∃ i, FirstMisfit (.next rest : Signature (α × τ)) (v :: vs) i e) ↔ ∃ i, FirstMisfit rest vs i e := by
          constructor
          · rintro ⟨_ | i, h⟩
            · cases hv.symm.trans (firstMisfit_zero.1 h)
            · exact ⟨i, (firstMisfit_succ.1 h).2⟩
          · rintro ⟨i, h⟩
            exact ⟨i + 1, firstMisfit_succ.2 ⟨⟨x, hv⟩, h⟩⟩
        rw [hlater, ← ih]
        cases convert rest vs with
        | error e' => exact ⟨fun h => by cases h; rfl, fun h => by cases h; rfl⟩
        | ok xs => exact ⟨nofun, nofun⟩

/-! ## Both ways -/

section Agreement

variable {signature : Signature τ} {p : Place τ}

theorem parse_of_size (hsize : args.size = signature.arity) : args.parse signature = convert signature args.values :=
  if_pos hsize

theorem parse_of_wrong_size (hsize : args.size ≠ signature.arity) :
    args.parse signature = .error (arityError signature.arity args.size) :=
  if_neg hsize

/-- Only as many arguments as there are places are read. -/
theorem size_of_parse_eq_ok {xs : τ} (h : args.parse signature = .ok xs) : args.size = signature.arity := by
  by_cases hsize : args.size = signature.arity
  · exact hsize
  · cases (parse_of_wrong_size hsize).symm.trans h

theorem exists_value_of_place (hsize : args.size = signature.arity) (hp : signature.places[i]? = some p) :
    ∃ v, args.values[i]? = some v := by
  have hlt : i < args.values.length := by
    have hplace := (List.getElem?_eq_some_iff.1 hp).1
    rw [length_places, ← hsize] at hplace
    exact hplace
  exact ⟨_, List.getElem?_eq_getElem hlt⟩

/-- The arguments are read at once as a tuple just if each of them is got as its component. -/
theorem parse_eq_ok_iff {xs : τ} :
    args.parse signature = .ok xs ↔
      args.size = signature.arity ∧
        ∀ (i : Nat) (p : Place τ), signature.places[i]? = some p → args.get p.Target i = .ok (p.component xs) := by
  constructor
  · intro h
    have hsize := size_of_parse_eq_ok h
    rw [parse_of_size hsize, convert_eq_ok_iff hsize] at h
    refine ⟨hsize, fun i p hp => ?_⟩
    obtain ⟨v, hv⟩ := exists_value_of_place hsize hp
    exact get_eq_ok_iff.2 ⟨v, hv, h i p v hp hv⟩
  · rintro ⟨hsize, h⟩
    rw [parse_of_size hsize, convert_eq_ok_iff hsize]
    intro i p v hp hv
    obtain ⟨u, hu, hread⟩ := get_eq_ok_iff.1 (h i p hp)
    cases hv.symm.trans hu
    exact hread

/-- The first argument that cannot be got is what fails when all are read at once, without its position. -/
theorem parse_eq_error_iff (hsize : args.size = signature.arity) :
    args.parse signature = .error e ↔
      ∃ (i : Nat) (p : Place τ) (v : Value), signature.places[i]? = some p ∧ args.values[i]? = some v ∧
        (fromValue v : Except AppError p.Target) = .error e ∧
        args.get p.Target i = .error (.ofMessage s!"argument {i}: {e.display}") ∧
        ∀ j < i, ∀ q : Place τ, signature.places[j]? = some q → ∃ x, args.get q.Target j = .ok x := by
  rw [parse_of_size hsize, convert_eq_error_iff hsize]
  constructor
  · rintro ⟨i, ⟨p, v, hp, hv, hmisfit⟩, hbefore⟩
    refine ⟨i, p, v, hp, hv, hmisfit, get_of_misfit hv hmisfit, fun j hj q hq => ?_⟩
    obtain ⟨u, hu⟩ := exists_value_of_place hsize hq
    obtain ⟨x, hx⟩ := hbefore j hj q u hq hu
    exact ⟨x, get_eq_ok_iff.2 ⟨u, hu, hx⟩⟩
  · rintro ⟨i, p, v, hp, hv, hmisfit, -, hbefore⟩
    refine ⟨i, ⟨p, v, hp, hv, hmisfit⟩, fun j hj q u hq hu => ?_⟩
    obtain ⟨x, hx⟩ := hbefore j hj q hq
    obtain ⟨u', hu', hread⟩ := get_eq_ok_iff.1 hx
    cases hu.symm.trans hu'
    exact ⟨x, hread⟩

/-- The arguments can be read at once just if each of them can be got. -/
theorem exists_parse_eq_ok_iff :
    (∃ xs, args.parse signature = .ok xs) ↔
      args.size = signature.arity ∧
        ∀ (i : Nat) (p : Place τ), signature.places[i]? = some p → ∃ x, args.get p.Target i = .ok x := by
  constructor
  · rintro ⟨xs, h⟩
    obtain ⟨hsize, heach⟩ := parse_eq_ok_iff.1 h
    exact ⟨hsize, fun i p hp => ⟨_, heach i p hp⟩⟩
  · rintro ⟨hsize, heach⟩
    cases h : args.parse signature with
    | ok xs => exact ⟨xs, rfl⟩
    | error e =>
      obtain ⟨i, p, v, hp, -, -, hfails, -⟩ := (parse_eq_error_iff hsize).1 h
      obtain ⟨x, hx⟩ := heach i p hp
      cases hfails.symm.trans hx

end Agreement

/-- Reading arguments at once and getting them one by one agree. A signature has a place for each of its arguments.
The arguments can be read at once just if they are as many and each of them can be got as what its place asks for, and
then the components of the tuple are what is got. If they are more or fewer, their number is the fault, whatever they
are. Otherwise what fails is the first argument that cannot be got: reading at once gives the error of its conversion
as it is, and getting it gives the same error behind its position. -/
theorem parse_agrees_with_get (signature : Signature τ) (args : Arguments) :
    signature.places.length = signature.arity ∧
    ((∃ xs, args.parse signature = .ok xs) ↔
      args.size = signature.arity ∧
        ∀ (i : Nat) (p : Place τ), signature.places[i]? = some p → ∃ x, args.get p.Target i = .ok x) ∧
    (∀ xs, args.parse signature = .ok xs ↔
      args.size = signature.arity ∧
        ∀ (i : Nat) (p : Place τ), signature.places[i]? = some p → args.get p.Target i = .ok (p.component xs)) ∧
    (args.size ≠ signature.arity →
      args.parse signature =
        .error (.ofMessage s!"expected {signature.arity} arguments, got {args.size}")) ∧
    (args.size = signature.arity → ∀ e, args.parse signature = .error e ↔
      ∃ (i : Nat) (p : Place τ) (v : Value), signature.places[i]? = some p ∧ args.values[i]? = some v ∧
        (fromValue v : Except AppError p.Target) = .error e ∧
        args.get p.Target i = .error (.ofMessage s!"argument {i}: {e.display}") ∧
        ∀ j < i, ∀ q : Place τ, signature.places[j]? = some q → ∃ x, args.get q.Target j = .ok x) :=
  ⟨signature.length_places, exists_parse_eq_ok_iff, fun _ => parse_eq_ok_iff, parse_of_wrong_size,
    fun hsize _ => parse_eq_error_iff hsize⟩

-- the nil error of the first argument comes before the misfit of the second, and only getting it tells the position
example :
    let args : Arguments := ⟨[.error .nil, .text "x"]⟩
    args.parse (.next (.next .none) : Signature (Bool × Int64 × Unit)) = .error .nil ∧
      args.get Bool 0 = .error (.ofMessage "argument 0: <nil>") ∧
      args.get Int64 1 = .error (.ofMessage "argument 1: expected int, got string") ∧
      args.parse (.next (.next .none) : Signature (AppError × String × Unit)) = .ok (.nil, "x", ()) := by
  exact ⟨rfl, rfl, rfl, rfl⟩

end Arguments

end RemoteCall
