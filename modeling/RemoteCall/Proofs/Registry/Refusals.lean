import Mathlib.Data.List.Induction
import RemoteCall.Proofs.Registry.Contents
/-!
# Why services are refused

`Refusal` says which services are refused and with which error: the name of the service comes first, and then the
first of its methods that cannot be added. The main result says that registering refuses just these, whatever was
registered before, and that a call that was refused leaves no trace: later calls and the registry come out as if it
had never been made.
-/

namespace RemoteCall

/-- What services and methods may be called. -/
def WellNamed (name : String) : Prop := name ≠ "" ∧ '.' ∉ name.toList

/-- The method is told from a qualified name, whatever the service is called. -/
theorem qualify_right_inj {service method method' : String} (h : qualify service method = qualify service method') :
    method = method' := by
  have hchars := congrArg String.toList h
  rw [toList_qualify, toList_qualify] at hchars
  exact String.toList_inj.1 (List.cons.inj (List.append_cancel_left hchars)).2

namespace RegistryBuilder

variable {σ : Type}

/-- Methods can all be added to a service: they may be called what they are, and no two are called the same. -/
structure Addable (methods : List (String × Handler σ)) : Prop where
  named : ∀ e ∈ methods, WellNamed e.1
  nodup : (methods.map Prod.fst).Nodup

/-- With some names taken, a service is refused: for its own name, or for the first of its methods that cannot be
added to those before it. -/
inductive Refusal (taken : List String) (name : String) (methods : List (String × Handler σ)) : RegistryError → Prop
  | invalidServiceName (hname : ¬WellNamed name) : Refusal taken name methods (.invalidServiceName name)
  | alreadyRegistered (hname : WellNamed name) (htaken : name ∈ taken) :
    Refusal taken name methods (.alreadyRegistered name)
  | invalidMethodName {before method h after} (hname : WellNamed name) (htaken : name ∉ taken)
    (hsplit : methods = before ++ (method, h) :: after) (hbefore : Addable before) (hmethod : ¬WellNamed method) :
    Refusal taken name methods (.invalidMethodName method)
  | duplicateMethod {before method h after} (hname : WellNamed name) (htaken : name ∉ taken)
    (hsplit : methods = before ++ (method, h) :: after) (hbefore : Addable before) (hmethod : WellNamed method)
    (hagain : method ∈ before.map Prod.fst) :
    Refusal taken name methods (.duplicateMethod (name ++ "." ++ method))

variable {b : RegistryBuilder σ} {name service : String} {methods before : List (String × Handler σ)}

/-- Either all methods can be added, or there is a first one that cannot. -/
theorem addable_or_first (methods : List (String × Handler σ)) :
    Addable methods ∨ ∃ before method h after, methods = before ++ (method, h) :: after ∧ Addable before ∧
      (¬WellNamed method ∨ WellNamed method ∧ method ∈ before.map Prod.fst) := by
  induction methods using List.reverseRecOn with
  | nil => exact .inl ⟨by simp, List.nodup_nil⟩
  | append_singleton methods e ih =>
    obtain ⟨method, h⟩ := e
    rcases ih with hadd | ⟨before, method', h', after, rfl, hbefore, hviolates⟩
    · by_cases hfirst : ¬WellNamed method ∨ WellNamed method ∧ method ∈ methods.map Prod.fst
      · exact .inr ⟨methods, method, h, [], rfl, hadd, hfirst⟩
      · rw [not_or, not_and, not_not] at hfirst
        refine .inl ⟨?_, ?_⟩
        · intro e he
          rcases List.mem_append.1 he with he | he
          · exact hadd.named e he
          · rw [List.mem_singleton.1 he]
            exact hfirst.1
        · rw [List.map_append, List.map_singleton]
          refine List.nodup_append.2 ⟨hadd.nodup, by simp, ?_⟩
          rintro m hm _ hm' rfl
          rw [List.mem_singleton.1 hm'] at hm
          exact hfirst.2 hfirst.1 hm
    · -- what is behind a method that cannot be added makes no difference
      refine .inr ⟨before, method', h', after ++ [(method, h)], ?_, hbefore, hviolates⟩
      rw [List.append_assoc, List.cons_append]

/-- Methods that can be added are added before the others. -/
theorem collect_append (rest : List (String × Handler σ)) {added : SortedMap String (Method σ)} {seen : List String}
    (hseen : ∀ m, added.contains (qualify service m) = false ↔ m ∉ seen) (hnamed : ∀ e ∈ before, WellNamed e.1)
    (hnodup : (seen ++ before.map Prod.fst).Nodup) :
    ∃ added', collect service (before ++ rest) added = collect service rest added' ∧
      ∀ m, added'.contains (qualify service m) = false ↔ m ∉ seen ++ before.map Prod.fst := by
  induction before generalizing added seen with
  | nil => exact ⟨added, rfl, by simpa using hseen⟩
  | cons e before ih =>
    obtain ⟨method, h⟩ := e
    rw [List.map_cons, List.append_cons] at hnodup ⊢
    have hvalid : isValidName method = true := isValidName_iff.2 (hnamed _ List.mem_cons_self)
    have hnew : added.contains (qualify service method) = false := by
      refine (hseen method).2 fun hmem => ?_
      have hfront := hnodup.sublist (List.sublist_append_left _ _)
      exact (List.nodup_append.1 hfront).2.2 method hmem method List.mem_cons_self rfl
    have hstep : collect service ((method, h) :: before ++ rest) added =
        collect service (before ++ rest) (added.insert (qualify service method) ⟨qualify service method, h⟩) := by
      rw [List.cons_append, collect, hvalid]
      dsimp only
      rw [hnew]
      rfl
    rw [hstep]
    refine ih ?_ (fun e he => hnamed e (List.mem_cons_of_mem _ he)) hnodup
    intro m
    rw [SortedMap.contains_insert_eq_false_iff, hseen, List.mem_append, List.mem_singleton, not_or, and_comm]
    exact and_congr_right fun _ => not_congr ⟨fun heq => (qualify_right_inj heq).symm, fun heq => by rw [heq]⟩

/-- What is collected of a service from nothing, up to a first method. -/
theorem collect_start (service : String) (hbefore : Addable before) (rest : List (String × Handler σ)) :
    ∃ added, collect service (before ++ rest) .empty = collect service rest added ∧
      ∀ m, added.contains (qualify service m) = false ↔ m ∉ before.map Prod.fst := by
  have hempty : ∀ m, (SortedMap.empty : SortedMap String (Method σ)).contains (qualify service m) = false ↔
      m ∉ ([] : List String) := fun _ => iff_of_true rfl List.not_mem_nil
  exact collect_append rest hempty hbefore.named hbefore.nodup

theorem collect_of_addable (service : String) (h : Addable methods) :
    ∃ added, collect service methods .empty = .ok added := by
  obtain ⟨added, hcollect, -⟩ := collect_start service h []
  rw [List.append_nil] at hcollect
  exact ⟨added, hcollect⟩

/-- A service that nothing is said against is registered. -/
theorem register_of_addable {s : Service σ} (hname : WellNamed name) (htaken : name ∉ b.services)
    (h : Addable s.methods) : (b.register name s).1 = .ok () := by
  obtain ⟨added, hcollect⟩ := collect_of_addable name h
  rw [register_eq, isValidName_iff.2 hname, hcollect]
  simp only [List.contains_eq_mem, htaken]
  rfl

/-- A service is refused with each error for which it should be. -/
theorem Refusal.register_eq_error {s : Service σ} {e : RegistryError} (h : Refusal b.services name s.methods e) :
    (b.register name s).1 = .error e := by
  have hfree : ∀ {e}, WellNamed name → name ∉ b.services → collect name s.methods .empty = .error e →
      (b.register name s).1 = .error e := by
    intro e hname htaken hcollect
    rw [register_eq, isValidName_iff.2 hname, hcollect]
    simp only [List.contains_eq_mem, htaken]
    rfl
  cases h with
  | invalidServiceName hname =>
    rw [register_eq, Bool.eq_false_iff.2 (mt isValidName_iff.1 hname)]
    rfl
  | alreadyRegistered hname htaken =>
    rw [register_eq, isValidName_iff.2 hname]
    simp only [List.contains_eq_mem, htaken]
    rfl
  | @invalidMethodName before method h after hname htaken hsplit hbefore hmethod =>
    obtain ⟨added, hcollect, -⟩ := collect_start name hbefore ((method, h) :: after)
    refine hfree hname htaken ?_
    rw [hsplit, hcollect, collect, Bool.eq_false_iff.2 (mt isValidName_iff.1 hmethod)]
    rfl
  | @duplicateMethod before method h after hname htaken hsplit hbefore hmethod hagain =>
    obtain ⟨added, hcollect, hseen⟩ := collect_start name hbefore ((method, h) :: after)
    have hcontains : added.contains (qualify name method) = true :=
      eq_true_of_ne_false fun hnew => (hseen method).1 hnew hagain
    refine hfree hname htaken ?_
    rw [hsplit, hcollect, collect, isValidName_iff.2 hmethod]
    dsimp only
    rw [hcontains]
    rfl

/-- Something is said against a service, or nothing is. -/
theorem addable_or_refusal (taken : List String) (name : String) (methods : List (String × Handler σ)) :
    (WellNamed name ∧ name ∉ taken ∧ Addable methods) ∨ ∃ e, Refusal taken name methods e := by
  by_cases hname : WellNamed name
  · by_cases htaken : name ∈ taken
    · exact .inr ⟨_, .alreadyRegistered hname htaken⟩
    · rcases addable_or_first methods with
        hadd | ⟨before, method, h, after, hsplit, hbefore, hmethod | ⟨hmethod, hagain⟩⟩
      · exact .inl ⟨hname, htaken, hadd⟩
      · exact .inr ⟨_, .invalidMethodName hname htaken hsplit hbefore hmethod⟩
      · exact .inr ⟨_, .duplicateMethod hname htaken hsplit hbefore hmethod hagain⟩
  · exact .inr ⟨_, .invalidServiceName hname⟩

theorem register_error_iff {s : Service σ} {e : RegistryError} :
    (b.register name s).1 = .error e ↔ Refusal b.services name s.methods e := by
  refine ⟨fun herror => ?_, Refusal.register_eq_error⟩
  rcases addable_or_refusal b.services name s.methods with ⟨hname, htaken, hadd⟩ | ⟨e', hrefusal⟩
  · rw [register_of_addable hname htaken hadd] at herror
    cases herror
  · have herror' := hrefusal.register_eq_error
    rw [herror] at herror'
    cases herror'
    exact hrefusal

theorem register_ok_iff {s : Service σ} :
    (b.register name s).1 = .ok () ↔ WellNamed name ∧ name ∉ b.services ∧ Addable s.methods := by
  refine ⟨fun hok => ?_, fun ⟨hname, htaken, hadd⟩ => register_of_addable hname htaken hadd⟩
  rcases addable_or_refusal b.services name s.methods with hadd | ⟨e, hrefusal⟩
  · exact hadd
  · rw [hrefusal.register_eq_error] at hok
    cases hok

/-! ## Calls that leave no trace -/

theorem length_registerAll (b : RegistryBuilder σ) (calls : List (String × Service σ)) :
    (b.registerAll calls).1.length = calls.length := by
  induction calls generalizing b with
  | nil => rfl
  | cons call calls ih => simp only [registerAll, List.length_cons, ih]

/-- Services are registered one after another. A further one is registered just if it may be called what it is, none
that was registered is called the same, and its methods may be called what they are and differ in their names. It is
refused just for the first of these that fails, in the order of its methods. And a call that was refused leaves the
builder as it was: neither what later calls come to nor the registry is another than without it. -/
theorem register_after_calls (calls : List (String × Service σ)) (name : String) (s : Service σ) :
    let b := (empty.registerAll calls).2
    let taken := (empty.registered calls).map Prod.fst
    ((b.register name s).1 = .ok () ↔ WellNamed name ∧ name ∉ taken ∧ Addable s.methods) ∧
    (∀ e, (b.register name s).1 = .error e ↔ Refusal taken name s.methods e) ∧
    ∀ e, (b.register name s).1 = .error e → (b.register name s).2 = b ∧ ∀ later,
      (empty.registerAll (calls ++ (name, s) :: later)).2 = (empty.registerAll (calls ++ later)).2 ∧
      ∃ results results', results.length = calls.length ∧
        (empty.registerAll (calls ++ later)).1 = results ++ results' ∧
        (empty.registerAll (calls ++ (name, s) :: later)).1 = results ++ .error e :: results' := by
  intro b taken
  have htaken : b.services = taken := (empty_holds.registerAll calls).services
  rw [← htaken]
  refine ⟨register_ok_iff, fun e => register_error_iff, fun e herror => ?_⟩
  have hsame : (b.register name s).2 = b := register_of_error herror
  have hcall : ∀ later, b.registerAll ((name, s) :: later) =
      (.error e :: (b.registerAll later).1, (b.registerAll later).2) := by
    intro later
    simp only [registerAll, herror, hsame]
  refine ⟨hsame, fun later => ?_⟩
  rw [registerAll_append, registerAll_append, hcall]
  exact ⟨rfl, _, _, length_registerAll _ calls, rfl, rfl⟩

-- a dotted name before a name that occurs again, the other way round, and a service without methods
example : let h : Handler Unit := .normal fun _ s => (.never, s)
    (empty.registerAll [("Files", ⟨[("Stat", h), ("x.y", h), ("Stat", h)]⟩),
      ("Files", ⟨[("Stat", h), ("Stat", h), ("x.y", h)]⟩), ("Files", ⟨[]⟩), ("Files", ⟨[("", h)]⟩)]).1 =
    [.error (.invalidMethodName "x.y"), .error (.duplicateMethod "Files.Stat"), .ok (),
      .error (.alreadyRegistered "Files")] := by decide +kernel

end RegistryBuilder

end RemoteCall
