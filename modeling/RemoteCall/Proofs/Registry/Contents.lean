import Mathlib.Algebra.GroupWithZero.Nat
import RemoteCall.Registry
import RemoteCall.Proofs.SortedMap.Entries
/-!
# What a registry contains

Services are registered one after another, some of them in vain. The main result says what is in the registry
that comes of it, whatever the calls were: exactly the methods of the services that were registered, each under
one name of its own. It rests on two facts. A name without dots is told from what follows the first dot behind
it, so qualified names are equal only for one service and one method (`qualify_inj`); and a service is
registered only under a name that none was registered under before, so its methods are new to the registry
(`Holds.register`).
-/

namespace RemoteCall

/-! ## Names -/

theorem isValidName_iff {name : String} : isValidName name = true ↔ name ≠ "" ∧ '.' ∉ name.toList := by
  simp [isValidName]

/-- What stands before the first of a character is told from what follows it. -/
theorem append_cons_inj {c : Char} {x x' y y' : List Char} (hx : c ∉ x) (hx' : c ∉ x')
    (h : x ++ c :: y = x' ++ c :: y') : x = x' ∧ y = y' := by
  induction x generalizing x' with
  | nil =>
    cases x' with
    | nil => exact ⟨rfl, (List.cons.inj h).2⟩
    | cons d x' =>
      obtain ⟨rfl, -⟩ := List.cons.inj h
      exact absurd List.mem_cons_self hx'
  | cons d x ih =>
    cases x' with
    | nil =>
      obtain ⟨rfl, -⟩ := List.cons.inj h
      exact absurd List.mem_cons_self hx
    | cons d' x' =>
      obtain ⟨rfl, htail⟩ := List.cons.inj h
      obtain ⟨rfl, rfl⟩ := ih (List.not_mem_of_not_mem_cons hx) (List.not_mem_of_not_mem_cons hx') htail
      exact ⟨rfl, rfl⟩

theorem toList_qualify (service method : String) :
    (qualify service method).toList = service.toList ++ '.' :: method.toList := by
  simp [qualify]

/-- Service and method are told from a qualified name, for there is no dot in the name of the service. -/
theorem qualify_inj {service service' method method' : String} (h : isValidName service = true)
    (h' : isValidName service' = true) (heq : qualify service method = qualify service' method') :
    service = service' ∧ method = method' := by
  have hchars := congrArg String.toList heq
  rw [toList_qualify, toList_qualify] at hchars
  obtain ⟨hservice, hmethod⟩ := append_cons_inj (isValidName_iff.1 h).2 (isValidName_iff.1 h').2 hchars
  exact ⟨String.toList_inj.1 hservice, String.toList_inj.1 hmethod⟩

/-! ## How a service comes about -/

/-- The word in front of a marked name. -/
def CallClass.marker : CallClass → String
  | normal => "Normal_"
  | readStream => "Read_"
  | writeStream => "Write_"

theorem CallClass.behind?_eq_some_iff {start s rest : String} :
    behind? start s = some rest ↔ s = start ++ rest := by
  unfold behind?
  rw [Option.ite_none_right_eq_some, List.isPrefixOf_iff_prefix, Option.some_inj]
  constructor
  · rintro ⟨⟨t, ht⟩, rfl⟩
    apply String.toList_inj.1
    rw [← ht]
    simp
  · rintro rfl
    simp

theorem CallClass.marker_append_inj {c c' : CallClass} {name name' : String}
    (h : c.marker ++ name = c'.marker ++ name') : c = c' ∧ name = name' := by
  have hchars := congrArg String.toList h
  rw [String.toList_append, String.toList_append] at hchars
  -- the words begin with different letters
  have hclass : c = c' := by
    cases c <;> cases c' <;> first | rfl | exact absurd (List.cons.inj hchars).1 (by decide)
  subst hclass
  exact ⟨rfl, String.toList_inj.1 (List.append_cancel_left hchars)⟩

/-- The name that is marked with a given class. -/
def CallClass.markedAs? (raw : String) (c : CallClass) : Option (CallClass × String) :=
  match behind? c.marker raw with
  | some name => if name = "" then none else some (c, name)
  | none => none

theorem CallClass.markedAs?_eq_some_iff {raw name : String} {c c' : CallClass} :
    markedAs? raw c = some (c', name) ↔ c' = c ∧ raw = c.marker ++ name ∧ name ≠ "" := by
  unfold markedAs?
  split
  · rename_i rest hrest
    rw [Option.ite_none_left_eq_some, behind?_eq_some_iff.1 hrest]
    constructor
    · rintro ⟨hne, heq⟩
      cases heq
      exact ⟨rfl, rfl, hne⟩
    · rintro ⟨rfl, heq, hne⟩
      obtain ⟨-, rfl⟩ := marker_append_inj heq
      exact ⟨hne, rfl⟩
  · rename_i hnone
    refine iff_of_false (by simp) ?_
    rintro ⟨-, hraw, -⟩
    rw [behind?_eq_some_iff.2 hraw] at hnone
    cases hnone

/-- A name is marked with a class if the word for that class comes first and something follows it. -/
theorem CallClass.ofMarkedName?_eq_some_iff {raw name : String} {c : CallClass} :
    ofMarkedName? raw = some (c, name) ↔ raw = c.marker ++ name ∧ name ≠ "" := by
  have hfind : ofMarkedName? raw = [normal, readStream, writeStream].findSome? (markedAs? raw) := rfl
  have hmarked : ∀ {c name}, ofMarkedName? raw = some (c, name) → raw = c.marker ++ name ∧ name ≠ "" := by
    intro c name h
    rw [hfind] at h
    obtain ⟨c', -, hc'⟩ := List.exists_of_findSome?_eq_some h
    obtain ⟨rfl, hname⟩ := markedAs?_eq_some_iff.1 hc'
    exact hname
  refine ⟨hmarked, fun ⟨hraw, hne⟩ => ?_⟩
  have hsome : (ofMarkedName? raw).isSome := by
    rw [hfind, List.findSome?_isSome_iff]
    refine ⟨c, by cases c <;> simp, ?_⟩
    rw [markedAs?_eq_some_iff.2 ⟨rfl, hraw, hne⟩]
    rfl
  obtain ⟨⟨c', name'⟩, h⟩ := Option.isSome_iff_exists.1 hsome
  have hraw' := (hmarked h).1
  rw [hraw] at hraw'
  obtain ⟨rfl, rfl⟩ := marker_append_inj hraw'
  exact h

namespace Service

variable {σ : Type}

/-- How a method is added to a service. -/
inductive Addition (σ : Type)
  | named (name : String) (h : Handler σ)
  /-- The name is marked with a class. -/
  | marked (raw : String) (h : Handler σ)

/-- A service with one more addition. -/
def extend (s : Service σ) : Addition σ → Service σ
  | .named name h => s.add name h
  | .marked raw h => s.addMarked raw h

/-- The service that comes of some additions, one after another. -/
def assemble (additions : List (Addition σ)) : Service σ := additions.foldl extend .empty

/-- What an addition contributes; a name that is not marked with the class of its handler is skipped. -/
def Addition.method? : Addition σ → Option (String × Handler σ)
  | .named name h => some (name, h)
  | .marked raw h => (CallClass.markedAs? raw h.callClass).map fun m => (m.2, h)

theorem addMarked_methods (s : Service σ) (raw : String) (h : Handler σ) :
    (s.addMarked raw h).methods = s.methods ++ (Addition.marked raw h).method?.toList := by
  have hmethod : (Addition.marked raw h).method? =
      (CallClass.markedAs? raw h.callClass).map fun m => (m.2, h) := rfl
  rw [hmethod, addMarked]
  rcases hmarked : CallClass.markedAs? raw h.callClass with _ | ⟨c, name⟩
  · rw [Option.map_none, Option.toList_none, List.append_nil]
    split
    · rename_i c name hname
      -- the name is marked, but with another class
      have hclass : c ≠ h.callClass := by
        rintro rfl
        rw [CallClass.markedAs?_eq_some_iff.2 ⟨rfl, CallClass.ofMarkedName?_eq_some_iff.1 hname⟩] at hmarked
        cases hmarked
      rw [if_neg hclass]
    · rfl
  · obtain ⟨rfl, hname⟩ := CallClass.markedAs?_eq_some_iff.1 hmarked
    rw [CallClass.ofMarkedName?_eq_some_iff.2 hname]
    dsimp only
    rw [if_pos rfl]
    rfl

/-- A service that is assembled has the methods that were not skipped, in their order. -/
theorem assemble_methods (additions : List (Addition σ)) :
    (assemble additions).methods = additions.filterMap Addition.method? := by
  suffices h : ∀ s : Service σ, (additions.foldl extend s).methods =
      s.methods ++ additions.filterMap Addition.method? from h .empty
  induction additions with
  | nil => simp
  | cons a additions ih =>
    intro s
    have hone : (s.extend a).methods = s.methods ++ a.method?.toList := by
      cases a with
      | named name h => rfl
      | marked raw h => exact s.addMarked_methods raw h
    rw [List.foldl_cons, ih, hone, List.append_assoc, List.filterMap_cons]
    cases a.method? <;> rfl

end Service

/-! ## Registering services -/

namespace RegistryBuilder

variable {σ : Type} {b : RegistryBuilder σ}

/-- If the methods of a service can all be added, their names are valid and differ from each other, and just
they are added, each under its qualified name. -/
theorem collect_eq_ok {service : String} {methods : List (String × Handler σ)}
    {added result : SortedMap String (Method σ)} (h : collect service methods added = .ok result) :
    (methods.map Prod.fst).Nodup ∧
    (∀ e ∈ methods, isValidName e.1 = true ∧ added.contains (qualify service e.1) = false) ∧
    (∀ q d, result.find? q = some d ↔
      added.find? q = some d ∨ ∃ e ∈ methods, q = qualify service e.1 ∧ d = ⟨q, e.2⟩) ∧
    result.size = added.size + methods.length := by
  induction methods generalizing added with
  | nil =>
    cases h
    simp
  | cons e methods ih =>
    obtain ⟨name, handler⟩ := e
    rw [collect] at h
    split at h
    · cases h
    · rename_i hvalid
      dsimp only at h
      split at h
      · cases h
      · rename_i hnew
        obtain ⟨hnodup, hmethods, hfind, hsize⟩ := ih h
        have hvalid : isValidName name = true := by simpa using hvalid
        have hnew : added.contains (qualify service name) = false := by simpa using hnew
        -- the method is there when the later ones are added, so none of them has its name
        have hother : ∀ e ∈ methods, qualify service e.1 ≠ qualify service name := by
          intro e he heq
          have hcontains := (hmethods e he).2
          rw [heq, SortedMap.contains_eq_false_iff, SortedMap.find?_insert_self] at hcontains
          cases hcontains
        refine ⟨?_, ?_, ?_, ?_⟩
        · rw [List.map_cons, List.nodup_cons]
          refine ⟨fun hmem => ?_, hnodup⟩
          obtain ⟨e, he, heq⟩ := List.mem_map.1 hmem
          exact hother e he (congrArg (qualify service) heq)
        · intro e he
          rcases List.mem_cons.1 he with rfl | he
          · exact ⟨hvalid, hnew⟩
          · have hcontains := (hmethods e he).2
            rw [SortedMap.contains_eq_false_iff, SortedMap.find?_insert_of_ne _ _ (hother e he),
              ← SortedMap.contains_eq_false_iff] at hcontains
            exact ⟨(hmethods e he).1, hcontains⟩
        · intro q d
          rw [hfind]
          by_cases hq : q = qualify service name
          · subst hq
            have hnone := SortedMap.contains_eq_false_iff.1 hnew
            have hlater : ¬ ∃ e ∈ methods, qualify service name = qualify service e.1 ∧
                d = ⟨qualify service name, e.2⟩ := by
              rintro ⟨e, he, heq, -⟩
              exact hother e he heq.symm
            simp only [SortedMap.find?_insert_self, hnone, List.mem_cons, exists_eq_or_imp, hlater]
            simp [eq_comm]
          · rw [SortedMap.find?_insert_of_ne _ _ hq]
            simp [hq]
        · rw [hsize, SortedMap.size_insert_of_new hnew, List.length_cons]
          omega

/-- Registering a service, check by check. -/
theorem register_eq (b : RegistryBuilder σ) (name : String) (service : Service σ) :
    b.register name service =
      if !isValidName name then (.error (.invalidServiceName name), b)
      else if b.services.contains name then (.error (.alreadyRegistered name), b)
      else match collect name service.methods .empty with
        | .error e => (.error e, b)
        | .ok added => (.ok (), ⟨b.methods.insertAll added.toList, b.services ++ [name]⟩) := by
  unfold register registering
  cases isValidName name with
  | false => rfl
  | true =>
    -- the builder is still as it was when it is asked for its services
    show (ite (b.services.contains name = true) _ _ : ExceptT RegistryError (StateM (RegistryBuilder σ)) Unit) b = _
    cases b.services.contains name with
    | true => rfl
    | false => cases collect name service.methods .empty <;> rfl

/-- What registering a service makes of the builder, if it succeeds. -/
theorem register_of_ok {name : String} {service : Service σ} (h : (b.register name service).1 = .ok ()) :
    isValidName name = true ∧ name ∉ b.services ∧ ∃ added, collect name service.methods .empty = .ok added ∧
      (b.register name service).2 = ⟨b.methods.insertAll added.toList, b.services ++ [name]⟩ := by
  rw [register_eq] at h ⊢
  split at h
  · cases h
  · rename_i hvalid
    split at h
    · cases h
    · rename_i hnew
      cases hcollect : collect name service.methods .empty with
      | error e =>
        rw [hcollect] at h
        cases h
      | ok added =>
        rw [if_neg hvalid, if_neg hnew]
        exact ⟨by simpa using hvalid, by simpa using hnew, added, rfl, rfl⟩

/-- Registering that fails leaves the builder as it was. -/
theorem register_of_error {name : String} {service : Service σ} {e : RegistryError}
    (h : (b.register name service).1 = .error e) : (b.register name service).2 = b := by
  rw [register_eq] at h ⊢
  split
  · rfl
  · rename_i hvalid
    split
    · rfl
    · rename_i hnew
      rw [if_neg hvalid, if_neg hnew] at h
      cases hcollect : collect name service.methods .empty with
      | error e => rfl
      | ok added =>
        rw [hcollect] at h
        cases h

/-- One of some services has a method. -/
def Supplies (services : List (String × Service σ)) (service method : String) (h : Handler σ) : Prop :=
  ∃ s, (service, s) ∈ services ∧ (method, h) ∈ s.methods

theorem supplies_append {known : List (String × Service σ)} {name service method : String} {s : Service σ}
    {h : Handler σ} : Supplies (known ++ [(name, s)]) service method h ↔
      Supplies known service method h ∨ service = name ∧ (method, h) ∈ s.methods := by
  simp only [Supplies, List.mem_append, List.mem_singleton, Prod.mk.injEq]
  constructor
  · rintro ⟨s', hs' | ⟨rfl, rfl⟩, hmem⟩
    · exact .inl ⟨s', hs', hmem⟩
    · exact .inr ⟨rfl, hmem⟩
  · rintro (⟨s', hs', hmem⟩ | ⟨rfl, hmem⟩)
    · exact ⟨s', .inl hs', hmem⟩
    · exact ⟨s, .inr ⟨rfl, rfl⟩, hmem⟩

/-- A builder holds the methods of the services that it knows, and nothing else. -/
structure Holds (b : RegistryBuilder σ) (known : List (String × Service σ)) : Prop where
  services : b.services = known.map Prod.fst
  services_nodup : (known.map Prod.fst).Nodup
  valid : ∀ s ∈ known, isValidName s.1 = true
  methods_nodup : ∀ s ∈ known, (s.2.methods.map Prod.fst).Nodup
  find?_iff : ∀ q d, b.methods.find? q = some d ↔
    ∃ service method h, Supplies known service method h ∧ q = qualify service method ∧ d = ⟨q, h⟩
  size : b.methods.size = (known.map fun s => s.2.methods.length).sum

variable {known : List (String × Service σ)}

theorem empty_holds : (empty : RegistryBuilder σ).Holds [] where
  services := rfl
  services_nodup := List.nodup_nil
  valid := by simp
  methods_nodup := by simp
  find?_iff q d := by
    refine iff_of_false (by simp [empty, SortedMap.find?, SortedMap.empty]) ?_
    rintro ⟨_, _, _, ⟨_, hmem, _⟩, _⟩
    cases hmem
  size := rfl

/-- The methods of a service that is not known yet are not there. -/
theorem Holds.find?_eq_none (hb : b.Holds known) {name : String} (hvalid : isValidName name = true)
    (hname : name ∉ b.services) (method : String) : b.methods.find? (qualify name method) = none := by
  cases hfound : b.methods.find? (qualify name method) with
  | none => rfl
  | some d =>
    obtain ⟨service, method', h, ⟨s, hs, -⟩, hq, -⟩ := (hb.find?_iff _ d).1 hfound
    obtain ⟨rfl, -⟩ := qualify_inj hvalid (hb.valid _ hs) hq
    rw [hb.services] at hname
    exact absurd (List.mem_map_of_mem hs) hname

/-- A method is supplied under its qualified name by one service only, and once. -/
theorem Holds.unique (hb : b.Holds known) {service service' method method' : String} {h h' : Handler σ}
    (hs : Supplies known service method h) (hs' : Supplies known service' method' h')
    (hq : qualify service method = qualify service' method') : service = service' ∧ method = method' ∧ h = h' := by
  obtain ⟨s, hmem, -⟩ := id hs
  obtain ⟨s', hmem', -⟩ := id hs'
  obtain ⟨rfl, rfl⟩ := qualify_inj (hb.valid _ hmem) (hb.valid _ hmem') hq
  -- what the name finds is one method
  have hfound := (hb.find?_iff _ ⟨qualify service method, h⟩).2 ⟨service, method, h, hs, rfl, rfl⟩
  have hfound' := (hb.find?_iff _ ⟨qualify service method, h'⟩).2 ⟨service, method, h', hs', rfl, rfl⟩
  rw [hfound] at hfound'
  cases hfound'
  exact ⟨rfl, rfl, rfl⟩

/-- A service that is registered is known from then on. -/
theorem Holds.register (hb : b.Holds known) {name : String} {service : Service σ}
    (h : (b.register name service).1 = .ok ()) :
    (b.register name service).2.Holds (known ++ [(name, service)]) := by
  obtain ⟨hvalid, hname, added, hcollect, hbuilder⟩ := register_of_ok h
  rw [hbuilder]
  obtain ⟨hnodup, hmethods, hfind, hsize⟩ := collect_eq_ok hcollect
  have hadded : ∀ q d, (q, d) ∈ added.toList ↔ ∃ e ∈ service.methods, q = qualify name e.1 ∧ d = ⟨q, e.2⟩ := by
    intro q d
    rw [← SortedMap.find?_eq_some_iff, hfind]
    simp [SortedMap.find?, SortedMap.empty]
  have hnew : ∀ e ∈ added.toList, b.methods.find? e.1 = none := by
    rintro ⟨q, d⟩ he
    obtain ⟨e, -, rfl, -⟩ := (hadded q d).1 he
    exact hb.find?_eq_none hvalid hname e.1
  refine ⟨?_, ?_, ?_, ?_, ?_, ?_⟩
  · rw [List.map_append, hb.services]
    rfl
  · rw [List.map_append, List.nodup_append]
    refine ⟨hb.services_nodup, by simp, fun s hs t ht hst => hname ?_⟩
    rw [hb.services]
    rw [show t = name by simpa using ht] at hst
    exact hst ▸ hs
  · intro s hs
    rcases List.mem_append.1 hs with hs | hs
    · exact hb.valid s hs
    · rw [List.mem_singleton.1 hs]
      exact hvalid
  · intro s hs
    rcases List.mem_append.1 hs with hs | hs
    · exact hb.methods_nodup s hs
    · rw [List.mem_singleton.1 hs]
      exact hnodup
  · intro q d
    rw [SortedMap.find?_insertAll added.toList_keys_ne, hadded, hb.find?_iff]
    constructor
    · rintro (⟨e, he, hq⟩ | ⟨-, service', method, handler, hs, hq⟩)
      · exact ⟨name, e.1, e.2, supplies_append.2 (.inr ⟨rfl, he⟩), hq⟩
      · exact ⟨service', method, handler, supplies_append.2 (.inl hs), hq⟩
    · rintro ⟨service', method, handler, hs, hq, hd⟩
      rcases supplies_append.1 hs with hs | ⟨rfl, hmem⟩
      · refine .inr ⟨fun e he heq => ?_, service', method, handler, hs, hq, hd⟩
        have hfound := (hb.find?_iff q d).2 ⟨service', method, handler, hs, hq, hd⟩
        rw [← heq, hnew e he] at hfound
        cases hfound
      · exact .inl ⟨(method, handler), hmem, hq, hd⟩
  · have hcontains : ∀ e ∈ added.toList, b.methods.contains e.1 = false := fun e he =>
      SortedMap.contains_eq_false_iff.2 (hnew e he)
    have hlength : added.toList.length = service.methods.length := by
      have hsize : added.size = 0 + service.methods.length := hsize
      rwa [Nat.zero_add] at hsize
    rw [SortedMap.size_insertAll added.toList_keys_ne hcontains, hlength, hb.size, List.map_append,
      List.sum_append]
    simp

/-! ## Any calls -/

/-- The calls that succeed when services are registered one after another. -/
def registered (b : RegistryBuilder σ) (calls : List (String × Service σ)) : List (String × Service σ) :=
  ((calls.zip (b.registerAll calls).1).filter fun c => c.2.isOk).map Prod.fst

theorem registered_of_ok {name : String} {service : Service σ} (h : (b.register name service).1 = .ok ())
    (calls : List (String × Service σ)) :
    b.registered ((name, service) :: calls) = (name, service) :: (b.register name service).2.registered calls := by
  simp only [registered, RegistryBuilder.registerAll, List.zip_cons_cons, h]
  rfl

theorem registered_of_error {name : String} {service : Service σ} {e : RegistryError}
    (h : (b.register name service).1 = .error e) (calls : List (String × Service σ)) :
    b.registered ((name, service) :: calls) = b.registered calls := by
  simp only [registered, RegistryBuilder.registerAll, List.zip_cons_cons, h, register_of_error h]
  rfl

/-- After any calls a builder knows what it knew and what was registered. -/
theorem Holds.registerAll (hb : b.Holds known) (calls : List (String × Service σ)) :
    (b.registerAll calls).2.Holds (known ++ b.registered calls) := by
  induction calls generalizing b known with
  | nil =>
    rw [show b.registered [] = [] from rfl, List.append_nil]
    exact hb
  | cons call calls ih =>
    obtain ⟨name, service⟩ := call
    show ((b.register name service).2.registerAll calls).2.Holds _
    cases hregister : (b.register name service).1 with
    | ok u =>
      rw [registered_of_ok hregister, List.append_cons]
      exact ih (hb.register hregister)
    | error e =>
      rw [registered_of_error hregister, register_of_error hregister]
      exact ih hb

/-- Calls go on with the builder that the calls before them left, and with what those came to. -/
theorem registerAll_append (b : RegistryBuilder σ) (calls later : List (String × Service σ)) :
    b.registerAll (calls ++ later) =
      ((b.registerAll calls).1 ++ ((b.registerAll calls).2.registerAll later).1,
        ((b.registerAll calls).2.registerAll later).2) := by
  induction calls generalizing b with
  | nil => rfl
  | cons call calls ih =>
    simp only [List.cons_append, registerAll, ih]

/-- What is found keeps being found, whatever is registered later. -/
theorem Holds.find?_registerAll (hb : b.Holds known) {q : String} {d : Method σ} (h : b.methods.find? q = some d)
    (later : List (String × Service σ)) : (b.registerAll later).2.methods.find? q = some d := by
  obtain ⟨service, method, handler, ⟨s, hs, hmem⟩, hq⟩ := (hb.find?_iff q d).1 h
  exact ((hb.registerAll later).find?_iff q d).2
    ⟨service, method, handler, ⟨s, List.mem_append_left _ hs, hmem⟩, hq⟩

end RegistryBuilder

/-- The class of a handler tells its variant. -/
theorem Handler.callClass_eq_iff {σ : Type} {h : Handler σ} {c : CallClass} : h.callClass = c ↔
    match c with
    | .normal => ∃ run, h = .normal run
    | .readStream => ∃ openSource, h = .read openSource
    | .writeStream => ∃ openSink, h = .write openSink := by
  cases h <;> cases c <;> simp [Handler.callClass]

namespace Registry

variable {σ : Type}

open RegistryBuilder (Supplies registered)

/-- Services are registered one after another, each of them assembled from additions of any kind, and some of
them are refused. The registry finds just the methods of the services that were not, each under its qualified
name and with its own handler; only one service has a method under that name, and has it once. Whatever is
registered later leaves it as it is. The methods are as many as those services have, and clients are told
of each of them, with the class that is the variant of its handler. -/
theorem get?_registerAll (calls : List (String × List (Service.Addition σ))) :
    let assembled := calls.map fun c => (c.1, Service.assemble c.2)
    let services := RegistryBuilder.empty.registered assembled
    let built (calls : List (String × Service σ)) := (RegistryBuilder.empty.registerAll calls).2.build
    let registry := built assembled
    (∀ c ∈ calls, (Service.assemble c.2).methods = c.2.filterMap Service.Addition.method?) ∧
    (∀ q d, registry.get? q = some d ↔
      ∃ service method h, Supplies services service method h ∧ q = qualify service method ∧ d = ⟨q, h⟩) ∧
    (∀ service service' method method' h h', Supplies services service method h →
      Supplies services service' method' h' → qualify service method = qualify service' method' →
        service = service' ∧ method = method' ∧ h = h') ∧
    (services.map Prod.fst).Nodup ∧ (∀ s ∈ services, (s.2.methods.map Prod.fst).Nodup) ∧
    (∀ later q d, registry.get? q = some d → (built (assembled ++ later)).get? q = some d) ∧
    registry.size = (services.map fun s => s.2.methods.length).sum ∧
    registry.capabilities.keys = registry.methods.keys ∧
    ∀ q c, registry.capabilities.find? q = some c ↔ ∃ d, registry.get? q = some d ∧
      match c with
      | .normal => ∃ run, d.handler = .normal run
      | .readStream => ∃ openSource, d.handler = .read openSource
      | .writeStream => ∃ openSink, d.handler = .write openSink := by
  intro assembled services built registry
  have hholds : (RegistryBuilder.empty.registerAll assembled).2.Holds services :=
    RegistryBuilder.empty_holds.registerAll assembled
  refine ⟨fun c _ => Service.assemble_methods c.2, hholds.find?_iff, ?_, hholds.services_nodup,
    hholds.methods_nodup, ?_, hholds.size, ?_, ?_⟩
  · exact fun service service' method method' h h' hs hs' hq => hholds.unique hs hs' hq
  · intro later q d h
    show (RegistryBuilder.empty.registerAll (assembled ++ later)).2.methods.find? q = some d
    rw [RegistryBuilder.registerAll_append]
    exact hholds.find?_registerAll h later
  · simp [SortedMap.keys, capabilities, SortedMap.mapValues]
  · intro q c
    have hclass : registry.capabilities.find? q = (registry.get? q).map Method.callClass :=
      SortedMap.find?_mapValues Method.callClass registry.methods q
    rw [hclass, Option.map_eq_some_iff]
    exact exists_congr fun d => and_congr_right fun _ => Handler.callClass_eq_iff

end Registry

end RemoteCall
