import RemoteCall.Files.Service
import RemoteCall.Proofs.Value.Arguments
/-!
# Names of files

A name is one component of a path if it leads one step down from every folder. The names that the methods on the files
of a folder accept are exactly these, as far as they hold no backslash.
-/

namespace RemoteCall.Files

/-! ## Components -/

/-- From every folder, a name leads to what has this name there. -/
def IsComponent (name : String) : Prop := ∀ folder, join folder name = folder ++ [name]

theorem split_of_no_slash {cs : List Char} (h : '/' ∉ cs) : join.split cs = [cs] := by
  induction cs with
  | nil => rfl
  | cons c cs ih =>
    obtain ⟨hc, hcs⟩ := not_or.1 (mt List.mem_cons.2 h)
    rw [join.split, if_neg (Ne.symm hc), ih hcs]

/-- The parts between slashes hold none. -/
theorem no_slash_of_mem_split {cs part : List Char} (h : part ∈ join.split cs) : '/' ∉ part := by
  induction cs generalizing part with
  | nil =>
    cases List.mem_singleton.1 h
    exact List.not_mem_nil
  | cons c cs ih =>
    unfold join.split at h
    split at h
    · rcases List.mem_cons.1 h with rfl | h
      · exact List.not_mem_nil
      · exact ih h
    · rename_i hc
      split at h
      · rename_i first parts hsplit
        rcases List.mem_cons.1 h with rfl | h
        · have hfirst : '/' ∉ first := ih (by rw [hsplit]; exact List.mem_cons_self)
          exact mt List.mem_cons.1 (not_or.2 ⟨Ne.symm hc, hfirst⟩)
        · exact ih (by rw [hsplit]; exact List.mem_cons_of_mem _ h)
      · cases List.mem_singleton.1 h
        exact mt List.mem_cons.1 (not_or.2 ⟨Ne.symm hc, List.not_mem_nil⟩)

/-- What follows a name from the top of the tree has parts of the name alone. -/
theorem mem_of_mem_foldl_enter {path parts : List String} {part : String} (h : part ∈ parts.foldl join.enter path) :
    part ∈ path ∨ part ∈ parts := by
  induction parts generalizing path with
  | nil => exact .inl h
  | cons first parts ih =>
    rcases ih h with h | h
    · unfold join.enter at h
      split at h
      · exact .inl h
      · split at h
        · exact .inl (path.dropLast_sublist.subset h)
        · rcases List.mem_append.1 h with h | h
          · exact .inl h
          · exact .inr (by rw [List.mem_singleton.1 h]; exact List.mem_cons_self)
    · exact .inr (List.mem_cons_of_mem _ h)

theorem join_of_no_slash {name : String} (h : '/' ∉ name.toList) (folder : Path) :
    join folder name = join.enter folder name := by
  have hstart : (name.toList.head? == some '/') = false := by
    refine beq_eq_false_iff_ne.2 fun hhead => h ?_
    exact List.mem_of_mem_head? hhead
  unfold join
  rw [hstart, split_of_no_slash h]
  simp

/-- The components are the names without slashes that neither are empty nor stand for a folder or the one above. -/
theorem isComponent_iff {name : String} :
    IsComponent name ↔ name ≠ "" ∧ name ≠ "." ∧ name ≠ ".." ∧ '/' ∉ name.toList := by
  constructor
  · intro h
    have htop : join [] name = [name] := h []
    refine ⟨?_, ?_, ?_, fun hslash => ?_⟩
    · rintro rfl
      cases htop
    · rintro rfl
      cases htop
    · rintro rfl
      cases htop
    · have hmem : name ∈ join [] name := by
        rw [htop]
        exact List.mem_singleton_self name
      have hstart : (if name.toList.head? == some '/' then [] else ([] : Path)) = [] := ite_self _
      unfold join at hmem
      rw [hstart] at hmem
      rcases mem_of_mem_foldl_enter hmem with hmem | hmem
      · cases hmem
      · obtain ⟨part, hpart, hname⟩ := List.mem_map.1 hmem
        rw [← hname, String.toList_ofList] at hslash
        exact no_slash_of_mem_split hpart hslash
  · rintro ⟨hempty, hdot, hdots, hslash⟩ folder
    rw [join_of_no_slash hslash]
    simp [join.enter, hempty, hdot, hdots]

/-! ## Accepted names -/

/-- The accepted names are the components without backslash. -/
theorem isPlainName_iff {name : String} : isPlainName name = true ↔ IsComponent name ∧ '\\' ∉ name.toList := by
  rw [isComponent_iff]
  simp only [isPlainName, Bool.and_eq_true, bne_iff_ne, Bool.not_eq_true', List.any_eq_false, Bool.or_eq_true,
    beq_iff_eq, not_or, and_assoc]
  refine and_congr_right fun _ => and_congr_right fun _ => and_congr_right fun _ => ?_
  constructor
  · intro h
    exact ⟨fun hslash => (h _ hslash).1 rfl, fun hback => (h _ hback).2 rfl⟩
  · rintro ⟨hslash, hback⟩ c hc
    exact ⟨fun heq => hslash (heq ▸ hc), fun heq => hback (heq ▸ hc)⟩

-- what the names lead to that are refused; three dots stand for nothing but themselves
example : ["../etc", "/etc", ".", "a/b", "a\\b"].map (join ["srv"]) =
      [["etc"], ["etc"], ["srv"], ["srv", "a", "b"], ["srv", "a\\b"]] ∧
    ["../etc", "/etc", ".", "a/b", "a\\b"].all (!isPlainName ·) ∧
    join ["srv"] "..." = ["srv", "..."] ∧ isPlainName "..." := by
  decide +kernel

/-! ## The file that a call names -/

/-- A file is named by a text as the first argument. -/
theorem get_name_eq_ok_iff {args : Arguments} {name : String} :
    args.get String 0 = .ok name ↔ ∃ more, args.values = .text name :: more := by
  rw [Arguments.get_eq_ok_iff]
  constructor
  · rintro ⟨v, hv, hread⟩
    obtain ⟨more, hvalues⟩ : ∃ more, args.values = v :: more := by
      cases hvalues : args.values with
      | nil =>
        rw [hvalues] at hv
        cases hv
      | cons u more =>
        rw [hvalues] at hv
        cases hv
        exact ⟨more, rfl⟩
    cases v with
    | text s =>
      cases hread
      exact ⟨more, hvalues⟩
    | _ => cases hread
  · rintro ⟨more, hvalues⟩
    exact ⟨.text name, by rw [hvalues]; rfl, rfl⟩

/-- A file is not named without an argument or by one that is not a text. -/
theorem get_name_eq_error_iff {args : Arguments} {e : AppError} :
    args.get String 0 = .error e ↔
      args.values = [] ∧ e = .ofMessage "missing argument 0" ∨
      ∃ v more cause, args.values = v :: more ∧ (fromValue v : Except AppError String) = .error cause ∧
        e = .ofMessage s!"argument 0: {cause.display}" := by
  obtain ⟨_ | ⟨v, more⟩⟩ := args
  · constructor
    · rintro ⟨⟩
      exact .inl ⟨rfl, rfl⟩
    · rintro (⟨-, rfl⟩ | ⟨v, more, e', ⟨⟩, -⟩)
      rfl
  · constructor
    · intro h
      cases hv : (fromValue v : Except AppError String) with
      | ok name => cases h.symm.trans (Arguments.get_eq_ok_iff.2 ⟨v, rfl, hv⟩)
      | error e' =>
        cases h.symm.trans (Arguments.get_of_misfit rfl hv)
        exact .inr ⟨v, more, e', rfl, hv, rfl⟩
    · rintro (⟨⟨⟩, -⟩ | ⟨v, more, e', ⟨⟩, hv, rfl⟩)
      exact Arguments.get_of_misfit rfl hv

theorem resolve_eq (root : Path) (args : Arguments) :
    resolve root args = match args.get String 0 with
      | .error e => .error e
      | .ok name =>
        if isPlainName name then .ok (join root name)
        else .error (.ofMessage s!"invalid file name {Text.quote name}") := by
  unfold resolve
  cases args.get String 0 <;> rfl

/-- The path of a file is that of its name in the folder, one step down. -/
theorem resolve_eq_ok_iff {root path : Path} {args : Arguments} :
    resolve root args = .ok path ↔
      ∃ name more, args.values = .text name :: more ∧ IsComponent name ∧ '\\' ∉ name.toList ∧
        path = root ++ [name] := by
  rw [resolve_eq]
  constructor
  · intro h
    split at h
    · cases h
    · rename_i name hname
      split at h
      · rename_i hplain
        obtain ⟨more, hvalues⟩ := get_name_eq_ok_iff.1 hname
        obtain ⟨hcomponent, hback⟩ := isPlainName_iff.1 hplain
        cases h
        exact ⟨name, more, hvalues, hcomponent, hback, hcomponent root⟩
      · cases h
  · rintro ⟨name, more, hvalues, hcomponent, hback, rfl⟩
    have hname : args.get String 0 = .ok name := get_name_eq_ok_iff.2 ⟨more, hvalues⟩
    have hplain : isPlainName name = true := isPlainName_iff.2 ⟨hcomponent, hback⟩
    simp only [hname, hplain, if_true, hcomponent root]

/-- Why a call names no file: the first argument is missing, or is not a text, or is not an accepted name. -/
theorem resolve_eq_error_iff {root : Path} {args : Arguments} {e : AppError} :
    resolve root args = .error e ↔
      (args.values = [] ∧ e = .ofMessage "missing argument 0") ∨
      (∃ v more cause, args.values = v :: more ∧ (fromValue v : Except AppError String) = .error cause ∧
        e = .ofMessage s!"argument 0: {cause.display}") ∨
      ∃ name more, args.values = .text name :: more ∧ ¬(IsComponent name ∧ '\\' ∉ name.toList) ∧
        e = .ofMessage s!"invalid file name {Text.quote name}" := by
  rw [resolve_eq, ← or_assoc, ← get_name_eq_error_iff]
  simp only [← isPlainName_iff]
  cases hname : args.get String 0 with
  | error e' =>
    constructor
    · rintro ⟨⟩
      exact .inl rfl
    · rintro (⟨⟨⟩⟩ | ⟨name, more, hvalues, -⟩)
      · rfl
      · cases hname.symm.trans (get_name_eq_ok_iff.2 ⟨more, hvalues⟩)
  | ok name =>
    obtain ⟨more, hvalues⟩ := get_name_eq_ok_iff.1 hname
    rw [or_iff_right nofun]
    constructor
    · intro h
      by_cases hplain : isPlainName name = true
      · simp only [hplain, if_true] at h
        cases h
      · simp only [hplain] at h
        cases h
        exact ⟨name, more, hvalues, hplain, rfl⟩
    · rintro ⟨name', more', hvalues', hplain, rfl⟩
      cases hvalues.symm.trans hvalues'
      simp only [hplain]
      rfl

end RemoteCall.Files
