import RemoteCall.Codec.Encode
import RemoteCall.Demo.Types
/-!
# Encoding into buffers

An encoding makes its writes one after another on some destination, up to the first one that is not taken:
`Encoding.onto`. On a buffer that grows this comes to `bytes` and `fault?`, and on one of fixed size to
`intoBuffer`. The second holds what the first does as far as there is room, wherever that ends: `onto_fill_of_fits`
and `onto_fill_of_full` say so for every encoding, and `intoBuffer_encode` for every codec.
-/

namespace RemoteCall

namespace Encoding

/-! ## Destinations -/

/-- Makes the writes one after another, as long as the destination takes them and no fault ends the encoding. -/
def onto {σ : Type} (take : σ → Bytes → σ × Option Fault) : Encoding → σ → σ × Option Fault
  | empty, s => (s, none)
  | write bs, s => take s bs
  | fail f, s => (s, some f)
  | andThen first next, s =>
    match first.onto take s with
    | (s', none) => next.onto take s'
    | (s', some f) => (s', some f)

/-- A buffer that grows takes every write. -/
def grow (held bs : Bytes) : Bytes × Option Fault := (held ++ bs, none)

/-- A buffer of fixed size takes a write that it has room for; one larger than the room left fills it and fails. -/
def fill (limit : Nat) (held bs : Bytes) : Bytes × Option Fault :=
  if held.length + bs.length ≤ limit then (held ++ bs, none)
  else (held ++ bs.take (limit - held.length), some .bufferFull)

theorem bytes_write (bs : Bytes) : (write bs).bytes = bs := by simp [bytes]

theorem bytes_andThen_of_none {first : Encoding} (h : first.fault? = none) (next : Encoding) :
    (first.andThen next).bytes = first.bytes ++ next.bytes := by
  simp [bytes, writes_andThen, h]

/-- What comes behind a fault is not written. -/
theorem bytes_andThen_of_some {first : Encoding} {f : Fault} (h : first.fault? = some f) (next : Encoding) :
    (first.andThen next).bytes = first.bytes := by
  simp [bytes, writes_andThen, h]

/-- A buffer that grows holds all that is written. -/
theorem onto_grow (e : Encoding) (held : Bytes) : e.onto grow held = (held ++ e.bytes, e.fault?) := by
  induction e generalizing held with
  | empty => simp [onto, bytes]
  | write bs => simp [onto, grow, bytes]
  | fail f => simp [onto, bytes]
  | andThen first next ihfirst ihnext =>
    rw [onto, ihfirst, fault?_andThen]
    cases hfault : first.fault? with
    | none => simp [ihnext, bytes_andThen_of_none hfault]
    | some f => simp [bytes_andThen_of_some hfault]

/-- So does a buffer of fixed size, if it has room for it. -/
theorem onto_fill_of_fits (e : Encoding) {limit : Nat} {held : Bytes} (h : held.length + e.bytes.length ≤ limit) :
    e.onto (fill limit) held = (held ++ e.bytes, e.fault?) := by
  induction e generalizing held with
  | empty => simp [onto, bytes]
  | write bs =>
    rw [bytes_write] at h ⊢
    rw [onto, fill, if_pos h, fault?_write]
  | fail f => simp [onto, bytes]
  | andThen first next ihfirst ihnext =>
    rw [fault?_andThen]
    cases hfault : first.fault? with
    | none =>
      rw [bytes_andThen_of_none hfault, List.length_append] at h
      have hfirst : held.length + first.bytes.length ≤ limit := by omega
      have hnext : (held ++ first.bytes).length + next.bytes.length ≤ limit := by
        rw [List.length_append]
        omega
      rw [onto, ihfirst hfirst, hfault, bytes_andThen_of_none hfault, ← List.append_assoc]
      exact ihnext hnext
    | some f =>
      rw [bytes_andThen_of_some hfault] at h ⊢
      rw [onto, ihfirst h, hfault]
      rfl

/-- Otherwise it holds the start, and is full. -/
theorem onto_fill_of_full (e : Encoding) {limit : Nat} {held : Bytes} (hheld : held.length ≤ limit)
    (h : limit < held.length + e.bytes.length) :
    e.onto (fill limit) held = ((held ++ e.bytes).take limit, some .bufferFull) := by
  induction e generalizing held with
  | empty =>
    simp only [bytes, writes_empty, List.flatten_nil, List.length_nil] at h
    omega
  | write bs =>
    rw [bytes_write] at h ⊢
    rw [onto, fill, if_neg (Nat.not_le.2 h), List.take_append, List.take_of_length_le hheld]
  | fail f =>
    simp only [bytes, writes_fail, List.flatten_nil, List.length_nil] at h
    omega
  | andThen first next ihfirst ihnext =>
    by_cases hroom : held.length + first.bytes.length ≤ limit
    · cases hfault : first.fault? with
      | none =>
        -- the first part is written, and the second one has the room that is left
        rw [bytes_andThen_of_none hfault, List.length_append] at h
        have hfirst : (held ++ first.bytes).length ≤ limit := by rwa [List.length_append]
        have hnext : limit < (held ++ first.bytes).length + next.bytes.length := by
          rw [List.length_append]
          omega
        rw [onto, onto_fill_of_fits first hroom, hfault, bytes_andThen_of_none hfault, ← List.append_assoc]
        exact ihnext hfirst hnext
      | some f =>
        rw [bytes_andThen_of_some hfault] at h
        omega
    · have hfirst := ihfirst hheld (Nat.not_le.1 hroom)
      have hlength : limit ≤ (held ++ first.bytes).length := by
        rw [List.length_append]
        omega
      rw [onto, hfirst]
      cases hfault : first.fault? with
      | none => rw [bytes_andThen_of_none hfault, ← List.append_assoc, List.take_append_of_le_length hlength]
      | some f => rw [bytes_andThen_of_some hfault]

/-- The writes go into the room left one after another. -/
theorem go_eq (fault? : Option Fault) (room : Nat) (made ws : List Bytes) :
    intoBuffer.go fault? room made ws = (made.reverse.flatten ++ ws.flatten.take room,
      if ws.flatten.length ≤ room then fault? else some .bufferFull) := by
  induction ws generalizing room made with
  | nil => simp [intoBuffer.go]
  | cons w ws ih =>
    rw [intoBuffer.go, List.flatten_cons, List.length_append]
    by_cases hroom : w.length ≤ room
    · have hrest : ws.flatten.length ≤ room - w.length ↔ w.length + ws.flatten.length ≤ room := by omega
      rw [if_pos hroom, ih, List.take_append, List.take_of_length_le hroom]
      simp only [hrest, List.reverse_cons, List.flatten_append, List.flatten_cons, List.flatten_nil,
        List.append_nil, List.append_assoc]
    · have hfull : ¬w.length + ws.flatten.length ≤ room := by omega
      rw [if_neg hroom, if_neg hfull, List.take_append_of_le_length (by omega)]
      simp

theorem intoBuffer_eq (e : Encoding) (limit : Nat) :
    e.intoBuffer limit = (e.bytes.take limit, if e.bytes.length ≤ limit then e.fault? else some .bufferFull) :=
  go_eq e.fault? limit [] e.writes

/-- Writing into a buffer of fixed size comes to making the writes there one after another. -/
theorem intoBuffer_eq_onto (e : Encoding) (limit : Nat) : e.intoBuffer limit = e.onto (fill limit) [] := by
  rw [intoBuffer_eq]
  by_cases hroom : e.bytes.length ≤ limit
  · rw [onto_fill_of_fits e (by rwa [List.length_nil, Nat.zero_add]), if_pos hroom, List.take_of_length_le hroom]
    rfl
  · rw [onto_fill_of_full e (Nat.zero_le limit) (by rw [List.length_nil]; omega), if_neg hroom]
    rfl

/-! ## Faults of encodings -/

/-- The encoding fails only for a number that is too large to be written. -/
def FailsForSize (e : Encoding) : Prop := ∀ f, e.fault? = some f → f = .wideVariant ∨ f = .tooMany

theorem FailsForSize.empty : empty.FailsForSize := by
  intro f h
  rw [fault?_empty] at h
  cases h

theorem FailsForSize.write (bs : Bytes) : (write bs).FailsForSize := by
  intro f h
  rw [fault?_write] at h
  cases h

theorem FailsForSize.andThen {first next : Encoding} (hf : first.FailsForSize) (hn : next.FailsForSize) :
    (first.andThen next).FailsForSize := by
  intro f h
  rw [fault?_andThen, Option.or_eq_some_iff] at h
  rcases h with h | ⟨-, h⟩
  · exact hf f h
  · exact hn f h

theorem FailsForSize.each {α : Type} {encode : α → Encoding} (h : ∀ x, (encode x).FailsForSize) (xs : List α) :
    (Encoding.each encode xs).FailsForSize := by
  induction xs with
  | nil => exact .empty
  | cons x xs ih => exact (h x).andThen ih

end Encoding

namespace Codec

open Encoding

variable {α : Type}

theorem failsForSize_encodeWord (n : UInt32) : (encodeWord n).FailsForSize := .write _

theorem failsForSize_encodeLongWord (n : UInt64) : (encodeLongWord n).FailsForSize := .write _

theorem failsForSize_encodeCount (n : Nat) : (encodeCount n).FailsForSize := by
  unfold encodeCount
  split
  · exact failsForSize_encodeWord _
  · intro f h
    rw [fault?_fail] at h
    cases h
    exact .inr rfl

theorem failsForSize_encodeBytes (bs : Bytes) : (encodeBytes bs).FailsForSize := by
  refine (failsForSize_encodeCount _).andThen ((FailsForSize.write bs).andThen ?_)
  split
  · exact .empty
  · exact .write _

theorem failsForSize_encodeOption {encode : α → Encoding} (h : ∀ x, (encode x).FailsForSize) (x? : Option α) :
    (encodeOption encode x?).FailsForSize := by
  cases x? with
  | none => exact failsForSize_encodeWord _
  | some x => exact (failsForSize_encodeWord _).andThen (h x)

theorem failsForSize_encodeError (e : AppError) : (encodeError e).FailsForSize :=
  failsForSize_encodeOption (fun s => failsForSize_encodeBytes (utf8 s)) e.message?

theorem failsForSize_encodeKinded (v : Value) {content : Encoding} (h : content.FailsForSize) :
    (encodeKinded v content).FailsForSize := (failsForSize_encodeWord _).andThen h

mutual

theorem failsForSize_encodeContent : (v : Value) → (encodeContent v).FailsForSize
  | .nil => .empty
  | .bool _ => failsForSize_encodeWord _
  | .int _ => failsForSize_encodeLongWord _
  | .uint _ => failsForSize_encodeLongWord _
  | .float _ => failsForSize_encodeLongWord _
  | .text s => failsForSize_encodeBytes (utf8 s)
  | .bytes bs => failsForSize_encodeBytes bs
  | .list items => (failsForSize_encodeCount _).andThen (failsForSize_encodeItems items)
  | .map entries => (failsForSize_encodeCount _).andThen (failsForSize_encodeEntries entries)
  | .record fields => (failsForSize_encodeCount _).andThen (failsForSize_encodeFields fields)
  | .error e => failsForSize_encodeError e

theorem failsForSize_encodeItems : (items : List Value) → (encodeItems items).FailsForSize
  | [] => .empty
  | v :: rest =>
    (failsForSize_encodeKinded v (failsForSize_encodeContent v)).andThen (failsForSize_encodeItems rest)

theorem failsForSize_encodeEntries : (entries : List (Value × Value)) → (encodeEntries entries).FailsForSize
  | [] => .empty
  | (k, v) :: rest =>
    (failsForSize_encodeKinded k (failsForSize_encodeContent k)).andThen <|
      (failsForSize_encodeKinded v (failsForSize_encodeContent v)).andThen (failsForSize_encodeEntries rest)

theorem failsForSize_encodeFields : (fields : List (String × Value)) → (encodeFields fields).FailsForSize
  | [] => .empty
  | (k, v) :: rest =>
    (failsForSize_encodeBytes (utf8 k)).andThen <|
      (failsForSize_encodeKinded v (failsForSize_encodeContent v)).andThen (failsForSize_encodeFields rest)

end

/-- No codec fails for another reason, so none fails as a full buffer does. -/
theorem failsForSize_encode (c : Codec α) (x : α) : (c.encode x).FailsForSize := by
  induction c with
  | unit => exact .empty
  | bool | int32 | uint32 => exact failsForSize_encodeWord _
  | int64 | uint64 | float => exact failsForSize_encodeLongWord _
  | bytes | text => exact failsForSize_encodeBytes _
  | enumeration e =>
    simp only [encode]
    split
    · exact failsForSize_encodeWord _
    · intro f h
      rw [fault?_fail] at h
      cases h
      exact .inl rfl
  | error => exact failsForSize_encodeError x
  | value => exact failsForSize_encodeKinded x (failsForSize_encodeContent x)
  | list item ih => exact (failsForSize_encodeCount _).andThen (.each ih x)
  | option item ih => exact failsForSize_encodeOption ih x
  | map key content ihkey ihcontent =>
    exact (failsForSize_encodeCount _).andThen (.each (fun e => (ihkey e.1).andThen (ihcontent e.2)) x.toList)
  | pair first second ihfirst ihsecond => exact (ihfirst x.1).andThen (ihsecond x.2)
  | layout l fields ih => exact ih (l.fields x)

/-- On a buffer of fixed size encoding writes the start of what it writes on a buffer that grows. It ends in the
same way if there is room for all of that, and otherwise, and only then, with the fault of a full buffer. -/
theorem intoBuffer_encode (c : Codec α) (x : α) (limit : Nat) :
    ∃ w r, (c.encode x).onto grow [] = (w, r) ∧ w = (c.encode x).bytes ∧ r = (c.encode x).fault? ∧
      (c.encode x).onto (fill limit) [] = (c.encode x).intoBuffer limit ∧
      (c.encode x).intoBuffer limit = (w.take limit, if w.length ≤ limit then r else some .bufferFull) ∧
      ((∃ f, ((c.encode x).intoBuffer limit).2 = some f ∧ f.kind = .writeZero) ↔ limit < w.length) := by
  have hbuffer := (c.encode x).intoBuffer_eq limit
  refine ⟨_, _, onto_grow (c.encode x) [], rfl, rfl, (intoBuffer_eq_onto _ limit).symm, hbuffer, ?_⟩
  rw [hbuffer, List.nil_append, ← Nat.not_le]
  by_cases hroom : (c.encode x).bytes.length ≤ limit
  · rw [if_pos hroom]
    -- a fault of the encoding is of another sort than that of the buffer
    refine iff_of_false ?_ (not_not_intro hroom)
    rintro ⟨f, hf, hkind⟩
    rcases failsForSize_encode c x f hf with rfl | rfl <;> cases hkind
  · rw [if_neg hroom]
    exact iff_of_true ⟨.bufferFull, rfl, rfl⟩ hroom

/-- A variant that cannot be encoded, behind one that can: eight bytes are written before its fault, which a buffer
of seven bytes does not come to. -/
example :
    let e := (list (enumeration Demo.Probe.enumeration)).encode [.seven, .huge]
    e.intoBuffer 8 = ([0, 0, 0, 2, 0, 0, 0, 7], some .wideVariant) ∧
      e.intoBuffer 7 = ([0, 0, 0, 2, 0, 0, 0], some .bufferFull) := by
  decide +kernel

end Codec

end RemoteCall
