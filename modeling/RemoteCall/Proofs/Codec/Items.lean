import RemoteCall.Proofs.Codec.Sequence
/-!
# Words, byte strings and texts

The items that every codec is made of, in both directions. `Decoder.Reads` says that a decoder takes
certain bytes off any input for a result, and `Decoder.Spells` that whatever it accepts is the
encoding of its result. The second is where leniency would show: in a truth value that is neither 0
nor 1, in padding that is not zero, in text that is not UTF-8.
-/

namespace RemoteCall

namespace Decoder

variable {α β : Type}

/-- The decoder takes these bytes, and not one more, off any input for this result. -/
def Reads (d : Decoder α) (bs : Bytes) (x : α) : Prop := ∀ rest, d (bs ++ rest) = (.ok x, rest)

theorem Reads.pure (x : α) : (Pure.pure x : Decoder α).Reads [] x := fun _ => rfl

theorem Reads.bind {d : Decoder α} {next : α → Decoder β} {a b : Bytes} {x : α} {y : β}
    (hd : d.Reads a x) (hn : (next x).Reads b y) : (d >>= next).Reads (a ++ b) y := by
  intro rest
  rw [bind_apply, List.append_assoc, hd (b ++ rest)]
  exact hn rest

theorem Reads.map {d : Decoder α} {bs : Bytes} {x : α} (hd : d.Reads bs x) (g : α → β) :
    (g <$> d).Reads bs (g x) := by
  intro rest
  rw [map_apply, hd rest]

/-- What the decoder accepts is the encoding of its result, in front of what is left, and the result is
among those that fit. -/
def Spells (d : Decoder α) (encode : α → Encoding) (fits : α → Prop) : Prop :=
  ∀ bs x rest, d bs = (.ok x, rest) →
    fits x ∧ ∃ used, (encode x).toExcept = .ok used ∧ bs = used ++ rest

theorem Spells.map {d : Decoder α} {encode : α → Encoding} {encode' : β → Encoding} {fits : α → Prop}
    {fits' : β → Prop} (hd : d.Spells encode fits) (g : α → β)
    (he : ∀ x, (encode' (g x)).toExcept = (encode x).toExcept) (hf : ∀ x, fits x → fits' (g x)) :
    (g <$> d).Spells encode' fits' := by
  intro bs y rest h
  obtain ⟨x, hx, rfl⟩ := map_eq_ok.1 h
  obtain ⟨hfit, used, hused, rfl⟩ := hd _ _ _ hx
  exact ⟨hf x hfit, used, by rw [he, hused], rfl⟩

end Decoder

namespace Codec

open Decoder

/-! ## Words -/

theorem take_append_length {a rest : Bytes} {n : Nat} (h : a.length = n) : (a ++ rest).take n = a := by
  subst h
  exact List.take_left

theorem drop_append_length {a rest : Bytes} {n : Nat} (h : a.length = n) : (a ++ rest).drop n = rest := by
  subst h
  exact List.drop_left

theorem decodeNumber_reads (width n : Nat) :
    (decodeNumber width).Reads (bigEndian width n) (n % wordRange width) := by
  intro rest
  have hlen := length_bigEndian width n
  simp only [decodeNumber, take_append_length hlen, drop_append_length hlen, hlen, if_true,
    ofBigEndian_bigEndian]

/-- An accepted number was written with the bytes taken. -/
theorem eq_of_decodeNumber {width n : Nat} {bs rest : Bytes} (h : decodeNumber width bs = (.ok n, rest)) :
    n < wordRange width ∧ bs = bigEndian width n ++ rest := by
  simp only [decodeNumber] at h
  split at h
  · rename_i hlen
    cases h
    have hlt := ofBigEndian_lt (bs.take width)
    have hback := bigEndian_ofBigEndian (bs.take width)
    rw [hlen] at hlt hback
    exact ⟨hlt, by rw [hback, List.take_append_drop]⟩
  · cases h

theorem decodeWord_reads (n : UInt32) : decodeWord.Reads (bigEndian 4 n.toNat) n := by
  have h := (decodeNumber_reads 4 n.toNat).map UInt32.ofNat
  have hn : n.toNat % wordRange 4 = n.toNat := Nat.mod_eq_of_lt n.toNat_lt
  rw [hn, UInt32.ofNat_toNat] at h
  exact h

theorem decodeLongWord_reads (n : UInt64) : decodeLongWord.Reads (bigEndian 8 n.toNat) n := by
  have h := (decodeNumber_reads 8 n.toNat).map UInt64.ofNat
  have hn : n.toNat % wordRange 8 = n.toNat := Nat.mod_eq_of_lt n.toNat_lt
  rw [hn, UInt64.ofNat_toNat] at h
  exact h

theorem decodeWord_spells : decodeWord.Spells encodeWord (fun _ => True) := by
  intro bs x rest h
  obtain ⟨n, hn, rfl⟩ := map_eq_ok.1 h
  obtain ⟨hlt, rfl⟩ := eq_of_decodeNumber hn
  have hx : (UInt32.ofNat n).toNat = n := UInt32.toNat_ofNat_of_lt' hlt
  exact ⟨trivial, _, by rw [encodeWord, hx, Encoding.toExcept_write], rfl⟩

theorem decodeLongWord_spells : decodeLongWord.Spells encodeLongWord (fun _ => True) := by
  intro bs x rest h
  obtain ⟨n, hn, rfl⟩ := map_eq_ok.1 h
  obtain ⟨hlt, rfl⟩ := eq_of_decodeNumber hn
  have hx : (UInt64.ofNat n).toNat = n := UInt64.toNat_ofNat_of_lt' hlt
  exact ⟨trivial, _, by rw [encodeLongWord, hx, Encoding.toExcept_write], rfl⟩

/-- A count can be written if it is less than the range of a word. -/
theorem encodeCount_eq_ok {n : Nat} {bs : Bytes} :
    (encodeCount n).toExcept = .ok bs ↔ n < 0x100000000 ∧ bs = bigEndian 4 n := by
  unfold encodeCount
  split
  · rename_i hn
    have hword : (UInt32.ofNat n).toNat = n := UInt32.toNat_ofNat_of_lt' hn
    rw [encodeWord, hword, Encoding.toExcept_write]
    simp [hn, eq_comm]
  · rename_i hn
    simp [hn]

/-- The count that a word tells is written as that word. -/
theorem encodeCount_toNat (n : UInt32) : encodeCount n.toNat = encodeWord n := by
  have hn : n.toNat < 0x100000000 := n.toNat_lt
  rw [encodeCount, if_pos hn, UInt32.ofNat_toNat]

/-! ## Truth values -/

theorem decodeBool_reads (b : Bool) : decodeBool.Reads (bigEndian 4 (if b then 1 else 0)) b := by
  intro rest
  rw [decodeBool, bind_apply]
  cases b with
  | false =>
    have h : decodeWord (bigEndian 4 0 ++ rest) = (.ok 0, rest) := decodeWord_reads 0 rest
    simp only [Bool.false_eq_true, if_false, h]
    rfl
  | true =>
    have h : decodeWord (bigEndian 4 1 ++ rest) = (.ok 1, rest) := decodeWord_reads 1 rest
    simp only [if_true, h]
    rfl

theorem decodeBool_spells : decodeBool.Spells encodeBool (fun _ => True) := by
  intro bs b rest h
  obtain ⟨n, mid, hn, hb⟩ := bind_eq_ok.1 h
  obtain ⟨-, used, hused, rfl⟩ := decodeWord_spells _ _ _ hn
  rcases hcode : n.toNat with _ | _ | k <;> rw [hcode] at hb
  · obtain ⟨rfl, rfl⟩ := pure_eq_ok.1 hb
    obtain rfl : n = 0 := UInt32.toNat_inj.1 hcode
    exact ⟨trivial, used, hused, rfl⟩
  · obtain ⟨rfl, rfl⟩ := pure_eq_ok.1 hb
    obtain rfl : n = 1 := UInt32.toNat_inj.1 hcode
    exact ⟨trivial, used, hused, rfl⟩
  · cases hb

/-! ## Byte strings and texts -/

/-- The zero bytes that fill up a byte string of this length. -/
def zeros (length : Nat) : Bytes := List.replicate (paddingLength length) 0

theorem decodePadding_reads (length : Nat) : (decodePadding length).Reads (zeros length) () := by
  intro rest
  have hlen : (zeros length).length = paddingLength length := List.length_replicate
  have hzero : (zeros length).all (· == 0) = true := by simp [zeros]
  simp only [decodePadding, take_append_length hlen, drop_append_length hlen, hlen, if_true, hzero]

/-- Padding is accepted only if it is zero. -/
theorem eq_of_decodePadding {length : Nat} {bs rest : Bytes} (h : decodePadding length bs = (.ok (), rest)) :
    bs = zeros length ++ rest := by
  simp only [decodePadding] at h
  split at h
  · rename_i hlen
    -- bytes that are all zero are the padding itself
    by_cases hzero : (bs.take (paddingLength length)).all (· == 0) = true
    · rw [if_pos hzero] at h
      obtain rfl := (Prod.mk.injEq _ _ _ _ ▸ h).2
      have hrep : bs.take (paddingLength length) = zeros length := by
        rw [zeros, List.eq_replicate_iff]
        exact ⟨hlen, by simpa using hzero⟩
      rw [← hrep, List.take_append_drop]
    · rw [if_neg hzero] at h
      cases h
  · cases h

/-- A byte string goes over the wire as its length, its bytes and zeros. -/
theorem encodeBytes_eq_ok {bs used : Bytes} :
    (encodeBytes bs).toExcept = .ok used ↔
      bs.length < 0x100000000 ∧ used = bigEndian 4 bs.length ++ (bs ++ zeros bs.length) := by
  have hpad : (if paddingLength bs.length = 0 then Encoding.empty
      else .write (List.replicate (paddingLength bs.length) 0)).toExcept = .ok (zeros bs.length) := by
    split
    · rename_i h
      simp [zeros, h]
    · exact Encoding.toExcept_write _
  simp only [encodeBytes, Encoding.toExcept_andThen_eq_ok, encodeCount_eq_ok, Encoding.toExcept_write, hpad]
  grind

theorem decodeBytes_reads {bs used : Bytes} (h : (encodeBytes bs).toExcept = .ok used) :
    decodeBytes.Reads used bs := by
  obtain ⟨hlen, rfl⟩ := encodeBytes_eq_ok.1 h
  intro rest
  have hword : (UInt32.ofNat bs.length).toNat = bs.length := UInt32.toNat_ofNat_of_lt' hlen
  have hcount := decodeWord_reads (UInt32.ofNat bs.length) (bs ++ (zeros bs.length ++ rest))
  rw [hword] at hcount
  simp only [decodeBytes, receiveBytes, List.append_assoc, hcount, hword, List.take_left, List.drop_left,
    if_true, decodePadding_reads bs.length rest]
  rfl

theorem decodeBytes_spells : decodeBytes.Spells encodeBytes (fun _ => True) := by
  intro bs x rest h
  simp only [decodeBytes, receiveBytes] at h
  rcases hw : decodeWord bs with ⟨f | n, mid⟩
  · simp [hw, Received.result] at h
  · rw [hw] at h
    obtain ⟨-, used, hused, rfl⟩ := decodeWord_spells _ _ _ hw
    rw [encodeWord, Encoding.toExcept_write] at hused
    cases hused
    simp only at h
    split at h
    · rename_i hlen
      rcases hp : decodePadding n.toNat (mid.drop n.toNat) with ⟨f | u, left⟩
      · simp [hp, Received.result] at h
      · simp only [hp, Received.result, Prod.mk.injEq, Except.ok.injEq] at h
        obtain ⟨rfl, rfl⟩ := h
        have hpad := eq_of_decodePadding hp
        refine ⟨trivial, _, encodeBytes_eq_ok.2 ⟨by rw [hlen]; exact n.toNat_lt, rfl⟩, ?_⟩
        rw [hlen, List.append_assoc, List.append_assoc, ← hpad, List.take_append_drop]
    · simp [Received.result] at h

theorem decodeText_reads {s : String} {used : Bytes} (h : (encodeText s).toExcept = .ok used) :
    decodeText.Reads used s := by
  intro rest
  rw [decodeText, bind_apply, decodeBytes_reads h rest]
  simp only [utf8?_utf8]
  rfl

theorem decodeText_spells : decodeText.Spells encodeText (fun _ => True) := by
  intro bs s rest h
  obtain ⟨data, mid, hd, hs⟩ := bind_eq_ok.1 h
  obtain ⟨-, used, hused, rfl⟩ := decodeBytes_spells _ _ _ hd
  rcases htext : utf8? data with _ | s' <;> rw [htext] at hs
  · cases hs
  · obtain ⟨rfl, rfl⟩ := pure_eq_ok.1 hs
    exact ⟨trivial, used, by rw [encodeText, utf8_eq_of_utf8? htext, hused], rfl⟩

end Codec

end RemoteCall
