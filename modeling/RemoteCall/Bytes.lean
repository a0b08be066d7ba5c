/-!
# Bytes, big-endian words and texts

Words go over the wire with their most significant byte first, and every item is filled up with zero bytes
to a multiple of four; texts are written in UTF-8. Main statements: `ofBigEndian_bigEndian` (reading a
written word gives it back) and `bigEndian_ofBigEndian` (each byte string of a word's length is the written
form of one word).
-/

namespace RemoteCall

/-- A string of bytes. -/
abbrev Bytes := List UInt8

/-- How many numbers a word of `width` bytes can hold. -/
def wordRange : Nat → Nat
  | 0 => 1
  | width + 1 => 256 * wordRange width

/-- The `width` low bytes of `n`, most significant first. -/
def bigEndian : Nat → Nat → Bytes
  | 0, _ => []
  | width + 1, n => bigEndian width (n / 256) ++ [UInt8.ofNat n]

/-- The number that a byte string writes, most significant byte first. -/
def ofBigEndian (bs : Bytes) : Nat :=
  bs.foldl (fun n b => n * 256 + b.toNat) 0

/-- How many zero bytes fill `length` bytes up to a multiple of four. -/
def paddingLength (length : Nat) : Nat :=
  (4 - length % 4) % 4

/-- The UTF-8 form of a text. -/
def utf8 (s : String) : Bytes := s.toByteArray.data.toList

/-- The text whose UTF-8 form this is. -/
def utf8? (bs : Bytes) : Option String := String.fromUTF8? ⟨bs.toArray⟩

@[simp] theorem utf8?_utf8 (s : String) : utf8? (utf8 s) = some s := by
  have h : (⟨(utf8 s).toArray⟩ : ByteArray) = s.toByteArray := by simp [utf8]
  simp only [utf8?, h, String.fromUTF8?, String.fromUTF8, s.isValidUTF8, dite_true]

theorem utf8_eq_of_utf8? {bs : Bytes} {s : String} (h : utf8? bs = some s) : utf8 s = bs := by
  simp only [utf8?, String.fromUTF8?] at h
  split at h
  · cases h
    simp [utf8, String.fromUTF8]
  · cases h

@[simp] theorem length_bigEndian (width n : Nat) : (bigEndian width n).length = width := by
  induction width generalizing n with
  | zero => rfl
  | succ width ih => simp [bigEndian, ih]

theorem ofBigEndian_append (bs : Bytes) (b : UInt8) :
    ofBigEndian (bs ++ [b]) = ofBigEndian bs * 256 + b.toNat := by
  simp [ofBigEndian]

/-- A word that was written is read back, as far as it fits. -/
theorem ofBigEndian_bigEndian (width n : Nat) : ofBigEndian (bigEndian width n) = n % wordRange width := by
  induction width generalizing n with
  | zero => simp [bigEndian, ofBigEndian, wordRange, Nat.mod_one]
  | succ width ih =>
    rw [bigEndian, ofBigEndian_append, ih, wordRange, Nat.mod_mul, UInt8.toNat_ofNat']
    simp only [Nat.reducePow]
    rw [Nat.add_comm, Nat.mul_comm]

private theorem foldl_lt (bs : Bytes) (n : Nat) :
    bs.foldl (fun n b => n * 256 + b.toNat) n < (n + 1) * wordRange bs.length := by
  induction bs generalizing n with
  | nil => simp [wordRange]
  | cons b bs ih =>
    rw [List.foldl_cons, List.length_cons, wordRange, ← Nat.mul_assoc]
    have hb : b.toNat < 256 := b.toNat_lt
    exact Nat.lt_of_lt_of_le (ih _) (Nat.mul_le_mul_right _ (by omega))

theorem ofBigEndian_lt (bs : Bytes) : ofBigEndian bs < wordRange bs.length := by
  simpa [ofBigEndian] using foldl_lt bs 0

/-- A byte string is the written form of the word that it reads as. -/
theorem bigEndian_ofBigEndian (bs : Bytes) : bigEndian bs.length (ofBigEndian bs) = bs := by
  generalize h : bs.length = width
  induction width generalizing bs with
  | zero => rw [List.eq_nil_of_length_eq_zero h]; rfl
  | succ width ih =>
    have hne : bs ≠ [] := by intro e; simp [e] at h
    have hlast := List.dropLast_concat_getLast hne
    have hb : (bs.getLast hne).toNat < 256 := (bs.getLast hne).toNat_lt
    rw [← hlast, bigEndian, ofBigEndian_append]
    have hdiv : (ofBigEndian bs.dropLast * 256 + (bs.getLast hne).toNat) / 256 = ofBigEndian bs.dropLast := by
      omega
    rw [hdiv, ih _ (by simp [h])]
    congr 2
    apply UInt8.toNat_inj.mp
    rw [UInt8.toNat_ofNat']
    omega

end RemoteCall
