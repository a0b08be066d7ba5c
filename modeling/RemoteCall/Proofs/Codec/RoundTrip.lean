import RemoteCall.Proofs.Codec.Items
import RemoteCall.Proofs.Codec.Depth
/-!
# What was encoded is decoded

`Decoder.Undoes` relates a decoder to one encoding: on the bytes of the encoding, whatever follows
them, the decoder gives the value back if it fits, and refuses its depth if it does not. The
relation goes through sequences: of two parts the second matters only if the first fits, since
everything before the first value that is nested too deep is read without complaint. The main
statement is `decode_encode`.
-/

namespace RemoteCall

namespace Decoder

variable {α β : Type}

/-- On these bytes, whatever follows, the decoder finds a value that is nested too deep. -/
def Refuses (d : Decoder α) (bs : Bytes) : Prop :=
  ∀ rest, ∃ left, d (bs ++ rest) = (.error (.tooDeep maxDepth), left)

theorem Refuses.bind {d : Decoder α} {a : Bytes} (h : d.Refuses a) (next : α → Decoder β) (b : Bytes) :
    (d >>= next).Refuses (a ++ b) := by
  intro rest
  obtain ⟨left, hleft⟩ := h (b ++ rest)
  exact ⟨left, by rw [bind_apply, List.append_assoc, hleft]⟩

theorem Reads.bind_refuses {d : Decoder α} {next : α → Decoder β} {a b : Bytes} {x : α} (hd : d.Reads a x)
    (hn : (next x).Refuses b) : (d >>= next).Refuses (a ++ b) := by
  intro rest
  obtain ⟨left, hleft⟩ := hn rest
  refine ⟨left, ?_⟩
  rw [bind_apply, List.append_assoc, hd (b ++ rest)]
  exact hleft

/-- The decoder reads the bytes of the encoding back to the value, or refuses them if it does not fit. -/
structure Undoes (d : Decoder α) (e : Encoding) (x : α) (fits : Prop) : Prop where
  reads : ∀ {bs}, e.toExcept = .ok bs → fits → d.Reads bs x
  refuses : ∀ {bs}, e.toExcept = .ok bs → ¬fits → d.Refuses bs

theorem Undoes.of_reads {d : Decoder α} {e : Encoding} {x : α}
    (h : ∀ bs, e.toExcept = .ok bs → d.Reads bs x) : d.Undoes e x True :=
  ⟨fun he _ => h _ he, fun _ hf => absurd trivial hf⟩

theorem Undoes.congr {d : Decoder α} {e : Encoding} {x : α} {p q : Prop} (h : d.Undoes e x p)
    (hpq : p ↔ q) : d.Undoes e x q :=
  ⟨fun he hq => h.reads he (hpq.2 hq), fun he hq => h.refuses he (mt hpq.1 hq)⟩

/-- Only what an encoding comes to matters. -/
theorem Undoes.of_toExcept_eq {d : Decoder α} {e e' : Encoding} {x : α} {p : Prop} (h : d.Undoes e x p)
    (he : e'.toExcept = e.toExcept) : d.Undoes e' x p :=
  ⟨fun h' => h.reads (he ▸ h'), fun h' => h.refuses (he ▸ h')⟩

theorem Undoes.pure (x : α) : (Pure.pure x : Decoder α).Undoes .empty x True := by
  refine .of_reads fun bs h => ?_
  rw [Encoding.toExcept_empty] at h
  cases h
  exact .pure x

theorem Undoes.bind {d : Decoder α} {e e' : Encoding} {x : α} {y : β} {p q : Prop} (hd : d.Undoes e x p)
    (next : α → Decoder β) (hn : (next x).Undoes e' y q) :
    (d >>= next).Undoes (e.andThen e') y (p ∧ q) := by
  constructor
  · intro bs h hfits
    obtain ⟨a, b, ha, hb, rfl⟩ := Encoding.toExcept_andThen_eq_ok.1 h
    exact (hd.reads ha hfits.1).bind (hn.reads hb hfits.2)
  · intro bs h hfits
    obtain ⟨a, b, ha, hb, rfl⟩ := Encoding.toExcept_andThen_eq_ok.1 h
    -- what comes first is refused first
    by_cases hp : p
    · exact (hd.reads ha hp).bind_refuses (hn.refuses hb fun hq => hfits ⟨hp, hq⟩)
    · exact (hd.refuses ha hp).bind next b

theorem Undoes.map {d : Decoder α} {e : Encoding} {x : α} {p : Prop} (hd : d.Undoes e x p) (g : α → β) :
    (g <$> d).Undoes e (g x) p := by
  constructor
  · intro bs h hfits
    exact (hd.reads h hfits).map g
  · intro bs h hfits rest
    obtain ⟨left, hleft⟩ := hd.refuses h hfits rest
    exact ⟨left, by rw [map_apply, hleft]⟩

/-- A pair of results, one read behind the other. -/
theorem Undoes.pair {d : Decoder α} {d' : Decoder β} {e e' : Encoding} {x : α} {y : β} {p q : Prop}
    (hd : d.Undoes e x p) (hd' : d'.Undoes e' y q) :
    (do let a ← d; let b ← d'; return (a, b) : Decoder (α × β)).Undoes (e.andThen e') (x, y) (p ∧ q) :=
  hd.bind _ (hd'.map (x, ·))

theorem Undoes.times {d : Decoder α} {encode : α → Encoding} {p : α → Prop}
    (h : ∀ x, d.Undoes (encode x) x (p x)) (xs : List α) :
    (d.times xs.length).Undoes (.each encode xs) xs (∀ x ∈ xs, p x) := by
  induction xs with
  | nil => exact (Undoes.pure []).congr (by simp)
  | cons x xs ih => exact ((h x).bind _ (ih.map (x :: ·))).congr (by simp)

/-- A count, and what depends on it. -/
theorem Undoes.counted (next : Nat → Decoder β) {n : Nat} {e : Encoding} {y : β} {p : Prop}
    (hn : (next n).Undoes e y p) :
    (Codec.decodeWord >>= fun count => next count.toNat).Undoes ((Codec.encodeCount n).andThen e) y p := by
  -- a count that is encoded fits in a word, so the decoder counts as far as the encoder
  have hcount : ∀ {a}, (Codec.encodeCount n).toExcept = .ok a →
      Codec.decodeWord.Reads a (UInt32.ofNat n) ∧ (UInt32.ofNat n).toNat = n := by
    intro a ha
    obtain ⟨hlt, rfl⟩ := Codec.encodeCount_eq_ok.1 ha
    have hword : (UInt32.ofNat n).toNat = n := UInt32.toNat_ofNat_of_lt' hlt
    have hreads := Codec.decodeWord_reads (UInt32.ofNat n)
    rw [hword] at hreads
    exact ⟨hreads, hword⟩
  constructor
  · intro bs h hfits
    obtain ⟨a, b, ha, hb, rfl⟩ := Encoding.toExcept_andThen_eq_ok.1 h
    obtain ⟨hreads, hword⟩ := hcount ha
    exact hreads.bind (by rw [hword]; exact hn.reads hb hfits)
  · intro bs h hfits
    obtain ⟨a, b, ha, hb, rfl⟩ := Encoding.toExcept_andThen_eq_ok.1 h
    obtain ⟨hreads, hword⟩ := hcount ha
    exact hreads.bind_refuses (by rw [hword]; exact hn.refuses hb hfits)

end Decoder

namespace Codec

open Decoder

variable {α β K V : Type}

/-! ## Items -/

theorem decodeWord_undoes (n : UInt32) : decodeWord.Undoes (encodeWord n) n True := by
  refine .of_reads fun bs h => ?_
  rw [encodeWord, Encoding.toExcept_write] at h
  cases h
  exact decodeWord_reads n

theorem decodeLongWord_undoes (n : UInt64) : decodeLongWord.Undoes (encodeLongWord n) n True := by
  refine .of_reads fun bs h => ?_
  rw [encodeLongWord, Encoding.toExcept_write] at h
  cases h
  exact decodeLongWord_reads n

theorem decodeBool_undoes (b : Bool) : decodeBool.Undoes (encodeBool b) b True := by
  refine .of_reads fun bs h => ?_
  rw [encodeBool, encodeWord, Encoding.toExcept_write] at h
  cases h
  have hb := decodeBool_reads b
  cases b <;> exact hb

theorem decodeBytes_undoes (bs : Bytes) : decodeBytes.Undoes (encodeBytes bs) bs True :=
  .of_reads fun _ h => decodeBytes_reads h

theorem decodeText_undoes (s : String) : decodeText.Undoes (encodeText s) s True :=
  .of_reads fun _ h => decodeText_reads h

theorem decodeOption_undoes {d : Decoder α} {encode : α → Encoding} {p : α → Prop}
    (h : ∀ x, d.Undoes (encode x) x (p x)) (x? : Option α) :
    (decodeOption d).Undoes (encodeOption encode x?) x? (∀ x ∈ x?, p x) := by
  cases x? with
  | none =>
    have hfalse := (decodeBool_undoes false).bind (fun b =>
      if b then some <$> d else Pure.pure none) (Undoes.pure none)
    refine (hfalse.of_toExcept_eq ?_).congr (by simp)
    rw [encodeOption, Encoding.toExcept_andThen, Encoding.toExcept_empty]
    cases (encodeBool false).toExcept <;> simp
  | some x =>
    have htrue := (decodeBool_undoes true).bind (fun b =>
      if b then some <$> d else Pure.pure none) ((h x).map some)
    exact htrue.congr (by simp)

theorem decodeError_undoes (e : AppError) : decodeError.Undoes (encodeError e) e True :=
  ((decodeOption_undoes decodeText_undoes e.message?).map AppError.mk).congr (by simp)

/-! ## Values -/

theorem kindOfCode?_kindCode (k : Value.Kind) : kindOfCode? (kindCode k).toNat = some k := by
  cases k <;> rfl

theorem decodeKind_undoes (k : Value.Kind) : decodeKind.Undoes (encodeWord (kindCode k)) k True := by
  refine .of_reads fun bs h rest => ?_
  rw [encodeWord, Encoding.toExcept_write] at h
  cases h
  rw [decodeKind, bind_apply, decodeWord_reads (kindCode k) rest]
  simp only [kindOfCode?_kindCode]
  rfl

/-- One level of a value, given the levels below it. -/
theorem decodeContent_undoes {n : Nat}
    (ih : ∀ v, (decodeLevels n).Undoes (encodeValue v) v (v.depth < n)) (v : Value) :
    (decodeContent (decodeLevels n) v.kind).Undoes (encodeContent v) v (v.depth ≤ n) := by
  cases v with
  | nil => exact (Undoes.pure _).congr (by simp [Value.depth])
  | bool b => exact ((decodeBool_undoes b).map _).congr (by simp [Value.depth])
  | int i =>
    have h := (decodeLongWord_undoes i.toUInt64).map fun w => Value.int w.toInt64
    rw [Int64.toInt64_toUInt64] at h
    exact h.congr (by simp [Value.depth])
  | uint u => exact ((decodeLongWord_undoes u).map _).congr (by simp [Value.depth])
  | float x =>
    exact ((decodeLongWord_undoes x.bits).map fun w => Value.float ⟨w⟩).congr (by simp [Value.depth])
  | text s => exact ((decodeText_undoes s).map _).congr (by simp [Value.depth])
  | bytes bs => exact ((decodeBytes_undoes bs).map _).congr (by simp [Value.depth])
  | list items =>
    have h := Undoes.counted (fun count => Value.list <$> (decodeLevels n).times count)
      ((Undoes.times ih items).map Value.list)
    rw [← encodeItems_eq_each] at h
    exact h.congr (Value.depthItems_le_iff items).symm
  | map entries =>
    have hentry : ∀ e : Value × Value, Undoes (do
        let k ← decodeLevels n
        let v ← decodeLevels n
        return (k, v)) (encodeEntry e) e (e.1.depth < n ∧ e.2.depth < n) := fun e => (ih e.1).pair (ih e.2)
    have h := Undoes.counted (fun count => Value.map <$> Decoder.times _ count)
      ((Undoes.times hentry entries).map Value.map)
    refine (h.of_toExcept_eq ?_).congr (Value.depthEntries_le_iff entries).symm
    exact Encoding.toExcept_andThen_congr rfl (toExcept_encodeEntries entries)
  | record fields =>
    have hfield : ∀ f : String × Value, Undoes (do
        let k ← decodeText
        let v ← decodeLevels n
        return (k, v)) (encodeField f) f (True ∧ f.2.depth < n) :=
      fun f => (decodeText_undoes f.1).pair (ih f.2)
    have h := Undoes.counted (fun count => Value.record <$> Decoder.times _ count)
      ((Undoes.times hfield fields).map Value.record)
    refine (h.of_toExcept_eq ?_).congr (by simp [Value.depth, Value.depthFields_le_iff])
    exact Encoding.toExcept_andThen_congr rfl (toExcept_encodeFields fields)
  | error e => exact ((decodeError_undoes e).map _).congr (by simp [Value.depth])

/-- A decoder of `n` levels gives back the values of less than `n` levels, and refuses all others. -/
theorem decodeLevels_undoes (n : Nat) (v : Value) :
    (decodeLevels n).Undoes (encodeValue v) v (v.depth < n) := by
  induction n generalizing v with
  | zero =>
    -- without levels every value is refused, and none is shallow enough to be read
    constructor
    · intro bs _ h
      exact absurd h (Nat.not_lt_zero _)
    · intro bs _ _ rest
      exact ⟨bs ++ rest, rfl⟩
  | succ n ih =>
    have h := (decodeKind_undoes v.kind).bind _ (decodeContent_undoes ih v)
    exact h.congr (by rw [true_and, Nat.lt_succ_iff])

theorem decodeValue_undoes (v : Value) : decodeValue.Undoes (encodeValue v) v (v.depth ≤ maxDepth) :=
  (decodeLevels_undoes (maxDepth + 1) v).congr Nat.lt_succ_iff

/-! ## Maps -/

section Map

variable [Ord K] [Std.TransOrd K]

/-- Entries with keys of their own go into a map one after another. -/
theorem decodeEntries_undoes {key : Decoder K} {content : Decoder V} {encodeKey : K → Encoding}
    {encodeContent : V → Encoding} {p : K → Prop} {q : V → Prop}
    (hkey : ∀ k, key.Undoes (encodeKey k) k (p k))
    (hcontent : ∀ v, content.Undoes (encodeContent v) v (q v)) (l : List (K × V)) (m : SortedMap K V)
    (hnew : ∀ e ∈ l, m.contains e.1 = false) (hdistinct : l.Pairwise fun a b => compare a.1 b.1 ≠ .eq) :
    (decodeEntries key content l.length m).Undoes
      (.each (fun e => (encodeKey e.1).andThen (encodeContent e.2)) l)
      (l.foldl (fun m e => m.insert e.1 e.2) m) (∀ e ∈ l, p e.1 ∧ q e.2) := by
  induction l generalizing m with
  | nil => exact (Undoes.pure m).congr (by simp)
  | cons e l ih =>
    rw [List.pairwise_cons] at hdistinct
    -- the key that goes in differs from the keys to come, so none of these is refused as repeated
    have hrest := ih (m.insert e.1 e.2) (by
      intro e' he'
      have hne : compare e'.1 e.1 ≠ .eq := fun h => hdistinct.1 e' he' (Std.OrientedCmp.eq_symm h)
      have hold := hnew e' (List.mem_cons_of_mem e he')
      simp only [SortedMap.contains, SortedMap.find?_insert, if_neg hne]
      exact hold) hdistinct.2
    have hstep : (if m.contains e.1 then Decoder.fail .duplicateKey
        else decodeEntries key content l.length (m.insert e.1 e.2)).Undoes
        (.each (fun e => (encodeKey e.1).andThen (encodeContent e.2)) l)
        (l.foldl (fun m e => m.insert e.1 e.2) (m.insert e.1 e.2)) (∀ e ∈ l, p e.1 ∧ q e.2) := by
      rw [hnew e List.mem_cons_self]
      exact hrest
    have h := (hkey e.1).bind (fun k => content >>= fun v =>
      if m.contains k then Decoder.fail .duplicateKey
      else decodeEntries key content l.length (m.insert k v)) ((hcontent e.2).bind _ hstep)
    refine (h.of_toExcept_eq ?_).congr (by simp [and_assoc])
    rw [Encoding.each_cons, Encoding.toExcept_andThen_assoc]

omit [Std.TransOrd K] in
/-- The keys of a map are pairwise different. -/
theorem distinct_toList (m : SortedMap K V) : m.toList.Pairwise fun a b => compare a.1 b.1 ≠ .eq :=
  m.ascending.imp fun h => by simp [h]

omit [Std.TransOrd K] in
theorem contains_empty (k : K) : (SortedMap.empty : SortedMap K V).contains k = false := rfl

end Map

/-! ## All codecs -/

theorem decodeVariant_undoes (e : Enumeration α) (v : α) :
    (decodeVariant e).Undoes ((enumeration e).encode v) v True := by
  refine .of_reads fun bs h rest => ?_
  cases hcode : int32? (e.code v) with
  | none =>
    simp only [encode, hcode, Encoding.toExcept_fail] at h
    cases h
  | some n =>
    simp only [encode, hcode, encodeWord, Encoding.toExcept_write] at h
    cases h
    rw [decodeVariant, bind_apply, decodeWord_reads n.toUInt32 rest]
    simp only [Int32.toInt32_toUInt32, (e.variant?_eq_some_iff n v).2 hcode]
    rfl

/-- Decoding undoes encoding, for each codec. -/
theorem decode_undoes (c : Codec α) (x : α) : c.decode.Undoes (c.encode x) x (c.WithinDepth x) := by
  induction c with
  | unit => exact (Undoes.pure ()).congr (true_iff_withinDepth rfl)
  | bool =>
    rw [decode_bool]
    exact (decodeBool_undoes x).congr (true_iff_withinDepth rfl)
  | int32 =>
    rw [decode_int32]
    have h := (decodeWord_undoes x.toUInt32).map UInt32.toInt32
    rw [Int32.toInt32_toUInt32] at h
    exact h.congr (true_iff_withinDepth rfl)
  | int64 =>
    rw [decode_int64]
    have h := (decodeLongWord_undoes x.toUInt64).map UInt64.toInt64
    rw [Int64.toInt64_toUInt64] at h
    exact h.congr (true_iff_withinDepth rfl)
  | uint32 =>
    rw [decode_uint32]
    exact (decodeWord_undoes x).congr (true_iff_withinDepth rfl)
  | uint64 =>
    rw [decode_uint64]
    exact (decodeLongWord_undoes x).congr (true_iff_withinDepth rfl)
  | float =>
    rw [decode_float]
    exact ((decodeLongWord_undoes x.bits).map Double.mk).congr (true_iff_withinDepth rfl)
  | bytes =>
    rw [decode_bytes]
    exact (decodeBytes_undoes x).congr (true_iff_withinDepth rfl)
  | text =>
    rw [decode_text]
    exact (decodeText_undoes x).congr (true_iff_withinDepth rfl)
  | enumeration e =>
    rw [decode_enumeration]
    exact (decodeVariant_undoes e x).congr (true_iff_withinDepth rfl)
  | error =>
    rw [decode_error]
    exact (decodeError_undoes x).congr (true_iff_withinDepth rfl)
  | value =>
    rw [decode_value]
    exact (decodeValue_undoes x).congr (withinDepth_value x).symm
  | list item ih =>
    rw [decode_list]
    exact (Undoes.counted _ (Undoes.times ih x)).congr (withinDepth_list item x).symm
  | option item ih =>
    rw [decode_option]
    exact (decodeOption_undoes ih x).congr (withinDepth_option item x).symm
  | map key content ihkey ihcontent =>
    rw [decode_map]
    have h := decodeEntries_undoes ihkey ihcontent x.toList .empty (fun e _ => contains_empty e.1)
      (distinct_toList x)
    -- the entries of a map, put into an empty one, make the map again
    rw [← SortedMap.ofList, SortedMap.ofList_toList] at h
    exact (Undoes.counted (fun count => decodeEntries _ _ count .empty) h).congr
      (withinDepth_map key content x).symm
  | pair first second ihfirst ihsecond =>
    rw [decode_pair]
    exact ((ihfirst x.1).pair (ihsecond x.2)).congr (withinDepth_pair first second x).symm
  | layout l fields ih =>
    rw [decode_layout]
    have h := (ih (l.fields x)).map l.build
    rw [l.build_fields] at h
    exact h

end Codec

/-! ## Multiples of four -/

/-- All that is written, if it comes to its end, is a multiple of four bytes. -/
def Encoding.Aligned (e : Encoding) : Prop := ∀ bs, e.toExcept = .ok bs → bs.length % 4 = 0

namespace Encoding

theorem Aligned.empty : empty.Aligned := by
  intro bs h
  rw [toExcept_empty] at h
  cases h
  rfl

theorem Aligned.andThen {first next : Encoding} (hf : first.Aligned) (hn : next.Aligned) :
    (first.andThen next).Aligned := by
  intro bs h
  obtain ⟨a, b, ha, hb, rfl⟩ := toExcept_andThen_eq_ok.1 h
  have h1 := hf a ha
  have h2 := hn b hb
  rw [List.length_append]
  omega

theorem Aligned.each {α : Type} {encode : α → Encoding} {xs : List α}
    (h : ∀ x ∈ xs, (encode x).Aligned) : (Encoding.each encode xs).Aligned := by
  induction xs with
  | nil => exact .empty
  | cons x xs ih =>
    rw [List.forall_mem_cons] at h
    exact h.1.andThen (ih h.2)

theorem Aligned.of_toExcept_eq {e e' : Encoding} (h : e.Aligned) (he : e'.toExcept = e.toExcept) :
    e'.Aligned := fun bs h' => h bs (he ▸ h')

end Encoding

namespace Codec

open Encoding

variable {α : Type}

theorem aligned_encodeWord (n : UInt32) : (encodeWord n).Aligned := by
  intro bs h
  rw [encodeWord, toExcept_write] at h
  cases h
  rw [length_bigEndian]

theorem aligned_encodeLongWord (n : UInt64) : (encodeLongWord n).Aligned := by
  intro bs h
  rw [encodeLongWord, toExcept_write] at h
  cases h
  rw [length_bigEndian]

theorem aligned_encodeCount (n : Nat) : (encodeCount n).Aligned := by
  intro bs h
  obtain ⟨-, rfl⟩ := encodeCount_eq_ok.1 h
  rw [length_bigEndian]

theorem aligned_encodeBytes (bs : Bytes) : (encodeBytes bs).Aligned := by
  intro used h
  obtain ⟨-, rfl⟩ := encodeBytes_eq_ok.1 h
  simp only [List.length_append, length_bigEndian, zeros, List.length_replicate, paddingLength]
  omega

theorem aligned_encodeOption {encode : α → Encoding} {x? : Option α} (h : ∀ x ∈ x?, (encode x).Aligned) :
    (encodeOption encode x?).Aligned := by
  cases x? with
  | none => exact aligned_encodeWord _
  | some x => exact (aligned_encodeWord _).andThen (h x rfl)

theorem aligned_encodeError (e : AppError) : (encodeError e).Aligned :=
  aligned_encodeOption fun s _ => aligned_encodeBytes (utf8 s)

theorem aligned_encodeContent {n : Nat} (ih : ∀ v : Value, v.depth < n → (encodeValue v).Aligned)
    (v : Value) (hv : v.depth ≤ n) : (encodeContent v).Aligned := by
  cases v with
  | nil => exact .empty
  | bool b => exact aligned_encodeWord _
  | int i => exact aligned_encodeLongWord _
  | uint u => exact aligned_encodeLongWord _
  | float x => exact aligned_encodeLongWord _
  | text s => exact aligned_encodeBytes _
  | bytes bs => exact aligned_encodeBytes bs
  | list items =>
    have hitems := (Value.depthItems_le_iff items).1 hv
    refine (aligned_encodeCount _).andThen ?_
    rw [encodeItems_eq_each]
    exact .each fun v hmem => ih v (hitems v hmem)
  | map entries =>
    have hentries := (Value.depthEntries_le_iff entries).1 hv
    have heach : (Encoding.each encodeEntry entries).Aligned :=
      .each fun e hmem => (ih e.1 (hentries e hmem).1).andThen (ih e.2 (hentries e hmem).2)
    exact (aligned_encodeCount _).andThen (heach.of_toExcept_eq (toExcept_encodeEntries entries))
  | record fields =>
    have hfields := (Value.depthFields_le_iff fields).1 hv
    have heach : (Encoding.each encodeField fields).Aligned :=
      .each fun f hmem => (aligned_encodeBytes _).andThen (ih f.2 (hfields f hmem))
    exact (aligned_encodeCount _).andThen (heach.of_toExcept_eq (toExcept_encodeFields fields))
  | error e => exact aligned_encodeError e

theorem aligned_encodeValue (v : Value) : (encodeValue v).Aligned := by
  induction hn : v.depth using Nat.strongRecOn generalizing v with
  | ind n ih =>
    exact (aligned_encodeWord _).andThen
      (aligned_encodeContent (fun w hw => ih w.depth hw w rfl) v (Nat.le_of_eq hn))

/-- What any codec writes is a multiple of four bytes. -/
theorem aligned_encode (c : Codec α) (x : α) : (c.encode x).Aligned := by
  induction c with
  | unit => exact .empty
  | bool | int32 | uint32 => exact aligned_encodeWord _
  | int64 | uint64 | float => exact aligned_encodeLongWord _
  | bytes | text => exact aligned_encodeBytes _
  | enumeration e =>
    intro bs h
    simp only [encode] at h
    split at h
    · exact aligned_encodeWord _ bs h
    · rw [toExcept_fail] at h
      cases h
  | error => exact aligned_encodeError x
  | value => exact aligned_encodeValue x
  | list item ih => exact (aligned_encodeCount _).andThen (.each fun y _ => ih y)
  | option item ih => exact aligned_encodeOption fun y _ => ih y
  | map key content ihkey ihcontent =>
    exact (aligned_encodeCount _).andThen (.each fun e _ => (ihkey e.1).andThen (ihcontent e.2))
  | pair first second ihfirst ihsecond => exact (ihfirst x.1).andThen (ihsecond x.2)
  | layout l fields ih => exact ih (l.fields x)

/-! ## The round trip -/

/-- Decoding takes an encoding off the front of any input and gives the same value back, if no value
inside it is nested deeper than 64 levels; if one is, decoding fails for that reason and no other.
-/
theorem decode_encode (c : Codec α) (x : α) (bs rest : Bytes) (h : (c.encode x).toExcept = .ok bs) :
    ((∀ v ∈ c.values x, v.depth ≤ 64) →
      c.decode (bs ++ rest) = (.ok x, rest) ∧ bs.length % 4 = 0) ∧
    ((∃ v ∈ c.values x, 64 < v.depth) →
      ∃ f left, c.decode (bs ++ rest) = (.error f, left) ∧
        f.kind = .invalidData ∧ f.message = "Value nesting exceeds 64") := by
  have hc := decode_undoes c x
  constructor
  · intro hfits
    exact ⟨hc.reads h hfits rest, aligned_encode c x bs h⟩
  · rintro ⟨v, hv, hdeep⟩
    have hnot : ¬c.WithinDepth x := fun hfits => Nat.not_lt.2 (hfits v hv) hdeep
    obtain ⟨left, hleft⟩ := hc.refuses h hnot rest
    exact ⟨.tooDeep maxDepth, left, hleft, rfl, by decide⟩

/-- A text with padding and a list that holds a NaN with a payload. -/
theorem decode_encode_text_nan :
    let x : String × Value := ("ab", .list [.float ⟨0x7ff8000000000001⟩])
    let bs : Bytes := [0, 0, 0, 2, 97, 98, 0, 0, 0, 0, 0, 7, 0, 0, 0, 1, 0, 0, 0, 4, 127, 248, 0, 0,
      0, 0, 0, 1]
    ((pair .text .value).encode x).toExcept = .ok bs ∧
      (pair .text .value).decode (bs ++ [7]) = (.ok x, [7]) := by
  intro x bs
  have htext : (encodeText "ab").toExcept = .ok [0, 0, 0, 2, 97, 98, 0, 0] :=
    encodeBytes_eq_ok.2 ⟨by decide, rfl⟩
  have hvalue : (encodeValue x.2).toExcept =
      .ok [0, 0, 0, 7, 0, 0, 0, 1, 0, 0, 0, 4, 127, 248, 0, 0, 0, 0, 0, 1] := by
    simp [x, encodeValue, encodeContent, encodeKinded, encodeItems, encodeCount, encodeWord, encodeLongWord,
      Encoding.toExcept_andThen]
    decide
  have hencode : ((pair .text .value).encode x).toExcept = .ok bs :=
    Encoding.toExcept_andThen_eq_ok.2 ⟨_, _, htext, hvalue, rfl⟩
  have hdepth : ∀ v ∈ (pair .text .value).values x, v.depth ≤ 64 := by decide
  exact ⟨hencode, ((decode_encode (pair .text .value) x bs [7] hencode).1 hdepth).1⟩

end Codec

end RemoteCall
