import RemoteCall.Proofs.Codec.Items
import RemoteCall.Proofs.Codec.Depth
/-!
# Only encodings are decoded

Whatever a decoder accepts, over all byte strings, is the encoding of its result in front of what is
left. So a value has one written form, maps apart: their entries are accepted in any order. The
induction is on what the decoder does, never on a value, because the input need not come from an
encoder.
-/

namespace RemoteCall

namespace Decoder

variable {α β : Type}

theorem Spells.pair {d : Decoder α} {d' : Decoder β} {encode : α → Encoding} {encode' : β → Encoding}
    {p : α → Prop} {q : β → Prop} (hd : d.Spells encode p) (hd' : d'.Spells encode' q) :
    (do let a ← d; let b ← d'; return (a, b) : Decoder (α × β)).Spells
      (fun x => (encode x.1).andThen (encode' x.2)) (fun x => p x.1 ∧ q x.2) := by
  intro bs x rest h
  obtain ⟨a, mid, ha, hnext⟩ := bind_eq_ok.1 h
  obtain ⟨b, left, hb, hpair⟩ := bind_eq_ok.1 hnext
  obtain ⟨rfl, rfl⟩ := pure_eq_ok.1 hpair
  obtain ⟨hp, used, hused, rfl⟩ := hd _ _ _ ha
  obtain ⟨hq, used', hused', rfl⟩ := hd' _ _ _ hb
  refine ⟨⟨hp, hq⟩, used ++ used', ?_, by rw [List.append_assoc]⟩
  exact Encoding.toExcept_andThen_eq_ok.2 ⟨_, _, hused, hused', rfl⟩

theorem Spells.times {d : Decoder α} {encode : α → Encoding} {p : α → Prop} (hd : d.Spells encode p)
    (count : Nat) :
    (d.times count).Spells (Encoding.each encode) (fun xs => xs.length = count ∧ ∀ x ∈ xs, p x) := by
  induction count with
  | zero =>
    intro bs xs rest h
    obtain ⟨rfl, rfl⟩ := pure_eq_ok.1 h
    exact ⟨by simp, [], Encoding.toExcept_empty, rfl⟩
  | succ count ih =>
    intro bs xs rest h
    obtain ⟨x, mid, hx, hnext⟩ := bind_eq_ok.1 h
    obtain ⟨ys, left, hys, hcons⟩ := bind_eq_ok.1 hnext
    obtain ⟨rfl, rfl⟩ := pure_eq_ok.1 hcons
    obtain ⟨hp, used, hused, rfl⟩ := hd _ _ _ hx
    obtain ⟨⟨hlen, hps⟩, used', hused', rfl⟩ := ih _ _ _ hys
    refine ⟨⟨by rw [List.length_cons, hlen], List.forall_mem_cons.2 ⟨hp, hps⟩⟩, used ++ used', ?_, ?_⟩
    · exact Encoding.toExcept_andThen_eq_ok.2 ⟨_, _, hused, hused', rfl⟩
    · rw [List.append_assoc]

/-- A count, and what is counted by it. -/
theorem Spells.counted {next : Nat → Decoder β} (encode : β → Encoding) (size : β → Nat) {p : β → Prop}
    (hn : ∀ n, (next n).Spells encode (fun y => size y = n ∧ p y)) :
    (Codec.decodeWord >>= fun count => next count.toNat).Spells
      (fun y => (Codec.encodeCount (size y)).andThen (encode y)) p := by
  intro bs y rest h
  obtain ⟨n, mid, hword, hnext⟩ := bind_eq_ok.1 h
  obtain ⟨-, used, hused, rfl⟩ := Codec.decodeWord_spells _ _ _ hword
  obtain ⟨⟨hsize, hp⟩, used', hused', rfl⟩ := hn _ _ _ _ hnext
  refine ⟨hp, used ++ used', ?_, by rw [List.append_assoc]⟩
  simp only [hsize, Codec.encodeCount_toNat]
  exact Encoding.toExcept_andThen_eq_ok.2 ⟨_, _, hused, hused', rfl⟩

/-- Only what an encoding comes to matters. -/
theorem Spells.congr {d : Decoder α} {encode encode' : α → Encoding} {p q : α → Prop}
    (hd : d.Spells encode p) (he : ∀ x, (encode' x).toExcept = (encode x).toExcept)
    (hpq : ∀ x, p x → q x) : d.Spells encode' q := by
  intro bs x rest h
  obtain ⟨hp, used, hused, rfl⟩ := hd _ _ _ h
  exact ⟨hpq x hp, used, by rw [he, hused], rfl⟩

end Decoder

namespace Codec

open Decoder

variable {α β : Type}

theorem decodeOption_spells {d : Decoder α} {encode : α → Encoding} {p : α → Prop}
    (hd : d.Spells encode p) :
    (decodeOption d).Spells (encodeOption encode) (fun x? => ∀ x ∈ x?, p x) := by
  intro bs x? rest h
  obtain ⟨b, mid, hb, hnext⟩ := bind_eq_ok.1 h
  obtain ⟨-, used, hused, rfl⟩ := decodeBool_spells _ _ _ hb
  cases b with
  | false =>
    obtain ⟨rfl, rfl⟩ := pure_eq_ok.1 hnext
    exact ⟨by simp, used, hused, rfl⟩
  | true =>
    obtain ⟨x, left, hx, hsome⟩ := bind_eq_ok.1 hnext
    obtain ⟨rfl, rfl⟩ := pure_eq_ok.1 hsome
    obtain ⟨hp, used', hused', rfl⟩ := hd _ _ _ hx
    refine ⟨by simpa using hp, used ++ used', ?_, by rw [List.append_assoc]⟩
    exact Encoding.toExcept_andThen_eq_ok.2 ⟨_, _, hused, hused', rfl⟩

theorem decodeError_spells : decodeError.Spells encodeError (fun _ => True) :=
  (decodeOption_spells decodeText_spells).map AppError.mk (fun _ => rfl) fun _ _ => trivial

/-! ## Values -/

theorem kindOfCode?_eq_some {n : Nat} {k : Value.Kind} (h : kindOfCode? n = some k) :
    n = (kindCode k).toNat := by
  unfold kindOfCode? at h
  split at h <;> first
    | (cases h; rfl)
    | cases h

/-- The number of a sort is accepted for that sort only. -/
theorem eq_of_decodeKind {bs rest : Bytes} {k : Value.Kind} (h : decodeKind bs = (.ok k, rest)) :
    ∃ used, (encodeWord (kindCode k)).toExcept = .ok used ∧ bs = used ++ rest := by
  obtain ⟨code, mid, hcode, hk⟩ := bind_eq_ok.1 h
  obtain ⟨-, used, hused, rfl⟩ := decodeWord_spells _ _ _ hcode
  rcases hkind : kindOfCode? code.toNat with _ | k' <;> rw [hkind] at hk
  · cases hk
  · obtain ⟨rfl, rfl⟩ := pure_eq_ok.1 hk
    -- each sort has one number, so the number read is the one that is written
    obtain rfl : code = kindCode k' := UInt32.toNat_inj.1 (kindOfCode?_eq_some hkind)
    exact ⟨used, hused, rfl⟩

theorem decodeContent_list (inner : Decoder Value) :
    decodeContent inner .list =
      Value.list <$> (decodeWord >>= fun count => inner.times count.toNat) := bind_map _ _ _

theorem decodeContent_map (inner : Decoder Value) :
    decodeContent inner .map = Value.map <$> (decodeWord >>= fun count =>
      (do let k ← inner; let v ← inner; return (k, v) : Decoder (Value × Value)).times count.toNat) :=
  bind_map _ _ _

theorem decodeContent_record (inner : Decoder Value) :
    decodeContent inner .record = Value.record <$> (decodeWord >>= fun count =>
      (do let k ← decodeText; let v ← inner; return (k, v) : Decoder (String × Value)).times count.toNat) :=
  bind_map _ _ _

/-- One level of a value, given the levels below it. -/
theorem decodeContent_spells {n : Nat}
    (ih : (decodeLevels n).Spells encodeValue (fun v => v.depth < n)) (k : Value.Kind) :
    (decodeContent (decodeLevels n) k).Spells encodeContent (fun v => v.kind = k ∧ v.depth ≤ n) := by
  cases k with
  | nil =>
    intro bs v rest h
    obtain ⟨rfl, rfl⟩ := pure_eq_ok.1 h
    exact ⟨⟨rfl, Nat.zero_le n⟩, [], Encoding.toExcept_empty, rfl⟩
  | bool => exact decodeBool_spells.map Value.bool (fun _ => rfl) fun _ _ => ⟨rfl, Nat.zero_le n⟩
  | int =>
    refine decodeLongWord_spells.map (fun w => Value.int w.toInt64) (fun w => ?_)
      fun _ _ => ⟨rfl, Nat.zero_le n⟩
    rw [encodeContent, UInt64.toUInt64_toInt64]
  | uint => exact decodeLongWord_spells.map Value.uint (fun _ => rfl) fun _ _ => ⟨rfl, Nat.zero_le n⟩
  | float =>
    exact decodeLongWord_spells.map (fun w => Value.float ⟨w⟩) (fun _ => rfl)
      fun _ _ => ⟨rfl, Nat.zero_le n⟩
  | text => exact decodeText_spells.map Value.text (fun _ => rfl) fun _ _ => ⟨rfl, Nat.zero_le n⟩
  | bytes => exact decodeBytes_spells.map Value.bytes (fun _ => rfl) fun _ _ => ⟨rfl, Nat.zero_le n⟩
  | list =>
    have h := Spells.counted (.each encodeValue) List.length fun count => ih.times count
    rw [decodeContent_list]
    refine h.map Value.list (fun items => ?_) fun items hitems =>
      ⟨rfl, (Value.depthItems_le_iff items).2 hitems⟩
    rw [encodeContent, encodeItems_eq_each]
  | map =>
    have h := Spells.counted (.each encodeEntry) List.length fun count =>
      (ih.pair ih).times count
    rw [decodeContent_map]
    refine h.map Value.map (fun entries => ?_) fun entries hentries =>
      ⟨rfl, (Value.depthEntries_le_iff entries).2 hentries⟩
    exact Encoding.toExcept_andThen_congr rfl (toExcept_encodeEntries entries)
  | record =>
    have h := Spells.counted (.each encodeField) List.length fun count =>
      (decodeText_spells.pair ih).times count
    rw [decodeContent_record]
    refine h.map Value.record (fun fields => ?_) fun fields hfields =>
      ⟨rfl, (Value.depthFields_le_iff fields).2 fun f hf => (hfields f hf).2⟩
    exact Encoding.toExcept_andThen_congr rfl (toExcept_encodeFields fields)
  | error => exact decodeError_spells.map Value.error (fun _ => rfl) fun _ _ => ⟨rfl, Nat.zero_le n⟩

/-- A decoder of `n` levels accepts nothing but values of less than `n` levels, as they are encoded. -/
theorem decodeLevels_spells (n : Nat) :
    (decodeLevels n).Spells encodeValue (fun v => v.depth < n) := by
  -- the bound on the depth comes with the levels: without any, nothing is accepted
  induction n with
  | zero =>
    intro bs v rest h
    cases h
  | succ n ih =>
    intro bs v rest h
    obtain ⟨k, mid, hk, hcontent⟩ := bind_eq_ok.1 h
    obtain ⟨used, hused, rfl⟩ := eq_of_decodeKind hk
    obtain ⟨⟨rfl, hdepth⟩, used', hused', rfl⟩ := decodeContent_spells ih k _ _ _ hcontent
    refine ⟨Nat.lt_succ_of_le hdepth, used ++ used', ?_, by rw [List.append_assoc]⟩
    exact Encoding.toExcept_andThen_eq_ok.2 ⟨_, _, hused, hused', rfl⟩

/-! ## All codecs without maps -/

theorem decodeVariant_spells (e : Enumeration α) :
    (decodeVariant e).Spells (enumeration e).encode (fun _ => True) := by
  intro bs v rest h
  obtain ⟨code, mid, hcode, hv⟩ := bind_eq_ok.1 h
  obtain ⟨-, used, hused, rfl⟩ := decodeWord_spells _ _ _ hcode
  rcases hvariant : e.variant? code.toInt32 with _ | v' <;> rw [hvariant] at hv
  · cases hv
  · obtain ⟨rfl, rfl⟩ := pure_eq_ok.1 hv
    have hn := (e.variant?_eq_some_iff _ _).1 hvariant
    exact ⟨trivial, used, by simp only [encode, hn, UInt32.toUInt32_toInt32, hused], rfl⟩

/-- Whether a codec is built without maps. -/
def IsMapless : {α : Type} → Codec α → Prop
  | _, map _ _ => False
  | _, list item => item.IsMapless
  | _, option item => item.IsMapless
  | _, pair first second => first.IsMapless ∧ second.IsMapless
  | _, layout _ fields => fields.IsMapless
  | _, _ => True

/-- What a codec without maps accepts is the encoding of its result, and no value in it is nested
too deep. -/
theorem decode_spells (c : Codec α) (hc : c.IsMapless) : c.decode.Spells c.encode c.WithinDepth := by
  induction c with
  | unit =>
    intro bs x rest h
    rw [decode_unit] at h
    obtain ⟨rfl, rfl⟩ := pure_eq_ok.1 h
    exact ⟨(true_iff_withinDepth rfl).1 trivial, [], Encoding.toExcept_empty, rfl⟩
  | bool =>
    rw [decode_bool]
    exact decodeBool_spells.congr (fun _ => rfl) fun _ => (true_iff_withinDepth rfl).1
  | int32 =>
    rw [decode_int32]
    refine decodeWord_spells.map _ (fun w => ?_) fun _ => (true_iff_withinDepth rfl).1
    simp only [encode, UInt32.toUInt32_toInt32]
  | int64 =>
    rw [decode_int64]
    refine decodeLongWord_spells.map _ (fun w => ?_) fun _ => (true_iff_withinDepth rfl).1
    simp only [encode, UInt64.toUInt64_toInt64]
  | uint32 =>
    rw [decode_uint32]
    exact decodeWord_spells.congr (fun _ => rfl) fun _ => (true_iff_withinDepth rfl).1
  | uint64 =>
    rw [decode_uint64]
    exact decodeLongWord_spells.congr (fun _ => rfl) fun _ => (true_iff_withinDepth rfl).1
  | float =>
    rw [decode_float]
    exact decodeLongWord_spells.map _ (fun _ => rfl) fun _ => (true_iff_withinDepth rfl).1
  | bytes =>
    rw [decode_bytes]
    exact decodeBytes_spells.congr (fun _ => rfl) fun _ => (true_iff_withinDepth rfl).1
  | text =>
    rw [decode_text]
    exact decodeText_spells.congr (fun _ => rfl) fun _ => (true_iff_withinDepth rfl).1
  | enumeration e =>
    rw [decode_enumeration]
    exact (decodeVariant_spells e).congr (fun _ => rfl) fun _ => (true_iff_withinDepth rfl).1
  | error =>
    rw [decode_error]
    exact decodeError_spells.congr (fun _ => rfl) fun _ => (true_iff_withinDepth rfl).1
  | value =>
    rw [decode_value]
    exact (decodeLevels_spells (maxDepth + 1)).congr (fun _ => rfl) fun v hv =>
      (withinDepth_value v).2 (Nat.le_of_lt_succ hv)
  | list item ih =>
    rw [decode_list]
    have h := Spells.counted _ List.length fun count => (ih hc).times count
    exact h.congr (fun _ => rfl) fun xs => (withinDepth_list item xs).2
  | option item ih =>
    rw [decode_option]
    exact (decodeOption_spells (ih hc)).congr (fun _ => rfl) fun x? => (withinDepth_option item x?).2
  | map key content =>
    -- maps accept their entries in any order, and are left out for that
    exact hc.elim
  | pair first second ihfirst ihsecond =>
    rw [decode_pair]
    exact ((ihfirst hc.1).pair (ihsecond hc.2)).congr (fun _ => rfl) fun x =>
      (withinDepth_pair first second x).2
  | layout l fields ih =>
    rw [decode_layout]
    refine (ih hc).map l.build (fun x => ?_) fun x hx => ?_
    · simp only [encode, l.fields_build]
    · rw [withinDepth_layout, l.fields_build]
      exact hx

end Codec

end RemoteCall
