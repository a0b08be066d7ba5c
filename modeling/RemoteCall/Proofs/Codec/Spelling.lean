import RemoteCall.Proofs.Codec.Canonical
import RemoteCall.Proofs.Codec.RoundTrip
import RemoteCall.Proofs.SortedMap.Entries
/-!
# What is accepted

`Codec.Spelling` says how the values of a codec may be written: as they are encoded, except that the entries of
a map may stand in any order. Decoding accepts exactly the spellings of values that are not nested too deep:
`decode_accepts`. It is put together as the decoders are, from what each part accepts.
-/

namespace RemoteCall

namespace Decoder

variable {α β : Type}

/-- The decoder accepts a byte string just if it starts with a spelling of the result, and stops behind it. -/
def Accepts (d : Decoder α) (spells : α → Bytes → Prop) : Prop :=
  ∀ bs x rest, d bs = (.ok x, rest) ↔ ∃ used, spells x used ∧ bs = used ++ rest

theorem Accepts.congr {d : Decoder α} {p q : α → Bytes → Prop} (h : d.Accepts p)
    (hpq : ∀ x bs, p x bs ↔ q x bs) : d.Accepts q := by
  intro bs x rest
  rw [h]
  exact exists_congr fun used => and_congr_left fun _ => hpq x used

theorem Accepts.pure (x : α) : (Pure.pure x : Decoder α).Accepts fun y bs => x = y ∧ bs = [] := by
  intro bs y rest
  rw [pure_eq_ok]
  constructor
  · rintro ⟨rfl, rfl⟩
    exact ⟨[], ⟨rfl, rfl⟩, rfl⟩
  · rintro ⟨_, ⟨rfl, rfl⟩, rfl⟩
    exact ⟨rfl, rfl⟩

theorem Accepts.fail (f : Fault) : (fail f : Decoder α).Accepts fun _ _ => False := by
  intro bs y rest
  rw [fail_apply]
  simp

theorem Accepts.bind {d : Decoder α} {next : α → Decoder β} {p : α → Bytes → Prop} {q : α → β → Bytes → Prop}
    (hd : d.Accepts p) (hn : ∀ x, (next x).Accepts (q x)) :
    (d >>= next).Accepts fun y bs => ∃ x a b, p x a ∧ q x y b ∧ bs = a ++ b := by
  intro bs y rest
  rw [bind_eq_ok]
  constructor
  · rintro ⟨x, mid, hx, hy⟩
    obtain ⟨a, ha, rfl⟩ := (hd _ _ _).1 hx
    obtain ⟨b, hb, rfl⟩ := (hn x _ _ _).1 hy
    exact ⟨a ++ b, ⟨x, a, b, ha, hb, rfl⟩, by rw [List.append_assoc]⟩
  · rintro ⟨_, ⟨x, a, b, ha, hb, rfl⟩, rfl⟩
    exact ⟨x, b ++ rest, (hd _ _ _).2 ⟨a, ha, by rw [List.append_assoc]⟩, (hn x _ _ _).2 ⟨b, hb, rfl⟩⟩

theorem Accepts.map {d : Decoder α} {p : α → Bytes → Prop} (hd : d.Accepts p) (g : α → β) :
    (g <$> d).Accepts fun y bs => ∃ x, p x bs ∧ g x = y := by
  intro bs y rest
  rw [map_eq_ok]
  constructor
  · rintro ⟨x, hx, rfl⟩
    obtain ⟨used, hused, rfl⟩ := (hd _ _ _).1 hx
    exact ⟨used, ⟨x, hused, rfl⟩, rfl⟩
  · rintro ⟨used, ⟨x, hused, rfl⟩, rfl⟩
    exact ⟨x, (hd _ _ _).2 ⟨used, hused, rfl⟩, rfl⟩

/-- Spellings of two things behind each other. -/
def Both (p : α → Bytes → Prop) (q : β → Bytes → Prop) (x : α × β) (bs : Bytes) : Prop :=
  ∃ a b, p x.1 a ∧ q x.2 b ∧ bs = a ++ b

theorem Accepts.pair {d : Decoder α} {d' : Decoder β} {p : α → Bytes → Prop} {q : β → Bytes → Prop}
    (hd : d.Accepts p) (hd' : d'.Accepts q) :
    (do let a ← d; let b ← d'; return (a, b) : Decoder (α × β)).Accepts (Both p q) := by
  refine (hd.bind fun x => hd'.map (x, ·)).congr fun y bs => ?_
  constructor
  · rintro ⟨x, a, b, ha, ⟨z, hz, rfl⟩, rfl⟩
    exact ⟨a, b, ha, hz, rfl⟩
  · rintro ⟨a, b, ha, hb, rfl⟩
    exact ⟨y.1, a, b, ha, ⟨y.2, hb, rfl⟩, rfl⟩

/-- Spellings of several things, one after another. -/
inductive Row (p : α → Bytes → Prop) : List α → Bytes → Prop
  | nil : Row p [] []
  | cons {x xs a b} (head : p x a) (tail : Row p xs b) : Row p (x :: xs) (a ++ b)

theorem Accepts.times {d : Decoder α} {p : α → Bytes → Prop} (hd : d.Accepts p) (count : Nat) :
    (d.times count).Accepts fun xs bs => xs.length = count ∧ Row p xs bs := by
  induction count with
  | zero =>
    refine (Accepts.pure []).congr fun xs bs => ?_
    constructor
    · rintro ⟨rfl, rfl⟩
      exact ⟨rfl, .nil⟩
    · rintro ⟨hlength, hrow⟩
      obtain rfl := List.eq_nil_of_length_eq_zero hlength
      cases hrow
      exact ⟨rfl, rfl⟩
  | succ count ih =>
    refine (hd.bind fun x => ih.map (x :: ·)).congr fun xs bs => ?_
    constructor
    · rintro ⟨x, a, b, ha, ⟨xs, ⟨hlength, hrow⟩, rfl⟩, rfl⟩
      exact ⟨congrArg (· + 1) hlength, .cons ha hrow⟩
    · rintro ⟨hlength, hrow⟩
      cases hrow with
      | nil => cases hlength
      | cons ha hrow => exact ⟨_, _, _, ha, ⟨_, ⟨Nat.succ.inj hlength, hrow⟩, rfl⟩, rfl⟩

end Decoder

namespace Codec

open Decoder

variable {α β K V : Type}

/-! ## Items -/

/-- What a codec without maps accepts. -/
theorem accepts_of_isMapless {c : Codec α} (hc : c.IsMapless) :
    c.decode.Accepts fun x bs => (c.encode x).toExcept = .ok bs ∧ c.WithinDepth x := by
  intro bs x rest
  constructor
  · intro h
    obtain ⟨hdepth, used, hused, rfl⟩ := decode_spells c hc bs x rest h
    exact ⟨used, ⟨hused, hdepth⟩, rfl⟩
  · rintro ⟨used, ⟨hused, hdepth⟩, rfl⟩
    exact (decode_undoes c x).reads hused hdepth rest

theorem decodeWord_accepts : decodeWord.Accepts fun n bs => bs = bigEndian 4 n.toNat := by
  have h := accepts_of_isMapless (c := uint32) trivial
  rw [decode_uint32] at h
  refine h.congr fun n bs => ?_
  simp [encode, encodeWord, WithinDepth, values, eq_comm]

/-- A count, and as many items behind it. -/
theorem Accepts.counted {next : Nat → Decoder β} {size : β → Nat} {p : β → Bytes → Prop}
    (hn : ∀ count, (next count).Accepts fun y bs => size y = count ∧ p y bs) :
    (decodeWord >>= fun count => next count.toNat).Accepts fun y bs =>
      ∃ a b, (encodeCount (size y)).toExcept = .ok a ∧ p y b ∧ bs = a ++ b := by
  refine (decodeWord_accepts.bind fun count => hn count.toNat).congr fun y bs => ?_
  constructor
  · rintro ⟨count, _, b, rfl, ⟨hsize, hb⟩, rfl⟩
    refine ⟨_, b, encodeCount_eq_ok.2 ⟨?_, ?_⟩, hb, rfl⟩
    · rw [hsize]
      exact count.toNat_lt
    · rw [hsize]
  · rintro ⟨a, b, ha, hb, rfl⟩
    obtain ⟨hless, rfl⟩ := encodeCount_eq_ok.1 ha
    have hword : (UInt32.ofNat (size y)).toNat = size y := UInt32.toNat_ofNat_of_lt' hless
    exact ⟨UInt32.ofNat (size y), _, b, by rw [hword], ⟨hword.symm, hb⟩, rfl⟩

theorem decodeOption_accepts {d : Decoder α} {p : α → Bytes → Prop} (hd : d.Accepts p) :
    (decodeOption d).Accepts fun x? bs =>
      match x? with
      | none => (encodeBool false).toExcept = .ok bs
      | some x => ∃ a b, (encodeBool true).toExcept = .ok a ∧ p x b ∧ bs = a ++ b := by
  have hbool : decodeBool.Accepts fun b bs => (encodeBool b).toExcept = .ok bs ∧ bool.WithinDepth b := by
    rw [← decode_bool]
    exact accepts_of_isMapless trivial
  have hdepth (b : Bool) : bool.WithinDepth b := (true_iff_withinDepth rfl).1 trivial
  have hnext (b : Bool) : (if b then some <$> d else pure none : Decoder (Option α)).Accepts fun x? bs =>
      if b then ∃ x, p x bs ∧ some x = x? else none = x? ∧ bs = [] := by
    cases b with
    | false => exact .pure none
    | true => exact hd.map some
  refine (hbool.bind hnext).congr fun x? bs => ?_
  constructor
  · rintro ⟨b, a, c, ⟨ha, -⟩, hc, rfl⟩
    cases b with
    | false =>
      obtain ⟨rfl, rfl⟩ := hc
      rw [List.append_nil]
      exact ha
    | true =>
      obtain ⟨x, hx, rfl⟩ := hc
      exact ⟨a, c, ha, hx, rfl⟩
  · intro h
    cases x? with
    | none => exact ⟨false, bs, [], ⟨h, hdepth false⟩, ⟨rfl, rfl⟩, by rw [List.append_nil]⟩
    | some x =>
      obtain ⟨a, b, ha, hb, rfl⟩ := h
      exact ⟨true, a, b, ⟨ha, hdepth true⟩, ⟨x, hb, rfl⟩, rfl⟩

/-- Entries are accepted in any order, as long as their keys differ and are new to the map. -/
theorem decodeEntries_accepts [Ord K] [Std.TransOrd K] [Std.LawfulEqOrd K] {key : Decoder K}
    {content : Decoder V} {p : K → Bytes → Prop} {q : V → Bytes → Prop} (hkey : key.Accepts p)
    (hcontent : content.Accepts q) (count : Nat) (m : SortedMap K V) :
    (decodeEntries key content count m).Accepts fun m' bs => ∃ entries, entries.length = count ∧
      entries.Pairwise (fun a b => a.1 ≠ b.1) ∧ (∀ e ∈ entries, m.contains e.1 = false) ∧
      m.insertAll entries = m' ∧ Row (Both p q) entries bs := by
  induction count generalizing m with
  | zero =>
    refine (Accepts.pure m).congr fun m' bs => ?_
    constructor
    · rintro ⟨rfl, rfl⟩
      exact ⟨[], rfl, .nil, by simp, rfl, .nil⟩
    · rintro ⟨entries, hlength, -, -, rfl, hrow⟩
      obtain rfl := List.eq_nil_of_length_eq_zero hlength
      cases hrow
      exact ⟨rfl, rfl⟩
  | succ count ih =>
    -- a key that is there already is refused, so the rest is accepted only behind a new one
    have hnext (k : K) (v : V) :
        (if m.contains k then .fail .duplicateKey else decodeEntries key content count (m.insert k v)).Accepts
          fun m' bs => m.contains k = false ∧ ∃ entries, entries.length = count ∧
            entries.Pairwise (fun a b => a.1 ≠ b.1) ∧ (∀ e ∈ entries, (m.insert k v).contains e.1 = false) ∧
            (m.insert k v).insertAll entries = m' ∧ Row (Both p q) entries bs := by
      by_cases hk : m.contains k
      · rw [if_pos hk]
        refine (Accepts.fail _).congr fun m' bs => ?_
        simp [hk]
      · rw [if_neg hk]
        refine (ih _).congr fun m' bs => ?_
        simp [hk]
    refine (hkey.bind fun k => hcontent.bind (hnext k)).congr fun m' bs => ?_
    have hnew (k : K) (v : V) (entries : List (K × V)) :
        (∀ e ∈ entries, (m.insert k v).contains e.1 = false) ↔
          (∀ e ∈ entries, k ≠ e.1) ∧ ∀ e ∈ entries, m.contains e.1 = false := by
      simp only [SortedMap.contains_insert_eq_false_iff]
      exact ⟨fun h => ⟨fun e he => (h e he).1, fun e he => (h e he).2⟩, fun h e he => ⟨h.1 e he, h.2 e he⟩⟩
    constructor
    · rintro ⟨k, a, _, ha, ⟨v, b, c, hb, ⟨hk, entries, hlength, hdistinct, hnews, hall, hrow⟩, rfl⟩, rfl⟩
      obtain ⟨hdiffer, hnews⟩ := (hnew k v entries).1 hnews
      refine ⟨(k, v) :: entries, congrArg (· + 1) hlength, List.pairwise_cons.2 ⟨hdiffer, hdistinct⟩,
        List.forall_mem_cons.2 ⟨hk, hnews⟩, hall, ?_⟩
      rw [← List.append_assoc]
      exact .cons ⟨a, b, ha, hb, rfl⟩ hrow
    · rintro ⟨entries, hlength, hdistinct, hnews, hall, hrow⟩
      cases hrow with
      | nil => cases hlength
      | @cons e entries _ c hhead hrow =>
        obtain ⟨a, b, ha, hb, rfl⟩ := hhead
        obtain ⟨hdiffer, hdistinct⟩ := List.pairwise_cons.1 hdistinct
        obtain ⟨hk, hnews⟩ := List.forall_mem_cons.1 hnews
        rw [List.append_assoc]
        exact ⟨e.1, a, b ++ c, ha, ⟨e.2, b, c, hb, ⟨hk, entries, Nat.succ.inj hlength, hdistinct,
          (hnew e.1 e.2 entries).2 ⟨hdiffer, hnews⟩, hall, hrow⟩, rfl⟩, rfl⟩

theorem decodeEntries_empty_accepts [Ord K] [Std.TransOrd K] [Std.LawfulEqOrd K] {key : Decoder K}
    {content : Decoder V} {p : K → Bytes → Prop} {q : V → Bytes → Prop} (hkey : key.Accepts p)
    (hcontent : content.Accepts q) (count : Nat) :
    (decodeEntries key content count .empty).Accepts fun m bs => m.size = count ∧
      ∃ entries, m.toList.Perm entries ∧ Row (Both p q) entries bs := by
  refine (decodeEntries_accepts hkey hcontent count .empty).congr fun m bs => ?_
  constructor
  · rintro ⟨entries, hlength, hdistinct, -, hall, hrow⟩
    have hperm := (SortedMap.insertAll_empty_eq_iff hdistinct).1 hall
    exact ⟨hperm.length_eq.trans hlength, entries, hperm, hrow⟩
  · rintro ⟨hsize, entries, hperm, hrow⟩
    have hdistinct : entries.Pairwise fun a b => a.1 ≠ b.1 :=
      hperm.pairwise m.toList_keys_ne fun hkeys => Ne.symm hkeys
    exact ⟨entries, hperm.length_eq.symm.trans hsize, hdistinct, fun e _ => contains_empty e.1,
      (SortedMap.insertAll_empty_eq_iff hdistinct).2 hperm, hrow⟩

/-! ## All codecs -/

/-- How a value may be written: as it is encoded, if no value inside it is nested deeper than 64 levels; but
the entries of a map may stand in any order. -/
def Spelling : {α : Type} → Codec α → α → Bytes → Prop
  | _, list item => fun xs bs =>
    ∃ a b, (encodeCount xs.length).toExcept = .ok a ∧ Row item.Spelling xs b ∧ bs = a ++ b
  | _, option item => fun x? bs =>
    match x? with
    | none => (encodeBool false).toExcept = .ok bs
    | some x => ∃ a b, (encodeBool true).toExcept = .ok a ∧ item.Spelling x b ∧ bs = a ++ b
  | _, map key content => fun m bs =>
    ∃ a b, (encodeCount m.size).toExcept = .ok a ∧
      (∃ entries, m.toList.Perm entries ∧ Row (Both key.Spelling content.Spelling) entries b) ∧ bs = a ++ b
  | _, pair first second => Both first.Spelling second.Spelling
  | _, layout l fields => fun x => fields.Spelling (l.fields x)
  | _, c => fun x bs => (c.encode x).toExcept = .ok bs ∧ ∀ v ∈ c.values x, v.depth ≤ 64

/-- Decoding accepts exactly the spellings of values. -/
theorem decode_accepts (c : Codec α) : c.decode.Accepts c.Spelling := by
  induction c with
  | unit | bool | int32 | int64 | uint32 | uint64 | float | bytes | text | enumeration | error | value =>
    exact accepts_of_isMapless trivial
  | list item ih =>
    rw [decode_list]
    exact Accepts.counted fun count => ih.times count
  | option item ih =>
    rw [decode_option]
    exact decodeOption_accepts ih
  | map key content ihkey ihcontent =>
    rw [decode_map]
    exact Accepts.counted fun count => decodeEntries_empty_accepts ihkey ihcontent count
  | pair first second ihfirst ihsecond =>
    rw [decode_pair]
    exact ihfirst.pair ihsecond
  | layout l fields ih =>
    rw [decode_layout]
    refine (ih.map l.build).congr fun x bs => ?_
    constructor
    · rintro ⟨y, hy, rfl⟩
      simp only [Spelling, l.fields_build]
      exact hy
    · intro hx
      exact ⟨l.fields x, hx, l.build_fields x⟩

/-- A byte string is decoded as a whole just if it is a spelling of the result. -/
theorem decodeWhole_eq_ok_iff {c : Codec α} {bs : Bytes} {x : α} : c.decodeWhole bs = .ok x ↔ c.Spelling x bs := by
  have h := c.decode_accepts bs x []
  simp only [List.append_nil, exists_eq_right'] at h
  exact decodeWhole_eq_ok.trans h

/-- An encoding is a spelling. -/
theorem spelling_of_encode {c : Codec α} {x : α} {bs : Bytes} (h : (c.encode x).toExcept = .ok bs)
    (hdepth : ∀ v ∈ c.values x, v.depth ≤ 64) : c.Spelling x bs := by
  have hdecode := (c.decode_undoes x).reads h hdepth []
  rw [List.append_nil] at hdecode
  exact decodeWhole_eq_ok_iff.1 (decodeWhole_eq_ok.2 hdecode)

/-- Without maps there is one spelling, the encoding. -/
theorem spelling_iff {c : Codec α} (hc : c.IsMapless) {x : α} {bs : Bytes} :
    c.Spelling x bs ↔ (c.encode x).toExcept = .ok bs ∧ ∀ v ∈ c.values x, v.depth ≤ 64 := by
  have h := (c.decode_accepts bs x []).symm.trans (accepts_of_isMapless hc bs x [])
  simp only [List.append_nil, exists_eq_right'] at h
  exact h

end Codec

end RemoteCall
