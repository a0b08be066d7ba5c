import RemoteCall.Proofs.Codec.Spelling
/-!
# What more bytes change

A decoder either comes to its result inside a byte string, and then whatever follows is left alone, or it runs
out of bytes, and then it would read on into whatever follows. `Decoder.Local` says that these are the only two
ways, and that they are told apart by the sort of the fault. It goes through sequences, so it holds of every
codec: `decode_local`. The main result, `decode_append_and_cut`, says what that means for longer and for
shorter inputs.
-/

namespace RemoteCall

namespace Decoder

variable {α β : Type}

/-- The decoder comes to its result inside a byte string, whatever follows, and faults only for malformed
data. -/
structure Settles (d : Decoder α) (bs : Bytes) : Prop where
  append : ∀ more, d (bs ++ more) = ((d bs).1, (d bs).2 ++ more)
  malformed : ∀ f, (d bs).1 = .error f → f.kind = .invalidData

/-- The decoder runs out of bytes, and would read on into whatever follows. -/
structure RunsOut (d : Decoder α) (bs : Bytes) : Prop where
  short : ∃ f, d bs = (.error f, []) ∧ f.kind = .unexpectedEof
  reads : ∀ more, more ≠ [] → (d (bs ++ more)).2.length < more.length

/-- On every byte string the decoder comes to its result or runs out of bytes. -/
structure Local (d : Decoder α) : Prop where
  length_le : ∀ bs, (d bs).2.length ≤ bs.length
  cases : ∀ bs, d.Settles bs ∨ d.RunsOut bs

/-- A decoder that did not run out of bytes reads nothing of what follows. -/
theorem Settles.le_length {d : Decoder α} {bs : Bytes} (h : d.Settles bs) (more : Bytes) :
    more.length ≤ (d (bs ++ more)).2.length := by
  rw [h.append, List.length_append]
  exact Nat.le_add_left _ _

/-- A decoder that gives a result came to it inside the byte string. -/
theorem Local.settles_of_ok {d : Decoder α} (hd : d.Local) {bs rest : Bytes} {x : α} (h : d bs = (.ok x, rest)) :
    d.Settles bs := by
  apply (hd.cases bs).resolve_right
  intro hruns
  obtain ⟨f, hshort, -⟩ := hruns.short
  rw [h] at hshort
  cases hshort

/-- So did a decoder that finds malformed data. -/
theorem Local.settles_of_malformed {d : Decoder α} (hd : d.Local) {bs rest : Bytes} {f : Fault}
    (h : d bs = (.error f, rest)) (hf : f.kind = .invalidData) : d.Settles bs := by
  apply (hd.cases bs).resolve_right
  intro hruns
  obtain ⟨f', hshort, hkind⟩ := hruns.short
  rw [h] at hshort
  cases hshort
  rw [hf] at hkind
  cases hkind

/-- A decoder that reads some of what follows has run out of bytes before. -/
theorem Local.runsOut_of_reads {d : Decoder α} (hd : d.Local) {bs more : Bytes}
    (h : (d (bs ++ more)).2.length < more.length) : d.RunsOut bs := by
  apply (hd.cases bs).resolve_left
  intro hsettles
  have hleft := hsettles.le_length more
  omega

theorem Local.pure (x : α) : (Pure.pure x : Decoder α).Local where
  length_le bs := Nat.le_refl bs.length
  cases _ := .inl ⟨fun _ => rfl, fun _ h => by cases h⟩

theorem Local.fail {f : Fault} (hf : f.kind = .invalidData) : (fail f : Decoder α).Local where
  length_le bs := Nat.le_refl bs.length
  cases _ := .inl ⟨fun _ => rfl, fun _ h => by cases h; exact hf⟩

theorem Local.bind {d : Decoder α} {next : α → Decoder β} (hd : d.Local) (hn : ∀ x, (next x).Local) :
    (d >>= next).Local where
  length_le bs := by
    have hlength := hd.length_le bs
    rw [bind_apply]
    rcases hx : d bs with ⟨f | x, mid⟩ <;> rw [hx] at hlength
    · exact hlength
    · exact Nat.le_trans ((hn x).length_le mid) hlength
  cases bs := by
    rcases hd.cases bs with hsettles | hruns
    · have happend := hsettles.append
      have hmalformed := hsettles.malformed
      rcases hx : d bs with ⟨f | x, mid⟩ <;> rw [hx] at happend hmalformed
      · refine .inl ⟨fun more => ?_, fun f' hf' => ?_⟩
        · rw [bind_apply, bind_apply, happend, hx]
        · rw [bind_apply, hx] at hf'
          cases hf'
          exact hmalformed f rfl
      · -- the second part has the bytes to itself that the first one left
        have hsecond : (d >>= next) bs = next x mid := by rw [bind_apply, hx]
        have hmore : ∀ more, (d >>= next) (bs ++ more) = next x (mid ++ more) := fun more => by
          rw [bind_apply, happend]
        rcases (hn x).cases mid with hnext | hnext
        · refine .inl ⟨fun more => ?_, ?_⟩
          · rw [hmore, hsecond, hnext.append]
          · rw [hsecond]
            exact hnext.malformed
        · refine .inr ⟨?_, fun more hmore' => ?_⟩
          · rw [hsecond]
            exact hnext.short
          · rw [hmore]
            exact hnext.reads more hmore'
    · obtain ⟨f, hshort, hkind⟩ := hruns.short
      refine .inr ⟨⟨f, by rw [bind_apply, hshort], hkind⟩, fun more hmore => ?_⟩
      have hless := hruns.reads more hmore
      rw [bind_apply]
      rcases hx : d (bs ++ more) with ⟨f | x, mid⟩ <;> rw [hx] at hless
      · exact hless
      · exact Nat.lt_of_le_of_lt ((hn x).length_le mid) hless

theorem Local.map {d : Decoder α} (hd : d.Local) (g : α → β) : (g <$> d).Local :=
  hd.bind fun x => .pure (g x)

theorem Local.times {d : Decoder α} (hd : d.Local) (count : Nat) : (d.times count).Local := by
  induction count with
  | zero => exact .pure []
  | succ count ih => exact hd.bind fun x => ih.map (x :: ·)

theorem Local.pair {d : Decoder α} {d' : Decoder β} (hd : d.Local) (hd' : d'.Local) :
    (do let a ← d; let b ← d'; return (a, b) : Decoder (α × β)).Local :=
  hd.bind fun a => hd'.map (a, ·)

/-- Reads so many bytes at once; fewer are used up. -/
def block (count : Nat) (result : Bytes → Except Fault α) (short : Bytes → Fault) : Decoder α := fun bs =>
  if (bs.take count).length = count then (result (bs.take count), bs.drop count)
  else (.error (short (bs.take count)), [])

theorem block_local (count : Nat) (result : Bytes → Except Fault α) (short : Bytes → Fault)
    (hresult : ∀ bs f, result bs = .error f → f.kind = .invalidData)
    (hshort : ∀ bs, (short bs).kind = .unexpectedEof) : (block count result short).Local where
  length_le bs := by
    unfold block
    split
    · rw [List.length_drop]
      exact Nat.sub_le _ _
    · exact Nat.zero_le _
  cases bs := by
    by_cases hcount : count ≤ bs.length
    · have hthere : ∀ more, block count result short (bs ++ more) =
          (result (bs.take count), bs.drop count ++ more) := fun more => by
        have htake : (bs ++ more).take count = bs.take count := List.take_append_of_le_length hcount
        have hlength : (bs.take count).length = count := by
          rw [List.length_take]
          omega
        unfold block
        rw [htake, if_pos hlength, List.drop_append_of_le_length hcount]
      have hself := hthere []
      rw [List.append_nil, List.append_nil] at hself
      refine .inl ⟨fun more => by rw [hthere, hself], fun f hf => ?_⟩
      rw [hself] at hf
      exact hresult _ f hf
    · refine .inr ⟨⟨short (bs.take count), ?_, hshort _⟩, fun more hmore => ?_⟩
      · refine if_neg ?_
        rw [List.length_take]
        omega
      · have hpos : 0 < more.length := List.length_pos_iff.2 hmore
        unfold block
        split
        · rename_i hlength
          rw [List.length_take, List.length_append] at hlength
          rw [List.length_drop, List.length_append]
          omega
        · exact hpos

end Decoder

namespace Codec

open Decoder

variable {α K V : Type}

/-! ## Items -/

theorem decodeNumber_local (width : Nat) : (decodeNumber width).Local :=
  block_local width (fun bs => .ok (ofBigEndian bs)) (fun _ => .shortWord) (fun _ _ h => by cases h) fun _ => rfl

theorem decodeWord_local : decodeWord.Local := (decodeNumber_local 4).map _

theorem decodeLongWord_local : decodeLongWord.Local := (decodeNumber_local 8).map _

theorem decodeBool_local : decodeBool.Local := by
  refine decodeWord_local.bind fun n => ?_
  rcases n.toNat with _ | _ | k
  · exact .pure false
  · exact .pure true
  · exact .fail rfl

theorem decodePadding_local (length : Nat) : (decodePadding length).Local := by
  refine block_local _ (fun bs => if bs.all (· == 0) then .ok () else .error .dirtyPadding) (fun _ => .shortWord)
    (fun bs f h => ?_) fun _ => rfl
  split at h <;> cases h
  rfl

/-- So many bytes as they are. -/
def takeBytes (length : Nat) : Decoder Bytes :=
  block length .ok fun got => .shortBytes got.length length

/-- A byte string is read part by part. -/
theorem decodeBytes_eq : decodeBytes = (do
    let length ← decodeWord
    let got ← takeBytes length.toNat
    decodePadding length.toNat
    return got : Decoder Bytes) := by
  funext bs
  simp only [decodeBytes, receiveBytes, bind_apply, takeBytes, block]
  rcases decodeWord bs with ⟨f | length, rest⟩
  · rfl
  · dsimp only
    by_cases hlength : (rest.take length.toNat).length = length.toNat
    · rw [if_pos hlength, if_pos hlength]
      dsimp only
      rcases decodePadding length.toNat (rest.drop length.toNat) with ⟨f | u, left⟩ <;> rfl
    · rw [if_neg hlength, if_neg hlength]
      rfl

theorem decodeBytes_local : decodeBytes.Local := by
  rw [decodeBytes_eq]
  refine decodeWord_local.bind fun length => ?_
  have htake : (takeBytes length.toNat).Local := block_local _ _ _ (fun _ _ h => by cases h) fun _ => rfl
  exact htake.bind fun got => (decodePadding_local _).bind fun _ => .pure got

theorem decodeText_local : decodeText.Local := by
  refine decodeBytes_local.bind fun bs => ?_
  rcases utf8? bs with _ | s
  · exact .fail rfl
  · exact .pure s

theorem decodeOption_local {d : Decoder α} (hd : d.Local) : (decodeOption d).Local := by
  refine decodeBool_local.bind fun b => ?_
  cases b with
  | false => exact .pure none
  | true => exact hd.map some

theorem decodeError_local : decodeError.Local := (decodeOption_local decodeText_local).map _

/-! ## Values -/

theorem decodeKind_local : decodeKind.Local := by
  refine decodeWord_local.bind fun code => ?_
  rcases kindOfCode? code.toNat with _ | k
  · exact .fail rfl
  · exact .pure k

theorem decodeContent_local {inner : Decoder Value} (h : inner.Local) (k : Value.Kind) :
    (decodeContent inner k).Local := by
  cases k with
  | nil => exact .pure _
  | bool => exact decodeBool_local.map _
  | int | uint | float => exact decodeLongWord_local.map _
  | text => exact decodeText_local.map _
  | bytes => exact decodeBytes_local.map _
  | list => exact decodeWord_local.bind fun count => (h.times _).map _
  | map => exact decodeWord_local.bind fun count => ((h.pair h).times _).map _
  | record => exact decodeWord_local.bind fun count => ((decodeText_local.pair h).times _).map _
  | error => exact decodeError_local.map _

theorem decodeLevels_local (levels : Nat) : (decodeLevels levels).Local := by
  induction levels with
  | zero => exact .fail rfl
  | succ levels ih => exact decodeKind_local.bind (decodeContent_local ih)

/-! ## All codecs -/

theorem decodeVariant_local (e : Enumeration α) : (decodeVariant e).Local := by
  refine decodeWord_local.bind fun code => ?_
  rcases e.variant? code.toInt32 with _ | v
  · exact .fail rfl
  · exact .pure v

theorem decodeEntries_local [Ord K] [Std.TransOrd K] {key : Decoder K} {content : Decoder V}
    (hkey : key.Local) (hcontent : content.Local) (count : Nat) (m : SortedMap K V) :
    (decodeEntries key content count m).Local := by
  induction count generalizing m with
  | zero => exact .pure m
  | succ count ih =>
    refine hkey.bind fun k => hcontent.bind fun v => ?_
    split
    · exact .fail rfl
    · exact ih _

/-- Every codec is local: what follows a value changes nothing, and only a byte string that is too short is
answered with the fault of an early end. -/
theorem decode_local (c : Codec α) : c.decode.Local := by
  induction c with
  | unit => rw [decode_unit]; exact .pure ()
  | bool => rw [decode_bool]; exact decodeBool_local
  | int32 => rw [decode_int32]; exact decodeWord_local.map _
  | int64 => rw [decode_int64]; exact decodeLongWord_local.map _
  | uint32 => rw [decode_uint32]; exact decodeWord_local
  | uint64 => rw [decode_uint64]; exact decodeLongWord_local
  | float => rw [decode_float]; exact decodeLongWord_local.map _
  | bytes => rw [decode_bytes]; exact decodeBytes_local
  | text => rw [decode_text]; exact decodeText_local
  | enumeration e => rw [decode_enumeration]; exact decodeVariant_local e
  | error => rw [decode_error]; exact decodeError_local
  | value => rw [decode_value]; exact decodeLevels_local _
  | list item ih => rw [decode_list]; exact decodeWord_local.bind fun count => ih.times _
  | option item ih => rw [decode_option]; exact decodeOption_local ih
  | map key content ihkey ihcontent =>
    rw [decode_map]
    exact decodeWord_local.bind fun count => decodeEntries_local ihkey ihcontent _ _
  | pair first second ihfirst ihsecond => rw [decode_pair]; exact ihfirst.pair ihsecond
  | layout l fields ih => rw [decode_layout]; exact ih.map _

/-! ## Longer and shorter inputs -/

/-- What decoding comes to is settled by the bytes that it reads. Bytes behind the value are left alone, and bytes
behind malformed data do not mend it. No part of the bytes of a value is taken for a value or for malformed data:
cut off anywhere, they are too short. -/
theorem decode_append_and_cut (c : Codec α) (bs : Bytes) :
    (∀ x rest, c.decode bs = (.ok x, rest) →
      (∀ more, c.decode (bs ++ more) = (.ok x, rest ++ more)) ∧
      ∃ used, bs = used ++ rest ∧ ∀ short, short <+: used → short ≠ used →
        ∃ f left, c.decode short = (.error f, left) ∧ f.kind = .unexpectedEof) ∧
    ∀ f rest, c.decode bs = (.error f, rest) → f.kind = .invalidData →
      ∀ more, c.decode (bs ++ more) = (.error f, rest ++ more) := by
  have hlocal := c.decode_local
  constructor
  · intro x rest hx
    constructor
    · intro more
      rw [(hlocal.settles_of_ok hx).append, hx]
    · obtain ⟨used, -, rfl⟩ := (c.decode_accepts bs x rest).1 hx
      refine ⟨used, rfl, ?_⟩
      intro short hshort hne
      obtain ⟨cut, rfl⟩ := hshort
      have hcut : 0 < cut.length := by
        apply List.length_pos_iff.2
        rintro rfl
        exact hne (List.append_nil short).symm
      -- with what was cut off, some of what follows the short input is read
      have hreads : (c.decode (short ++ (cut ++ rest))).2.length < (cut ++ rest).length := by
        rw [← List.append_assoc, hx, List.length_append]
        show rest.length < cut.length + rest.length
        omega
      obtain ⟨f, hdecode, hkind⟩ := (hlocal.runsOut_of_reads hreads).short
      exact ⟨f, [], hdecode, hkind⟩
  · intro f rest hf hkind more
    rw [(hlocal.settles_of_malformed hf hkind).append, hf]

/-- A list of one truth value: with a byte behind it, cut off inside the value, and with a number that is no truth
value. -/
theorem decode_append_and_cut_one_bool :
    (list value).decode ([0, 0, 0, 1, 0, 0, 0, 1, 0, 0, 0, 1] ++ [7]) = (.ok [.bool true], [7]) ∧
    (∃ f left, (list value).decode [0, 0, 0, 1, 0, 0] = (.error f, left) ∧ f.kind = .unexpectedEof) ∧
    (list value).decode ([0, 0, 0, 1, 0, 0, 0, 1, 0, 0, 0, 2] ++ [0, 7]) = (.error .badBool, [0, 7]) := by
  obtain ⟨hmore, used, hused, hshort⟩ :=
    (decode_append_and_cut (list value) [0, 0, 0, 1, 0, 0, 0, 1, 0, 0, 0, 1]).1 [.bool true] [] rfl
  rw [List.append_nil] at hused
  subst hused
  have hbad := (decode_append_and_cut (list value) [0, 0, 0, 1, 0, 0, 0, 1, 0, 0, 0, 2]).2 .badBool [] rfl rfl
  exact ⟨hmore [7], hshort [0, 0, 0, 1, 0, 0] (by decide) (by decide), hbad [0, 7]⟩

/-! ## Whole byte strings -/

/-- With some continuation, decoding reads beyond the byte string: it is too short for what it declares. -/
def ReadsPast (c : Codec α) (bs : Bytes) : Prop := ∃ more, (c.decode (bs ++ more)).2.length < more.length

/-- The sort of the fault tells whether a byte string is too short for what it declares. -/
theorem kind_of_decodeWhole {c : Codec α} {bs : Bytes} {f : Fault} (h : c.decodeWhole bs = .error f) :
    (c.ReadsPast bs ∧ f.kind = .unexpectedEof) ∨ (¬c.ReadsPast bs ∧ f.kind = .invalidData) := by
  unfold decodeWhole at h
  rcases c.decode_local.cases bs with hsettles | hruns
  · refine .inr ⟨?_, ?_⟩
    · rintro ⟨more, hless⟩
      exact Nat.not_lt.2 (hsettles.le_length more) hless
    · have hmalformed := hsettles.malformed
      rcases hdecode : c.decode bs with ⟨f' | x, _ | ⟨b, rest⟩⟩ <;> rw [hdecode] at h hmalformed <;> cases h
      · exact hmalformed _ rfl
      · exact hmalformed _ rfl
      · rfl
  · obtain ⟨f', hshort, hkind⟩ := hruns.short
    rw [hshort] at h
    cases h
    exact .inl ⟨⟨[0], hruns.reads [0] (List.cons_ne_nil _ _)⟩, hkind⟩

end Codec

end RemoteCall
