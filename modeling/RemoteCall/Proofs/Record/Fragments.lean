import RemoteCall.Proofs.Record.Gathering
/-!
# Records on the wire

`IsRecord` says which byte strings are a record with a given body: any number of fragments, empty ones
included, of which only the last one is marked; `IsWritten` says which one of them is written for a body. The
main results are that gathering takes exactly the records, so that a record is complete after a byte string just
when that is a record within the limit, and that `frame` gives the one that is written.
-/

namespace RemoteCall

namespace Record

/-- A byte string is a record whose body is within the limit. -/
def IsRecord (limit : Nat) (record body : Bytes) : Prop :=
  ∃ (fragments : List Bytes) (last : Bytes), (∀ f ∈ fragments, f.length ≤ maxFragment) ∧
    last.length ≤ maxFragment ∧ body = fragments.flatten ++ last ∧ body.length ≤ limit ∧
    record = opened fragments ++ (header true last.length ++ last)

namespace Gathering

/-- Fewer bytes than a record needs do not complete it. -/
theorem absorb_short (limit : Nat) {g : Gathering} {bs : Bytes} (h : bs.length < g.need) :
    ∃ g', absorb limit g bs = (.more g', []) := by
  by_cases hbs : bs = []
  · rw [hbs]
    exact ⟨g, rfl⟩
  · have hfeed : ∃ g', g.feed limit bs = .more g' := by
      cases g with
      | header got soFar =>
        have hneed : bs.length < 4 - got.length := h
        have hlen : (got ++ bs).length < 4 := by
          rw [List.length_append]
          omega
        exact ⟨_, if_pos hlen⟩
      | body last missing soFar =>
        have hneed : bs.length < missing := h
        exact ⟨_, if_neg (Nat.not_le.2 hneed)⟩
    obtain ⟨g', hfeed⟩ := hfeed
    have habsorb := absorb_append limit g bs [] hbs (Nat.le_of_lt h)
    rw [List.append_nil, hfeed] at habsorb
    exact ⟨g', habsorb⟩

/-- A record that is not complete has taken all bytes. -/
theorem absorb_more_rest {limit : Nat} {g g' : Gathering} {inp rest : Bytes}
    (h : absorb limit g inp = (.more g', rest)) : rest = [] := by
  induction inp generalizing g with
  | nil =>
    cases h
    rfl
  | cons b bs ih =>
    rw [absorb_cons] at h
    cases hfeed : g.feed limit [b] with
    | more g₁ =>
      rw [hfeed] at h
      exact ih h
    | complete whole =>
      rw [hfeed] at h
      cases h
    | tooLong length =>
      rw [hfeed] at h
      cases h

/-- Four bytes are a header. -/
theorem exists_header {bs : Bytes} (h : bs.length = 4) :
    ∃ last length, length ≤ maxFragment ∧ bs = Record.header last length := by
  have hword : bigEndian 4 (ofBigEndian bs) = bs := by
    rw [← h]
    exact bigEndian_ofBigEndian bs
  have hrange : ofBigEndian bs < lastMark + lastMark := by
    have hlt := ofBigEndian_lt bs
    rw [h] at hlt
    exact hlt
  have hmax : lastMark = maxFragment + 1 := rfl
  by_cases hmark : lastMark ≤ ofBigEndian bs
  · refine ⟨true, ofBigEndian bs - lastMark, by omega, ?_⟩
    unfold Record.header
    rw [if_pos rfl, Nat.sub_add_cancel hmark, hword]
  · refine ⟨false, ofBigEndian bs, by omega, ?_⟩
    unfold Record.header
    rw [if_neg Bool.false_ne_true, Nat.add_zero, hword]

/-- What is complete was a header and its fragment first, unless these were the last ones. -/
theorem absorb_complete_cases {limit : Nat} {soFar inp whole rest : Bytes}
    (h : absorb limit (.header [] soFar) inp = (.complete whole, rest)) :
    ∃ last fragment more, fragment.length ≤ maxFragment ∧ soFar.length + fragment.length ≤ limit ∧
      inp = Record.header last fragment.length ++ (fragment ++ more) ∧
      goOn limit more (afterFragment last (fragment.reverse ++ soFar)) = (.complete whole, rest) := by
  have hincomplete : ∀ {g : Gathering} {bs : Bytes}, bs.length < g.need →
      absorb limit g bs ≠ (.complete whole, rest) := by
    intro g bs hshort heq
    obtain ⟨g', hmore⟩ := absorb_short limit hshort
    rw [hmore] at heq
    cases heq
  by_cases hshort : inp.length < 4
  · exact absurd h (hincomplete hshort)
  · obtain ⟨last, length, hlength, hheader⟩ := exists_header
      (show (inp.take 4).length = 4 by rw [List.length_take]; omega)
    have hsplit : inp = Record.header last length ++ inp.drop 4 := by
      rw [← hheader, List.take_append_drop]
    have hlimit : soFar.length + length ≤ limit := by
      apply Nat.not_lt.1
      intro htooLong
      rw [hsplit, absorb_tooLong limit last length soFar _ hlength htooLong] at h
      cases h
    -- the fragment is there in whole, or else the record would not be complete
    have hwhole : length ≤ (inp.drop 4).length := by
      apply Nat.not_lt.1
      intro hfew
      have hlen : (Record.header last length).length = 4 := length_bigEndian 4 _
      have hne : Record.header last length ≠ [] := List.ne_nil_of_length_eq_add_one hlen
      rw [hsplit, absorb_append limit _ _ _ hne (by rw [hlen]; exact Nat.le_refl 4),
        feed_header _ _ _ _ hlength, if_neg (Nat.not_lt.2 hlimit), if_neg (by omega)] at h
      exact hincomplete hfew h
    have htake : ((inp.drop 4).take length).length = length := by
      rw [List.length_take]
      omega
    have hfragment : inp = Record.header last ((inp.drop 4).take length).length ++
        ((inp.drop 4).take length ++ (inp.drop 4).drop length) := by
      rw [htake, List.take_append_drop]
      exact hsplit
    refine ⟨last, (inp.drop 4).take length, (inp.drop 4).drop length, by omega, by omega, hfragment, ?_⟩
    rw [hfragment, absorb_fragment limit last _ soFar _ (by omega) (by omega)] at h
    exact h

end Gathering

/-- The fragments of a record that is complete. -/
theorem exists_fragments_of_absorb {limit : Nat} {soFar inp whole rest : Bytes} (hsoFar : soFar.length ≤ limit)
    (h : Gathering.absorb limit (.header [] soFar) inp = (.complete whole, rest)) :
    ∃ fragments last, (∀ f ∈ fragments, f.length ≤ maxFragment) ∧ last.length ≤ maxFragment ∧
      whole = soFar.reverse ++ (fragments.flatten ++ last) ∧ whole.length ≤ limit ∧
      inp = opened fragments ++ (header true last.length ++ (last ++ rest)) := by
  induction hn : inp.length using Nat.strongRecOn generalizing soFar inp with
  | ind n ih =>
    obtain ⟨isLast, fragment, more, hfragment, hlimit, hinp, hgoOn⟩ := Gathering.absorb_complete_cases h
    cases isLast with
    | true =>
      cases hgoOn
      refine ⟨[], fragment, by simp, hfragment, by simp, ?_, hinp⟩
      rw [List.length_reverse, List.length_append, List.length_reverse]
      omega
    | false =>
      have hheader : (header false fragment.length).length = 4 := length_bigEndian 4 _
      have hless : more.length < n := by
        rw [← hn, hinp, List.length_append, List.length_append]
        omega
      have hheld : (fragment.reverse ++ soFar).length ≤ limit := by
        rw [List.length_append, List.length_reverse]
        omega
      obtain ⟨fragments, last, hfragments, hlast, hwhole, hlength, hmore⟩ := ih _ hless hheld hgoOn rfl
      refine ⟨fragment :: fragments, last, ?_, hlast, ?_, hlength, ?_⟩
      · rw [List.forall_mem_cons]
        exact ⟨hfragment, hfragments⟩
      · rw [hwhole, List.reverse_append, List.reverse_reverse, List.flatten_cons]
        simp only [List.append_assoc]
      · rw [hinp, hmore]
        simp [opened]

/-- A record is complete after a byte string just when that is a record within the limit. -/
theorem absorb_complete_iff {limit : Nat} {inp whole rest : Bytes} :
    Gathering.start.absorb limit inp = (.complete whole, rest) ↔
      ∃ record, inp = record ++ rest ∧ IsRecord limit record whole := by
  constructor
  · intro h
    obtain ⟨fragments, last, hfragments, hlast, hwhole, hlength, hinp⟩ :=
      exists_fragments_of_absorb (Nat.zero_le limit) h
    refine ⟨opened fragments ++ (header true last.length ++ last), ?_, fragments, last, hfragments, hlast,
      hwhole, hlength, rfl⟩
    rw [hinp]
    simp only [List.append_assoc]
  · rintro ⟨record, rfl, fragments, last, hfragments, hlast, rfl, hlength, rfl⟩
    have habsorb := absorb_closed limit fragments last rest hfragments hlast hlength
    simpa only [List.append_assoc] using habsorb

/-! ## The record that is written -/

/-- A byte string is the record that is written for a body: fragments of 2³¹ - 1 bytes behind their length, and then
the rest behind its length with the highest bit set. The rest is empty only if the body is. -/
def IsWritten (record body : Bytes) : Prop :=
  ∃ (full : List Bytes) (last : Bytes), (∀ f ∈ full, f.length = 0x7fffffff) ∧ last.length ≤ 0x7fffffff ∧
    (last = [] → full = []) ∧ body = full.flatten ++ last ∧
    record = full.flatMap (bigEndian 4 0x7fffffff ++ ·) ++ (bigEndian 4 (0x80000000 + last.length) ++ last)

theorem header_last (length : Nat) : header true length = bigEndian 4 (0x80000000 + length) :=
  congrArg (bigEndian 4) (Nat.add_comm length lastMark)

/-- Every body has a record. -/
theorem isWritten_frame (body : Bytes) : IsWritten (frame body) body := by
  induction hn : body.length using Nat.strongRecOn generalizing body with
  | ind n ih =>
    rw [frame_eq]
    split
    · rename_i hshort
      exact ⟨[], body, nofun, hshort, fun _ => rfl, rfl, by rw [header_last]; rfl⟩
    · rename_i hlong
      have hpos : 0 < maxFragment := by decide
      have hless : (body.drop maxFragment).length < n := by
        rw [List.length_drop]
        omega
      obtain ⟨full, last, hfull, hlast, hrest, hbody, hrecord⟩ := ih _ hless (body.drop maxFragment) rfl
      refine ⟨body.take maxFragment :: full, last, ?_, hlast, fun hempty => ?_, ?_, ?_⟩
      · rw [List.forall_mem_cons]
        exact ⟨List.length_take_of_le (Nat.le_of_not_le hlong), hfull⟩
      · -- more than one fragment is left, so the last one is not empty
        have hnil : body.drop maxFragment = [] := by rw [hbody, hrest hempty, hempty]; rfl
        have hlength := congrArg List.length hnil
        rw [List.length_drop, List.length_nil] at hlength
        omega
      · rw [List.flatten_cons, List.append_assoc, ← hbody, List.take_append_drop]
      · rw [hrecord, List.flatMap_cons]
        simp only [List.append_assoc]
        rfl

/-- A body has one record. -/
theorem IsWritten.eq_frame {record body : Bytes} (h : IsWritten record body) : record = frame body := by
  obtain ⟨full, last, hfull, hlast, hrest, rfl, rfl⟩ := h
  induction full with
  | nil =>
    have hshort : last.length ≤ maxFragment := hlast
    rw [List.flatten_nil, List.nil_append, frame_eq, if_pos hshort, header_last]
    rfl
  | cons f full ih =>
    obtain ⟨hf, hfull⟩ := List.forall_mem_cons.1 hfull
    have hpos : 0 < last.length := List.length_pos_iff.2 fun hempty => List.cons_ne_nil _ _ (hrest hempty)
    have hmax : f.length = maxFragment := hf
    have hlong : ¬ ((f :: full).flatten ++ last).length ≤ maxFragment := by
      rw [List.flatten_cons, List.append_assoc, List.length_append, List.length_append]
      omega
    -- the body is cut behind its first fragment, and the rest of the record is that of the rest of the body
    have htail := ih hfull fun hempty => absurd hempty (List.length_pos_iff.1 hpos)
    rw [frame_eq, if_neg hlong, List.flatten_cons, List.append_assoc, ← hmax, List.take_left, List.drop_left,
      ← htail, List.flatMap_cons]
    simp only [List.append_assoc, hmax]
    rfl

end Record

end RemoteCall
