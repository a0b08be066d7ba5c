import RemoteCall.Record
/-!
# Gathering records

A record is gathered from pieces that a stream chooses. `Gathering.absorb` takes a stream byte by
byte, and `absorb_append` says that a larger piece has the same effect as its bytes one after
another; so what becomes of a record does not depend on how its bytes arrive. The other equations
say what the fragments of a record come to: `absorb_fragment`, `absorb_opened` and `absorb_frame`.
-/

namespace RemoteCall

namespace Record

namespace Gathering

/-- Takes a stream byte by byte until the record ends one way or the other; also gives the bytes left. -/
def absorb (limit : Nat) : Gathering → Bytes → Gathered × Bytes
  | g, [] => (.more g, [])
  | g, b :: rest =>
    match g.feed limit [b] with
    | .more g => absorb limit g rest
    | .complete whole => (.complete whole, rest)
    | .tooLong length => (.tooLong length, rest)

/-- What is left to do after a piece was fed. -/
def goOn (limit : Nat) (rest : Bytes) : Gathered → Gathered × Bytes
  | .more g => absorb limit g rest
  | .complete whole => (.complete whole, rest)
  | .tooLong length => (.tooLong length, rest)

theorem absorb_cons (limit : Nat) (g : Gathering) (b : UInt8) (rest : Bytes) :
    absorb limit g (b :: rest) = goOn limit rest (g.feed limit [b]) := by
  rw [absorb]
  cases g.feed limit [b] <;> rfl

/-- A piece of several bytes is its first byte and then the others. -/
theorem feed_cons (limit : Nat) (g : Gathering) (b : UInt8) (bs : Bytes) (hbs : bs ≠ [])
    (hneed : (b :: bs).length ≤ g.need) :
    ∃ g', g.feed limit [b] = .more g' ∧ bs.length ≤ g'.need ∧ g.feed limit (b :: bs) = g'.feed limit bs := by
  have hpos : 0 < bs.length := List.length_pos_iff.2 hbs
  rw [List.length_cons] at hneed
  cases g with
  | header got soFar =>
    simp only [need] at hneed
    refine ⟨.header (got ++ [b]) soFar, ?_, ?_, ?_⟩
    · simp only [feed, List.length_append, List.length_singleton]
      rw [if_pos (by omega)]
    · simp only [need, List.length_append, List.length_singleton]
      omega
    · simp only [feed, List.append_assoc, List.singleton_append]
  | body last missing soFar =>
    simp only [need] at hneed
    -- what is gathered is kept in reverse, so the first byte goes in front of it
    refine ⟨.body last (missing - 1) (b :: soFar), ?_, ?_, ?_⟩
    · simp only [feed, List.length_singleton, List.reverse_singleton, List.singleton_append]
      rw [if_neg (by omega)]
    · simp only [need]
      omega
    · have hmissing : missing ≤ (b :: bs).length ↔ missing - 1 ≤ bs.length := by
        rw [List.length_cons]
        omega
      have hleft : missing - (b :: bs).length = missing - 1 - bs.length := by
        rw [List.length_cons]
        omega
      simp only [feed, hmissing, hleft, List.reverse_cons, List.append_assoc, List.singleton_append]

/-- It does not matter in which pieces the bytes arrive. -/
theorem absorb_append (limit : Nat) (g : Gathering) (piece rest : Bytes) (hpiece : piece ≠ [])
    (hneed : piece.length ≤ g.need) :
    absorb limit g (piece ++ rest) = goOn limit rest (g.feed limit piece) := by
  induction piece generalizing g with
  | nil => exact absurd rfl hpiece
  | cons b bs ih =>
    rw [List.cons_append, absorb_cons]
    by_cases hbs : bs = []
    · rw [hbs, List.nil_append]
    · obtain ⟨g', hfirst, hneed', hrest⟩ := feed_cons limit g b bs hbs hneed
      rw [hfirst, hrest, goOn, ih g' hbs hneed']

/-- Bytes behind the end of a record are left. -/
theorem absorb_append_rest {limit : Nat} {g : Gathering} {inp rest : Bytes} {r : Gathered}
    (h : absorb limit g inp = (r, rest)) (hr : ∀ g', r ≠ .more g') (more : Bytes) :
    absorb limit g (inp ++ more) = (r, rest ++ more) := by
  induction inp generalizing g with
  | nil =>
    cases h
    exact absurd rfl (hr g)
  | cons b inp ih =>
    rw [absorb_cons] at h
    rw [List.cons_append, absorb_cons]
    cases hfeed : g.feed limit [b] with
    | more g' =>
      rw [hfeed] at h
      exact ih h
    | complete whole | tooLong length =>
      rw [hfeed] at h
      cases h
      rfl

/-- What is left is the end of what there was. -/
theorem absorb_suffix (limit : Nat) (g : Gathering) (inp : Bytes) : (absorb limit g inp).2 <:+ inp := by
  induction inp generalizing g with
  | nil => exact List.suffix_refl []
  | cons b inp ih =>
    rw [absorb_cons]
    cases g.feed limit [b] with
    | more g' => exact (ih g').trans (List.suffix_cons b inp)
    | complete whole | tooLong length => exact List.suffix_cons b inp

/-! ## Fragments -/

/-- What a header of four bytes comes to. -/
theorem feed_header (limit : Nat) (last : Bool) (length : Nat) (soFar : Bytes) (h : length ≤ maxFragment) :
    feed limit (Record.header last length) (.header [] soFar) =
      if limit < soFar.length + length then .tooLong (soFar.length + length)
      else if length = 0 then afterFragment last soFar
      else .more (.body last length soFar) := by
  have hfrag : length < lastMark := Nat.lt_of_le_of_lt h (by decide)
  -- the mark is the top bit of the word, so a marked length neither wraps nor meets an unmarked one
  have hmark : lastMark + lastMark = wordRange 4 := by decide
  have hword : ofBigEndian (Record.header last length) = length + if last then lastMark else 0 := by
    rw [Record.header, ofBigEndian_bigEndian]
    apply Nat.mod_eq_of_lt
    cases last <;> simp only [Bool.false_eq_true, if_false, if_true] <;> omega
  have hlen : ([] ++ Record.header last length).length = 4 := length_bigEndian 4 _
  simp only [feed]
  rw [if_neg (by omega), List.nil_append, hword]
  cases last with
  | false =>
    have hlast : decide (lastMark ≤ length) = false := decide_eq_false (by omega)
    simp only [Bool.false_eq_true, if_false, Nat.add_zero, Nat.mod_eq_of_lt hfrag, hlast]
  | true =>
    have hlast : decide (lastMark ≤ length + lastMark) = true := decide_eq_true (by omega)
    simp only [if_true, Nat.add_mod_right, Nat.mod_eq_of_lt hfrag, hlast]

/-- A header that announces too much ends the record; what follows it is left. -/
theorem absorb_tooLong (limit : Nat) (last : Bool) (length : Nat) (soFar rest : Bytes)
    (h : length ≤ maxFragment) (hlimit : limit < soFar.length + length) :
    absorb limit (.header [] soFar) (Record.header last length ++ rest) =
      (.tooLong (soFar.length + length), rest) := by
  have hlen : (Record.header last length).length = 4 := length_bigEndian 4 _
  have hne : Record.header last length ≠ [] := List.ne_nil_of_length_eq_add_one hlen
  rw [absorb_append limit _ _ rest hne (by rw [hlen]; exact Nat.le_refl 4), feed_header _ _ _ _ h,
    if_pos hlimit, goOn]

/-- A fragment within the limit adds its bytes. -/
theorem absorb_fragment (limit : Nat) (last : Bool) (fragment soFar rest : Bytes)
    (h : fragment.length ≤ maxFragment) (hlimit : soFar.length + fragment.length ≤ limit) :
    absorb limit (.header [] soFar) (Record.header last fragment.length ++ (fragment ++ rest)) =
      goOn limit rest (afterFragment last (fragment.reverse ++ soFar)) := by
  have hlen : (Record.header last fragment.length).length = 4 := length_bigEndian 4 _
  have hne : Record.header last fragment.length ≠ [] := List.ne_nil_of_length_eq_add_one hlen
  rw [absorb_append limit _ _ _ hne (by rw [hlen]; exact Nat.le_refl 4), feed_header _ _ _ _ h,
    if_neg (Nat.not_lt.2 hlimit)]
  -- an empty fragment is over with its header, before any byte of a body is fed
  by_cases hempty : fragment = []
  · rw [hempty]
    rfl
  · have hpos : fragment.length ≠ 0 := fun h0 => hempty (List.eq_nil_of_length_eq_zero h0)
    rw [if_neg hpos, goOn, absorb_append limit _ _ rest hempty (Nat.le_refl _)]
    simp only [feed, Nat.le_refl, if_true]

end Gathering

/-- Fragments that others follow, with their headers. -/
def opened (fragments : List Bytes) : Bytes :=
  fragments.flatMap fun f => header false f.length ++ f

open Gathering

/-- Fragments that others follow add their bytes. -/
theorem absorb_opened (limit : Nat) (fragments : List Bytes) (soFar rest : Bytes)
    (h : ∀ f ∈ fragments, f.length ≤ maxFragment)
    (hlimit : soFar.length + fragments.flatten.length ≤ limit) :
    absorb limit (.header [] soFar) (opened fragments ++ rest) =
      absorb limit (.header [] (fragments.flatten.reverse ++ soFar)) rest := by
  induction fragments generalizing soFar with
  | nil => rfl
  | cons f fragments ih =>
    rw [List.forall_mem_cons] at h
    rw [List.flatten_cons, List.length_append] at hlimit
    have hsplit : opened (f :: fragments) ++ rest =
        header false f.length ++ (f ++ (opened fragments ++ rest)) := by
      simp [opened]
    rw [hsplit, absorb_fragment limit false f soFar _ h.1 (by omega)]
    simp only [afterFragment, Bool.false_eq_true, if_false, goOn]
    rw [ih (f.reverse ++ soFar) h.2 (by simp only [List.length_append, List.length_reverse]; omega)]
    simp

/-- All fragments of a record within the limit make it complete. -/
theorem absorb_closed (limit : Nat) (fragments : List Bytes) (last rest : Bytes)
    (h : ∀ f ∈ fragments, f.length ≤ maxFragment) (hlast : last.length ≤ maxFragment)
    (hlimit : (fragments.flatten ++ last).length ≤ limit) :
    absorb limit start (opened fragments ++ (header true last.length ++ (last ++ rest))) =
      (.complete (fragments.flatten ++ last), rest) := by
  rw [List.length_append] at hlimit
  rw [start, absorb_opened limit fragments [] _ h (by simp only [List.length_nil]; omega),
    absorb_fragment limit true last _ rest hlast
      (by simp only [List.append_nil, List.length_reverse]; omega)]
  simp [afterFragment, goOn]

/-! ## Records as they are written -/

theorem frame_eq (body : Bytes) :
    frame body =
      if body.length ≤ maxFragment then header true body.length ++ body
      else header false maxFragment ++ (body.take maxFragment ++ frame (body.drop maxFragment)) := by
  rw [frame, fragments]
  split <;> simp [frame]

/-- A written record within the limit is gathered whole. -/
theorem absorb_frame (limit : Nat) (body soFar rest : Bytes) (h : soFar.length + body.length ≤ limit) :
    absorb limit (.header [] soFar) (frame body ++ rest) = (.complete (soFar.reverse ++ body), rest) := by
  induction hn : body.length using Nat.strongRecOn generalizing body soFar with
  | ind n ih =>
    rw [frame_eq]
    split
    · rename_i hshort
      rw [List.append_assoc, absorb_fragment limit true body soFar rest hshort h]
      simp [afterFragment, goOn]
    · rename_i hlong
      have hpos : 0 < maxFragment := by decide
      have htake : (body.take maxFragment).length = maxFragment := by
        rw [List.length_take]
        omega
      have hstep := absorb_fragment limit false (body.take maxFragment) soFar
        (frame (body.drop maxFragment) ++ rest) (Nat.le_of_eq htake) (by omega)
      rw [htake] at hstep
      -- a full fragment goes in, and a shorter body is left
      rw [List.append_assoc, List.append_assoc, hstep]
      simp only [afterFragment, Bool.false_eq_true, if_false, goOn]
      have hdrop : (body.drop maxFragment).length < n := by
        rw [List.length_drop]
        omega
      rw [ih _ hdrop (body.drop maxFragment) _ (by
        simp only [List.length_append, List.length_reverse, List.length_take, List.length_drop]
        omega) rfl]
      simp only [List.reverse_append, List.reverse_reverse, List.append_assoc, List.take_append_drop]

/-- A written record above the limit is refused, sooner or later; if it is one fragment, with its whole length. -/
theorem absorb_frame_tooLong (limit : Nat) (body soFar rest : Bytes) (hsoFar : soFar.length ≤ limit)
    (h : limit < soFar.length + body.length) :
    ∃ length left, absorb limit (.header [] soFar) (frame body ++ rest) = (.tooLong length, left) ∧
      (body.length ≤ maxFragment → length = soFar.length + body.length) := by
  induction hn : body.length using Nat.strongRecOn generalizing body soFar with
  | ind n ih =>
    rw [frame_eq]
    split
    · rename_i hshort
      refine ⟨soFar.length + body.length, body ++ rest, ?_, fun _ => by rw [hn]⟩
      rw [List.append_assoc, absorb_tooLong limit true body.length soFar _ hshort h]
    · rename_i hlong
      rw [hn] at hlong
      have hpos : 0 < maxFragment := by decide
      have htake : (body.take maxFragment).length = maxFragment := by
        rw [List.length_take]
        omega
      rw [List.append_assoc, List.append_assoc]
      -- either this fragment is too much already, or the limit is met further on
      by_cases hfirst : limit < soFar.length + maxFragment
      · exact ⟨_, _, absorb_tooLong limit false maxFragment soFar _ (Nat.le_refl _) hfirst,
          fun hshort => absurd hshort hlong⟩
      · have hstep := absorb_fragment limit false (body.take maxFragment) soFar
          (frame (body.drop maxFragment) ++ rest) (Nat.le_of_eq htake) (by omega)
        rw [htake] at hstep
        rw [hstep]
        simp only [afterFragment, Bool.false_eq_true, if_false, goOn]
        have hdrop : (body.drop maxFragment).length < n := by
          rw [List.length_drop]
          omega
        obtain ⟨length, left, habsorb, -⟩ :=
          ih _ hdrop (body.drop maxFragment) ((body.take maxFragment).reverse ++ soFar) (by
            rw [List.length_append, List.length_reverse, htake]
            omega) (by
            simp only [List.length_append, List.length_reverse, htake, List.length_drop]
            omega) rfl
        exact ⟨length, left, habsorb, fun hshort => absurd hshort hlong⟩

/-! ## What is held meanwhile -/

namespace Gathering

/-- A record under way needs at least one more byte. -/
theorem need_pos_of_feed {limit : Nat} {g g' : Gathering} {bs : Bytes} (h : g.feed limit bs = .more g') :
    0 < g'.need := by
  have hafter : ∀ {last soFar}, afterFragment last soFar = .more g' → 0 < g'.need := by
    intro last soFar h
    unfold afterFragment at h
    split at h <;> cases h
    exact Nat.succ_pos 3
  cases g with
  | header got soFar =>
    simp only [feed] at h
    split at h
    · rename_i hshort
      cases h
      exact Nat.sub_pos_of_lt hshort
    · split at h
      · cases h
      · split at h
        · exact hafter h
        · rename_i hlength
          cases h
          exact Nat.pos_of_ne_zero hlength
  | body last missing soFar =>
    simp only [feed] at h
    split at h
    · exact hafter h
    · rename_i hmissing
      cases h
      exact Nat.sub_pos_of_lt (Nat.not_le.1 hmissing)

/-- How many bytes a record under way takes up: those received and those announced. -/
def held : Gathering → Nat
  | header _ soFar => soFar.length
  | body _ missing soFar => soFar.length + missing

/-- What is held stays within the limit, whatever arrives. -/
theorem held_feed {limit : Nat} {g g' : Gathering} {bs : Bytes} (hg : g.held ≤ limit)
    (hbs : bs.length ≤ g.need) (h : g.feed limit bs = .more g') : g'.held ≤ limit := by
  cases g with
  | header got soFar =>
    simp only [held] at hg
    simp only [feed] at h
    split at h
    · cases h
      exact hg
    · split at h
      · cases h
      · split at h
        · unfold afterFragment at h
          split at h <;> cases h
          exact hg
        · rename_i hlimit _
          cases h
          exact Nat.not_lt.1 hlimit
  | body last missing soFar =>
    simp only [held] at hg
    simp only [need] at hbs
    simp only [feed] at h
    split at h
    · unfold afterFragment at h
      split at h <;> cases h
      simp only [held, List.length_append, List.length_reverse]
      omega
    · cases h
      simp only [held, List.length_append, List.length_reverse]
      omega

/-- A record that is complete is within the limit. -/
theorem length_le_of_feed {limit : Nat} {g : Gathering} {bs whole : Bytes} (hg : g.held ≤ limit)
    (hbs : bs.length ≤ g.need) (h : g.feed limit bs = .complete whole) : whole.length ≤ limit := by
  cases g with
  | header got soFar =>
    simp only [held] at hg
    simp only [feed] at h
    split at h
    · cases h
    · split at h
      · cases h
      · split at h
        · unfold afterFragment at h
          split at h <;> cases h
          rw [List.length_reverse]
          exact hg
        · cases h
  | body last missing soFar =>
    simp only [held] at hg
    simp only [need] at hbs
    simp only [feed] at h
    split at h
    · unfold afterFragment at h
      split at h <;> cases h
      simp only [List.length_append, List.length_reverse]
      omega
    · cases h

end Gathering

end Record

end RemoteCall
