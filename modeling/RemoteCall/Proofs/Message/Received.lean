import RemoteCall.Proofs.Codec.RoundTrip
import RemoteCall.Proofs.Codec.Canonical
import RemoteCall.Proofs.Exchange.Receiving
/-!
# Values received from a stream

`Attempt.receiveValue` gathers one record and decodes its body. The first main result says that the
value or the fault depends on the bodies of the fragments together, never on where they are split,
and that a record above the limit is refused at the first header that goes beyond it. The second
says that only encodings are accepted.
-/

namespace RemoteCall

variable {ω σ α : Type}

/-- The whole of an encoding is decoded, if no value in it is nested too deep. -/
theorem Codec.decodeWhole_of_encode {c : Codec α} {x : α} {bs : Bytes} (h : (c.encode x).toExcept = .ok bs)
    (hdepth : c.WithinDepth x) : c.decodeWhole bs = .ok x := by
  have hdecode := (c.decode_undoes x).reads h hdepth []
  rw [List.append_nil] at hdecode
  exact decodeWhole_eq_ok.2 hdecode

/-- The whole of an encoding is refused, if some value in it is nested too deep. -/
theorem Codec.decodeWhole_of_deep {c : Codec α} {x : α} {bs : Bytes} (h : (c.encode x).toExcept = .ok bs)
    (hdeep : ¬c.WithinDepth x) : c.decodeWhole bs = .error (.tooDeep maxDepth) := by
  obtain ⟨left, hdecode⟩ := (c.decode_undoes x).refuses h hdeep []
  rw [List.append_nil] at hdecode
  rw [decodeWhole, hdecode]

/-! ## Some short encodings -/

theorem Codec.encode_text_ab : (Codec.text.encode "a.b").toExcept = .ok [0, 0, 0, 3, 97, 46, 98, 0] :=
  encodeBytes_eq_ok.2 ⟨by decide, rfl⟩

theorem Codec.encode_list_nil : ((Codec.list .value).encode []).toExcept = .ok [0, 0, 0, 0] := by
  simp [encode, encodeCount, encodeWord, Encoding.each, Encoding.toExcept_andThen]
  decide

/-- A list of one truth value takes twelve bytes. -/
theorem Codec.encode_list_true :
    ((Codec.list .value).encode [.bool true]).toExcept = .ok [0, 0, 0, 1, 0, 0, 0, 1, 0, 0, 0, 1] := by
  simp [encode, encodeValue, encodeContent, encodeKinded, encodeBool, encodeCount, encodeWord,
    Encoding.toExcept_andThen]
  decide

theorem Codec.encode_list_nil_error :
    ((Codec.list .value).encode [.error .nil]).toExcept = .ok [0, 0, 0, 1, 0, 0, 0, 10, 0, 0, 0, 0] := by
  simp [encode, encodeValue, encodeContent, encodeKinded, encodeError, encodeOption, AppError.nil, encodeBool,
    encodeCount, encodeWord, Encoding.toExcept_andThen]
  decide

/-! ## Receiving -/

/-- A value is received by one operation. -/
theorem Attempt.run_receiveValue (limit : Nat) (c : Codec α) :
    (receiveValue limit c : Attempt σ α).run =
      .receiveRecord limit .start fun r => .done (r.bind c.decodeWhole) := by
  refine congrArg (Exchange.receiveRecord limit .start) (funext fun r => ?_)
  cases r with
  | error f => rfl
  | ok whole =>
    dsimp only [Except.bind, Exchange.bind, ExceptT.bindCont]
    cases c.decodeWhole whole <;> rfl

/-! ## What is held meanwhile -/

namespace Exchange

open Record (Gathering)

/-- How many bytes of a record an exchange takes up. -/
def held : Exchange σ α → Nat
  | receiveRecord _ soFar _ => soFar.held
  | _ => 0

/-- Until a record is there, what is held of it stays within the limit, and so does the record
itself; the stream may be any at all, as long as it gives no more than asked for. -/
theorem held_of_run {c : Channel ω} (hc : ∀ {n w bs w'}, c.read n w = (.ready bs, w') → bs.length ≤ n)
    {limit : Nat} (answer : Except Fault Bytes → α) (fuel : Nat) {g : Gathering} (hg : g.held ≤ limit)
    {w w' : ω} {host host' : σ} {e : Exchange σ α}
    (h : run c fuel (.receiveRecord limit g fun r => .done (answer r)) w host = (e, w', host')) :
    (∃ g', e = .receiveRecord limit g' (fun r => .done (answer r)) ∧ g'.held ≤ limit) ∨
      ∃ r, e = .done (answer r) ∧ ∀ whole, r = .ok whole → whole.length ≤ limit := by
  induction fuel generalizing g w host with
  | zero =>
    cases h
    exact .inl ⟨g, rfl, hg⟩
  | succ fuel ih =>
    rw [run] at h
    rcases hread : c.read g.need w with ⟨piece | _ | f, w₁⟩
    · by_cases hpiece : piece = []
      · simp only [step, hread, hpiece, run_done] at h
        cases h
        exact .inr ⟨_, rfl, fun _ h => by cases h⟩
      · rw [step_receiveRecord limit _ host hread hpiece] at h
        rcases hfeed : g.feed limit piece with g' | whole | length
        · rw [hfeed] at h
          -- the limit was checked when the header came in, so a body can only fill up what was announced
          exact ih (Gathering.held_feed hg (hc hread) hfeed) h
        · simp only [hfeed, afterAbsorb, run_done] at h
          cases h
          refine .inr ⟨_, rfl, fun whole' hwhole => ?_⟩
          cases hwhole
          exact Gathering.length_le_of_feed hg (hc hread) hfeed
        · simp only [hfeed, afterAbsorb, run_done] at h
          cases h
          exact .inr ⟨_, rfl, fun _ h => by cases h⟩
    · simp only [step, hread] at h
      cases h
      exact .inl ⟨g, rfl, hg⟩
    · simp only [step, hread, run_done] at h
      cases h
      exact .inr ⟨_, rfl, fun _ h => by cases h⟩

end Exchange

/-! ## Fragments -/

namespace Attempt

open Exchange Record

variable {c : Channel ω} {holds : ω → Bytes → Prop}

/-- From a delivering channel a value is received as its record is gathered. -/
theorem leads_receiveValue (hc : c.Delivers holds) (limit : Nat) (codec : Codec α) {w : ω} {inp rest : Bytes}
    {r : Except Fault Bytes} (host : σ) (hw : holds w inp)
    (hr : ∀ next : Except Fault Bytes → Exchange σ (Except Fault α),
      afterAbsorb limit next (Gathering.start.absorb limit inp).1 = next r)
    (hrest : (Gathering.start.absorb limit inp).2 = rest) :
    ∃ w', holds w' rest ∧
      Leads c (receiveValue limit codec).run w host (.done (r.bind codec.decodeWhole)) w' host := by
  have hneed : 0 < Gathering.start.need := Nat.succ_pos 3
  obtain ⟨w', hw', hleads⟩ := leads_receiveRecord hc limit
    (fun r => .done (r.bind codec.decodeWhole)) host hneed hw
  rw [hr] at hleads
  rw [hrest] at hw'
  rw [run_receiveValue]
  exact ⟨w', hw', hleads⟩

/-- All fragments of a record within the limit are received as one body. -/
theorem leads_receiveValue_closed (hc : c.Delivers holds) {limit : Nat} (codec : Codec α) (host : σ)
    {fragments : List Bytes} {last rest : Bytes} (hfragments : ∀ f ∈ fragments, f.length ≤ maxFragment)
    (hlast : last.length ≤ maxFragment) (hlimit : (fragments.flatten ++ last).length ≤ limit) {w : ω}
    (hw : holds w (opened fragments ++ (header true last.length ++ (last ++ rest)))) :
    ∃ w', holds w' rest ∧
      Leads c (receiveValue limit codec).run w host (.done (codec.decodeWhole (fragments.flatten ++ last)))
        w' host := by
  have habsorb := absorb_closed limit fragments last rest hfragments hlast hlimit
  exact leads_receiveValue hc limit codec (r := .ok _) host hw (fun next => by rw [habsorb]; rfl)
    (by rw [habsorb])

/-- How a record is split into fragments, and in which pieces it arrives, does not matter: within
the limit, the bodies together are decoded and exactly the fragments are consumed. Beyond it, the
first header with which the total would exceed the limit is the last thing consumed, and the fault
tells that total, whatever follows. What is held of a record never exceeds the limit. -/
theorem receiveValue_fragments (hc : c.Delivers holds) (limit : Nat) (codec : Codec α) (host : σ) :
    (∀ (fragments : List Bytes) (last rest : Bytes) (w : ω),
      (∀ f ∈ fragments, f.length ≤ maxFragment) → last.length ≤ maxFragment →
      (fragments.flatten ++ last).length ≤ limit →
      holds w (opened fragments ++ (header true last.length ++ (last ++ rest))) →
      ∃ w', holds w' rest ∧
        Leads c (receiveValue limit codec).run w host
          (.done (match codec.decode (fragments.flatten ++ last) with
            | (.ok x, []) => .ok x
            | (.ok _, unread) => .error (.trailing unread.length)
            | (.error f, _) => .error f)) w' host) ∧
    (∀ (fragments : List Bytes) (isLast : Bool) (length : Nat) (rest : Bytes) (w : ω),
      (∀ f ∈ fragments, f.length ≤ maxFragment) → length ≤ maxFragment →
      fragments.flatten.length ≤ limit → limit < fragments.flatten.length + length →
      holds w (opened fragments ++ (header isLast length ++ rest)) →
      ∃ w' f, holds w' rest ∧ Leads c (receiveValue limit codec).run w host (.done (.error f)) w' host ∧
        f = .recordTooLong (fragments.flatten.length + length) limit ∧ f.kind = .invalidData) ∧
    (∀ w e w' host', Leads c (receiveValue limit codec).run w host e w' host' → e.held ≤ limit) ∧
    (∀ w whole w' host', Leads c (receiveRecord limit).run w host (.done (.ok whole)) w' host' →
      whole.length ≤ limit) := by
  refine ⟨?_, ?_, ?_, ?_⟩
  · intro fragments last rest w hfragments hlast hlimit hw
    exact leads_receiveValue_closed hc codec host hfragments hlast hlimit hw
  · intro fragments isLast length rest w hfragments hlength hbefore hlimit hw
    have habsorb : Gathering.start.absorb limit (opened fragments ++ (header isLast length ++ rest)) =
        (.tooLong (fragments.flatten.length + length), rest) := by
      have hflat : fragments.flatten.reverse.length = fragments.flatten.length := List.length_reverse
      rw [Gathering.start, absorb_opened limit fragments [] _ hfragments (by simpa using hbefore),
        List.append_nil, Gathering.absorb_tooLong limit isLast length _ rest hlength (by omega), hflat]
    obtain ⟨w', hw', hleads⟩ := leads_receiveValue hc limit codec (r := .error _) host hw
      (fun next => by rw [habsorb]; rfl) (by rw [habsorb])
    exact ⟨w', _, hw', hleads, rfl, rfl⟩
  · rintro w e w' host' ⟨fuel, hrun⟩
    rw [run_receiveValue] at hrun
    obtain ⟨g', rfl, hheld⟩ | ⟨r, rfl, -⟩ := held_of_run hc.bounded _ fuel (Nat.zero_le limit) hrun
    · exact hheld
    · exact Nat.zero_le limit
  · rintro w whole w' host' ⟨fuel, hrun⟩
    obtain ⟨g', hshape, -⟩ | ⟨r, hr, hlength⟩ := held_of_run hc.bounded id fuel (Nat.zero_le limit) hrun
    · cases hshape
    · cases hr
      exact hlength whole rfl

/-- Two fragments and an empty one between them, read three bytes at a time: a limit of eight bytes
takes the text, a limit of seven refuses it at the last header. -/
theorem receiveValue_in_threes :
    let incoming := opened [[0, 0, 0], []] ++ (header true 5 ++ ([1, 97, 0, 0, 0] ++ [9]))
    let w : Scripted := .ofSupply ⟨incoming, .silence, fun _ => some 3, 0⟩
    (∃ w', w'.incoming.data = [9] ∧
      Leads Scripted.channel (receiveValue 8 .text).run w () (.done (.ok "a")) w' ()) ∧
    (∃ w', w'.incoming.data = [1, 97, 0, 0, 0, 9] ∧
      Leads Scripted.channel (receiveValue 7 .text).run w ()
        (.done (.error (.recordTooLong 8 7))) w' ()) := by
  intro incoming w
  have hsizes : ∀ f ∈ ([[0, 0, 0], []] : List Bytes), f.length ≤ maxFragment := by decide
  have hthrees : ∀ k, w.incoming.chunking k ≠ some 0 := by
    intro k h
    cases h
  constructor
  · obtain ⟨w', ⟨hw', -⟩, hleads⟩ :=
      (receiveValue_fragments Scripted.channel_delivers 8 .text ()).1 [[0, 0, 0], []] [1, 97, 0, 0, 0] [9] w
        hsizes (by decide) (by decide) ⟨rfl, hthrees⟩
    exact ⟨w', hw', hleads⟩
  · obtain ⟨w', f, ⟨hw', -⟩, hleads, rfl, -⟩ :=
      (receiveValue_fragments Scripted.channel_delivers 7 .text ()).2.1 [[0, 0, 0], []] true 5
        [1, 97, 0, 0, 0, 9] w hsizes (by decide) (by decide) (by decide) ⟨rfl, hthrees⟩
    exact ⟨w', hw', hleads⟩

end Attempt

/-! ## Encodings and nothing else -/

namespace Codec

open Exchange Record

/-- Whatever is decoded without maps is an encoding of the result, with no value nested deeper than
64 levels, in front of what is left. So no two byte strings are decoded to the same value, and a
receiver of values takes exactly the bodies that encode values of no more than 64 levels. -/
theorem decode_canonical (c : Codec α) (hc : c.IsMapless) :
    (∀ bs x rest, c.decode bs = (.ok x, rest) →
      (∃ used, (c.encode x).toExcept = .ok used ∧ bs = used ++ rest) ∧ ∀ v ∈ c.values x, v.depth ≤ 64) ∧
    (∀ bs bs' x, c.decode bs = (.ok x, []) → c.decode bs' = (.ok x, []) → bs = bs') ∧
    (∀ {ω σ : Type} (ch : Channel ω) (holds : ω → Bytes → Prop), ch.Delivers holds →
      ∀ (limit : Nat) (fragments : List Bytes) (last rest : Bytes) (w : ω) (host : σ) (vs : List Value),
      (∀ f ∈ fragments, f.length ≤ maxFragment) → last.length ≤ maxFragment →
      (fragments.flatten ++ last).length ≤ limit →
      holds w (opened fragments ++ (header true last.length ++ (last ++ rest))) →
      ((∃ w', holds w' rest ∧
          Leads ch (Attempt.receiveValue limit (.list .value)).run w host (.done (.ok vs)) w' host) ↔
        ((list value).encode vs).toExcept = .ok (fragments.flatten ++ last) ∧ ∀ v ∈ vs, v.depth ≤ 64)) := by
  refine ⟨?_, ?_, ?_⟩
  · intro bs x rest h
    obtain ⟨hdepth, used, hused, hsplit⟩ := decode_spells c hc bs x rest h
    exact ⟨⟨used, hused, hsplit⟩, hdepth⟩
  · intro bs bs' x h h'
    obtain ⟨-, used, hused, rfl⟩ := decode_spells c hc bs x [] h
    obtain ⟨-, used', hused', rfl⟩ := decode_spells c hc bs' x [] h'
    rw [hused] at hused'
    cases hused'
    rfl
  · intro ω σ ch holds hch limit fragments last rest w host vs hfragments hlast hlimit hw
    obtain ⟨w', hw', hleads⟩ :=
      Attempt.leads_receiveValue_closed hch (.list .value) host hfragments hlast hlimit hw
    rw [← withinDepth_values]
    constructor
    · rintro ⟨w₂, -, hleads'⟩
      -- a run has one answer, so the body was decoded to these values
      obtain ⟨hdecode, -⟩ := hleads.unique hleads'
      obtain ⟨hdepth, used, hused, hsplit⟩ :=
        decode_spells (list value) trivial _ _ _ (decodeWhole_eq_ok.1 hdecode)
      rw [List.append_nil] at hsplit
      exact ⟨by rw [hused, ← hsplit], hdepth⟩
    · rintro ⟨hencode, hdepth⟩
      rw [decodeWhole_of_encode hencode hdepth] at hleads
      exact ⟨w', hw', hleads⟩

/-- A list that holds one truth value: decoded in front of another byte, and received in front of
another byte. -/
theorem decode_canonical_one_bool :
    (∃ used, ((list value).encode [.bool true]).toExcept = .ok used ∧
      ([0, 0, 0, 1, 0, 0, 0, 1, 0, 0, 0, 1, 7] : Bytes) = used ++ [7]) ∧
    (∃ w', w' = [7] ∧ Leads queueChannel (Attempt.receiveValue 12 (.list .value)).run
      (opened [] ++ (header true 12 ++ ([0, 0, 0, 1, 0, 0, 0, 1, 0, 0, 0, 1] ++ [7]))) ()
      (.done (.ok [.bool true])) w' ()) := by
  have h := decode_canonical (list value) trivial
  constructor
  · exact (h.1 _ _ _ rfl).1
  · exact (h.2.2 queueChannel (fun q bs => q = bs) queueChannel_delivers 12 []
      [0, 0, 0, 1, 0, 0, 0, 1, 0, 0, 0, 1] [7] _ () _ (by simp) (by decide) (by decide) rfl).2
      ⟨encode_list_true, by decide⟩

end Codec

end RemoteCall
