import RemoteCall.Demo.Types
import RemoteCall.Proofs.Codec.Buffers
import RemoteCall.Proofs.Exchange.Copying
import RemoteCall.Proofs.Message.Received
import RemoteCall.Proofs.Record.Fragments
/-!
# Records that are cut off

A value is encoded into a buffer first, and written from there. So a stream takes nothing of a value that cannot be
encoded, however much of it was encoded before the fault; and of one that can, a stream that fails takes the start
of its whole record. `Channel.Acknowledges` is all that has to be known of the stream, and `Goes` lets others use it
meanwhile. A reader that finds the record cut off does not take it for a shorter one.
-/

namespace RemoteCall

variable {ω σ α : Type}

/-- What a stream has taken grows by as many bytes as each write reports. Flushing does not fail. -/
structure Channel.Acknowledges (c : Channel ω) (taken : ω → Bytes) : Prop where
  write : ∀ {out}, out ≠ [] → ∀ w,
    (∃ n w', c.write out w = (.ready n, w') ∧ n ≤ out.length ∧ taken w' = taken w ++ out.take n) ∨
      (∃ f w', c.write out w = (.failed f, w') ∧ taken w' = taken w) ∨ ∃ w', c.write out w = (.pending, w')
  flush : ∀ w, (∃ w', c.flush w = (.ready (), w') ∧ taken w' = taken w) ∨ ∃ w', c.flush w = (.pending, w')

theorem Scripted.channel_acknowledges : channel.Acknowledges sent where
  write {out} hout w := by
    rcases w.outgoing.write_cases hout with ⟨n, t, hwrite, htaken, -⟩ | ⟨-, f, hwrite⟩
    · refine .inl ⟨_, { w with outgoing := t }, by simp only [channel, hwrite], List.length_take_le' n out, ?_⟩
      rw [List.length_take, ← List.take_eq_take_min]
      exact htaken
    · exact .inr (.inl ⟨f, w, by simp only [channel, hwrite], rfl⟩)
  flush w := .inl ⟨_, rfl, rfl⟩

namespace Exchange

/-- An exchange goes on, one attempt at a time, while others may use the stream in ways in which it takes nothing. -/
inductive Goes (c : Channel ω) (taken : ω → Bytes) : Exchange σ α → ω → Exchange σ α → ω → Prop
  | refl (e w) : Goes c taken e w e w
  | step {e e₁ e' : Exchange σ α} {w w₁ w' host host₁} (hs : e.step c w host = some (e₁, w₁, host₁))
      (h : Goes c taken e₁ w₁ e' w') : Goes c taken e w e' w'
  | meanwhile {e e' w w₁ w'} (hw : taken w₁ = taken w) (h : Goes c taken e w₁ e' w') : Goes c taken e w e' w'

variable {c : Channel ω} {taken : ω → Bytes} {e e₁ e' : Exchange σ α} {w w₁ w' : ω} {host host₁ : σ}

theorem Goes.of_run (taken : ω → Bytes) (fuel : Nat) (h : e.run c fuel w host = (e', w', host₁)) :
    Goes c taken e w e' w' := by
  induction fuel generalizing e w host with
  | zero =>
    cases h
    exact .refl _ _
  | succ fuel ih =>
    rw [run] at h
    split at h
    · cases h
      exact .refl _ _
    · rename_i hs
      exact .step hs (ih h)

/-- What is done does not go on, and nothing more is taken. -/
theorem Goes.of_done {a : α} (h : Goes c taken (.done a) w e' w') : e' = .done a ∧ taken w' = taken w := by
  generalize he : Exchange.done a = e at h
  induction h with
  | refl => exact ⟨rfl, rfl⟩
  | step hs =>
    subst he
    cases hs
  | meanwhile hw _ ih =>
    obtain ⟨hdone, hsame⟩ := ih he
    exact ⟨hdone, hsame.trans hw⟩

variable {fail : Fault → Exchange σ α} {n : Nat} {owed : Bytes} {a : α}

/-- One attempt of an exchange that sends: the stream takes the first bytes that are owed, or the exchange fails
while some are owed. -/
theorem Sends.step_acknowledged (hc : c.Acknowledges taken) (h : Sends fail n e owed (.done a))
    (hs : e.step c w host = some (e₁, w₁, host₁)) :
    (∃ n' piece owed', owed = piece ++ owed' ∧ taken w₁ = taken w ++ piece ∧ Sends fail n' e₁ owed' (.done a)) ∨
      (∃ f, e₁ = fail f) ∧ taken w₁ = taken w ∧ owed ≠ [] := by
  cases h with
  | refl => cases hs
  | @flush n _ _ next hfail hnext =>
    rcases hc.flush w with ⟨w₂, hflush, hsame⟩ | ⟨w₂, hflush⟩
    · simp only [step, hflush, settle] at hs
      cases hs
      refine .inl ⟨n, [], owed, rfl, ?_, hnext⟩
      rw [hsame, List.append_nil]
    · simp only [step, hflush, settle] at hs
      cases hs
  | @send n bs out _ next hfail hnext =>
    cases bs with
    | nil =>
      cases hs
      exact .inl ⟨n, [], out, rfl, (List.append_nil _).symm, hnext⟩
    | cons b bs =>
      rcases hc.write (List.cons_ne_nil b bs) w with ⟨m, w₂, hwrite, hm, htaken⟩ | ⟨f, w₂, hwrite, hsame⟩ | ⟨w₂, hwrite⟩
      · simp only [step, hwrite] at hs
        cases m with
        | zero =>
          -- nothing was taken, which the sender takes for a failure
          cases hs
          refine .inr ⟨⟨_, hfail _⟩, ?_, List.cons_ne_nil _ _⟩
          rw [htaken, List.take_zero, List.append_nil]
        | succ m =>
          cases hs
          refine .inl ⟨n + 1, (b :: bs).take (m + 1), (b :: bs).drop (m + 1) ++ out, ?_, htaken, .send next hfail hnext⟩
          rw [← List.append_assoc, List.take_append_drop]
      · simp only [step, hwrite] at hs
        cases hs
        exact .inr ⟨⟨f, hfail f⟩, hsame, List.cons_ne_nil _ _⟩
      · simp only [step, hwrite] at hs
        cases hs

/-- At any time the stream has taken the start of what is owed; once the exchange is done, all of it just if it did
not fail. -/
theorem Sends.goes (hc : c.Acknowledges taken) (hfail : ∀ f, ∃ b, fail f = .done b ∧ b ≠ a)
    (h : Sends fail n e owed (.done a)) (hgoes : Goes c taken e w e' w') :
    ∃ piece rest, owed = piece ++ rest ∧ taken w' = taken w ++ piece ∧ ∀ b, e' = .done b → (b = a ↔ rest = []) := by
  induction hgoes generalizing n owed with
  | refl e w =>
    refine ⟨[], owed, rfl, (List.append_nil _).symm, ?_⟩
    rintro b rfl
    cases h with
    | refl => exact iff_of_true rfl rfl
  | step hs hgoes ih =>
    rcases h.step_acknowledged hc hs with ⟨n', first, owed', rfl, htaken, hnext⟩ | ⟨⟨f, rfl⟩, hsame, hne⟩
    · obtain ⟨piece, rest, rfl, htaken', hdone⟩ := ih hnext
      refine ⟨first ++ piece, rest, (List.append_assoc _ _ _).symm, ?_, hdone⟩
      rw [htaken', htaken, List.append_assoc]
    · obtain ⟨b, hb, hne'⟩ := hfail f
      rw [hb] at hgoes
      obtain ⟨rfl, hkept⟩ := hgoes.of_done
      refine ⟨[], owed, rfl, ?_, ?_⟩
      · rw [hkept, hsame, List.append_nil]
      · rintro _ ⟨⟩
        exact iff_of_false hne' hne
  | meanwhile hw _ ih =>
    obtain ⟨piece, rest, hsplit, htaken, hdone⟩ := ih h
    exact ⟨piece, rest, hsplit, htaken.trans (by rw [hw]), hdone⟩

end Exchange

namespace Record

/-- The record of a body that fits one fragment. -/
theorem frame_of_short {body : Bytes} (h : body.length < 0x80000000) :
    frame body = bigEndian 4 (0x80000000 + body.length) ++ body := by
  have hfits : body.length ≤ maxFragment := Nat.le_of_lt_succ h
  rw [frame_eq, if_pos hfits, header, if_pos rfl, Nat.add_comm]
  rfl

/-- Of the start of a record no more is received than of the whole, and of less than the whole nothing is. -/
theorem absorb_prefix_iff {limit : Nat} {body inp whole : Bytes} (h : inp <+: frame body) :
    (∃ rest, Gathering.start.absorb limit inp = (.complete whole, rest)) ↔
      inp = frame body ∧ whole = body ∧ body.length ≤ limit := by
  have hframe (hlimit : body.length ≤ limit) :
      Gathering.start.absorb limit (frame body) = (.complete body, []) := by
    have hall := absorb_frame limit body [] [] (by simpa using hlimit)
    rwa [List.append_nil] at hall
  obtain ⟨more, hmore⟩ := h
  constructor
  · rintro ⟨rest, hwhole⟩
    have hall := Gathering.absorb_append_rest hwhole nofun more
    rw [hmore] at hall
    by_cases hlimit : body.length ≤ limit
    · obtain ⟨hbody, hrest⟩ := Prod.mk.inj (hall.symm.trans (hframe hlimit))
      cases hbody
      rw [(List.append_eq_nil_iff.1 hrest).2, List.append_nil] at hmore
      exact ⟨hmore, rfl, hlimit⟩
    · obtain ⟨length, left, hrefused, -⟩ := absorb_frame_tooLong limit body [] [] (Nat.zero_le limit)
        (by simpa using hlimit)
      rw [List.append_nil] at hrefused
      cases (Prod.mk.inj (hall.symm.trans hrefused)).1
  · rintro ⟨rfl, rfl, hlimit⟩
    exact ⟨[], hframe hlimit⟩

end Record

namespace Attempt

open Exchange Record

/-- A record is received from a stream just if it is gathered from the bytes of the stream. -/
theorem receiveRecord_ok_iff {w : Scripted} (hw : w.Moves) (limit : Nat) (host : σ) (whole : Bytes) :
    (∃ w', Leads Scripted.channel (receiveRecord limit : Attempt σ Bytes).run w host (.done (.ok whole)) w' host) ↔
      ∃ rest, Gathering.start.absorb limit w.incoming.data = (.complete whole, rest) := by
  obtain ⟨n, w₁, hhears, hrest⟩ := hears_receiveRecord (σ := σ) (g := .start) limit .done hw (Nat.succ_pos 3)
  rcases habsorb : Gathering.start.absorb limit w.incoming.data with ⟨g | whole' | length, rest⟩ <;>
    rw [habsorb] at hhears hrest
  · -- all that there was is gathered, and the record is not over
    refine iff_of_false ?_ nofun
    rintro ⟨w', hok⟩
    have hempty : w₁.incoming.data = [] := by
      rw [hrest]
      exact Gathering.absorb_more_rest habsorb
    rcases hears_receiveRecord_end limit (.done (σ := σ)) hempty g with ⟨f, hfails⟩ | hwaits
    · cases (((hhears.trans hfails).leads host).unique hok).1
    · cases (hhears.leads host).eq_of_stuck (hwaits.step_eq host) hok rfl
  · constructor
    · rintro ⟨w', hok⟩
      cases ((hhears.leads host).unique hok).1
      exact ⟨rest, rfl⟩
    · rintro ⟨_, heq⟩
      cases heq
      exact ⟨w₁, hhears.leads host⟩
  · refine iff_of_false ?_ nofun
    rintro ⟨w', hok⟩
    cases ((hhears.leads host).unique hok).1

/-- Sending a value is all or nothing as far as encoding goes. If its encoding fails, whatever was written of it
before, the attempt has failed already, and does nothing to any stream. Otherwise its record is the mark and the
length of the whole encoding, and the encoding behind it. At any time a stream has taken the start of the record, and
when sending is over it has succeeded just if that is all of it; a stream with room for some bytes takes so many. And
of the start of a record a reader receives nothing, unless it is the whole record. -/
theorem sendValue_all_or_nothing (codec : Codec α) (x : α) :
    (∀ written f, (codec.encode x).onto Encoding.grow [] = (written, some f) →
      ∀ {ω : Type} (c : Channel ω) (fuel : Nat) (w : ω) (host : σ),
        (sendValue codec x).run.run c fuel w host = (.done (.error f), w, host)) ∧
    ∀ body, (codec.encode x).onto Encoding.grow [] = (body, none) → body.length < 0x80000000 →
      let record := bigEndian 4 (0x80000000 + body.length) ++ body
      (∀ {ω : Type} {c : Channel ω} {taken : ω → Bytes}, c.Acknowledges taken →
        ∀ (w : ω) (e : Exchange σ (Except Fault Unit)) (w' : ω), Goes c taken (sendValue codec x).run w e w' →
          ∃ k ≤ record.length, taken w' = taken w ++ record.take k ∧
            ∀ r, e = .done r → (r = .ok () ↔ k = record.length)) ∧
      (∀ {ω : Type} {c : Channel ω} {place : Intake → ω}, c.IsIntake place → ∀ t : Intake, t.Moves →
        ∀ host : σ, ∃ t', t'.taken = t.taken ++ t.accepts record ∧
          Leads c (sendValue codec x).run (place t) host (.done (t.verdict record)) (place t') host) ∧
      ∀ (limit : Nat) (w : Scripted) (host : σ), w.Moves → w.incoming.data <+: record → ∀ whole,
        (∃ w', Leads Scripted.channel (receiveRecord limit : Attempt σ Bytes).run w host
          (.done (.ok whole)) w' host) ↔
        w.incoming.data = record ∧ whole = body ∧ body.length ≤ limit := by
  rw [Encoding.onto_grow, List.nil_append]
  constructor
  · intro written f hencode ω c fuel w host
    have hfault : (codec.encode x).toExcept = .error f := by rw [Encoding.toExcept_eq, (Prod.mk.inj hencode).2]
    rw [sendValue_of_error hfault]
    exact run_done c fuel _ w host
  · intro body hencode hshort record
    have hbody : (codec.encode x).toExcept = .ok body := by
      rw [Encoding.toExcept_eq, (Prod.mk.inj hencode).2, (Prod.mk.inj hencode).1]
    have hrecord : frame body = record := frame_of_short hshort
    have hsends := sends_sendValue (σ := σ) hbody
    rw [hrecord] at hsends
    refine ⟨?_, ?_, ?_⟩
    · intro ω c taken hc w e w' hgoes
      have hfail : ∀ f, ∃ b : Except Fault Unit, (failed f : Exchange σ _) = .done b ∧ b ≠ .ok () :=
        fun f => ⟨.error f, rfl, nofun⟩
      obtain ⟨piece, rest, hsplit, htaken, hdone⟩ := hsends.goes hc hfail hgoes
      have hlength : record.length = piece.length + rest.length := by rw [hsplit, List.length_append]
      refine ⟨piece.length, by omega, ?_, fun r hr => (hdone r hr).trans ?_⟩
      · rw [htaken, hsplit, List.take_left]
      · rw [← List.length_eq_zero_iff]
        omega
    · intro ω c place hc t ht host
      obtain ⟨t', htook, hleads⟩ := hsends.leads hc ht host
      refine ⟨t', htook.taken, ?_⟩
      cases hverdict : t.verdict record with
      | ok done =>
        rw [hverdict] at hleads
        exact hleads
      | error f =>
        rw [hverdict] at hleads
        exact hleads
    · intro limit w host hw hprefix whole
      rw [← hrecord] at hprefix ⊢
      exact (receiveRecord_ok_iff hw limit host whole).trans (absorb_prefix_iff hprefix)

/-- Two variants, of which the second cannot be encoded: eight bytes are written of them, and none is sent. The first
one alone has a record of twelve bytes, of which a stream with room for six takes six, at most at any time; and a
reader of these receives nothing. -/
theorem sendValue_all_or_nothing_probes :
    let codec := Codec.list (.enumeration Demo.Probe.enumeration)
    let record : Bytes := [0x80, 0, 0, 8, 0, 0, 0, 1, 0, 0, 0, 7]
    let w : Scripted := ⟨.ofBytes [], { Intake.unlimited with room := some (6, .brokenPipe) }, 0⟩
    (codec.encode [.seven, .huge]).onto Encoding.grow [] = ([0, 0, 0, 2, 0, 0, 0, 7], some .wideVariant) ∧
    (sendValue codec [.seven, .huge] : Attempt Unit Unit).run.run Scripted.channel 10 w () =
      (.done (.error .wideVariant), w, ()) ∧
    (∃ t', t'.taken = record.take 6 ∧ Leads Scripted.channel (sendValue codec [.seven] : Attempt Unit Unit).run w ()
      (.done (.error .brokenPipe)) { w with outgoing := t' } ()) ∧
    (∀ fuel, ∃ k ≤ 12,
      ((sendValue codec [.seven] : Attempt Unit Unit).run.run Scripted.channel fuel w ()).2.1.sent = record.take k) ∧
    ¬∃ whole w', Leads Scripted.channel (receiveRecord 100 : Attempt Unit Bytes).run
      (.ofSupply (.ofBytes (record.take 6))) () (.done (.ok whole)) w' () := by
  intro codec record w
  have hhuge : (codec.encode [.seven, .huge]).onto Encoding.grow [] =
      ([0, 0, 0, 2, 0, 0, 0, 7], some .wideVariant) := by decide +kernel
  have hseven : (codec.encode [.seven]).onto Encoding.grow [] = ([0, 0, 0, 1, 0, 0, 0, 7], none) := by
    decide +kernel
  have hmoves : ∀ k, (fun _ : Nat => (none : Option Nat)) k ≠ some 0 := fun _ => nofun
  obtain ⟨hstarts, hcuts, hreads⟩ :=
    (sendValue_all_or_nothing (σ := Unit) codec [.seven]).2 _ hseven (by decide)
  obtain ⟨t', htaken, hleads⟩ := hcuts w.channel_isIntake w.outgoing hmoves ()
  refine ⟨hhuge, (sendValue_all_or_nothing (σ := Unit) codec [.seven, .huge]).1 _ _ hhuge _ 10 w (),
    ⟨t', htaken, hleads⟩, ?_, ?_⟩
  · intro fuel
    obtain ⟨k, hk, hsent, -⟩ := hstarts Scripted.channel_acknowledges w _ _ (.of_run Scripted.sent fuel rfl)
    exact ⟨k, hk, hsent⟩
  · rintro ⟨whole, hreceived⟩
    have hpart := hreads 100 (.ofSupply (.ofBytes (record.take 6))) () hmoves (List.take_prefix 6 record) whole
    exact absurd (hpart.1 hreceived).1 (by decide)

end Attempt

end RemoteCall
