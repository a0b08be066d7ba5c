import RemoteCall.Proofs.Exchange.Speaking
import RemoteCall.Proofs.Message.Stream
/-!
# What a sender writes and a receiver takes

A value that cannot be encoded is not written at all, and one that can goes out as one record and nothing else.
Whether a receiver takes that record is another question: a sender has no limit, neither on the length of a record
nor on nesting, so what is too long or nested too deep is written like any other value, and refused where it is read.
-/

namespace RemoteCall

variable {ω σ α : Type}

namespace Exchange

variable {fail : Fault → Exchange σ α} {n : Nat} {e : Exchange σ α} {owed : Bytes} {a : α}

/-- However a stream behaves, at any time it has taken a prefix of what is sent, and all of it once the sender has come
to the end that it comes to without a fault. -/
theorem Sends.run_scripted (h : Sends fail n e owed (.done a)) (hfail : ∀ f, ∃ b, fail f = .done b ∧ b ≠ a)
    (fuel : Nat) (w : Scripted) (host : σ) :
    ∃ e₁ t, e.run Scripted.channel fuel w host = (e₁, { w with outgoing := t }, host) ∧
      t.taken <+: w.sent ++ owed ∧ (e₁ = .done a → t.taken = w.sent ++ owed) := by
  induction fuel generalizing n e owed w with
  | zero =>
    refine ⟨e, w.outgoing, rfl, List.prefix_append _ _, ?_⟩
    intro hdone
    cases h with
    | refl => exact (List.append_nil _).symm
    | send | flush => cases hdone
  | succ fuel ih =>
    rcases Nat.eq_zero_or_pos n with rfl | hn
    · cases h
      refine ⟨.done a, w.outgoing, run_done _ (fuel + 1) a _ host, List.prefix_append _ _, ?_⟩
      exact fun _ => (List.append_nil _).symm
    · obtain ⟨e₁, t, hs, hgoes⟩ := h.step_scripted hn w host
      rw [run, hs]
      rcases hgoes with ⟨n', owed', h', hsame, -, -⟩ | ⟨-, ht, f, rfl⟩
      · obtain ⟨e₂, t', hrun, hsent, hall⟩ := ih h' { w with outgoing := t }
        have hsame' : (Scripted.sent { w with outgoing := t }) ++ owed' = w.sent ++ owed := hsame
        rw [hsame'] at hsent hall
        exact ⟨e₂, t', hrun, hsent, hall⟩
      · -- the sender has failed, and its end is another one
        obtain ⟨b, hb, hne⟩ := hfail f
        refine ⟨.done b, t, ?_, ?_, fun hdone => ?_⟩
        · rw [hb]
          exact run_done _ fuel b _ host
        · rw [ht]
          exact List.prefix_append _ _
        · cases hdone
          exact absurd rfl hne

end Exchange

namespace Attempt

open Exchange Record

/-- A record that is too long is refused at the header with which it goes beyond the limit; that header tells the
whole length, if the record is one fragment. -/
theorem leads_receiveValue_tooLong {c : Channel ω} {holds : ω → Bytes → Prop} (hc : c.Delivers holds)
    (codec : Codec α) (limit : Nat) {body : Bytes} (hlimit : limit < body.length) {w : ω} {rest : Bytes} (host : σ)
    (hw : holds w (frame body ++ rest)) :
    ∃ length w', (body.length ≤ maxFragment → length = body.length) ∧
      Leads c (receiveValue limit codec).run w host (.done (.error (.recordTooLong length limit))) w' host := by
  obtain ⟨length, left, habsorb, hlength⟩ :=
    absorb_frame_tooLong limit body [] rest (Nat.zero_le limit) (by simpa using hlimit)
  have hstart : Gathering.start.absorb limit (frame body ++ rest) = (.tooLong length, left) := habsorb
  obtain ⟨w', -, hleads⟩ := leads_receiveValue hc limit codec (r := .error (.recordTooLong length limit)) host hw
    (fun next => by rw [hstart]; rfl) rfl
  exact ⟨length, w', by simpa using hlength, hleads⟩

/-- A record within the limit is taken whole: the value is received, or refused for its nesting. -/
theorem leads_receiveValue_frame {c : Channel ω} {holds : ω → Bytes → Prop} (hc : c.Delivers holds)
    {codec : Codec α} {x : α} {body : Bytes} (hbody : (codec.encode x).toExcept = .ok body) (limit : Nat)
    (hlimit : body.length ≤ limit) {w : ω} {rest : Bytes} (host : σ) (hw : holds w (frame body ++ rest)) :
    ∃ w', holds w' rest ∧
      (codec.WithinDepth x → Leads c (receiveValue limit codec).run w host (.done (.ok x)) w' host) ∧
      (¬codec.WithinDepth x →
        Leads c (receiveValue limit codec).run w host (.done (.error (.tooDeep 64))) w' host) := by
  obtain ⟨w', hw', hleads⟩ := (receives_receiveValue (σ := σ) codec hlimit rest).delivered hc host hw
  refine ⟨w', hw', fun hdepth => ?_, fun hdeep => ?_⟩
  · rwa [Codec.decodeWhole_of_encode hbody hdepth] at hleads
  · rwa [Codec.decodeWhole_of_deep hbody hdeep] at hleads

/-- A value that cannot be encoded fails to be sent, and nothing is written. Of a value that can, a stream has taken
part of one record at any time, and all of it once sending has succeeded, as it does on every stream that takes what
is written, however long the record is and however deep the value. A receiver with a limit takes exactly that record
off any channel that delivers it, if the record is within the limit: and it receives the value, if no value in it is
nested deeper than 64 levels, and fails for the nesting otherwise. If the record is longer, the receiver fails for its
length. So the value comes back just if neither limit is exceeded. -/
theorem receiveValue_of_sendValue (codec : Codec α) (x : α) :
    (∀ f, (codec.encode x).toExcept = .error f → (sendValue codec x : Attempt σ Unit).run = .done (.error f)) ∧
    ∀ body, (codec.encode x).toExcept = .ok body →
      (∀ (fuel : Nat) (w : Scripted) (host : σ), ∃ e t,
        (sendValue codec x).run.run Scripted.channel fuel w host = (e, { w with outgoing := t }, host) ∧
        t.taken <+: w.sent ++ frame body ∧ (e = .done (.ok ()) → t.taken = w.sent ++ frame body)) ∧
      (∀ {ω : Type} {c : Channel ω} {holds : ω → Bytes → Prop}, c.Streams holds → ∀ (w : ω) (bs : Bytes) (host : σ),
        holds w bs → ∃ w', holds w' (bs ++ frame body) ∧
          Leads c (sendValue codec x).run w host (.done (.ok ())) w' host) ∧
      ∀ {ω : Type} {c : Channel ω} {holds : ω → Bytes → Prop}, c.Delivers holds →
        ∀ (limit : Nat) (w : ω) (rest : Bytes) (host : σ), holds w (frame body ++ rest) →
          (body.length ≤ limit → ∃ w', holds w' rest ∧
            ((∀ v ∈ codec.values x, v.depth ≤ 64) →
              Leads c (receiveValue limit codec).run w host (.done (.ok x)) w' host) ∧
            ((∃ v ∈ codec.values x, 64 < v.depth) → ∃ f,
              Leads c (receiveValue limit codec).run w host (.done (.error f)) w' host ∧
              f.kind = .invalidData ∧ f.message = "Value nesting exceeds 64")) ∧
          (limit < body.length → ∃ length w', (body.length ≤ maxFragment → length = body.length) ∧
            Leads c (receiveValue limit codec).run w host (.done (.error (.recordTooLong length limit))) w' host) ∧
          ((∃ w', Leads c (receiveValue limit codec).run w host (.done (.ok x)) w' host) ↔
            body.length ≤ limit ∧ ∀ v ∈ codec.values x, v.depth ≤ 64) := by
  refine ⟨fun f => sendValue_of_error, fun body hbody => ⟨?_, ?_, ?_⟩⟩
  · intro fuel w host
    exact (sends_sendValue hbody).run_scripted (fun f => ⟨.error f, rfl, nofun⟩) fuel w host
  · intro ω c holds hc w bs host hw
    exact (sends_sendValue hbody).streamed hc host hw
  · intro ω c holds hc limit w rest host hw
    refine ⟨fun hlimit => ?_, fun hlimit => leads_receiveValue_tooLong hc codec limit hlimit host hw, ?_, ?_⟩
    · obtain ⟨w', hw', hreceived, hrefused⟩ := leads_receiveValue_frame hc hbody limit hlimit host hw
      refine ⟨w', hw', hreceived, fun ⟨v, hv, hdeep⟩ => ⟨_, hrefused fun hfits => ?_, rfl, by decide⟩⟩
      exact Nat.not_lt.2 (hfits v hv) hdeep
    · -- a run has one answer, so what is received was not refused
      rintro ⟨w₁, hok⟩
      rcases Nat.lt_or_ge limit body.length with hlimit | hlimit
      · obtain ⟨length, w', -, hrefused⟩ := leads_receiveValue_tooLong hc codec limit hlimit host hw
        cases (hrefused.unique hok).1
      · obtain ⟨w', -, -, hrefused⟩ := leads_receiveValue_frame hc hbody limit hlimit host hw
        by_cases hdepth : codec.WithinDepth x
        · exact ⟨hlimit, hdepth⟩
        · cases ((hrefused hdepth).unique hok).1
    · rintro ⟨hlimit, hdepth⟩
      obtain ⟨w', -, hreceived, -⟩ := leads_receiveValue_frame hc hbody limit hlimit host hw
      exact ⟨w', hreceived hdepth⟩

/-- A truth value in a list, through a queue that moves two bytes at a time. -/
theorem receiveValue_of_sendValue_in_twos :
    let c := chunkedQueue fun _ => some 2
    ∃ w w', Leads c (sendValue (.list .value) [.bool true] : Attempt Unit Unit).run ([], 0) () (.done (.ok ())) w () ∧
      Leads c (receiveValue 12 (.list .value)).run w () (.done (.ok [.bool true])) w' () ∧ w'.1 = [] := by
  intro c
  have hc : c.Streams fun q bs => q.1 = bs := chunkedQueue_streams fun _ => by decide
  obtain ⟨-, hwritten⟩ := receiveValue_of_sendValue (σ := Unit) (.list .value) [.bool true]
  obtain ⟨-, hsends, hreceives⟩ := hwritten _ Codec.encode_list_true
  obtain ⟨w, hw, hsent⟩ := hsends hc ([], 0) [] () rfl
  obtain ⟨hwithin, -, -⟩ := hreceives hc.toDelivers 12 w [] () (by rw [hw]; simp)
  obtain ⟨w', hw', hreceived, -⟩ := hwithin (by decide)
  exact ⟨w, w', hsent, hreceived (by decide), hw'⟩

end Attempt

/-! ## Values that are written and refused -/

/-- A list in a list, and so on, around nothing. -/
def Value.nested : Nat → Value
  | 0 => .nil
  | n + 1 => .list [nested n]

theorem Value.depth_nested (n : Nat) : (nested n).depth = n := by
  induction n with
  | zero => rfl
  | succ n ih => simp [nested, depth, depthItems, ih]

/-- It takes two words for each list, and one for what they are around. -/
theorem Codec.encode_nested (n : Nat) :
    ∃ body, (encodeValue (.nested n)).toExcept = .ok body ∧ body.length = 8 * n + 4 := by
  induction n with
  | zero =>
    refine ⟨[0, 0, 0, 0], ?_, rfl⟩
    simp [Value.nested, encodeValue, encodeContent, encodeKinded, encodeWord, Encoding.toExcept_andThen]
    decide
  | succ n ih =>
    obtain ⟨body, hbody, hlength⟩ := ih
    have hsplit : encodeValue (.nested (n + 1)) =
        (encodeWord 7).andThen ((encodeCount 1).andThen ((encodeValue (.nested n)).andThen .empty)) := by
      simp only [Value.nested, encodeValue, encodeContent, encodeItems]
      rfl
    refine ⟨[0, 0, 0, 7] ++ ([0, 0, 0, 1] ++ (body ++ [])), ?_, ?_⟩
    · have hkind : (encodeWord 7).toExcept = .ok [0, 0, 0, 7] := Encoding.toExcept_write _
      have hcount : (encodeCount 1).toExcept = .ok [0, 0, 0, 1] := encodeCount_eq_ok.2 ⟨by decide, by decide⟩
      have hitem := Encoding.toExcept_andThen_eq_ok.2 ⟨body, [], hbody, Encoding.toExcept_empty, rfl⟩
      rw [hsplit]
      exact Encoding.toExcept_andThen_eq_ok.2
        ⟨_, _, hkind, Encoding.toExcept_andThen_eq_ok.2 ⟨_, _, hcount, hitem, rfl⟩, rfl⟩
    · simp only [List.length_append, List.length_cons, List.length_nil, hlength]
      omega

namespace Attempt

open Exchange Record

/-- A value goes through a queue, and a receiver that fails on its record does not receive it. -/
theorem sent_and_refused {codec : Codec α} {x : α} {limit : Nat} {body : Bytes} {f : Fault}
    (hbody : (codec.encode x).toExcept = .ok body)
    (hrefuses : ∀ w : Bytes × Nat, w.1 = frame body ++ [] → ∃ w',
      Leads (chunkedQueue fun _ => none) (receiveValue limit codec).run w () (.done (.error f)) w' ()) :
    ∃ w, Leads (chunkedQueue fun _ => none) (sendValue codec x : Attempt Unit Unit).run ([], 0) ()
        (.done (.ok ())) w () ∧
      (∃ w', Leads (chunkedQueue fun _ => none) (receiveValue limit codec).run w () (.done (.error f)) w' ()) ∧
      ¬∃ w', Leads (chunkedQueue fun _ => none) (receiveValue limit codec).run w () (.done (.ok x)) w' () := by
  have hc : (chunkedQueue fun _ => none).Streams fun q bs => q.1 = bs := chunkedQueue_streams fun _ => by decide
  obtain ⟨w, hw, hsent⟩ := (sends_sendValue (σ := Unit) hbody).streamed hc (w := ([], 0)) () rfl
  obtain ⟨w', hrefused⟩ := hrefuses w (by simpa using hw)
  refine ⟨w, hsent, ⟨w', hrefused⟩, ?_⟩
  rintro ⟨w'', hok⟩
  cases (hrefused.unique hok).1

/-- A truth value in a list makes a record of twelve bytes, which is written and then refused with a limit of eight;
and a value of 65 levels is written and then refused within a limit of a thousand. -/
theorem sendValue_refused :
    (let x := [Value.bool true]
      ∃ w, Leads (chunkedQueue fun _ => none) (sendValue (.list .value) x : Attempt Unit Unit).run ([], 0) ()
          (.done (.ok ())) w () ∧
        (∃ w', Leads (chunkedQueue fun _ => none) (receiveValue 8 (.list .value)).run w ()
          (.done (.error (.recordTooLong 12 8))) w' ()) ∧
        ¬∃ w', Leads (chunkedQueue fun _ => none) (receiveValue 8 (.list .value)).run w () (.done (.ok x)) w' ()) ∧
    (let x := Value.nested 65
      ∃ w, Leads (chunkedQueue fun _ => none) (sendValue .value x : Attempt Unit Unit).run ([], 0) ()
          (.done (.ok ())) w () ∧
        (∃ w', Leads (chunkedQueue fun _ => none) (receiveValue 1000 .value).run w ()
          (.done (.error (.tooDeep 64))) w' ()) ∧
        ¬∃ w', Leads (chunkedQueue fun _ => none) (receiveValue 1000 .value).run w () (.done (.ok x)) w' ()) := by
  have hc : (chunkedQueue fun _ => none).Delivers fun q bs => q.1 = bs :=
    (chunkedQueue_streams fun _ => by decide).toDelivers
  constructor
  · refine sent_and_refused Codec.encode_list_true fun w hw => ?_
    obtain ⟨length, w', hlength, hrefused⟩ :=
      leads_receiveValue_tooLong hc (.list .value) 8 (by decide) () hw
    cases hlength (by decide)
    exact ⟨w', hrefused⟩
  · obtain ⟨body, hbody, hlength⟩ := Codec.encode_nested 65
    have hencode : (Codec.value.encode (.nested 65)).toExcept = .ok body := hbody
    refine sent_and_refused hencode fun w hw => ?_
    obtain ⟨w', -, -, hrefused⟩ := leads_receiveValue_frame hc hencode 1000 (by omega) () hw
    refine ⟨w', hrefused ?_⟩
    rw [Codec.withinDepth_value, Value.depth_nested]
    decide

end Attempt

end RemoteCall
