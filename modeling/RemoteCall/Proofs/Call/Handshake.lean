import RemoteCall.Proofs.Call.Normal
import RemoteCall.Proofs.Serve.Gate
/-!
# Connecting on a link

A client that connects sends a tag, and the server answers with its capabilities without asking the host. Until
the tag is read the conversation is one of its own, `Greeted`; from there on it is one that comes to an answer.
-/

namespace RemoteCall

variable {σ : Type}

/-- Capabilities hold no values, so none of them nests too deep. -/
theorem Capabilities.withinDepth (capabilities : Capabilities) : codec.WithinDepth capabilities :=
  (Codec.withinDepth_map _ _ capabilities).2 fun _ _ =>
    ⟨(Codec.true_iff_withinDepth rfl).1 trivial, (Codec.true_iff_withinDepth rfl).1 trivial⟩

namespace Serving

open Exchange

/-- The tag of a handshake is received, and the answer is next. -/
theorem receives_handshake (ctx : Context σ) :
    Receives 1 (connection ctx).run [Tag.handshake.code] (handshake ctx).run [] := by
  have htag : Receives 1 (attempt (Attempt.receiveTag : Attempt σ Tag)).run [Tag.handshake.code]
      (.done (.ok .handshake)) [] := .byte (.refl _ _)
  exact htag.andThen (.refl _ _)

end Serving

namespace Link

open Exchange

variable {α : Type}

/-- A conversation under way that comes to the answer `a`, and of which the host is never asked. -/
inductive Greeted (a : α) (host : σ) : System Link σ α → Nat → Prop
  | receiving {settings l stage refuse e e₁ tail z fail out inn asked replied x k j}
      (hl : Between l .dialer out asked inn replied) (hc : Asks a stage asked (inn ++ replied) x)
      (hr : Receives (k + 1) e (out ++ asked) e₁ []) (hs : Sends fail j e₁ replied (.shutdown tail))
      (htail : tail (.ok ()) = .done z) :
      Greeted a host (conversation settings l host ⟨stage, refuse⟩ e false)
        (x + (k + 1 + j + 2 * replied.length + 2) + out.length + inn.length)
  | answering {s n} (h : Answered a host id s n) : Greeted a host s n

/-- Every step keeps the invariant. -/
theorem Greeted.advance {a : α} {host : σ} {s s' : System Link σ α} {n : Nat} {p : Part} (h : Greeted a host s n)
    (hadvance : s.advance p = some s') : ∃ m, m < n ∧ Greeted a host s' m := by
  cases h with
  | answering h =>
    obtain ⟨m, hless, h'⟩ := h.advance hadvance
    exact ⟨m, hless, .answering h'⟩
  | @receiving settings l stage refuse e e₁ tail z fail out inn asked replied x k j hl hc hr hs htail =>
    by_cases hclient : p = .client 0
    · subst hclient
      rw [advance_client] at hadvance
      rcases hc.step rfl hl host with
        ⟨hwait, -⟩ | ⟨stage', l', out', inn', asked', x', hstep, hl', hc', hsame, hless⟩
      · rw [hwait] at hadvance
        cases hadvance
      · rw [hstep] at hadvance
        cases hadvance
        rw [← hsame] at hr
        exact ⟨_, by omega, .receiving hl' hc' hr hs htail⟩
    · by_cases hserved : p = .served 0
      · subst hserved
        obtain ⟨hopen, ⟨hstep, -⟩ | ⟨k', e', l', out', hstep, hl', hr', hless⟩⟩ :=
          hl.other.receives hr (Nat.succ_pos k) host
        · rw [advance_served_none hopen hstep] at hadvance
          cases hadvance
        · rw [advance_served_some hopen hstep] at hadvance
          cases hadvance
          cases k' with
          | succ k' => exact ⟨_, by omega, .receiving hl'.other hc hr' hs htail⟩
          | zero =>
            -- the tag is read, and the server begins to answer
            generalize hinp : out' ++ asked = inp at hr'
            cases hr'
            have hsending : Answers host id e₁ false (out' ++ asked) replied host (j + 2 * replied.length + 2) := by
              rw [hinp]
              exact .sending hs htail
            exact ⟨_, by omega, .answering (.mk hl'.other hc hsending)⟩
      · rw [advance_other hclient hserved] at hadvance
        cases hadvance

/-- There is no answer but `a`. -/
theorem Greeted.sound {a : α} {host : σ} {s : System Link σ α} {n : Nat} (h : Greeted a host s n) :
    ∀ r, s.answer? 0 = some r → r = a := by
  cases h with
  | receiving hl hc => exact fun r hr => hc.answer_eq hr
  | answering h => exact h.sound.1

/-- At rest the answer is there. -/
theorem Greeted.complete {a : α} {host : σ} {s : System Link σ α} {n : Nat} (h : Greeted a host s n)
    (hrest : s.AtRest) : s.answer? 0 = some a := by
  cases h with
  | answering h => exact (h.complete hrest).1
  | @receiving settings l stage refuse e e₁ tail z fail out inn asked replied x k j hl hc hr hs htail =>
    have hclient := hrest (.client 0)
    have hserved := hrest (.served 0)
    rw [advance_client] at hclient
    have hne := hr.ne_nil (Nat.succ_pos k)
    exfalso
    obtain ⟨hopen, ⟨-, hout⟩ | ⟨k', e', l', out', hstep, -⟩⟩ := hl.other.receives hr (Nat.succ_pos k) host
    · -- the server waits for a byte that the client owes and could send
      have hasked : asked ≠ [] := by simpa [hout] using hne
      rcases hc.step rfl hl host with ⟨-, ⟨-, hnil, -⟩ | hbehind | ⟨hnil, -⟩⟩ | ⟨_, _, _, _, _, _, hstep, -⟩
      · exact hasked hnil
      · exact hbehind hout
      · exact hasked hnil
      · rw [hstep] at hclient
        cases hclient
    · rw [advance_served_some hopen hstep] at hserved
      cases hserved

/-- A client that connects to a server whose capabilities are within the limit learns just these capabilities, and
comes to know them however the link moves its bytes. -/
theorem connects {capacity : Nat} (hcapacity : 0 < capacity) (most : Nat → Nat) (most_pos : ∀ k, 0 < most k)
    (settings : Settings σ) {connectLimit : Nat} (replyLimit : Nat) (host : σ) {whole : Bytes}
    (hwhole : (Capabilities.codec.encode settings.registry.capabilities).toExcept = .ok whole)
    (hlimit : whole.length ≤ connectLimit) :
    ∃ n, Greeted (.connected ⟨settings.registry.capabilities, replyLimit⟩) host
      (opening settings (ofCapacity capacity most most_pos) host
        ((Request.connect connectLimit replyLimit).callPlan (Request.connectTalk connectLimit replyLimit))) n := by
  have hcarries : (ofCapacity capacity most most_pos).Carries .dialer [] false [] false :=
    ofCapacity_carries hcapacity .dialer
  have hawait := Request.receives_await (σ := σ)
    (fun capabilities => .connected ⟨capabilities, replyLimit⟩) hwhole (Capabilities.withinDepth _) hlimit
  obtain ⟨j, tail, hreplies, -, htail⟩ := Serving.sends_handshake (settings.context "link") hwhole
  rw [opening_eq]
  exact ⟨_, .receiving ⟨hcarries, by simp, by simp⟩ (.idle (Request.sends_connectTalk _ _) hawait)
    (Serving.receives_handshake _) hreplies htail⟩

end Link

end RemoteCall
