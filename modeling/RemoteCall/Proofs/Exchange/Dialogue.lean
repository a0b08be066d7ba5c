import RemoteCall.Proofs.Record.Gathering
import RemoteCall.Message
/-!
# What an exchange receives and sends

`Receives` and `Sends` say what an exchange does with a byte string, without a channel: it reads the
string piece by piece and goes on as another exchange, or it writes the string and goes on. Both
count operations, and both compose along `bind`, so what a whole message comes to is put together
from what its parts come to. Neither of them asks the host for anything.
-/

namespace RemoteCall

variable {σ α β : Type}

namespace Exchange

/-- After `n` operations that read off the front of a byte string, an exchange goes on as another
one with what is left. -/
inductive Receives : Nat → Exchange σ α → Bytes → Exchange σ α → Bytes → Prop
  | refl (e : Exchange σ α) (inp : Bytes) : Receives 0 e inp e inp
  | byte {n next b inp e rest} (h : Receives n (next (.ok b)) inp e rest) :
      Receives (n + 1) (.receiveByte next) (b :: inp) e rest
  | record {n limit g next inp whole mid e rest} (hneed : 0 < g.need)
      (hg : g.absorb limit inp = (.complete whole, mid)) (h : Receives n (next (.ok whole)) mid e rest) :
      Receives (n + 1) (.receiveRecord limit g next) inp e rest
  | tooLong {n limit g next inp length mid e rest} (hneed : 0 < g.need)
      (hg : g.absorb limit inp = (.tooLong length, mid))
      (h : Receives n (next (.error (.recordTooLong length limit))) mid e rest) :
      Receives (n + 1) (.receiveRecord limit g next) inp e rest

theorem Receives.trans {m n : Nat} {e₁ e₂ e₃ : Exchange σ α} {inp mid rest : Bytes}
    (h : Receives m e₁ inp e₂ mid) (h' : Receives n e₂ mid e₃ rest) : Receives (n + m) e₁ inp e₃ rest := by
  induction h with
  | refl => exact h'
  | byte _ ih => exact .byte (ih h')
  | record hneed hg _ ih => exact .record hneed hg (ih h')
  | tooLong hneed hg _ ih => exact .tooLong hneed hg (ih h')

theorem Receives.bind {n : Nat} {e e' : Exchange σ α} {inp rest : Bytes} (h : Receives n e inp e' rest)
    (f : α → Exchange σ β) : Receives n (e.bind f) inp (e'.bind f) rest := by
  induction h with
  | refl => exact .refl _ _
  | byte _ ih => exact .byte ih
  | record hneed hg _ ih => exact .record hneed hg ih
  | tooLong hneed hg _ ih => exact .tooLong hneed hg ih

/-- Further bytes behind what is received are left. -/
theorem Receives.append {n : Nat} {e e' : Exchange σ α} {inp rest : Bytes} (h : Receives n e inp e' rest)
    (more : Bytes) : Receives n e (inp ++ more) e' (rest ++ more) := by
  induction h with
  | refl => exact .refl _ _
  | byte _ ih => exact .byte ih
  | record hneed hg _ ih => exact .record hneed (Record.Gathering.absorb_append_rest hg (by simp) more) ih
  | tooLong hneed hg _ ih => exact .tooLong hneed (Record.Gathering.absorb_append_rest hg (by simp) more) ih

theorem Receives.suffix {n : Nat} {e e' : Exchange σ α} {inp rest : Bytes} (h : Receives n e inp e' rest) :
    rest <:+ inp := by
  induction h with
  | refl => exact List.suffix_refl _
  | byte _ ih => exact ih.trans (List.suffix_cons _ _)
  | @record _ limit g _ inp _ _ _ _ _ hg _ ih | @tooLong _ limit g _ inp _ _ _ _ _ hg _ ih =>
    have habsorb := Record.Gathering.absorb_suffix limit g inp
    rw [hg] at habsorb
    exact ih.trans habsorb

/-- After `n` operations that write a byte string, an exchange goes on as another one; if one of
them fails, it goes on as `fail` tells. -/
inductive Sends (fail : Fault → Exchange σ α) : Nat → Exchange σ α → Bytes → Exchange σ α → Prop
  | refl (e : Exchange σ α) : Sends fail 0 e [] e
  | send {n bs out e} (next) (hfail : ∀ f, next (.error f) = fail f)
      (h : Sends fail n (next (.ok ())) out e) :
      Sends fail (n + 1) (.send bs next) (bs ++ out) e
  | flush {n out e} (next) (hfail : ∀ f, next (.error f) = fail f) (h : Sends fail n (next (.ok ())) out e) :
      Sends fail (n + 1) (.flush next) out e

theorem Sends.trans {fail : Fault → Exchange σ α} {m n : Nat} {e₁ e₂ e₃ : Exchange σ α} {out out' : Bytes}
    (h : Sends fail m e₁ out e₂) (h' : Sends fail n e₂ out' e₃) : Sends fail (n + m) e₁ (out ++ out') e₃ := by
  induction h with
  | refl => exact h'
  | send next hfail _ ih =>
    rw [List.append_assoc]
    exact .send next hfail (ih h')
  | flush next hfail _ ih => exact .flush next hfail (ih h')

theorem Sends.bind {fail : Fault → Exchange σ α} {n : Nat} {e e' : Exchange σ α} {out : Bytes}
    (h : Sends fail n e out e') (f : α → Exchange σ β) :
    Sends (fun x => (fail x).bind f) n (e.bind f) out (e'.bind f) := by
  induction h with
  | refl => exact .refl _
  | send next hfail _ ih => exact .send (fun r => (next r).bind f) (fun x => by rw [hfail]) ih
  | flush next hfail _ ih => exact .flush (fun r => (next r).bind f) (fun x => by rw [hfail]) ih

/-! ## Exchanges that may fail -/

section

variable {ε : Type} {m n : Nat} {a : ExceptT ε (Exchange σ) α} {next : α → ExceptT ε (Exchange σ) β} {x : α}
  {e : Exchange σ (Except ε β)} {inp mid rest out out' : Bytes}

theorem Receives.andThen (h : Receives m a.run inp (.done (.ok x)) mid)
    (h' : Receives n (next x).run mid e rest) :
    Receives (n + m) (a >>= next).run inp e rest :=
  (h.bind (ExceptT.bindCont next)).trans h'

theorem Receives.andThen_error {x : ε} (h : Receives m a.run inp (.done (.error x)) mid) :
    Receives m (a >>= next).run inp (.done (.error x)) mid :=
  h.bind (ExceptT.bindCont next)

theorem Sends.andThen {wrap : Fault → ε}
    (h : Sends (fun f => .done (.error (wrap f))) m a.run out (.done (.ok x)))
    (next : α → ExceptT ε (Exchange σ) β)
    (h' : Sends (fun f => .done (.error (wrap f))) n (next x).run out' e) :
    Sends (fun f => .done (.error (wrap f))) (n + m) (a >>= next).run (out ++ out') e :=
  (h.bind (ExceptT.bindCont next)).trans h'

end

end Exchange

namespace Attempt

open Exchange

/-- An attempt ends with the fault of its operation. -/
abbrev failed (f : Fault) : Exchange σ (Except Fault α) := .done (.error f)

/-! ## Messages that are sent -/

theorem sends_send (bs : Bytes) : Sends failed 1 (send bs : Attempt σ Unit).run bs (.done (.ok ())) := by
  have h : Sends failed 1 (send bs : Attempt σ Unit).run (bs ++ []) (.done (.ok ())) :=
    .send .done (fun _ => rfl) (.refl _)
  rwa [List.append_nil] at h

theorem sends_flush : Sends failed 1 (flush : Attempt σ Unit).run [] (.done (.ok ())) :=
  .flush .done (fun _ => rfl) (.refl _)

theorem sends_sendAll (pieces : List Bytes) :
    Sends failed pieces.length (sendAll pieces : Attempt σ Unit).run pieces.flatten (.done (.ok ())) := by
  induction pieces with
  | nil => exact .refl _
  | cons bs rest ih =>
    rw [List.flatten_cons]
    exact (sends_send bs).andThen _ ih

/-- A value goes out as one record. -/
theorem sends_sendValue {c : Codec α} {x : α} {whole : Bytes} (h : (c.encode x).toExcept = .ok whole) :
    Sends failed (1 + (Record.fragments whole).length) (sendValue c x : Attempt σ Unit).run
      (Record.frame whole)
      (.done (.ok ())) := by
  have hrun : (sendValue c x : Attempt σ Unit) = (sendAll (Record.fragments whole) >>= fun _ => flush) := by
    unfold sendValue
    rw [h]
  rw [hrun, ← List.append_nil (Record.frame whole)]
  exact (sends_sendAll _).andThen _ sends_flush

/-- A value that cannot be encoded is not sent, and the attempt fails with that. -/
theorem sendValue_of_error {codec : Codec α} {x : α} {f : Fault}
    (h : (codec.encode x).toExcept = .error f) : (sendValue codec x : Attempt σ Unit).run = .done (.error f) := by
  unfold sendValue
  rw [h]
  rfl

/-- The bytes of a call. -/
def callBytes (name args : Bytes) : Bytes := Tag.call.code :: (Record.frame name ++ Record.frame args)

/-- A call goes out as a tag and two records. -/
theorem sends_sendCall (call : Envelope) {name args : Bytes}
    (hname : (Codec.text.encode call.method).toExcept = .ok name)
    (hargs : ((Codec.list .value).encode call.arguments).toExcept = .ok args) :
    ∃ n, Sends failed n (sendCall call : Attempt σ Unit).run (callBytes name args) (.done (.ok ())) :=
  ⟨_, (sends_send _).andThen _ ((sends_sendValue hname).andThen _ (sends_sendValue hargs))⟩

end Attempt

end RemoteCall
