import Mathlib.Control.Monad.Basic
import Mathlib.Logic.Relation
import RemoteCall.Value.Convert
import RemoteCall.Proofs.Codec.RoundTrip
/-!
# Integers in values

Integers of five native types go into values and are read back, as the same type or as another one. `Integral` names
the types, and `Integral.read_eq` says at once what reading does for all of them: it checks the range of 64 bits and
then its own. The main result says that a number is read just if it is in range, and is read as what it is, also when
the value was sent meanwhile.
-/

namespace RemoteCall

/-- The mathematical value of an integer, if that is what a value is. -/
def Value.number? : Value → Option Int
  | .int n => some n.toInt
  | .uint n => some n.toNat
  | _ => none

/-- The native types of integers. -/
inductive Integral
  | int32 | int64 | uint32 | uint64 | size
deriving DecidableEq, Repr

namespace Integral

def Carrier : Integral → Type
  | int32 => Int32
  | int64 => Int64
  | uint32 => UInt32
  | uint64 => UInt64
  | size => Size

def toInt : (t : Integral) → t.Carrier → Int
  | int32 => Int32.toInt
  | int64 => Int64.toInt
  | uint32 => fun n => n.toNat
  | uint64 => fun n => n.toNat
  | size => fun n => n.toUInt64.toNat

/-- The element with a mathematical value, if that is in range. -/
def ofInt : (t : Integral) → Int → t.Carrier
  | int32 => Int32.ofInt
  | int64 => Int64.ofInt
  | uint32 => UInt32.ofInt
  | uint64 => UInt64.ofInt
  | size => fun n => ⟨UInt64.ofInt n⟩

/-- The least number of the type. -/
def low : Integral → Int
  | int32 => -0x80000000
  | int64 => -0x8000000000000000
  | uint32 | uint64 | size => 0

/-- The least number that is too large for the type. -/
def bound : Integral → Int
  | int32 => 0x80000000
  | int64 => 0x8000000000000000
  | uint32 => 0x100000000
  | uint64 | size => 0x10000000000000000

/-- What the type is called where a number does not fit. -/
def name : Integral → String
  | int32 => "i32"
  | int64 => "int"
  | uint32 => "u32"
  | uint64 => "uint"
  | size => "usize"

/-- The type of 64 bits by way of which a type is read. -/
def wide : Integral → Integral
  | int32 | int64 => int64
  | uint32 | uint64 | size => uint64

def write : (t : Integral) → t.Carrier → Value
  | int32 => (toValue : Int32 → Value)
  | int64 => (toValue : Int64 → Value)
  | uint32 => (toValue : UInt32 → Value)
  | uint64 => (toValue : UInt64 → Value)
  | size => (toValue : Size → Value)

def read : (t : Integral) → Value → Except AppError t.Carrier
  | int32 => (fromValue : Value → Except AppError Int32)
  | int64 => (fromValue : Value → Except AppError Int64)
  | uint32 => (fromValue : Value → Except AppError UInt32)
  | uint64 => (fromValue : Value → Except AppError UInt64)
  | size => (fromValue : Value → Except AppError Size)

/-- Whether a number is one of the type. -/
def Contains (t : Integral) (x : Int) : Prop := t.low ≤ x ∧ x < t.bound

instance (t : Integral) (x : Int) : Decidable (t.Contains x) := inferInstanceAs (Decidable (_ ∧ _))

/-! ## The types -/

theorem toNat_ofInt_uint32 {x : Int} (hx : uint32.Contains x) : ((UInt32.ofInt x).toNat : Int) = x := by
  obtain ⟨hlow, hbound⟩ := hx
  simp only [low, bound] at hlow hbound
  rw [UInt32.ofInt, UInt32.toNat_ofNat']
  omega

theorem toNat_ofInt_uint64 {x : Int} (hx : uint64.Contains x) : ((UInt64.ofInt x).toNat : Int) = x := by
  obtain ⟨hlow, hbound⟩ := hx
  simp only [low, bound] at hlow hbound
  rw [UInt64.ofInt, UInt64.toNat_ofNat']
  omega

theorem contains_toInt (t : Integral) (n : t.Carrier) : t.Contains (t.toInt n) := by
  cases t with
  | int32 => exact ⟨Int32.le_toInt n, Int32.toInt_lt n⟩
  | int64 => exact ⟨Int64.le_toInt n, Int64.toInt_lt n⟩
  | uint32 => exact ⟨Int.natCast_nonneg _, Int.ofNat_lt.2 (UInt32.toNat_lt n)⟩
  | uint64 => exact ⟨Int.natCast_nonneg _, Int.ofNat_lt.2 (UInt64.toNat_lt n)⟩
  | size => exact ⟨Int.natCast_nonneg _, Int.ofNat_lt.2 (UInt64.toNat_lt n.toUInt64)⟩

theorem toInt_ofInt (t : Integral) {x : Int} (hx : t.Contains x) : t.toInt (t.ofInt x) = x := by
  cases t with
  | int32 => exact Int32.toInt_ofInt_of_le hx.1 hx.2
  | int64 => exact Int64.toInt_ofInt_of_le hx.1 hx.2
  | uint32 => exact toNat_ofInt_uint32 hx
  | uint64 | size => exact toNat_ofInt_uint64 hx

theorem toInt_inj (t : Integral) {m n : t.Carrier} (h : t.toInt m = t.toInt n) : m = n := by
  cases t with
  | int32 => exact Int32.toInt_inj.1 h
  | int64 => exact Int64.toInt_inj.1 h
  | uint32 => exact UInt32.toNat_inj.1 (Int.ofNat_inj.1 h)
  | uint64 => exact UInt64.toNat_inj.1 (Int.ofNat_inj.1 h)
  | size => exact congrArg Size.mk (UInt64.toNat_inj.1 (Int.ofNat_inj.1 h))

theorem contains_wide (t : Integral) {x : Int} (hx : t.Contains x) : t.wide.Contains x := by
  obtain ⟨hlow, hbound⟩ := hx
  cases t <;> simp only [Contains, wide, low, bound] at * <;> omega

/-! ## Writing and reading -/

theorem number?_write (t : Integral) (n : t.Carrier) : (t.write n).number? = some (t.toInt n) := by
  cases t with
  | int32 => exact congrArg some (Int32.toInt_toInt64 n)
  | int64 => rfl
  | uint32 => exact congrArg (fun k : Nat => some (k : Int)) (UInt32.toNat_toUInt64 n)
  | uint64 => rfl
  | size => rfl

/-- What is in a range passes the same check again. -/
theorem inRange_again {α : Type} (target : String) (low bound n : Int) (next : Int → Except AppError α) :
    (inRange target low bound n >>= fun n => inRange target low bound n >>= next) =
      inRange target low bound n >>= next := by
  by_cases hn : low ≤ n ∧ n < bound
  · have hpasses : inRange target low bound n = .ok n := if_pos hn
    rw [hpasses]
    exact congrArg (· >>= next) hpasses
  · have hfails : inRange target low bound n = .error (Misfit.outOfRange n target).toError := if_neg hn
    rw [hfails]
    rfl

/-- Reading checks the range of 64 bits, and then the range of the type. -/
theorem read_eq (t : Integral) (v : Value) :
    t.read v = do
      let n ← v.integer t.wide.name
      let n ← inRange t.wide.name t.wide.low t.wide.bound n
      let n ← inRange t.name t.low t.bound n
      return t.ofInt n := by
  cases t with
  | int32 =>
    simp only [read, fromValue, Value.signed, bind_assoc]
    rfl
  | int64 =>
    simp only [read, fromValue, Value.signed, bind_assoc]
    exact bind_congr fun n => (inRange_again _ _ _ n _).symm
  | uint32 =>
    simp only [read, fromValue, Value.unsigned, bind_assoc]
    rfl
  | size =>
    simp only [read, fromValue, Value.unsigned, bind_assoc]
    rfl
  | uint64 =>
    simp only [read, fromValue, Value.unsigned, bind_assoc]
    exact bind_congr fun n => (inRange_again _ _ _ n _).symm

theorem integer_of_number? {v : Value} {x : Int} (hv : v.number? = some x) (target : String) :
    v.integer target = .ok x := by
  cases v with
  | int n | uint n =>
    cases hv
    rfl
  | _ => cases hv

/-- A number is read if it is in range, and otherwise refused, for the range of 64 bits if it is not even in that. -/
theorem read_of_number? (t : Integral) {v : Value} {x : Int} (hv : v.number? = some x) :
    t.read v =
      if t.Contains x then .ok (t.ofInt x)
      else .error (Misfit.outOfRange x (if t.wide.Contains x then t.name else t.wide.name)).toError := by
  rw [read_eq, integer_of_number? hv]
  by_cases hwide : t.wide.Contains x
  · have hpasses : inRange t.wide.name t.wide.low t.wide.bound x = .ok x := if_pos hwide
    rw [if_pos hwide]
    by_cases hx : t.Contains x
    · have hfits : inRange t.name t.low t.bound x = .ok x := if_pos hx
      rw [if_pos hx]
      simp only [bind, Except.bind, hpasses, hfits]
      rfl
    · have hfails : inRange t.name t.low t.bound x = .error (Misfit.outOfRange x t.name).toError := if_neg hx
      rw [if_neg hx]
      simp only [bind, Except.bind, hpasses, hfails]
  · have hfails : inRange t.wide.name t.wide.low t.wide.bound x =
        .error (Misfit.outOfRange x t.wide.name).toError := if_neg hwide
    rw [if_neg hwide, if_neg (mt t.contains_wide hwide)]
    simp only [bind, Except.bind, hfails]

/-- What is not a number is refused; an error is passed on. -/
theorem read_of_no_number (t : Integral) {v : Value} (hv : v.number? = none) :
    t.read v = v.refuse t.wide.name := by
  rw [read_eq]
  cases v with
  | int n | uint n => cases hv
  | _ => rfl

theorem read_eq_ok_iff (t : Integral) {v : Value} {n : t.Carrier} :
    t.read v = .ok n ↔ v.number? = some (t.toInt n) := by
  cases hv : v.number? with
  | none =>
    rw [t.read_of_no_number hv]
    refine iff_of_false ?_ nofun
    cases v <;> nofun
  | some x =>
    rw [t.read_of_number? hv, Option.some_inj]
    constructor
    · intro hread
      split at hread
      · rename_i hx
        cases hread
        exact (t.toInt_ofInt hx).symm
      · cases hread
    · rintro rfl
      rw [if_pos (t.contains_toInt n)]
      exact congrArg _ (t.toInt_inj (t.toInt_ofInt (t.contains_toInt n)))

theorem exists_read_eq_ok_iff (t : Integral) {v : Value} :
    (∃ n, t.read v = .ok n) ↔ ∃ x, v.number? = some x ∧ t.Contains x := by
  simp only [read_eq_ok_iff]
  constructor
  · rintro ⟨n, hn⟩
    exact ⟨_, hn, t.contains_toInt n⟩
  · rintro ⟨x, hv, hx⟩
    exact ⟨t.ofInt x, by rw [t.toInt_ofInt hx, hv]⟩

end Integral

/-! ## On the way -/

/-- A value was encoded, and the other one was decoded from its bytes, whatever followed them. -/
def Relayed (v v' : Value) : Prop :=
  ∃ body rest left, (Codec.value.encode v).toExcept = .ok body ∧ Codec.value.decode (body ++ rest) = (.ok v', left)

/-- What arrives is what was sent. -/
theorem Relayed.eq {v v' : Value} (h : Relayed v v') : v' = v := by
  obtain ⟨body, rest, left, hbody, hdecode⟩ := h
  by_cases hfits : Codec.value.WithinDepth v
  · have hreads := (Codec.value.decode_undoes v).reads hbody hfits rest
    rw [hdecode] at hreads
    cases hreads
    rfl
  · obtain ⟨left', hrefuses⟩ := (Codec.value.decode_undoes v).refuses hbody hfits rest
    rw [hdecode] at hrefuses
    cases hrefuses

/-- Numbers can be sent. -/
theorem relayed_of_number? {v : Value} {x : Int} (hv : v.number? = some x) : Relayed v v := by
  have hencode : ∃ body, (Codec.value.encode v).toExcept = .ok body := by
    cases v with
    | int n | uint n =>
      exact ⟨_, Encoding.toExcept_andThen_eq_ok.2
        ⟨_, _, Encoding.toExcept_write _, Encoding.toExcept_write _, rfl⟩⟩
    | _ => cases hv
  have hfits : Codec.value.WithinDepth v := by
    rw [Codec.withinDepth_value]
    cases v with
    | int | uint => exact Nat.zero_le _
    | _ => cases hv
  obtain ⟨body, hbody⟩ := hencode
  exact ⟨body, [], [], hbody, (Codec.value.decode_undoes v).reads hbody hfits []⟩

/-- However often it is sent, a value stays what it is. -/
theorem eq_of_relayed {v v' : Value} (h : Relation.ReflTransGen Relayed v v') : v' = v := by
  induction h with
  | refl => rfl
  | tail _ hlast ih => exact hlast.eq.trans ih

namespace Integral

/-- Integers keep their mathematical value. Reading a value as a type of integers gives an element just if the value is
a number in the range of the type, and then the element that is this number; errors are passed on, other values are
refused for their sort, and other numbers for the range, of 64 bits or of the type. So an integer of any type that is
written and read as any other is the same number, if that is in range, also when the value was sent in between, any
number of times. -/
theorem read_keeps_value (t : Integral) :
    (∀ v : Value,
      (∀ n, t.read v = .ok n ↔ v.number? = some (t.toInt n)) ∧
      ((∃ n, t.read v = .ok n) ↔ ∃ x, v.number? = some x ∧ t.low ≤ x ∧ x < t.bound) ∧
      (∀ e, v = .error e → t.read v = .error e) ∧
      (v.number? = none → (∀ e, v ≠ .error e) →
        t.read v = .error (Misfit.wrongKind t.wide.name v.kind).toError) ∧
      ∀ x, v.number? = some x → ¬(t.low ≤ x ∧ x < t.bound) →
        t.read v = .error (Misfit.outOfRange x (if t.wide.Contains x then t.name else t.wide.name)).toError) ∧
    ∀ (s : Integral) (x : s.Carrier),
      (∃ v, Relayed (s.write x) v) ∧
      ∀ v, Relation.ReflTransGen Relayed (s.write x) v →
        (∀ y, t.read v = .ok y ↔ t.toInt y = s.toInt x) ∧
        ((∃ y, t.read v = .ok y) ↔ t.low ≤ s.toInt x ∧ s.toInt x < t.bound) := by
  refine ⟨fun v => ⟨fun n => t.read_eq_ok_iff, t.exists_read_eq_ok_iff, ?_, ?_, ?_⟩, fun s x => ⟨?_, ?_⟩⟩
  · rintro e rfl
    exact t.read_of_no_number rfl
  · intro hv herror
    rw [t.read_of_no_number hv]
    cases v with
    | error e => exact absurd rfl (herror e)
    | _ => rfl
  · intro x hv hx
    rw [t.read_of_number? hv]
    exact if_neg hx
  · exact ⟨_, relayed_of_number? (s.number?_write x)⟩
  · intro v hv
    have hnumber : v.number? = some (s.toInt x) := by rw [eq_of_relayed hv, s.number?_write]
    refine ⟨fun y => ?_, ?_⟩
    · rw [t.read_eq_ok_iff, hnumber, Option.some_inj]
      exact eq_comm
    · rw [t.exists_read_eq_ok_iff, hnumber]
      constructor
      · rintro ⟨_, ⟨⟩, hrange⟩
        exact hrange
      · exact fun hrange => ⟨_, rfl, hrange⟩

-- the numbers next to the ends of ranges
example : (fromValue (.uint 0x7fffffff) : Except AppError Int32) = .ok 0x7fffffff ∧
    (fromValue (.uint 0x80000000) : Except AppError Int32) = .error (Misfit.outOfRange 0x80000000 "i32").toError ∧
    (fromValue (.uint 0x8000000000000000) : Except AppError Int64) =
      .error (Misfit.outOfRange 0x8000000000000000 "int").toError ∧
    (fromValue (.int (-1)) : Except AppError UInt32) = .error (Misfit.outOfRange (-1) "uint").toError ∧
    (fromValue (.uint 0xffffffffffffffff) : Except AppError Size) = .ok ⟨0xffffffffffffffff⟩ := by
  decide +kernel

end Integral

end RemoteCall
