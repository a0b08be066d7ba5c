/-!
# The fewest digits that read back

A binary floating-point number `m * 2 ^ q` stands for the interval of reals that round to it. Of the decimal
grids `10 ^ e` the coarsest with a point in that interval gives the fewest digits, and the nearest of its
points the digits themselves. All tests are exact, in natural numbers.
-/

namespace RemoteCall.Decimal

/-- A positive number `significand * 2 ^ exponent`, with the distance to the next smaller one halved where
the binary exponent steps. -/
structure Binary where
  significand : Nat
  exponent : Int
  /-- Whether the next smaller number is only half as far away as the next larger one. -/
  atStep : Bool
deriving DecidableEq, Repr

/-- A decimal number `digits * 10 ^ exponent`. -/
structure Scientific where
  digits : Nat
  exponent : Int
deriving DecidableEq, Repr

/-- The numerator and denominator of `n * 2 ^ a / 10 ^ e`. -/
def ratio (n : Nat) (a e : Int) : Nat × Nat :=
  (n * Nat.pow 2 a.toNat * Nat.pow 10 (-e).toNat, Nat.pow 2 (-a).toNat * Nat.pow 10 e.toNat)

/-- The point of the grid `10 ^ e` that is nearest to `x` among those that round to `x`, if there is one;
of two equally near points the larger. -/
def gridPoint? (x : Binary) (e : Int) : Option Nat :=
  let a := x.exponent - 2
  let (low, den) := ratio (4 * x.significand - if x.atStep then 1 else 2) a e
  let (mid, _) := ratio (4 * x.significand) a e
  let (high, _) := ratio (4 * x.significand + 2) a e
  let inside (n : Nat) : Bool :=
    if x.significand % 2 = 0 then low ≤ n * den && n * den ≤ high
    else low < n * den && n * den < high
  let below := mid / den
  let above := below + 1
  match inside below, inside above with
  | true, true => some (if mid - below * den < above * den - mid then below else above)
  | true, false => some below
  | false, true => some above
  | false, false => none

/-- The first grid, from the coarsest on, that has a point rounding to `x`; `count` grids are tried. -/
def firstGrid (x : Binary) (e : Int) : Nat → Scientific
  | 0 => ⟨0, e⟩
  | count + 1 =>
    match gridPoint? x e with
    | some n => ⟨n, e⟩
    | none => firstGrid x (e - 1) count

/-- The decimal of fewest digits that rounds to `x`. -/
def shortest (x : Binary) : Scientific := firstGrid x 310 1400

/-- Digits without an exponent: zeros are written up to the decimal point on either side of it. -/
def positional (x : Scientific) : String :=
  let digits := Nat.toDigits 10 x.digits
  if 0 ≤ x.exponent then String.ofList (digits ++ List.replicate x.exponent.toNat '0')
  else
    let places := (-x.exponent).toNat
    let padded := List.replicate (places + 1 - digits.length) '0' ++ digits
    let whole := padded.length - places
    String.ofList (padded.take whole ++ '.' :: padded.drop whole)

end RemoteCall.Decimal
