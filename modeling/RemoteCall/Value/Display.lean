import RemoteCall.Value
import RemoteCall.Decimal.Shortest
import RemoteCall.Text.Quoted
/-!
# The text of a value

One line that names a value: scalars in full, texts quoted, and of everything larger its size.
-/

namespace RemoteCall

namespace Double

/-- The leading bit of a significand, which is not stored. -/
def hiddenBit : Nat := 0x10000000000000

/-- A finite number other than zero as a binary fraction. -/
def toBinary (x : Double) : Decimal.Binary :=
  let mantissa := x.magnitude % hiddenBit
  let exponent : Nat := x.magnitude / hiddenBit
  if exponent = 0 then ⟨mantissa, -1074, false⟩
  else ⟨hiddenBit + mantissa, (exponent : Int) - 1075, mantissa == 0 && 1 < exponent⟩

/-- The fewest digits that read back, without exponent and without a fraction of zero. -/
def display (x : Double) : String :=
  if x.isNaN then "NaN"
  else
    let sign := if x.isNegative then "-" else ""
    if x.isInfinite then sign ++ "inf"
    else if x.magnitude = 0 then sign ++ "0"
    else sign ++ Decimal.positional (Decimal.shortest x.toBinary)

end Double

/-- One line that names a value. -/
def Value.display : Value → String
  | .nil => "nil"
  | .bool b => if b then "true" else "false"
  | .int n => toString n.toInt
  | .uint n => toString n.toNat
  | .float x => x.display
  | .text s => Text.quote s
  | .bytes bs => s!"<{bs.length} bytes>"
  | .list items => s!"<list of {items.length}>"
  | .map entries => s!"<map of {entries.length}>"
  | .record fields => s!"<struct of {fields.length} fields>"
  | .error e => s!"error({e.display})"

end RemoteCall
