import RemoteCall.Value.Convert
/-!
# Arguments

The positional arguments of a call, read one by one or all at once. Both ways read an argument by the same
conversion; they differ in what they say when it fails.
-/

namespace RemoteCall

/-- The positional arguments of a call. -/
structure Arguments where
  values : List Value
deriving Inhabited

/-- The native types that a method reads its arguments as, in order. -/
inductive Signature : Type → Type 1
  | none : Signature Unit
  | next {α τ : Type} [FromValue α] (rest : Signature τ) : Signature (α × τ)

/-- How many arguments a signature has. -/
def Signature.arity : {τ : Type} → Signature τ → Nat
  | _, none => 0
  | _, next rest => rest.arity + 1

/-- The fault of a list of arguments that is too short or too long for a signature. -/
def arityError (expected got : Nat) : AppError :=
  .ofMessage s!"expected {expected} arguments, got {got}"

namespace Arguments

def size (args : Arguments) : Nat := args.values.length

def isEmpty (args : Arguments) : Bool := args.values.isEmpty

/-- Reads the argument at a position; a failing conversion is reported with the position. -/
def get (α : Type) [FromValue α] (args : Arguments) (index : Nat) : Except AppError α :=
  match args.values[index]? with
  | none => .error (.ofMessage s!"missing argument {index}")
  | some v =>
    match fromValue v with
    | .ok x => .ok x
    | .error e => .error (.ofMessage s!"argument {index}: {e.display}")

/-- Reads each value by its place in the signature; the first failing conversion is reported as it is. -/
def convert : {τ : Type} → Signature τ → List Value → Except AppError τ
  | _, .none => fun _ => .ok ()
  | _, @Signature.next α _ _ rest => fun
    | [] => .error (arityError (rest.arity + 1) 0)
    | v :: vs => do
      let x : α ← fromValue v
      let xs ← convert rest vs
      return (x, xs)

/-- Reads all arguments; their number is checked first. -/
def parse {τ : Type} (signature : Signature τ) (args : Arguments) : Except AppError τ :=
  if args.size = signature.arity then convert signature args.values
  else .error (arityError signature.arity args.size)

end Arguments

end RemoteCall
