import RemoteCall.Text.Hidden
/-!
# Quoted text

A text between double quotes, on one line and without hidden characters: quotes, backslashes and the common
controls are written with a backslash, other hidden characters by their number.
-/

namespace RemoteCall.Text

/-- A character inside quotes. -/
def escape (c : Char) : List Char :=
  match c with
  | '\x00' => ['\\', '0']
  | '\t' => ['\\', 't']
  | '\n' => ['\\', 'n']
  | '\r' => ['\\', 'r']
  | '"' => ['\\', '"']
  | '\\' => ['\\', '\\']
  | c =>
    if isHidden c then ['\\', 'u', '\x7b'] ++ Nat.toDigits 16 c.toNat ++ ['\x7d']
    else [c]

/-- A text between double quotes. -/
def quote (s : String) : String :=
  String.ofList ('"' :: s.toList.flatMap escape ++ ['"'])

end RemoteCall.Text
