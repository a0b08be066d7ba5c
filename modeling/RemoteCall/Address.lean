import RemoteCall.Fault
/-!
# Socket addresses

An address is a host and a port with a colon between them. The port stands behind the last colon and is read
first; the host is then looked up under its name, in which no zero byte may stand.
-/

namespace RemoteCall

/-- Where a server listens. -/
structure Address where
  host : String
  port : UInt16
deriving DecidableEq, Repr

namespace Address

/-- A number in decimal digits, at least one, with or without a plus in front. -/
def decimal? (cs : List Char) : Option Nat :=
  let digits := match cs with
    | '+' :: rest => rest
    | cs => cs
  if digits.isEmpty || !digits.all Char.isDigit then none
  else some (digits.foldl (fun n c => n * 10 + (c.toNat - '0'.toNat)) 0)

/-- What stands before and behind the last colon. -/
def splitLast? (cs : List Char) : Option (List Char × List Char) :=
  let behind := cs.reverse.takeWhile (· != ':')
  if behind.length = cs.length then none
  else some (cs.take (cs.length - behind.length - 1), behind.reverse)

/-- Reads an address. -/
def parse (s : String) : Except Fault Address :=
  match splitLast? s.toList with
  | none => .error .badAddress
  | some (host, port) =>
    match decimal? port with
    | none => .error .badPort
    | some n =>
      if 0x10000 ≤ n then .error .badPort
      else if host.contains '\x00' then .error .zeroInName
      else .ok ⟨String.ofList host, UInt16.ofNat n⟩

end Address

end RemoteCall
