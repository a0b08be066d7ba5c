import RemoteCall.Codec.Basic
/-!
# Classes of calls

The class of a method says what follows the envelope of a call: one reply, bytes from the server, or bytes
from the client. Servers tell clients the class of each of their methods.
-/

namespace RemoteCall

/-- What follows the envelope of a call. -/
inductive CallClass
  /-- One list of values from the server. -/
  | normal
  /-- Bytes from the server until it ends them. -/
  | readStream
  /-- Bytes from the client until it ends them. -/
  | writeStream
deriving DecidableEq, Repr, Inhabited

namespace CallClass

def display : CallClass → String
  | normal => "normal"
  | readStream => "read-stream"
  | writeStream => "write-stream"

def code : CallClass → Int
  | normal => 0
  | readStream => 1
  | writeStream => 2

def ofCode? (n : Int32) : Option CallClass :=
  if n = 0 then some normal else if n = 1 then some readStream else if n = 2 then some writeStream else none

/-- The classes as they go over the wire. -/
def enumeration : Enumeration CallClass where
  code := code
  variant? := ofCode?
  first := normal
  variant?_eq_some_iff n v := by
    cases v <;> simp only [ofCode?, code, int32?] <;> grind

/-- The words in front of a method's name that tell its class. -/
def markers : List (String × CallClass) :=
  [("Normal_", normal), ("Read_", readStream), ("Write_", writeStream)]

/-- What stands behind `start` in `s`. -/
def behind? (start s : String) : Option String :=
  if start.toList.isPrefixOf s.toList then some (String.ofList (s.toList.drop start.toList.length)) else none

/-- The class that a marked name tells, and the name without the mark, unless nothing is left of it. -/
def ofMarkedName? (raw : String) : Option (CallClass × String) :=
  markers.findSome? fun (marker, c) =>
    match behind? marker raw with
    | some name => if name = "" then none else some (c, name)
    | none => none

end CallClass

/-- The class of each method of a server, by qualified name. -/
abbrev Capabilities := SortedMap String CallClass

/-- How capabilities go over the wire. -/
def Capabilities.codec : Codec Capabilities := .map .text (.enumeration CallClass.enumeration)

end RemoteCall
