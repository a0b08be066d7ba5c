import RemoteCall.Codec.Basic
/-!
# Demonstration types

An enumeration with codes of all sorts and a structure of several fields, to try codecs with.
-/

namespace RemoteCall.Demo

/-- An enumeration with a code below zero, and with one that does not fit 32 bits. -/
inductive Probe
  | zero | minus | seven | huge
deriving DecidableEq, Repr, Inhabited

namespace Probe

/-- The low 32 bits of the last code are those of the code before. -/
def code : Probe → Int
  | zero => 0
  | minus => -1
  | seven => 7
  | huge => 0x100000007

def ofCode? (n : Int32) : Option Probe :=
  if n = 0 then some zero else if n = -1 then some minus else if n = 7 then some seven else none

def name : Probe → String
  | zero => "zero"
  | minus => "minus"
  | seven => "seven"
  | huge => "huge"

def ofName? (s : String) : Option Probe := [zero, minus, seven, huge].find? (·.name == s)

def enumeration : Enumeration Probe where
  code := code
  variant? := ofCode?
  first := zero
  variant?_eq_some_iff n v := by
    cases v <;> simp only [ofCode?, code, int32?] <;> grind

end Probe

/-- What is known of a file. -/
structure FileStat where
  name : String
  size : UInt64
  modified? : Option Int64
deriving DecidableEq, Repr, Inhabited

namespace FileStat

def layout : Layout FileStat (String × UInt64 × Option Int64) where
  fields s := (s.name, s.size, s.modified?)
  build t := ⟨t.1, t.2.1, t.2.2⟩
  build_fields _ := rfl
  fields_build _ := rfl

def codec : Codec FileStat := .layout layout (.pair .text (.pair .uint64 (.option .int64)))

end FileStat

end RemoteCall.Demo
