import RemoteCall.Value
import RemoteCall.SortedMap
/-!
# Codecs

A `Codec α` says how values of `α` are laid out on the wire. The codecs are a closed family, so that a
statement about all of them is one induction. Every item fills a multiple of four bytes.
-/

namespace RemoteCall

/-- The 32-bit form of a number that has one. -/
def int32? (n : Int) : Option Int32 :=
  if -0x80000000 ≤ n ∧ n < 0x80000000 then some (Int32.ofInt n) else none

/-- The variants of an enumeration and their codes; a code that does not fit 32 bits cannot be sent. -/
structure Enumeration (α : Type) where
  code : α → Int
  variant? : Int32 → Option α
  /-- The variant that stands where nothing was received yet. -/
  first : α
  variant?_eq_some_iff : ∀ n v, variant? n = some v ↔ int32? (code v) = some n

/-- How the fields of a structure `α` line up as a tuple `β`. -/
structure Layout (α β : Type) where
  fields : α → β
  build : β → α
  build_fields : ∀ a, build (fields a) = a
  fields_build : ∀ b, fields (build b) = b

/-- The layouts of the wire format. -/
inductive Codec : Type → Type 1
  | unit : Codec Unit
  | bool : Codec Bool
  | int32 : Codec Int32
  | int64 : Codec Int64
  | uint32 : Codec UInt32
  | uint64 : Codec UInt64
  | float : Codec Double
  | bytes : Codec Bytes
  | text : Codec String
  | enumeration {α : Type} (e : Enumeration α) : Codec α
  | error : Codec AppError
  | value : Codec Value
  | list {α : Type} (item : Codec α) : Codec (List α)
  | option {α : Type} (item : Codec α) : Codec (Option α)
  | map {K V : Type} [Ord K] [Std.TransOrd K] [Std.LawfulEqOrd K] (key : Codec K) (content : Codec V) :
      Codec (SortedMap K V)
  | pair {α β : Type} (first : Codec α) (second : Codec β) : Codec (α × β)
  | layout {α β : Type} (layout : Layout α β) (fields : Codec β) : Codec α

namespace Codec

/-- What stands in a place of the given type before anything was received. -/
def initial : {α : Type} → Codec α → α
  | _, unit => ()
  | _, bool => false
  | _, int32 => 0
  | _, int64 => 0
  | _, uint32 => 0
  | _, uint64 => 0
  | _, float => ⟨0⟩
  | _, bytes => []
  | _, text => ""
  | _, enumeration e => e.first
  | _, error => .nil
  | _, value => .nil
  | _, list _ => []
  | _, option _ => none
  | _, map _ _ => .empty
  | _, pair first second => (first.initial, second.initial)
  | _, layout l fields => l.build fields.initial

end Codec

/-- How many levels of values may lie below the outermost one in what is received. -/
def maxDepth : Nat := 64

end RemoteCall
