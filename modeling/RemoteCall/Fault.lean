/-!
# Faults

A fault is the reason why reading, writing or opening a byte stream did not succeed. Each cause has one
kind and one wording; `Fault.message` is the only place where the wordings stand.
-/

namespace RemoteCall

/-- The sort of a fault, as far as anyone acts on it; the rest keep the name their stream gave them. -/
inductive FaultKind
  | invalidData
  | unexpectedEof
  | writeZero
  | brokenPipe
  | notConnected
  | invalidInput
  | named (name : String)
deriving DecidableEq, Repr, Inhabited

namespace FaultKind

/-- The name of a sort of faults. -/
def name : FaultKind → String
  | invalidData => "InvalidData"
  | unexpectedEof => "UnexpectedEof"
  | writeZero => "WriteZero"
  | brokenPipe => "BrokenPipe"
  | notConnected => "NotConnected"
  | invalidInput => "InvalidInput"
  | named name => name

/-- The sort with a name. -/
def ofName (s : String) : FaultKind :=
  ([invalidData, unexpectedEof, writeZero, brokenPipe, notConnected, invalidInput].find? (·.name == s)).getD
    (named s)

end FaultKind

/-- Why an operation on a byte stream failed. -/
inductive Fault
  /-- An enumeration holds no variant with this code. -/
  | unknownVariant (code : Int32)
  /-- The code of a variant does not fit 32 bits. -/
  | wideVariant
  /-- A truth value is neither 0 nor 1. -/
  | badBool
  /-- The bytes that fill a word up are not zero. -/
  | dirtyPadding
  | notUtf8
  | duplicateKey
  /-- A value is nested deeper than `limit` levels. -/
  | tooDeep (limit : Nat)
  /-- More elements than a 32-bit count can tell. -/
  | tooMany
  /-- The record goes on after its value. -/
  | trailing (count : Nat)
  /-- A record announces more bytes than are taken. -/
  | recordTooLong (length limit : Nat)
  | unknownTag (code : UInt8)
  /-- A word ends before its last byte. -/
  | shortWord
  /-- A byte string ends before its announced length. -/
  | shortBytes (got want : Nat)
  /-- A stream ends inside a record. -/
  | earlyEof
  /-- A stream ends before its tag. -/
  | missingTag
  /-- A buffer of fixed size is full. -/
  | bufferFull
  /-- A stream takes no byte of a write. -/
  | writeZero
  /-- The other end does not read any more. -/
  | brokenPipe
  | listenerClosed
  | badAddress
  | badPort
  /-- A name that is looked up holds a zero byte. -/
  | zeroInName
  /-- What a stream reports about itself. -/
  | reported (kind : FaultKind) (message : String)
deriving DecidableEq, Repr, Inhabited

namespace Fault

/-- The sort of a fault. -/
def kind : Fault → FaultKind
  | shortWord | shortBytes .. | earlyEof | missingTag => .unexpectedEof
  | bufferFull | writeZero => .writeZero
  | brokenPipe => .brokenPipe
  | listenerClosed => .notConnected
  | badAddress | badPort | zeroInName => .invalidInput
  | reported kind _ => kind
  | _ => .invalidData

/-- The wording of a fault. -/
def message : Fault → String
  | unknownVariant code => s!"Invalid enum value {code.toInt}"
  | wideVariant => "Invalid enum value"
  | badBool => "Invalid value for bool enum"
  | dirtyPadding => "Non-zero XDR padding"
  | notUtf8 => "Not UTF-8 string"
  | duplicateKey => "Duplicate key in map"
  | tooDeep limit => s!"Value nesting exceeds {limit}"
  | tooMany => "cannot cast `usize` to `u32`"
  | trailing count => s!"{count} trailing bytes after value"
  | recordTooLong length limit => s!"record length {length} exceeds max {limit}"
  | unknownTag code => s!"unrecognized tag {code.toNat}"
  | shortWord => "failed to fill whole buffer"
  | shortBytes got want => s!"opaque data truncated: {got} of {want} bytes"
  | earlyEof => "early eof"
  | missingTag => "unexpected end of file"
  | bufferFull => "failed to write whole buffer"
  | writeZero => "write zero"
  | brokenPipe => "broken pipe"
  | listenerClosed => "listener closed"
  | badAddress => "invalid socket address"
  | badPort => "invalid port value"
  | zeroInName => "file name contained an unexpected NUL byte"
  | reported _ message => message

end Fault

end RemoteCall
