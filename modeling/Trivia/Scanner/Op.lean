/-
Trivia/Scanner/Op.lean

The operations of scanners as data.

An operation holds its arguments, among them marks and whole positions that may
come from anywhere, so that a history of a position is a list of operations and
a statement about every history is a statement about every list.
-/
import Trivia.Scanner

namespace Trivia.Scanner

/-- One operation on a position in `source`. -/
inductive Op (source : Bytes)
  | offset
  | sourceLength
  | atEnd
  | rest
  | peek (n : Nat)
  | take (n : Nat)
  | takeByte
  | skip (n : Nat)
  | back (n : Nat)
  | mark
  | goTo (saved : Mark)
  | passedSince (saved : Mark)
  | cut (start stop : Nat)
  | takeWhile (keep : UInt8 → Bool)
  | takeUntil (byte : UInt8)
  | runOf (k : ByteSet)
  | blanks
  | lineEnds
  | lineTail
  | load (copy : Position source)

/-- What an operation answers. -/
inductive Reply
  | nothing
  | number (n : Nat)
  | flag (b : Bool)
  | bytes (run : Bytes)
  /-- More bytes were asked for than remain. -/
  | endOfInput
  /-- A run that is absent where it would be empty. -/
  | fragment? (run : Option Bytes)
  deriving DecidableEq, Repr

namespace Reply

/-- Bytes, where there were enough of them. -/
def ofBytes? : Option Bytes → Reply
  | some run => bytes run
  | none => endOfInput

/-- A byte, where there was one. -/
def ofByte? : Option UInt8 → Reply
  | some b => number b.toNat
  | none => endOfInput

/-- What the end of the input says to a reader. -/
def endOfInputMessage : String := "unexpected end of input"

end Reply

/-- Carries out an operation. -/
def Op.run {source : Bytes} : Op source → Scanner source Reply
  | .offset => return .number (← Scanner.offset)
  | .sourceLength => return .number source.length
  | .atEnd => return .flag (← Scanner.atEnd)
  | .rest => return .bytes (← Scanner.rest)
  | .peek n => return .ofBytes? (← Scanner.peek n)
  | .take n => return .ofBytes? (← Scanner.take n)
  | .takeByte => return .ofByte? (← Scanner.takeByte)
  | .skip n => do Scanner.skip n; return .nothing
  | .back n => do Scanner.back n; return .nothing
  | .mark => return .number (← Scanner.mark).offset
  | .goTo saved => do Scanner.goTo saved; return .nothing
  | .passedSince saved => return .bytes (← Scanner.passedSince saved)
  | .cut start stop => return .bytes (← Scanner.cut start stop)
  | .takeWhile keep => return .bytes (← Scanner.takeWhile keep)
  | .takeUntil byte => return .ofBytes? (← Scanner.takeUntil byte)
  | .runOf k => return .bytes (← Scanner.runOf k)
  | .blanks => return .bytes (← Scanner.blanks)
  | .lineEnds => return .bytes (← Scanner.lineEnds)
  | .lineTail => return .fragment? (← Scanner.lineTail)
  | .load copy => do set copy; return .nothing

end Trivia.Scanner
