/-
Trivia/Text/Quoted.lean

Text in double quotes, with escapes for what would not be read off the page.

Six characters have an escape of their own; a control or hidden character is
written by its number in lower-case hexadecimal between braces, without
padding; every other character stands for itself.  The single quote is not
escaped.
-/
import Trivia.Text.Hidden
import Trivia.Text.Lossy

namespace Trivia.Text

/-- A character is written by its number: an ASCII control, or hidden. -/
def isNumbered (c : Char) : Bool :=
  c.toNat < 0x20 || c.toNat == 0x7F || isHidden c

/-- One character inside double quotes. -/
def escapeChar (c : Char) : List Char :=
  match c with
  | '\t' => ['\\', 't']
  | '\r' => ['\\', 'r']
  | '\n' => ['\\', 'n']
  | '\x00' => ['\\', '0']
  | '\\' => ['\\', '\\']
  | '"' => ['\\', '"']
  | c =>
    if isNumbered c then
      ['\\', 'u', '\x7b'] ++ Nat.toDigits 16 c.toNat ++ ['\x7d']
    else [c]

/-- A text in double quotes. -/
def quote (s : String) : String :=
  String.ofList ('"' :: s.toList.flatMap escapeChar ++ ['"'])

/-- A byte string, read as text without failing, in double quotes. -/
def quoteBytes (bytes : Bytes) : String := quote (decodeLossy bytes)

end Trivia.Text
