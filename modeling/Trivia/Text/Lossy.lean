/-
Trivia/Text/Lossy.lean

Reading a byte string as UTF-8 text without ever failing.

A well-formed sequence becomes its character.  Where the bytes are not well
formed, the longest stretch that could still have begun a character becomes one
replacement character, and reading goes on right behind it.  `followers?` is
the table of well-formed sequences: after a leading byte it names the range of
each byte that has to follow, which already excludes overlong forms, surrogates
and numbers beyond the last code point.
-/
import Trivia.ByteSet

namespace Trivia.Text

/-- The character that stands for bytes that are not well formed. -/
def replacement : Char := '\uFFFD'

/-- The ranges for the bytes that follow `lead`, one range a byte; `none` where
no character begins with `lead`. -/
def followers? (lead : UInt8) : Option (List (UInt8 × UInt8)) :=
  if lead < 0x80 then some []
  else if lead < 0xC2 then none
  else if lead < 0xE0 then some [(0x80, 0xBF)]
  else if lead = 0xE0 then some [(0xA0, 0xBF), (0x80, 0xBF)]
  else if lead = 0xED then some [(0x80, 0x9F), (0x80, 0xBF)]
  else if lead < 0xF0 then some [(0x80, 0xBF), (0x80, 0xBF)]
  else if lead = 0xF0 then some [(0x90, 0xBF), (0x80, 0xBF), (0x80, 0xBF)]
  else if lead < 0xF4 then some [(0x80, 0xBF), (0x80, 0xBF), (0x80, 0xBF)]
  else if lead = 0xF4 then some [(0x80, 0x8F), (0x80, 0xBF), (0x80, 0xBF)]
  else none

/-- The bytes at the front that lie in the given ranges, range by range, up to
the first that does not. -/
def filling : List (UInt8 × UInt8) → Bytes → Bytes
  | (lo, hi) :: ranges, b :: rest => if lo ≤ b && b ≤ hi then b :: filling ranges rest else []
  | _, _ => []

/-- The character of a well-formed sequence: the low bits of the leading byte,
then six bits from each follower. -/
def assemble (lead : UInt8) (followers : Bytes) : Char :=
  let high := if lead < 0x80 then lead.toNat else lead.toNat % Nat.pow 2 (6 - followers.length)
  Char.ofNat (followers.foldl (fun n b => n * 64 + b.toNat % 64) high)

/-- The characters of a byte string. -/
def decodeChars : Bytes → List Char
  | [] => []
  | lead :: rest =>
    match followers? lead with
    | none => replacement :: decodeChars rest
    | some ranges =>
      let found := filling ranges rest
      let c := if found.length = ranges.length then assemble lead found else replacement
      c :: decodeChars (rest.drop found.length)
  termination_by bytes => bytes.length

/-- The text of a byte string, with a replacement character for each stretch
that is not well formed. -/
def decodeLossy (bytes : Bytes) : String := String.ofList (decodeChars bytes)

end Trivia.Text
