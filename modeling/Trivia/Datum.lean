/-
Trivia/Datum.lean

Self-describing data, the form in which trees are stored and exchanged.

Reading a structure is more liberal than writing it.  A structure is written as
a map from field names to values; it is read from such a map, in which no field
may come twice and other keys are ignored, or from a sequence that holds exactly
its fields in order.  `field?` and `fields?` hold these rules once for all types.
-/
namespace Trivia

/-- A self-describing value. -/
inductive Datum
  | null
  | flag (b : Bool)
  | integer (n : Int)
  /-- A number with decimal places; no type here is read from one. -/
  | decimal (mantissa : Int) (places : Nat)
  | text (s : String)
  | sequence (items : List Datum)
  | mapping (entries : List (String × Datum))
  deriving Inhabited

namespace Datum

/-- The value of a field in a map, where a field that the map lacks is `none`.  A
field that comes twice has no value, whatever the two are. -/
def field? (entries : List (String × Datum)) (name : String) : Option (Option Datum) :=
  match entries.filter (·.1 == name) with
  | [] => some none
  | [entry] => some (some entry.2)
  | _ :: _ :: _ => none

/-- The values of the named fields of a structure, in order.  A sequence has to
hold exactly one value a field. -/
def fields? (names : List String) : Datum → Option (List (Option Datum))
  | mapping entries => names.mapM (field? entries)
  | sequence items => if items.length = names.length then some (items.map some) else none
  | _ => none

/-- A number below a bound. -/
def bounded? (bound : Nat) : Datum → Option Nat
  | integer (.ofNat n) => if n < bound then some n else none
  | _ => none

/-- A byte. -/
def byte? (d : Datum) : Option UInt8 := (d.bounded? UInt8.size).map Nat.toUInt8

/-- A number of 32 bits. -/
def word? (d : Datum) : Option UInt32 := (d.bounded? UInt32.size).map Nat.toUInt32

/-- A text. -/
def text? : Datum → Option String
  | text s => some s
  | _ => none

/-- A sequence of values that can each be read. -/
def sequence? {α : Type} (read : Datum → Option α) : Datum → Option (List α)
  | sequence items => items.mapM read
  | _ => none

/-- A value that may be absent: no field at all and a null both stand for none. -/
def optional? {α : Type} (read : Datum → Option α) : Option Datum → Option (Option α)
  | none | some null => some none
  | some d => (read d).map some

/-- Bytes are written as a sequence of numbers. -/
def ofBytes (bytes : List UInt8) : Datum := sequence (bytes.map fun b => integer b.toNat)

/-- A value that may be absent is written as null where it is. -/
def ofOption {α : Type} (write : α → Datum) : Option α → Datum
  | none => null
  | some a => write a

end Datum

end Trivia
