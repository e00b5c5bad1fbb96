/-
Trivia/Text/Record.lean

The one-line text of structured values: records with named fields in braces, a
name applied to a value in parentheses, lists in brackets, and optional values
as `None` or `Some(..)`.  Every printer of values in this library goes through
these five shapes, so that their spacing and separators are fixed once.
-/
namespace Trivia.Text

/-- Items separated by a comma and a space. -/
def commaSeparated (items : List String) : String := String.intercalate ", " items

/-- A name and its named fields, in braces. -/
def record (name : String) (fields : List (String × String)) : String :=
  name ++ " \x7b " ++ commaSeparated (fields.map fun (key, text) => key ++ ": " ++ text) ++ " \x7d"

/-- A name applied to one value, in parentheses. -/
def applied (name value : String) : String := name ++ "(" ++ value ++ ")"

/-- A list, in brackets. -/
def listing (items : List String) : String := "[" ++ commaSeparated items ++ "]"

/-- A value that may be absent. -/
def optional : Option String → String
  | none => "None"
  | some value => applied "Some" value

end Trivia.Text
