import TypingStore.Text.Quoted

/-!
# Written forms

The written form of a value is the text a reader sees in messages: atoms have fixed spellings,
sequences stand in brackets, and a record is its name with its fields in declaration order.

* `Written.sequence`, `Written.tuple`: items between brackets; a tuple of one item keeps a comma.
* `Written.record`: `Name(field=form, …)`.
-/

namespace TypingStore.Text.Written

/-- The spelling of an absent value. -/
def absent : String := "None"

/-- The spelling of a truth value. -/
def bool : Bool → String
  | true => "True"
  | false => "False"

/-- An integer in decimal digits, a negative one after a minus sign. -/
def int (n : Int) : String := toString n

/-- Written items, with a comma and a space between them. -/
def items (parts : List String) : String := ", ".intercalate parts

/-- Items in square brackets. -/
def sequence (parts : List String) : String := "[" ++ items parts ++ "]"

/-- Items in parentheses; a single item is followed by a comma. -/
def tuple : List String → String
  | [part] => "(" ++ part ++ ",)"
  | parts => "(" ++ items parts ++ ")"

/-- A record: its name, then each field's name and written value. -/
def record (name : String) (fields : List (String × String)) : String :=
  name ++ "(" ++ items (fields.map fun field => field.1 ++ "=" ++ field.2) ++ ")"

end TypingStore.Text.Written
