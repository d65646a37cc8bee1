import TypingStore.Value
import TypingStore.Text.Written

/-!
# Displayed types

The form of a type in dumps and answers: a class name with its arguments in brackets, the members
of a union with bars between them, a procedure as `^(parameters) -> result`. The absent value is
displayed as a missing type, and a value of another model as it is written.

* `Value.display`: the displayed form, given the written form of other values.
-/

namespace TypingStore.Value

open Text

mutual

/-- The displayed form of a type; `other` writes the values that are not types. -/
def display (other : Value → String) : Value → String
  | .absent => "<none>"
  | .instanceType _ name [] => name
  | .instanceType _ name (arg :: args) =>
    name ++ "[" ++ Written.items (display other arg :: displayAll other args) ++ "]"
  | .unionType _ members => " | ".intercalate (displayAll other members)
  | .procType _ params result =>
    "^(" ++ Written.items (displayAll other params) ++ ") -> " ++ display other result
  | .anyType _ => "any"
  | .nilType _ => "nil"
  | v => other v

/-- The displayed forms of a list of types. -/
def displayAll (other : Value → String) : List Value → List String
  | [] => []
  | v :: vs => display other v :: displayAll other vs

end

theorem displayAll_eq_map (other : Value → String) (vs : List Value) :
    displayAll other vs = vs.map (display other) := by
  induction vs with
  | nil => rfl
  | cons v vs ih => simp [displayAll, ih]

end TypingStore.Value
