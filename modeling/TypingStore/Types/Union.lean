import TypingStore.Value

/-!
# Joining types

The join of several types is a union of their members: a union among them counts as its members,
and of members that are equal only the first is kept. A single member is its own join.

* `Value.members`: the types a type is the union of.
* `Types.joined`: the members of the join of a list of types.
-/

namespace TypingStore

/-- The types that a type is the union of: the members of a union, else the type itself. -/
def Value.members : Value → List Value
  | .unionType _ members => members
  | v => [v]

/-- The members of the join of `types`, in the order in which they first occur. -/
def Types.joined (equal : Value → Value → Bool) (types : List Value) : List Value :=
  (types.flatMap Value.members).eraseDupsBy equal

end TypingStore
