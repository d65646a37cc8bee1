import TypingStore.Store

/-!
# Iterating over the typings of a context

A cursor walks over the node types of a context one at a time, in the order in which the nodes
were first recorded, and reads each type when it comes to it. It fixes how many there are when it
starts; if a node was added since, the next step fails and the walk is over.

* `Cursor`, `Cursor.next`.
-/

namespace TypingStore

/-- How far a walk has come. -/
inductive Cursor.Progress where
  | notStarted
  /-- The next position, and the number of typings when the walk started. -/
  | running (position size : Nat)
  | finished
  deriving DecidableEq

/-- A walk over the typings of a context. -/
structure Cursor where
  context : ContextId
  progress : Cursor.Progress := .notStarted
  deriving DecidableEq

namespace Cursor

/-- The step at `position` of a walk over `size` typings. -/
def step (s : Store) (c : ContextId) (position size : Nat) :
    Except Failure (Option (Value × Value)) × Progress :=
  let entries := (s.context c).nodeTypes.entries
  if entries.length ≠ size then (.error .changedDuringIteration, .finished)
  else match entries[position]? with
    | none => (.ok none, .finished)
    | some (key, type) => (.ok (some (key.node, type)), .running (position + 1) size)

/-- The next node and its type, or nothing at the end. -/
def next (s : Store) (cursor : Cursor) : Except Failure (Option (Value × Value)) × Cursor :=
  match cursor.progress with
  | .finished => (.ok none, cursor)
  | .notStarted =>
    let (answer, progress) := step s cursor.context 0 (s.context cursor.context).nodeTypes.size
    (answer, { cursor with progress := progress })
  | .running position size =>
    let (answer, progress) := step s cursor.context position size
    (answer, { cursor with progress := progress })

end Cursor

/-- The typings of a context, in the order in which the nodes were first recorded. -/
def Store.typings (s : Store) (c : ContextId) : List (Value × Value) :=
  (s.context c).nodeTypes.entries.map fun entry => (entry.1.node, entry.2)

end TypingStore
