import TypingStore.Store.Iteration
import TypingStore.Store.Lookup

/-!
# Dumping a context

The text that shows what a context itself holds: its typings, then its errors, each under a
heading.

* `Store.dump`: the whole text.
* `Store.caption`: the one-line form of a context.
-/

namespace TypingStore.Store

/-- The entry of a typing. -/
def typingEntry (s : Store) (summarizer : Summarizer) (typing : Value × Value) :
    Except Failure String := do
  let summary ← summarizer.summary s.objects typing.1
  return "  " ++ summary ++ " => " ++ s.objects.display typing.2

/-- The entry of an error: the node it speaks of, if there is one, and its text. -/
def errorEntry (s : Store) (summarizer : Summarizer) (error : Value) : Except Failure String := do
  let summary ← match s.objects.nodeOf error with
    | .absent => pure "?:?"
    | node => summarizer.summary s.objects node
  return "  " ++ summary ++ " => " ++ s.objects.plain error

/-- What a context holds, as text. It fails only when a summary does. -/
def dump (s : Store) (c : ContextId) : Except Failure String := do
  let context := s.context c
  let typings ← (s.typings c).mapM (s.typingEntry context.summarizer)
  let errors ← context.errors.mapM (s.errorEntry context.summarizer)
  return "\n".intercalate ("Typing:" :: typings ++ "Errors:" :: errors) ++ "\n"

/-- A context on one line: how deep it is, its version, and how much it holds. -/
def caption (s : Store) (c : ContextId) : String :=
  let context := s.context c
  "<TypingContext depth=" ++ toString (s.depth c) ++ " version=" ++ toString context.version
    ++ " types=" ++ toString context.nodeTypes.size ++ " errors=" ++ toString context.errors.length
    ++ ">"

end TypingStore.Store
