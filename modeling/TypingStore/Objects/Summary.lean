import TypingStore.Objects.Forms

/-!
# Where values stand in the source

What is noted of a value about the source text: its span, its text, and the node it speaks of. Any
object can carry these notes. A span is whatever has the four coordinates, and the source is a text;
what is neither fails when it is looked at.

* `Objects.spanOf`: the span of a value, if it has one.
* `Objects.summary`: a value on one line, `line:column:` and the first line of its source.
-/

namespace TypingStore.Objects

/-- A value as a span, if it is present. -/
def asSpan (objects : Objects) : Value → Except Failure (Option Span)
  | .absent => .ok none
  | v => do
    return some { startLine := ← objects.need v "start_line"
                  startColumn := ← objects.need v "start_column"
                  endLine := ← objects.need v "end_line"
                  endColumn := ← objects.need v "end_column" }

/-- The place of a value in the source, as far as it is noted. -/
def spanOf (objects : Objects) (v : Value) : Except Failure (Option Span) :=
  objects.asSpan (objects.get v "span")

/-- The node a value speaks of: that of a type error, or the one that is noted. -/
def nodeOf (objects : Objects) (v : Value) : Value := objects.get v "node"

/-- The start of a span, `line:column`; the end is not asked for. -/
def start (objects : Objects) (span : Value) : Except Failure String := do
  let line ← objects.need span "start_line"
  let column ← objects.need span "start_column"
  return Span.start objects.plain { startLine := line, startColumn := column }

/-- The start of a value in the source, or question marks. -/
def startOf (objects : Objects) (v : Value) : Except Failure String :=
  match objects.get v "span" with
  | .absent => .ok "?:?"
  | span => objects.start span

/-- The first line of the source text of a value, or the name of its kind when it has none. -/
def excerptOf (objects : Objects) (v : Value) : Except Failure String :=
  let source := objects.get v "source"
  if source.isTrue then
    match source with
    | .text _ s => .ok (String.ofList (s.toList.takeWhile (· ≠ '\n')))
    | other => objects.operation other "split" (.error (.noSuchField other.kindName "split"))
  else .ok v.kindName

/-- The summary of a value on one line: where it starts, and the first line of its source. -/
def summary (objects : Objects) (v : Value) : Except Failure String := do
  let start ← objects.startOf v
  let excerpt ← objects.excerptOf v
  return start ++ ":" ++ excerpt

end TypingStore.Objects
