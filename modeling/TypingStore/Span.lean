import TypingStore.Value

/-!
# Source spans

A stretch of source text: where it starts and where it ends, in lines and columns counted from
one, the end excluded. The coordinates are not checked: whatever stands in their place is taken as
it is.
-/

namespace TypingStore

/-- A stretch of source text, counted from one, its end excluded. -/
structure Span where
  startLine : Value := .absent
  startColumn : Value := .absent
  endLine : Value := .absent
  endColumn : Value := .absent
  deriving Inhabited

namespace Span

/-- The coordinates of a span, in declaration order. -/
def fields (s : Span) : List Value := [s.startLine, s.startColumn, s.endLine, s.endColumn]

/-- The start of a span, `line:column`, given the plain text of values. -/
def start (plain : Value → String) (s : Span) : String :=
  plain s.startLine ++ ":" ++ plain s.startColumn

end Span

end TypingStore
