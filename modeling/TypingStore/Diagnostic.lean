import TypingStore.Failure
import TypingStore.Span
import TypingStore.Text.Path

/-!
# Diagnostics

A finding that is reported to the user: its kind, its message, and where it is, as far as that is
known. As with spans, the fields hold whatever they were given.

* `Diagnostic.of`: a finding at a span, or at no known place.
* `Diagnostic.format`: the one-line form, `<file>:<line>:<column>(<unit>): <kind>: <message>`
  with the absent parts left out.
* `Diagnostic.editorRange`: the range as editors count it, from zero.
* `Diagnostic.editorRange_of_span`: a finding at a known span has that span's range.
-/

namespace TypingStore

open Text

/-- A finding of the checker in one unit. The end of the range is excluded, as in a span. -/
structure Diagnostic where
  kind : Value
  message : Value
  unit : Value := .absent
  filename : Value := .absent
  line : Value := .absent
  column : Value := .absent
  endLine : Value := .absent
  endColumn : Value := .absent
  deriving Inhabited

/-- One less than a number, as editors count. -/
def Value.zeroBased (v : Value) : Except Failure Int :=
  match v.number? with
  | some n => .ok (n - 1)
  | none => .error (.notNumber v.kindName)

namespace Diagnostic

/-- A finding at `span`, or without a position when there is none. -/
def of (kind message unit filename : Value) (span : Option Span) : Diagnostic where
  kind := kind
  message := message
  unit := unit
  filename := filename
  line := (span.getD {}).startLine
  column := (span.getD {}).startColumn
  endLine := (span.getD {}).endLine
  endColumn := (span.getD {}).endColumn

/-- The fields of a finding, in declaration order. -/
def fields (d : Diagnostic) : List Value :=
  [d.kind, d.message, d.unit, d.filename, d.line, d.column, d.endLine, d.endColumn]

/-- The position of a finding, as far as it is known: column and unit are only shown after a
line. -/
def position (plain : Value → String) (d : Diagnostic) : String :=
  match d.line with
  | .absent => ""
  | line =>
    ":" ++ plain line
      ++ (match d.column with
        | .absent => ""
        | column => ":" ++ plain column)
      ++ (match d.unit with
        | .absent => ""
        | unit => "(" ++ plain unit ++ ")")

/-- Where a finding is: its file as an absolute path read from `cwd`, then its position. -/
def place (plain : Value → String) (cwd : String) (d : Diagnostic) : String :=
  (match d.filename with
    | .absent => ""
    | filename => Path.absolute cwd (plain filename))
    ++ d.position plain

/-- The one-line form of a finding, given the plain text of values. -/
def format (plain : Value → String) (cwd : String) (d : Diagnostic) : String :=
  (if d.place plain cwd = "" then "" else d.place plain cwd ++ ": ")
    ++ plain d.kind ++ ": " ++ plain d.message

/-- The range from start to end as editors count it, from zero; only for a full position. -/
def editorRange (d : Diagnostic) : Except Failure (Option ((Int × Int) × (Int × Int))) :=
  match d.line, d.column, d.endLine, d.endColumn with
  | .absent, _, _, _ | _, .absent, _, _ | _, _, .absent, _ | _, _, _, .absent => .ok none
  | line, column, endLine, endColumn => do
    let start := (← line.zeroBased, ← column.zeroBased)
    let stop := (← endLine.zeroBased, ← endColumn.zeroBased)
    return some (start, stop)

/-- Whether the finding makes its unit fail. -/
def isError (d : Diagnostic) : Bool :=
  match d.kind with
  | .text _ kind => kind = "error" || kind = "internal"
  | _ => false

/-- **A finding at a known span has that span's range**, counted from zero. -/
theorem editorRange_of_span (kind message unit filename : Value) (a b c d : Stamp)
    (line column endLine endColumn : Int) :
    (of kind message unit filename
        (some ⟨.int a line, .int b column, .int c endLine, .int d endColumn⟩)).editorRange =
      .ok (some ((line - 1, column - 1), (endLine - 1, endColumn - 1))) := rfl

/-- A finding without a span has no range. -/
theorem editorRange_of_none (kind message unit filename : Value) :
    (of kind message unit filename none).editorRange = .ok none := rfl

end Diagnostic

end TypingStore
