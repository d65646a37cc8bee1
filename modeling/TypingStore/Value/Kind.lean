import TypingStore.Syntax

/-!
# Kinds of objects

The kinds of the objects whose attributes can change. A **record** has declared fields: it is
written with them, and it equals the records of its kind whose fields are equal to its own. An
**individual** equals only itself.

* `RecordKind`: syntax nodes, spans, diagnostics and settings, with the names of their fields.
* `ForeignKind`: the classes of objects of another model, with the texts of their objects.
* `IndividualKind`: objects of another model, plain exceptions and internal faults.
-/

namespace TypingStore

/-- The kinds of record. -/
inductive RecordKind where
  | node (kind : NodeKind)
  | span
  | diagnostic
  | settings
  deriving DecidableEq, Inhabited

namespace RecordKind

/-- The name a kind is written with. -/
def name : RecordKind → String
  | node kind => kind.name
  | span => "Span"
  | diagnostic => "Diagnostic"
  | settings => "CheckOptions"

/-- The names of the fields of a kind, in declaration order. -/
def fieldNames : RecordKind → List String
  | node kind => kind.fieldNames
  | span => ["start_line", "start_column", "end_line", "end_column"]
  | diagnostic =>
    ["kind", "message", "module_name", "filename", "line", "column", "end_line", "end_column"]
  | settings => ["log_level", "log_rich_format", "version_bump"]

/-- The kind that stands for its family: a bare node for all syntax nodes. -/
def general : RecordKind → RecordKind
  | node _ => node .node
  | kind => kind

end RecordKind

/-- The kinds of plain exception an engine raises on its own account. -/
inductive ExceptionKind where
  | badValue
  | runtime
  deriving DecidableEq, Inhabited

/-- The name a kind of exception is written with. -/
def ExceptionKind.name : ExceptionKind → String
  | badValue => "ValueError"
  | runtime => "RuntimeError"

/-- The kinds of internal fault. A fault is a mistake of the engine, not of the program it
checks. -/
inductive FaultKind where
  /-- Any other fault, in words of its own. -/
  | other
  /-- No context up to the root has a type for a node. -/
  | nodeNotTyped
  /-- No context up to the root has a type for a variable. -/
  | variableNotTyped
  /-- The parent was written to after the context was created. -/
  | staleContext
  /-- A root has no parent to commit into. -/
  | commitOnRoot
  deriving DecidableEq, Inhabited

namespace FaultKind

/-- The name a kind of fault is written with. -/
def name : FaultKind → String
  | other => "InternalCheckerError"
  | nodeNotTyped => "NodeNotTyped"
  | variableNotTyped => "VariableNotTyped"
  | staleContext => "StaleContext"
  | commitOnRoot => "CommitOnRoot"

/-- The code a kind of fault is known by. -/
def code : FaultKind → String
  | other => "ICE-9999"
  | nodeNotTyped => "ICE-0010"
  | variableNotTyped => "ICE-0011"
  | staleContext => "ICE-0020"
  | commitOnRoot => "ICE-0030"

end FaultKind

/-- A piece of the text of an object of another model. -/
inductive Piece where
  | words (s : String)
  /-- The plain text of the object's tag. -/
  | tag
  /-- The written form of the object's tag. -/
  | writtenTag
  deriving DecidableEq

/-- A class of objects of another model. The class decides how they are shown; what differs from
object to object is the tag. -/
structure ForeignKind where
  name : String
  /-- The written form of the objects. -/
  written : List Piece
  /-- The plain text of the objects. -/
  plain : List Piece
  /-- The name of a class is a name: it has no line break. -/
  oneLine_name : '\n' ∉ name.toList
  deriving DecidableEq

/-- The class whose objects show their tag and nothing else. -/
@[match_pattern] def ForeignKind.tagged : ForeignKind where
  name := "Foreign"
  written := [.words "Foreign<", .tag, .words ">"]
  plain := [.words "foreign: ", .tag]
  oneLine_name := by decide

instance : Inhabited ForeignKind := ⟨.tagged⟩

/-- The kinds of individual. -/
inductive IndividualKind where
  /-- An object of another model, of the given class. -/
  | foreign (kind : ForeignKind := .tagged)
  | exception (kind : ExceptionKind)
  | fault (kind : FaultKind)
  deriving DecidableEq, Inhabited

namespace IndividualKind

/-- The name a kind is written with. -/
def name : IndividualKind → String
  | foreign kind => kind.name
  | exception kind => kind.name
  | fault kind => kind.name

/-- Whether individuals of this kind can be raised. They keep what they say as arguments. -/
def isRaisable : IndividualKind → Bool
  | foreign _ => false
  | exception _ | fault _ => true

/-- The kind that stands for its family: a fault in words of its own for all faults. -/
def general : IndividualKind → IndividualKind
  | fault _ => fault .other
  | kind => kind

end IndividualKind

end TypingStore
