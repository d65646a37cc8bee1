import TypingStore.Store

/-!
# From errors to diagnostics

The errors in a context and the fault that ended a unit, as findings for the user. A span that is
none makes a report fail, and so does an operation that is hidden.

* `Objects.diagnosticOf`: the diagnostic of an error.
* `Objects.diagnosticOfFault`: the diagnostic of a fault, of the kind `internal`.
* `Objects.oneLine`, `Objects.editorRange`: what a value reports of itself.
* `Store.diagnostics`: one diagnostic for each error in a context, in order.
-/

namespace TypingStore

/-- A finding at a node. -/
def Objects.diagnosticAt (objects : Objects) (kind message unit filename node : Value) :
    Except Failure Diagnostic :=
  (objects.spanOf node).map (.of kind message unit filename)

/-- The diagnostic of an error. A type error is reported with its own kind, message and node; an
error of another model as best it can be: as an error with its text, at the node it speaks of. -/
def Objects.diagnosticOf (objects : Objects) (unit filename : Value) :
    (error : Value) → Except Failure Diagnostic
  | .typeError _ node message kind =>
    objects.diagnosticAt (.ofText kind) (.ofText message) unit filename node
  | error =>
    objects.diagnosticAt (.ofText "error") (.ofText (objects.plain error)) unit filename
      (objects.get error "node")

/-- The kind under which an error is reported. -/
def Value.errorKind : Value → String
  | .typeError _ _ _ kind => kind
  | _ => "error"

/-- Every error is reported with its plain text, at the node it speaks of: the plain text of a type
error is its message, and its node is the one that is noted. -/
theorem Objects.diagnosticOf_eq (objects : Objects) (unit filename error : Value) :
    objects.diagnosticOf unit filename error =
      objects.diagnosticAt (.ofText error.errorKind) (.ofText (objects.plain error)) unit filename
        (objects.nodeOf error) := by
  cases error <;> rfl

/-- The internal diagnostic at the location of a value, with the given report as its message. -/
def Objects.diagnosticOfReport (objects : Objects) (unit filename v : Value)
    (report : Except Failure String) : Except Failure Diagnostic := do
  let span ← objects.asSpan (← objects.locationSpan v)
  return .of (.ofText "internal") (.ofText (← report)) unit filename span

/-- The diagnostic of a fault, at the span of the fault. -/
def Objects.diagnosticOfFault (objects : Objects) (unit filename : Value) (ref : FaultRef) :
    Except Failure Diagnostic :=
  objects.diagnosticOfReport unit filename ref.value (objects.report ref)

/-- The one-line form a value gives of itself: faults and diagnostics have one. -/
def Objects.oneLine (objects : Objects) (cwd : String) (v : Value) : Except Failure String :=
  match v with
  | .individual ⟨index, .fault kind⟩ => objects.report ⟨index, kind⟩
  | .record ref@⟨_, .diagnostic⟩ =>
    objects.operation v "format" (.ok ((objects.diagnostic ref).format objects.plain cwd))
  | _ => objects.operation v "format" (.error (.noSuchField v.kindName "format"))

/-- The range a value gives of itself, as editors count it: diagnostics have one. -/
def Objects.editorRange (objects : Objects) (v : Value) :
    Except Failure (Option ((Int × Int) × (Int × Int))) :=
  objects.operation v "lsp_range" <|
    match v with
    | .record ref@⟨_, .diagnostic⟩ => (objects.diagnostic ref).editorRange
    | _ => .error (.noSuchField v.kindName "lsp_range")

/-- The diagnostics of the errors in a context, in order. -/
def Store.diagnostics (s : Store) (c : ContextId) (unit filename : Value) :
    Except Failure (List Diagnostic) :=
  (s.context c).errors.mapM (s.objects.diagnosticOf unit filename)

end TypingStore
