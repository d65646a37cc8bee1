import TypingStore.Objects.Forms
import TypingStore.Value.Builtin

/-!
# Assigning to fields

Records and individuals can be changed field by field, and anything can be noted about them under
a name that is no field; only a few reserved names refuse what does not belong there. Types, type
errors and locations never change, and plain data has no fields to change.

* `RecordKind.kept`, `IndividualKind.kept`: what an object keeps of what it is given.
* `Objects.assign`: the objects after an assignment, or the refusal.
* `Objects.levelOf`: the log level that a number stands for.
-/

namespace TypingStore

/-- A value as a row of values: the items of a list or a tuple, the characters of a text. -/
def Value.toRow : Value → Except Failure (List Value)
  | .list _ items | .tuple _ items => .ok items
  | .text _ s => .ok (s.toList.map fun c => .ofText c.toString)
  | v => .error (.notIterable v.kindName)

/-- Whether a value can be raised. -/
def Value.isRaisable : Value → Bool
  | .individual ref => ref.kind.isRaisable
  | _ => false

/-- What an object of this family keeps when `new` is assigned to one of its fields. No value is a
class or a dictionary of attributes, and the weak references to an object are its own. -/
def keptByObject (family field : String) (new : Value) : Except Failure Value :=
  match field with
  | "__class__" => .error (.notClass new.kindName)
  | "__dict__" => .error (.notDictionary new.kindName)
  | "__weakref__" => .error (.unwritableField family field)
  | _ => .ok new

/-- What an exception keeps when `new` is assigned to one of its fields. What it says is kept as a
row, and it can only follow on another exception. It has no weak references, so their name is
free. -/
def keptByException (field : String) (new : Value) : Except Failure Value :=
  match field with
  | "args" => new.toRow.map (.tuple ⟨0⟩)
  | "__class__" => .error (.notClass new.kindName)
  | "__dict__" => .error (.notDictionary new.kindName)
  | "__traceback__" => if new.isSame .absent then .ok new else .error .notTrace
  | "__cause__" => chained "cause"
  | "__context__" => chained "context"
  | "__suppress_context__" =>
    match new with
    | .bool _ => .ok new
    | _ => .error .notSwitch
  | _ => .ok new
where
  chained (link : String) : Except Failure Value :=
    if new.isSame .absent || new.isRaisable then .ok new else .error (.notChained link)

/-- What a record of this kind keeps when `new` is assigned to one of its fields. -/
def RecordKind.kept (kind : RecordKind) (field : String) (new : Value) : Except Failure Value :=
  keptByObject kind.general.name field new

/-- What an individual of this kind keeps when `new` is assigned to one of its fields. -/
def IndividualKind.kept (kind : IndividualKind) (field : String) (new : Value) :
    Except Failure Value :=
  match kind with
  | .foreign _ => keptByObject kind.general.name field new
  | .exception _ => keptByException field new
  | .fault _ => do keptByException field (← keptByObject kind.general.name field new)

namespace Objects

/-- Assigns `new` to a field of `target`. -/
def assign (objects : Objects) (target : Value) (field : String) (new : Value) :
    Except Failure Objects :=
  match target with
  | .record ref => (ref.kind.kept field new).map (objects.set ref.index field)
  | .individual ref => (ref.kind.kept field new).map (objects.set ref.index field)
  | .instanceType _ _ _ | .unionType _ _ | .procType _ _ _ | .anyType _ | .nilType _
  | .typeError _ _ _ _ | .location _ _ _ => .error (.frozenField field)
  | .absent | .bool _ | .int _ _ | .text _ _ | .level _ | .policy _ | .list _ _ | .tuple _ _ =>
    .error (target.refusal field new)

/-- The log level that a value stands for: that of its number. -/
def levelOf (objects : Objects) (v : Value) : Except Failure LogLevel :=
  match v.number?.bind LogLevel.ofRank? with
  | some level => .ok level
  | none => .error (.noSuchLevel (objects.written v))

end Objects

end TypingStore
