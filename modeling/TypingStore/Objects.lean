import TypingStore.Bindings
import TypingStore.Diagnostic

/-!
# Objects

The attributes of the objects that can change, and the supply of stamps for those that cannot.
Objects are kept in the order in which they were made, and references are positions in that order,
so a reference stays good for ever.

Attributes go by name. A record starts with its declared fields, but anything can be noted about
any object later on: where its source text stands (`span`), what that text is (`source`), the node
it speaks of (`node`). So what works on a syntax node works on whatever looks like one.

* `Objects`: everything made so far.
* `Objects.attribute?`, `Objects.get`, `Objects.need`: the attributes of a value.
* `Objects.operation`: an operation, unless an attribute of its name hides it.
* `Objects.attribute?_set`: what is read back after a change.
* `Objects.newRecord` and its kin: making objects.
* `Objects.instanceOf`: the one type of the instances of a class.
-/

namespace TypingStore

/-- All objects made so far. -/
structure Objects where
  /-- The attributes of each object, by name. -/
  attributes : Array (Bindings String Value) := #[]
  /-- The one type made for each class name asked for. -/
  canonical : List (String × Value) := []
  /-- The number of the next stamp. -/
  nextStamp : Nat := 1

/-- The place of a value among the objects that can change, if it is one of them. -/
def Value.index? : Value → Option Nat
  | .record ref => some ref.index
  | .individual ref => some ref.index
  | _ => none

namespace Objects

instance : Inhabited Objects := ⟨{}⟩

/-! ## Attributes -/

/-- The attributes of the object at a position. -/
def attributesAt (objects : Objects) (index : Nat) : Bindings String Value :=
  objects.attributes.getD index {}

/-- The attribute of this name of a value, if it has one. -/
def attribute? (objects : Objects) : Value → (name : String) → Option Value
  | .record ref, name => (objects.attributesAt ref.index).get? name
  | .individual ref, name => (objects.attributesAt ref.index).get? name
  | .typeError _ node message kind, name =>
    [("node", node), ("message", .ofText message), ("kind", .ofText kind)].lookup name
  | .location _ filename span, name => [("filename", filename), ("span", span)].lookup name
  | _, _ => none

/-- An attribute of a value, absent when it has none of that name. -/
def get (objects : Objects) (v : Value) (name : String) : Value :=
  (objects.attribute? v name).getD .absent

/-- An attribute that a value has to have. -/
def need (objects : Objects) (v : Value) (name : String) : Except Failure Value :=
  match objects.attribute? v name with
  | some found => .ok found
  | none => .error (.noSuchField v.kindName name)

/-- What an operation of a value answers. A value that is noted under the name of the operation
hides it, and cannot be carried out in its place. -/
def operation {α : Type} (objects : Objects) (v : Value) (name : String)
    (answer : Except Failure α) : Except Failure α :=
  match objects.attribute? v name with
  | some noted => .error (.notCallable noted.kindName)
  | none => answer

/-- Changes an attribute of the object at a position, or adds one. -/
def set (objects : Objects) (index : Nat) (name : String) (new : Value) : Objects :=
  { objects with
    attributes := objects.attributes.modify index fun attributes => attributes.insert name new }

/-- **What is read back after a change**: the attribute that was changed, of the very object it was
changed of, and every other as it was. -/
theorem attribute?_set (objects : Objects) {index : Nat} (made : index < objects.attributes.size)
    (field name : String) (new v : Value) :
    (objects.set index field new).attribute? v name =
      if v.index? = some index ∧ field = name then some new else objects.attribute? v name := by
  have read (i : Nat) : ((objects.set index field new).attributesAt i).get? name =
      if i = index ∧ field = name then some new else (objects.attributesAt i).get? name := by
    simp only [attributesAt, set, Array.getD_eq_getD_getElem?, Array.getElem?_modify]
    by_cases here : i = index
    · subst here
      by_cases same : field = name <;> simp [made, same, Bindings.get?_insert]
    · simp [here, Ne.symm here]
  cases v <;> simp [attribute?, Value.index?, read]

/-! ## Making objects -/

/-- An object whose contents do not change, with a stamp of its own. -/
def make (objects : Objects) (build : Stamp → Value) : Value × Objects :=
  (build ⟨objects.nextStamp⟩, { objects with nextStamp := objects.nextStamp + 1 })

/-- An integer. -/
def number (objects : Objects) (n : Int) : Value × Objects := objects.make fun stamp => .int stamp n

/-- Adds an object with these attributes. -/
def add (objects : Objects) (attributes : List (String × Value)) : Objects :=
  { objects with attributes := objects.attributes.push ⟨attributes⟩ }

/-- A new record, with what else is known of it; fields that are not given are absent. -/
def newRecord (objects : Objects) (kind : RecordKind) (fields : List Value)
    (others : List (String × Value) := []) : RecordRef × Objects :=
  let missing := List.replicate (kind.fieldNames.length - fields.length) Value.absent
  (⟨objects.attributes.size, kind⟩, objects.add (kind.fieldNames.zip (fields ++ missing) ++ others))

/-- A new individual. -/
def newIndividual (objects : Objects) (kind : IndividualKind)
    (attributes : List (String × Value)) : IndividualRef × Objects :=
  (⟨objects.attributes.size, kind⟩, objects.add attributes)

/-- A new syntax node. -/
def newNode (objects : Objects) (kind : NodeKind) (fields : List Value)
    (span source : Value := .absent) : RecordRef × Objects :=
  objects.newRecord (.node kind) fields [("span", span), ("source", source)]

/-- A new span. -/
def newSpan (objects : Objects) (span : Span) : RecordRef × Objects :=
  objects.newRecord .span span.fields

/-- A new diagnostic. -/
def newDiagnostic (objects : Objects) (diagnostic : Diagnostic) : RecordRef × Objects :=
  objects.newRecord .diagnostic diagnostic.fields

/-- A new plain exception, which says `message`. -/
def newException (objects : Objects) (kind : ExceptionKind) (message : Value) :
    IndividualRef × Objects :=
  objects.newIndividual (.exception kind) [("args", .tuple ⟨0⟩ [message])]

/-- A new settings object: how much is reported, whether report lines carry the time, and when
versions advance. -/
def newSettings (objects : Objects) (verbosity : Value := .level .warning)
    (stamped : Value := .bool false) (versions : Value := .policy .firstWriteAfterSpawn) :
    SettingsRef × Objects :=
  let (ref, objects) := objects.newRecord .settings [verbosity, stamped, versions]
  (⟨ref.index⟩, objects)

/-- The settings that are given, or new default ones. -/
def settingsOr (objects : Objects) : Option SettingsRef → SettingsRef × Objects
  | some ref => (ref, objects)
  | none => objects.newSettings

/-- The type of the instances of a class without arguments: the one made before, if there is
one. -/
def instanceOf (objects : Objects) (name : String) : Value × Objects :=
  match objects.canonical.lookup name with
  | some type => (type, objects)
  | none =>
    let (type, objects) := objects.make fun stamp => .instanceType stamp name []
    (type, { objects with canonical := (name, type) :: objects.canonical })

/-! ## What objects hold -/

/-- The fields of a record, in declaration order. -/
def fields (objects : Objects) (ref : RecordRef) : List Value :=
  ref.kind.fieldNames.map (objects.get (.record ref))

/-- What an exception or a fault says, as the values it was given. -/
def arguments (objects : Objects) (ref : IndividualRef) : List Value :=
  match objects.get (.individual ref) "args" with
  | .tuple _ items => items
  | _ => []

/-- What a diagnostic holds. -/
def diagnostic (objects : Objects) (ref : RecordRef) : Diagnostic :=
  let get := objects.get (.record ref)
  { kind := get "kind", message := get "message", unit := get "module_name"
    filename := get "filename", line := get "line", column := get "column"
    endLine := get "end_line", endColumn := get "end_column" }

/-- A value as a diagnostic: anything with the fields of one will do. -/
def asDiagnostic (objects : Objects) (v : Value) : Except Failure Diagnostic := do
  let need := objects.need v
  return { kind := ← need "kind", message := ← need "message", unit := ← need "module_name"
           filename := ← need "filename", line := ← need "line", column := ← need "column"
           endLine := ← need "end_line", endColumn := ← need "end_column" }

/-- The settings as they are followed. They are taken to be what their fields are declared to hold:
`log_level` a level or another number, `log_rich_format` a switch, `version_bump` a policy. A switch
that is none counts by whether it is true, and a policy that is none as the one that is not
`everyWrite`; a level that is no number cannot be compared with another, and is left out of account
here by reading it as zero. -/
def settingsOf (objects : Objects) (ref : SettingsRef) : Settings where
  verbosity := ((objects.get ref.value "log_level").number?).getD 0
  stamped := (objects.get ref.value "log_rich_format").isTrue
  versions := match objects.get ref.value "version_bump" with
    | .policy p => p
    | _ => .firstWriteAfterSpawn

end Objects

end TypingStore
