import TypingStore.Objects
import TypingStore.Types.Union
import TypingStore.Value.Equality

/-!
# Equality of values at a moment

Equality looks into the records that a value refers to, so it is a matter of the moment. Records
may refer to records, but never in a circle, so a value is followed through at most as many records
as there are objects.

* `Objects.shape`, `Objects.equal`: equality of values at this moment.
* `Objects.join`: the join of several types, equal members counted once.
-/

namespace TypingStore.Objects

/-- The shapes of the fields of a record, followed through `depth` records. -/
def fieldShapes (objects : Objects) : (depth : Nat) → Value.Lens
  | 0, ref => [.of (.itself (.object ref.index)) []]
  | depth + 1, ref => Value.shapes (objects.fieldShapes depth) (objects.fields ref)

/-- How records are seen at this moment. -/
def lens (objects : Objects) : Value.Lens := objects.fieldShapes objects.attributes.size

/-- Compares the fields of two records. One and the same record is not looked into. -/
def compareFields (objects : Objects) : (depth : Nat) → (ref ref' : RecordRef) →
    Value.Answer (objects.fieldShapes depth ref = objects.fieldShapes depth ref')
  | 0, ref, ref' => ⟨ref.index = ref'.index, by simp [fieldShapes]⟩
  | depth + 1, ref, ref' =>
    if same : ref = ref' then ⟨true, by simp [same]⟩
    else Value.compareShapes (objects.fieldShapes depth) (objects.compareFields depth)
      (objects.fields ref) (objects.fields ref')

/-- The shape of a value at this moment. -/
def shape (objects : Objects) (v : Value) : Shape := v.shape objects.lens

/-- Compares two values at this moment. -/
def compare (objects : Objects) (a b : Value) :
    Value.Answer (objects.shape a = objects.shape b) :=
  Value.compareShape objects.lens (objects.compareFields objects.attributes.size) a b

/-- Whether two values are equal at this moment. -/
def equal (objects : Objects) (a b : Value) : Bool := (objects.compare a b).1

theorem equal_iff {objects : Objects} {a b : Value} :
    objects.equal a b = true ↔ objects.shape a = objects.shape b := (objects.compare a b).2

/-- The join of several types: their only member, or a new union of their members. -/
def join (objects : Objects) (types : List Value) : Except Failure Value × Objects :=
  match Types.joined objects.equal types with
  | [] => (.error .emptyJoin, objects)
  | [type] => (.ok type, objects)
  | members =>
    let (union, objects) := objects.make fun stamp => .unionType stamp members
    (.ok union, objects)

end TypingStore.Objects
