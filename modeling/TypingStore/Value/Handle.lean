import TypingStore.Value.Equality

/-!
# Variable handles

Variables are bound under values, compared by equality. A value that can change its equality
later on (a list, a record), or that has such a part, is refused.

* `Value.unhashable?`: the kind of the first part that is refused, if there is one.
* `Handle`: a value that can be bound, with its equality.
* `Value.shape_eq_of_hashable`: the shape of a handle does not depend on what any record holds, so
  handles compare alike at all times.
-/

namespace TypingStore

namespace Value

mutual

/-- The kind of the first part, from left to right, that rules the value out as a handle. -/
def unhashable? : Value → Option String
  | .list _ _ => some "list"
  | .record ref => some ref.kind.name
  | .tuple _ items => firstUnhashable? items
  | .instanceType _ _ args => firstUnhashable? args
  | .unionType _ members => firstUnhashable? members
  | .procType _ params result =>
    match firstUnhashable? params with
    | some kind => some kind
    | none => unhashable? result
  | .location _ filename span =>
    match unhashable? filename with
    | some kind => some kind
    | none => unhashable? span
  | .absent | .bool _ | .int _ _ | .text _ _ | .level _ | .policy _ | .anyType _ | .nilType _
  | .typeError _ _ _ _ | .individual _ => none

/-- The first such kind among several values. -/
def firstUnhashable? : List Value → Option String
  | [] => none
  | v :: vs =>
    match unhashable? v with
    | some kind => some kind
    | none => firstUnhashable? vs

end

mutual

theorem parts_eq_of_hashable (lens lens' : Lens) :
    ∀ v : Value, v.unhashable? = none → v.parts lens = v.parts lens'
  | .list _ _, h | .record _, h => by simp [unhashable?] at h
  | .tuple _ items, h | .instanceType _ _ items, h | .unionType _ items, h => by
    simpa [parts] using
      shapes_eq_of_hashable lens lens' items (by simpa [unhashable?] using h)
  | .procType _ params result, h => by
    rw [unhashable?] at h
    split at h
    · cases h
    · next first =>
      rw [parts, parts, shapes_eq_of_hashable lens lens' params first,
        parts_eq_of_hashable lens lens' result h]
  | .location _ filename span, h => by
    rw [unhashable?] at h
    split at h
    · cases h
    · next first =>
      rw [parts, parts, parts_eq_of_hashable lens lens' filename first,
        parts_eq_of_hashable lens lens' span h]
  | .absent, _ | .bool _, _ | .int _ _, _ | .text _ _, _ | .level _, _ | .policy _, _
  | .anyType _, _ | .nilType _, _ | .typeError _ _ _ _, _ | .individual _, _ => rfl

theorem shapes_eq_of_hashable (lens lens' : Lens) :
    ∀ vs : List Value, firstUnhashable? vs = none → shapes lens vs = shapes lens' vs
  | [], _ => rfl
  | v :: vs, h => by
    rw [firstUnhashable?] at h
    split at h
    · cases h
    · next first =>
      rw [shapes, shapes, parts_eq_of_hashable lens lens' v first,
        shapes_eq_of_hashable lens lens' vs h]

end

/-- **The shape of a handle is its own**: no record has to be looked into. -/
theorem shape_eq_of_hashable (lens lens' : Lens) (v : Value) (h : v.unhashable? = none) :
    v.shape lens = v.shape lens' := by
  rw [shape, shape, parts_eq_of_hashable lens lens' v h]

end Value

/-- A value under which a variable can be bound. -/
structure Handle where
  value : Value
  hashable : value.unhashable? = none

namespace Handle

/-- The value as a handle, or the kind of the part that rules it out. -/
def ofValue (v : Value) : Except String Handle :=
  match h : v.unhashable? with
  | none => .ok ⟨v, h⟩
  | some kind => .error kind

/-- A lens for values without records. -/
def lens : Value.Lens := fun _ => []

/-- What two equal handles have in common. -/
def shape (handle : Handle) : Shape := handle.value.shape lens

/-- Compares two handles. -/
def compare (a b : Handle) : Value.Answer (a.shape = b.shape) :=
  Value.compareShape lens (fun _ _ => ⟨true, by simp [lens]⟩) a.value b.value

/-- Handles are compared by equality, not by identity. -/
instance : BEq Handle := ⟨fun a b => (compare a b).1⟩

theorem beq_iff {a b : Handle} : (a == b) = true ↔ a.shape = b.shape := (compare a b).2

instance : EquivBEq Handle where
  rfl := beq_iff.2 rfl
  symm h := beq_iff.2 (beq_iff.1 h).symm
  trans h h' := beq_iff.2 ((beq_iff.1 h).trans (beq_iff.1 h'))

end Handle

end TypingStore
