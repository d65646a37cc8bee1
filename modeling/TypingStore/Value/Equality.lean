import TypingStore.Value.Shape

/-!
# Deciding equality of values

Values share their parts, and a shape does not: it can be far larger than its value. So whether two
shapes are equal is found out from the values themselves, without building the shapes. Kinds are
compared before parts, parts one by one up to the first that differ, and where both sides hold one
and the same object there is nothing to compare.

* `Value.Answer`: a truth value, with the proof that it is the right one.
* `Value.compareShape`: whether two values have the same shape.
-/

namespace TypingStore

namespace Value

/-- The values in a row that a value holds: its items, arguments, members or parameters. -/
def items : Value → List Value
  | .list _ items | .tuple _ items | .instanceType _ _ items | .unionType _ items
  | .procType _ items _ => items
  | _ => []

/-- The result of a procedure; other values have none. -/
def result : Value → Value
  | .procType _ _ result => result
  | _ => .absent

/-- The file a location names; other values have none. -/
def namedFile : Value → Value
  | .location _ filename _ => filename
  | _ => .absent

/-- The span a location names; other values have none. -/
def namedSpan : Value → Value
  | .location _ _ span => span
  | _ => .absent

/-- The record a value refers to, if it is one. -/
def recordRef : Value → RecordRef
  | .record ref => ref
  | _ => default

/-- What a value is tells which parts it has. -/
theorem parts_eq (lens : Lens) (v : Value) :
    v.parts lens = match v.head with
      | .list | .tuple | .instanceType _ | .unionType => shapes lens v.items
      | .procType => [.of .tuple (shapes lens v.items), v.result.shape lens]
      | .location => [v.namedFile.shape lens, v.namedSpan.shape lens]
      | .record _ => lens v.recordRef
      | _ => [] := by
  cases v <;> rfl

theorem parts_location (lens : Lens) (stamp : Stamp) (filename span : Value) :
    (location stamp filename span).parts lens = [filename.shape lens, span.shape lens] := rfl

/-- The answer to a question, with the proof that it is the right one. -/
abbrev Answer (p : Prop) : Type := { yes : Bool // yes = true ↔ p }

/-- A way to tell whether two records hold fields of the same shapes. -/
abbrev CompareFields (lens : Lens) : Type := (ref ref' : RecordRef) → Answer (lens ref = lens ref')

/-- Compares the shapes of two values, given a way to compare their parts. One and the same object
is not looked into. -/
def compareBy (lens : Lens) (a b : Value)
    (parts : a.head = b.head → Answer (a.parts lens = b.parts lens)) :
    Answer (a.shape lens = b.shape lens) :=
  let compared (_ : Unit) : Answer (a.shape lens = b.shape lens) :=
    if h : a.head = b.head then ⟨(parts h).1, by simp [shape, h, (parts h).2]⟩
    else ⟨false, by simp [shape, h]⟩
  ⟨withPtrEq a b (fun _ => (compared ()).1) fun same => (compared ()).2.2 (same ▸ rfl),
    (compared ()).2⟩

mutual

/-- Compares the parts of two values that are the same apart from these. -/
def compareParts (lens : Lens) (fields : CompareFields lens) :
    (a b : Value) → a.head = b.head → Answer (a.parts lens = b.parts lens)
  | .list _ items, b, h | .tuple _ items, b, h | .instanceType _ _ items, b, h
  | .unionType _ items, b, h =>
    ⟨(compareShapes lens fields items b.items).1, by
      rw [(compareShapes lens fields items b.items).2, parts_eq lens b, ← h]; rfl⟩
  | .procType _ params result, b, h =>
    match compareShapes lens fields params b.items with
    | ⟨false, first⟩ => ⟨false, by rw [parts_eq lens b, ← h]; simp [parts, head, ← first]⟩
    | ⟨true, first⟩ =>
      let answer := compareBy lens result b.result (compareParts lens fields result b.result)
      ⟨answer.1, by rw [answer.2, parts_eq lens b, ← h]; simp [parts, head, shape, ← first]⟩
  | .location _ filename span, b, h =>
    match compareBy lens filename b.namedFile (compareParts lens fields filename b.namedFile) with
    | ⟨false, first⟩ => ⟨false, by rw [parts_location, parts_eq lens b, ← h]; simp [head, ← first]⟩
    | ⟨true, first⟩ =>
      let answer := compareBy lens span b.namedSpan (compareParts lens fields span b.namedSpan)
      ⟨answer.1, by
        rw [answer.2, parts_location, parts_eq lens b, ← h]; simp [head, ← first]⟩
  | .record ref, b, h =>
    ⟨(fields ref b.recordRef).1, by rw [(fields ref b.recordRef).2, parts_eq lens b, ← h]; rfl⟩
  | .absent, b, h | .bool _, b, h | .int _ _, b, h | .text _ _, b, h | .level _, b, h
  | .policy _, b, h | .anyType _, b, h | .nilType _, b, h | .typeError _ _ _ _, b, h
  | .individual _, b, h =>
    ⟨true, by rw [parts_eq lens b, ← h]; simp [parts, head]⟩

/-- Compares the shapes of the values of two lists, one by one up to the first that differ. -/
def compareShapes (lens : Lens) (fields : CompareFields lens) :
    (vs ws : List Value) → Answer (shapes lens vs = shapes lens ws)
  | [], [] => ⟨true, by simp⟩
  | [], _ :: _ => ⟨false, by simp [shapes]⟩
  | _ :: _, [] => ⟨false, by simp [shapes]⟩
  | v :: vs, w :: ws =>
    match compareBy lens v w (compareParts lens fields v w) with
    | ⟨false, first⟩ => ⟨false, by simp [shapes_cons_eq_iff, ← first]⟩
    | ⟨true, first⟩ =>
      ⟨(compareShapes lens fields vs ws).1, by
        simp [shapes_cons_eq_iff, ← first, (compareShapes lens fields vs ws).2]⟩

end

/-- Compares the shapes of two values. -/
def compareShape (lens : Lens) (fields : CompareFields lens) (a b : Value) :
    Answer (a.shape lens = b.shape lens) :=
  compareBy lens a b (compareParts lens fields a b)

end Value

end TypingStore
