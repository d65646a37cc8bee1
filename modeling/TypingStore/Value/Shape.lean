import TypingStore.Value

/-!
# Shapes of values

The shape of a value is what equality looks at. Truth values count as the numbers zero and one, and
a log level as its rank; objects without an equality of their own (type errors, individuals) stand
for themselves; everything else is its kind, what it says, and the shapes of its parts. The parts
of a record are its fields and nothing else that is known of it: of a syntax node neither its place
nor its source text counts. Two values are equal when their shapes are.

* `Shape`: what equality sees.
* `Value.shape`: the shape of a value, seen through a lens that says what the records in it hold.
-/

namespace TypingStore

/-- What a value is, apart from its parts. -/
inductive Shape.Head where
  | absent
  | number (n : Int)
  | text (s : String)
  | policy (policy : VersionPolicy)
  | list
  | tuple
  | instanceType (name : String)
  | unionType
  | procType
  | anyType
  | nilType
  | location
  | record (kind : RecordKind)
  /-- An object that equals only itself. -/
  | itself (identity : Value.Identity)
  deriving DecidableEq

/-- What equality sees of a value. -/
inductive Shape where
  | of (head : Shape.Head) (parts : List Shape)

namespace Value

/-- What the records in a value hold when shapes are compared: the shapes of their fields. -/
abbrev Lens := RecordRef → List Shape

/-- What a value is, apart from its parts. -/
def head : Value → Shape.Head
  | .absent => .absent
  | .bool b => .number (if b then 1 else 0)
  | .int _ n => .number n
  | .text _ s => .text s
  | .level l => .number l.rank
  | .policy p => .policy p
  | .list _ _ => .list
  | .tuple _ _ => .tuple
  | .instanceType _ name _ => .instanceType name
  | .unionType _ _ => .unionType
  | .procType _ _ _ => .procType
  | .anyType _ => .anyType
  | .nilType _ => .nilType
  | .typeError stamp _ _ _ => .itself (.stamped stamp)
  | .location _ _ _ => .location
  | .record ref => .record ref.kind
  | .individual ref => .itself (.object ref.index)

mutual

/-- The shapes of the parts of a value. The parameters of a procedure are one part, as a tuple
would be. -/
def parts (lens : Lens) : Value → List Shape
  | .list _ items | .tuple _ items | .instanceType _ _ items | .unionType _ items =>
    shapes lens items
  | .procType _ params result =>
    [.of .tuple (shapes lens params), .of result.head (parts lens result)]
  | .location _ filename span =>
    [.of filename.head (parts lens filename), .of span.head (parts lens span)]
  | .record ref => lens ref
  | .absent | .bool _ | .int _ _ | .text _ _ | .level _ | .policy _ | .anyType _ | .nilType _
  | .typeError _ _ _ _ | .individual _ => []

/-- The shapes of a list of values. -/
def shapes (lens : Lens) : List Value → List Shape
  | [] => []
  | v :: vs => .of v.head (parts lens v) :: shapes lens vs

end

/-- The shape of a value. -/
def shape (lens : Lens) (v : Value) : Shape := .of v.head (v.parts lens)

theorem shapes_cons_eq_iff {lens : Lens} {v w : Value} {vs ws : List Value} :
    shapes lens (v :: vs) = shapes lens (w :: ws) ↔
      v.shape lens = w.shape lens ∧ shapes lens vs = shapes lens ws := by
  simp [shapes, shape]

theorem shapes_eq_map (lens : Lens) (vs : List Value) : shapes lens vs = vs.map (shape lens) := by
  induction vs with
  | nil => rfl
  | cons v vs ih => simp [shapes, shape, ih]

end Value

end TypingStore
