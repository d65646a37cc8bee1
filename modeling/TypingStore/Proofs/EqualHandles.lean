import Mathlib.Data.List.Forall2
import TypingStore.Objects.Equality
import TypingStore.Proofs.FirstBinding

/-!
# Equal handles

Two values are equal when their shapes are, so equality is an equivalence. Whether a value can be a
handle is told by its shape too, and so is the part that rules it out
(`Value.unhashable?_eq_shape`): of two equal values both can be handles or neither.

Bindings do not tell equal keys apart. If two of them have the same values under keys that are equal
place by place, the same is found in both, and they stay that way when equal keys are bound
(`Bindings.Alike.insert`).

* `Handle.beq_eq_equal`: handles are compared as their values are, at all times.
-/

namespace TypingStore

/-! ## What rules a value out as a handle -/

mutual

/-- The kind of the first part, from left to right, that rules a value of this shape out as a
handle. -/
def Shape.unhashable? : Shape → Option String
  | .of .list _ => some "list"
  | .of (.record kind) _ => some kind.name
  | .of _ parts => Shape.firstUnhashable? parts

/-- The first such kind among several shapes. -/
def Shape.firstUnhashable? : List Shape → Option String
  | [] => none
  | shape :: shapes => (Shape.unhashable? shape).or (Shape.firstUnhashable? shapes)

end

namespace Value

theorem firstUnhashable?_cons (v : Value) (vs : List Value) :
    firstUnhashable? (v :: vs) = v.unhashable?.or (firstUnhashable? vs) := by
  rw [firstUnhashable?]
  cases v.unhashable? <;> rfl

theorem unhashable?_procType (stamp : Stamp) (params : List Value) (result : Value) :
    (procType stamp params result).unhashable? =
      (firstUnhashable? params).or result.unhashable? := by
  rw [unhashable?]
  cases firstUnhashable? params <;> rfl

theorem unhashable?_location (stamp : Stamp) (filename span : Value) :
    (location stamp filename span).unhashable? = filename.unhashable?.or span.unhashable? := by
  rw [unhashable?]
  cases filename.unhashable? <;> rfl

mutual

/-- **The shape tells what rules a value out as a handle**, whatever is known of the records. -/
theorem unhashable?_eq_shape (lens : Lens) :
    ∀ v : Value, v.unhashable? = (v.shape lens).unhashable?
  | .tuple _ items | .instanceType _ _ items | .unionType _ items =>
    firstUnhashable?_eq_shapes lens items
  | .procType stamp params result => by
    have hparams := firstUnhashable?_eq_shapes lens params
    have hresult := unhashable?_eq_shape lens result
    rw [unhashable?_procType, hparams, hresult]
    -- the parameters are one part, and the result is the other
    show _ = (Shape.firstUnhashable? (shapes lens params)).or
      ((result.shape lens).unhashable?.or none)
    rw [Option.or_none]
  | .location stamp filename span => by
    have hfilename := unhashable?_eq_shape lens filename
    have hspan := unhashable?_eq_shape lens span
    rw [unhashable?_location, hfilename, hspan]
    show _ = (filename.shape lens).unhashable?.or ((span.shape lens).unhashable?.or none)
    rw [Option.or_none]
  | .list _ _ | .record _ | .absent | .bool _ | .int _ _ | .text _ _ | .level _ | .policy _
  | .anyType _ | .nilType _ | .typeError _ _ _ _ | .individual _ => rfl

theorem firstUnhashable?_eq_shapes (lens : Lens) :
    ∀ vs : List Value, firstUnhashable? vs = Shape.firstUnhashable? (shapes lens vs)
  | [] => rfl
  | v :: vs => by
    have hv := unhashable?_eq_shape lens v
    have hvs := firstUnhashable?_eq_shapes lens vs
    rw [firstUnhashable?_cons, hv, hvs]
    rfl

end

end Value

/-- **Equality of values is an equivalence**, and of two equal values both can be handles or
neither, for the same reason. -/
theorem Objects.equal_equivalence (objects : Objects) :
    Equivalence (fun a b => objects.equal a b = true) ∧
      ∀ a b, objects.equal a b = true → a.unhashable? = b.unhashable? := by
  simp only [equal_iff]
  refine ⟨⟨fun _ => rfl, Eq.symm, Eq.trans⟩, fun a b hshape => ?_⟩
  have hshape : a.shape objects.lens = b.shape objects.lens := hshape
  rw [Value.unhashable?_eq_shape objects.lens, hshape, ← Value.unhashable?_eq_shape]

/-- **Handles are compared as their values are**, at any moment. -/
theorem Handle.beq_eq_equal (objects : Objects) (a b : Handle) :
    (a == b) = objects.equal a.value b.value := by
  have hshape : ∀ h : Handle, h.shape = objects.shape h.value := fun h =>
    Value.shape_eq_of_hashable Handle.lens objects.lens h.value h.hashable
  rw [Bool.eq_iff_iff, beq_iff, Objects.equal_iff, hshape a, hshape b]

/-! ## Bindings under equal keys -/

namespace Bindings

variable {κ ν : Type} [BEq κ]

/-- The same values are bound, in the same places, under keys that are equal. -/
def Alike (b b' : Bindings κ ν) : Prop :=
  List.Forall₂ (fun e e' => (e.1 == e'.1) = true ∧ e.2 = e'.2) b.entries b'.entries

namespace Alike

variable {b b' : Bindings κ ν}

theorem size (h : b.Alike b') : b.size = b'.size := h.length_eq

variable [EquivBEq κ]

theorem refl (b : Bindings κ ν) : b.Alike b := by
  rw [Alike, List.forall₂_same]
  exact fun _ _ => ⟨BEq.rfl, rfl⟩

/-- **The same is found under equal keys.** -/
theorem get? (h : b.Alike b') {k k' : κ} (hk : (k == k') = true) : b.get? k = b'.get? k' := by
  obtain ⟨l⟩ := b
  obtain ⟨l'⟩ := b'
  simp only [Alike] at h
  simp only [Bindings.get?]
  induction h with
  | nil => rfl
  | cons hone hrest ih =>
    obtain ⟨hkeys, hvalues⟩ := hone
    have hagree := (BEq.congr_left hkeys).trans (BEq.congr_right hk)
    rw [List.find?_cons, List.find?_cons, hagree]
    split
    · exact congrArg some hvalues
    · exact ih

theorem contains (h : b.Alike b') {k k' : κ} (hk : (k == k') = true) :
    b.contains k = b'.contains k' := by
  rw [← get?_isSome, ← get?_isSome, h.get? hk]

/-- **Equal keys are bound alike.** -/
theorem insert (h : b.Alike b') {k k' : κ} (hk : (k == k') = true) (v : ν) :
    (b.insert k v).Alike (b'.insert k' v) := by
  obtain ⟨l⟩ := b
  obtain ⟨l'⟩ := b'
  simp only [Alike, Bindings.insert] at h ⊢
  induction h with
  | nil => exact .cons ⟨hk, rfl⟩ .nil
  | @cons e e' l l' hone hrest ih =>
    have hagree : (e.1 == k) = (e'.1 == k') :=
      (BEq.congr_left hone.1).trans (BEq.congr_right hk)
    rw [put, put, hagree]
    split
    · exact .cons ⟨hone.1, rfl⟩ hrest
    · exact .cons hone ih

end Alike

end Bindings

end TypingStore
