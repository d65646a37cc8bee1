import TypingStore.Proofs.Outside

/-!
# Other ids

Contexts, objects and stamps are told apart by numbers, and nothing depends on which numbers these
are. A renaming gives other numbers; as long as it keeps different ones apart, values compare, and
bindings find, what they did.

* `Renaming`, `Renaming.OneToOne`: other ids, kept apart.
* `Value.rename`, `Context.rename`, `Action.rename`: what there is, under other ids.
* `Value.isSame_rename`, `Handle.beq_rename`: identity and equality do not look at ids.
* `Bindings.insert_translate`, `Context.enterAll_rename`: binding and recording commute with
  renaming.
-/

namespace TypingStore

/-- Other ids for contexts, objects and stamps. -/
structure Renaming where
  context : Nat → Nat
  object : Nat → Nat
  stamp : Nat → Nat
  /-- Nothing has the stamp zero, so it stays what it is. -/
  stamp_zero : stamp 0 = 0

namespace Renaming

/-- Different things get different ids. -/
structure OneToOne (ρ : Renaming) : Prop where
  context : ∀ {i j}, ρ.context i = ρ.context j → i = j
  object : ∀ {i j}, ρ.object i = ρ.object j → i = j
  stamp : ∀ {i j}, ρ.stamp i = ρ.stamp j → i = j

end Renaming

/-- A stamp under other ids. -/
def Stamp.rename (ρ : Renaming) (stamp : Stamp) : Stamp := ⟨ρ.stamp stamp.number⟩

@[simp] theorem Stamp.rename_zero (ρ : Renaming) : Stamp.rename ρ ⟨0⟩ = ⟨0⟩ :=
  congrArg Stamp.mk ρ.stamp_zero

/-- A record under another id. -/
def RecordRef.rename (ρ : Renaming) (ref : RecordRef) : RecordRef :=
  { ref with index := ρ.object ref.index }

/-- An individual under another id. -/
def IndividualRef.rename (ρ : Renaming) (ref : IndividualRef) : IndividualRef :=
  { ref with index := ρ.object ref.index }

/-- A fault under another id. -/
def FaultRef.rename (ρ : Renaming) (ref : FaultRef) : FaultRef :=
  { ref with index := ρ.object ref.index }

/-- A settings object under another id. -/
def SettingsRef.rename (ρ : Renaming) (ref : SettingsRef) : SettingsRef := ⟨ρ.object ref.index⟩

/-- A context under another id. -/
def ContextId.rename (ρ : Renaming) (c : ContextId) : ContextId := ⟨ρ.context c.index⟩

theorem ContextId.rename_inj {ρ : Renaming} (hρ : ρ.OneToOne) {c d : ContextId} :
    c.rename ρ = d.rename ρ ↔ c = d := by
  refine ⟨fun h => ?_, fun h => congrArg _ h⟩
  have hindex := hρ.context (congrArg ContextId.index h)
  cases c
  cases d
  exact congrArg ContextId.mk hindex

/-! ## Values -/

namespace Value

mutual

/-- A value under other ids. -/
def rename (ρ : Renaming) : Value → Value
  | .absent => .absent
  | .bool b => .bool b
  | .int stamp n => .int (stamp.rename ρ) n
  | .text stamp s => .text (stamp.rename ρ) s
  | .level l => .level l
  | .policy p => .policy p
  | .list stamp items => .list (stamp.rename ρ) (renameAll ρ items)
  | .tuple stamp items => .tuple (stamp.rename ρ) (renameAll ρ items)
  | .instanceType stamp name args => .instanceType (stamp.rename ρ) name (renameAll ρ args)
  | .unionType stamp members => .unionType (stamp.rename ρ) (renameAll ρ members)
  | .procType stamp params result =>
    .procType (stamp.rename ρ) (renameAll ρ params) (rename ρ result)
  | .anyType stamp => .anyType (stamp.rename ρ)
  | .nilType stamp => .nilType (stamp.rename ρ)
  | .typeError stamp site message kind =>
    .typeError (stamp.rename ρ) (rename ρ site) message kind
  | .location stamp filename span =>
    .location (stamp.rename ρ) (rename ρ filename) (rename ρ span)
  | .record ref => .record (ref.rename ρ)
  | .individual ref => .individual (ref.rename ρ)

/-- The values of a list under other ids. -/
def renameAll (ρ : Renaming) : List Value → List Value
  | [] => []
  | v :: vs => rename ρ v :: renameAll ρ vs

end

@[simp] theorem renameAll_eq_map (ρ : Renaming) (vs : List Value) :
    renameAll ρ vs = vs.map (rename ρ) := by
  induction vs with
  | nil => rfl
  | cons v vs ih => rw [renameAll, ih, List.map_cons]

mutual

/-- Whether the objects and the stamps that a value mentions are all of some kind. -/
def AllIds (P Q : Nat → Prop) : Value → Prop
  | .absent | .bool _ | .level _ | .policy _ => True
  | .int stamp _ | .text stamp _ | .anyType stamp | .nilType stamp => Q stamp.number
  | .list stamp items | .tuple stamp items | .instanceType stamp _ items
  | .unionType stamp items => Q stamp.number ∧ AllIdsOf P Q items
  | .procType stamp params result =>
    Q stamp.number ∧ AllIdsOf P Q params ∧ AllIds P Q result
  | .typeError stamp site _ _ => Q stamp.number ∧ AllIds P Q site
  | .location stamp filename span => Q stamp.number ∧ AllIds P Q filename ∧ AllIds P Q span
  | .record ref => P ref.index
  | .individual ref => P ref.index

/-- The same of the values of a list. -/
def AllIdsOf (P Q : Nat → Prop) : List Value → Prop
  | [] => True
  | v :: vs => AllIds P Q v ∧ AllIdsOf P Q vs

end

@[simp] theorem allIdsOf_iff {P Q : Nat → Prop} {vs : List Value} :
    AllIdsOf P Q vs ↔ ∀ v ∈ vs, v.AllIds P Q := by
  induction vs with
  | nil => simp [AllIdsOf]
  | cons v vs ih => simp [AllIdsOf, ih]

mutual

theorem AllIds.imp {P Q P' Q' : Nat → Prop} (hP : ∀ i, P i → P' i) (hQ : ∀ i, Q i → Q' i) :
    ∀ v : Value, v.AllIds P Q → v.AllIds P' Q'
  | .absent, _ | .bool _, _ | .level _, _ | .policy _, _ => trivial
  | .int _ _, h | .text _ _, h | .anyType _, h | .nilType _, h => hQ _ h
  | .list _ items, h | .tuple _ items, h | .instanceType _ _ items, h | .unionType _ items, h =>
    ⟨hQ _ h.1, AllIdsOf.imp hP hQ items h.2⟩
  | .procType _ params result, h =>
    ⟨hQ _ h.1, AllIdsOf.imp hP hQ params h.2.1, AllIds.imp hP hQ result h.2.2⟩
  | .typeError _ site _ _, h => ⟨hQ _ h.1, AllIds.imp hP hQ site h.2⟩
  | .location _ filename span, h =>
    ⟨hQ _ h.1, AllIds.imp hP hQ filename h.2.1, AllIds.imp hP hQ span h.2.2⟩
  | .record _, h | .individual _, h => hP _ h

theorem AllIdsOf.imp {P Q P' Q' : Nat → Prop} (hP : ∀ i, P i → P' i) (hQ : ∀ i, Q i → Q' i) :
    ∀ vs : List Value, AllIdsOf P Q vs → AllIdsOf P' Q' vs
  | [], _ => trivial
  | v :: vs, h => ⟨AllIds.imp hP hQ v h.1, AllIdsOf.imp hP hQ vs h.2⟩

end

mutual

/-- What holds of every id holds of those that a value mentions. -/
theorem allIds_of_forall {P Q : Nat → Prop} (hP : ∀ i, P i) (hQ : ∀ n, Q n) : ∀ v : Value,
    v.AllIds P Q
  | .absent | .bool _ | .level _ | .policy _ => trivial
  | .int stamp _ | .text stamp _ | .anyType stamp | .nilType stamp => hQ stamp.number
  | .list stamp items | .tuple stamp items | .instanceType stamp _ items
  | .unionType stamp items => ⟨hQ stamp.number, allIdsOf_of_forall hP hQ items⟩
  | .procType stamp params result =>
    ⟨hQ stamp.number, allIdsOf_of_forall hP hQ params, allIds_of_forall hP hQ result⟩
  | .typeError stamp site _ _ => ⟨hQ stamp.number, allIds_of_forall hP hQ site⟩
  | .location stamp filename span =>
    ⟨hQ stamp.number, allIds_of_forall hP hQ filename, allIds_of_forall hP hQ span⟩
  | .record ref => hP ref.index
  | .individual ref => hP ref.index

theorem allIdsOf_of_forall {P Q : Nat → Prop} (hP : ∀ i, P i) (hQ : ∀ n, Q n) :
    ∀ vs : List Value, AllIdsOf P Q vs
  | [] => trivial
  | v :: vs => ⟨allIds_of_forall hP hQ v, allIdsOf_of_forall hP hQ vs⟩

end

mutual

/-- **A value that mentions nothing with another id stays as it is.** -/
theorem rename_eq_self {ρ : Renaming} : ∀ v : Value,
    v.AllIds (fun i => ρ.object i = i) (fun n => ρ.stamp n = n) → v.rename ρ = v
  | .absent, _ | .bool _, _ | .level _, _ | .policy _, _ => rfl
  | .int _ _, h | .text _ _, h | .anyType _, h | .nilType _, h => by
    simp only [AllIds] at h
    simp only [rename, Stamp.rename, h]
  | .list _ items, h | .tuple _ items, h | .instanceType _ _ items, h | .unionType _ items, h => by
    simp only [AllIds] at h
    simp only [rename, Stamp.rename, h.1, renameAll_eq_self items h.2]
  | .procType _ params result, h => by
    simp only [AllIds] at h
    simp only [rename, Stamp.rename, h.1, renameAll_eq_self params h.2.1,
      rename_eq_self result h.2.2]
  | .typeError _ site _ _, h => by
    simp only [AllIds] at h
    simp only [rename, Stamp.rename, h.1, rename_eq_self site h.2]
  | .location _ filename span, h => by
    simp only [AllIds] at h
    simp only [rename, Stamp.rename, h.1, rename_eq_self filename h.2.1,
      rename_eq_self span h.2.2]
  | .record _, h => by
    simp only [AllIds] at h
    simp only [rename, RecordRef.rename, h]
  | .individual _, h => by
    simp only [AllIds] at h
    simp only [rename, IndividualRef.rename, h]

theorem renameAll_eq_self {ρ : Renaming} : ∀ vs : List Value,
    AllIdsOf (fun i => ρ.object i = i) (fun n => ρ.stamp n = n) vs → renameAll ρ vs = vs
  | [], _ => rfl
  | v :: vs, h => by rw [renameAll, rename_eq_self v h.1, renameAll_eq_self vs h.2]

end

variable (ρ : Renaming) (v : Value)

@[simp] theorem rename_ofText (s : String) : (ofText s).rename ρ = ofText s := by
  simp only [ofText, rename, Stamp.rename_zero]

@[simp] theorem rename_ofText? (s : Option String) : (ofText? s).rename ρ = ofText? s := by
  cases s with
  | none => rfl
  | some s => exact rename_ofText ρ s

@[simp] theorem kindName_rename : (v.rename ρ).kindName = v.kindName := by
  cases v <;> rfl

@[simp] theorem isTrue_rename : (v.rename ρ).isTrue = v.isTrue := by
  cases v <;> simp [rename, isTrue]

@[simp] theorem number?_rename : (v.rename ρ).number? = v.number? := by
  cases v <;> rfl

@[simp] theorem isRaisable_rename : (v.rename ρ).isRaisable = v.isRaisable := by
  cases v <;> rfl

@[simp] theorem errorKind_rename : (v.rename ρ).errorKind = v.errorKind := by
  cases v <;> rfl

@[simp] theorem rename_eq_absent : v.rename ρ = .absent ↔ v = .absent := by
  cases v <;> simp [rename]

@[simp] theorem index?_rename : (v.rename ρ).index? = v.index?.map ρ.object := by
  cases v <;> rfl

/-- Which object a value is, under other ids. -/
def Identity.rename (ρ : Renaming) : Identity → Identity
  | .stamped stamp => .stamped (stamp.rename ρ)
  | .object index => .object (ρ.object index)
  | identity => identity

theorem Identity.rename_inj {ρ : Renaming} (hρ : ρ.OneToOne) {a b : Identity} :
    a.rename ρ = b.rename ρ ↔ a = b := by
  refine ⟨fun h => ?_, fun h => congrArg _ h⟩
  cases a with
  | stamped stamp =>
    cases b <;> simp only [Identity.rename, reduceCtorEq, stamped.injEq] at h
    have hnumber := hρ.stamp (congrArg Stamp.number h)
    exact congrArg (fun n => stamped ⟨n⟩) hnumber
  | object index =>
    cases b <;> simp only [Identity.rename, reduceCtorEq, object.injEq] at h
    exact congrArg object (hρ.object h)
  | _ => cases b <;> simp_all [Identity.rename]

@[simp] theorem identity_rename : (v.rename ρ).identity = v.identity.rename ρ := by
  cases v with
  | int stamp n => simp only [rename, identity]; split <;> rfl
  | text stamp s => simp only [rename, identity]; split <;> rfl
  | tuple stamp items =>
    simp only [rename, identity, renameAll_eq_map, List.isEmpty_map]
    split <;> rfl
  | _ => rfl

/-- **Identity does not look at ids.** -/
theorem isSame_rename {ρ : Renaming} (hρ : ρ.OneToOne) (a b : Value) :
    (a.rename ρ).isSame (b.rename ρ) = a.isSame b := by
  simp only [isSame, identity_rename, Identity.rename_inj hρ]

mutual

@[simp] theorem unhashable?_rename (ρ : Renaming) : ∀ v : Value,
    (v.rename ρ).unhashable? = v.unhashable?
  | .tuple _ items | .instanceType _ _ items | .unionType _ items => by
    simp only [rename, unhashable?, firstUnhashable?_rename ρ items]
  | .procType _ params result => by
    simp only [rename, unhashable?, firstUnhashable?_rename ρ params, unhashable?_rename ρ result]
  | .location _ filename span => by
    simp only [rename, unhashable?, unhashable?_rename ρ filename, unhashable?_rename ρ span]
  | .absent | .bool _ | .int _ _ | .text _ _ | .level _ | .policy _ | .list _ _ | .anyType _
  | .nilType _ | .typeError _ _ _ _ | .record _ | .individual _ => rfl

theorem firstUnhashable?_rename (ρ : Renaming) : ∀ vs : List Value,
    firstUnhashable? (renameAll ρ vs) = firstUnhashable? vs
  | [] => rfl
  | v :: vs => by
    simp only [renameAll, firstUnhashable?, unhashable?_rename ρ v, firstUnhashable?_rename ρ vs]

end

end Value

/-! ## Handles -/

/-- What a value is, under other ids. -/
def Shape.Head.rename (ρ : Renaming) : Shape.Head → Shape.Head
  | .itself identity => .itself (identity.rename ρ)
  | head => head

theorem Shape.Head.rename_inj {ρ : Renaming} (hρ : ρ.OneToOne) {a b : Shape.Head} :
    a.rename ρ = b.rename ρ ↔ a = b := by
  refine ⟨fun h => ?_, fun h => congrArg _ h⟩
  cases a with
  | itself identity =>
    cases b <;> simp only [Shape.Head.rename, reduceCtorEq, itself.injEq] at h
    exact congrArg itself ((Value.Identity.rename_inj hρ).1 h)
  | _ => cases b <;> simp_all [Shape.Head.rename]

namespace Shape

mutual

/-- What equality sees of a value, under other ids. -/
def rename (ρ : Renaming) : Shape → Shape
  | .of head parts => .of (head.rename ρ) (renameAll ρ parts)

/-- The shapes of a list under other ids. -/
def renameAll (ρ : Renaming) : List Shape → List Shape
  | [] => []
  | shape :: shapes => rename ρ shape :: renameAll ρ shapes

end

mutual

theorem rename_inj {ρ : Renaming} (hρ : ρ.OneToOne) : ∀ a b : Shape,
    a.rename ρ = b.rename ρ → a = b
  | .of head parts, .of head' parts', h => by
    simp only [rename, of.injEq] at h
    rw [(Head.rename_inj hρ).1 h.1, renameAll_inj hρ parts parts' h.2]

theorem renameAll_inj {ρ : Renaming} (hρ : ρ.OneToOne) : ∀ as bs : List Shape,
    renameAll ρ as = renameAll ρ bs → as = bs
  | [], [], _ => rfl
  | [], _ :: _, h => by simp [renameAll] at h
  | _ :: _, [], h => by simp [renameAll] at h
  | a :: as, b :: bs, h => by
    simp only [renameAll, List.cons.injEq] at h
    rw [rename_inj hρ a b h.1, renameAll_inj hρ as bs h.2]

end

end Shape

namespace Value

@[simp] theorem head_rename (ρ : Renaming) (v : Value) : (v.rename ρ).head = v.head.rename ρ := by
  cases v <;> rfl

section

variable {ρ : Renaming} {P : Nat → Prop} {lens lens' : Lens}

mutual

/-- The parts of a value are the same under other ids, when the records in it hold the same. -/
theorem parts_rename (h : ∀ ref : RecordRef, P ref.index →
    lens' (ref.rename ρ) = Shape.renameAll ρ (lens ref)) : ∀ v : Value,
      v.AllIds P (fun _ => True) → (v.rename ρ).parts lens' = Shape.renameAll ρ (v.parts lens)
  | .list _ items, hv | .tuple _ items, hv | .instanceType _ _ items, hv
  | .unionType _ items, hv => by
    simp only [rename, parts, shapes_rename h items hv.2]
  | .procType _ params result, hv => by
    simp only [rename, parts, shapes_rename h params hv.2.1, parts_rename h result hv.2.2,
      head_rename, Shape.renameAll, Shape.rename, Shape.Head.rename]
  | .location _ filename span, hv => by
    simp only [rename, parts, parts_rename h filename hv.2.1, parts_rename h span hv.2.2,
      head_rename, Shape.renameAll, Shape.rename]
  | .record ref, hv => h ref hv
  | .absent, _ | .bool _, _ | .int _ _, _ | .text _ _, _ | .level _, _ | .policy _, _
  | .anyType _, _ | .nilType _, _ | .typeError _ _ _ _, _ | .individual _, _ => rfl

theorem shapes_rename (h : ∀ ref : RecordRef, P ref.index →
    lens' (ref.rename ρ) = Shape.renameAll ρ (lens ref)) : ∀ vs : List Value,
      AllIdsOf P (fun _ => True) vs →
        shapes lens' (renameAll ρ vs) = Shape.renameAll ρ (shapes lens vs)
  | [], _ => rfl
  | v :: vs, hv => by
    simp only [renameAll, shapes, head_rename, parts_rename h v hv.1, shapes_rename h vs hv.2,
      Shape.renameAll, Shape.rename]

end

theorem shape_rename (h : ∀ ref : RecordRef, P ref.index →
    lens' (ref.rename ρ) = Shape.renameAll ρ (lens ref)) {v : Value}
    (hv : v.AllIds P fun _ => True) : (v.rename ρ).shape lens' = (v.shape lens).rename ρ := by
  simp only [shape, head_rename, parts_rename h v hv, Shape.rename]

end

end Value

namespace Handle

/-- A handle under other ids. -/
def rename (ρ : Renaming) (handle : Handle) : Handle where
  value := handle.value.rename ρ
  hashable := by rw [Value.unhashable?_rename, handle.hashable]

theorem shape_rename (ρ : Renaming) (handle : Handle) :
    (handle.rename ρ).shape = handle.shape.rename ρ :=
  Value.shape_rename (P := fun _ => True) (fun _ _ => rfl)
    (handle.value.allIds_of_forall (fun _ => trivial) fun _ => trivial)

/-- **Equality of handles does not look at ids.** -/
theorem beq_rename {ρ : Renaming} (hρ : ρ.OneToOne) (a b : Handle) :
    (a.rename ρ == b.rename ρ) = (a == b) := by
  rw [Bool.eq_iff_iff, beq_iff, beq_iff, shape_rename, shape_rename]
  exact ⟨Shape.rename_inj hρ _ _, fun h => congrArg _ h⟩

/-- A value serves as a handle under other ids as well, or fails in the same way. -/
theorem handleOf_rename (ρ : Renaming) (v : Value) :
    Store.handleOf (v.rename ρ) = (Store.handleOf v).map (rename ρ) := by
  unfold Store.handleOf ofValue
  split
  · rename_i h
    rw [Value.unhashable?_rename] at h
    split
    · rfl
    · rename_i h'
      rw [h] at h'
      cases h'
  · rename_i h
    rw [Value.unhashable?_rename] at h
    split
    · rename_i h'
      rw [h] at h'
      cases h'
    · rename_i h'
      rw [h] at h'
      cases h'
      rfl

end Handle

/-- A node under another id. -/
def NodeKey.rename (ρ : Renaming) (key : NodeKey) : NodeKey := ⟨key.node.rename ρ⟩

theorem NodeKey.beq_rename {ρ : Renaming} (hρ : ρ.OneToOne) (a b : NodeKey) :
    (a.rename ρ == b.rename ρ) = (a == b) :=
  Value.isSame_rename hρ a.node b.node

/-! ## Bindings -/

namespace Bindings

variable {κ κ' ν ν' : Type}

/-- Bindings with other keys and values. -/
def translate (f : κ → κ') (g : ν → ν') (b : Bindings κ ν) : Bindings κ' ν' :=
  ⟨b.entries.map fun entry => (f entry.1, g entry.2)⟩

@[simp] theorem entries_translate (f : κ → κ') (g : ν → ν') (b : Bindings κ ν) :
    (b.translate f g).entries = b.entries.map fun entry => (f entry.1, g entry.2) := rfl

@[simp] theorem size_translate (f : κ → κ') (g : ν → ν') (b : Bindings κ ν) :
    (b.translate f g).size = b.size := List.length_map _

variable [BEq κ] [BEq κ'] {f : κ → κ'} (hf : ∀ a b, (f a == f b) = (a == b)) (g : ν → ν')
include hf

/-- **What is found under another key is what was found under the old one.** -/
theorem get?_translate (b : Bindings κ ν) (key : κ) :
    (b.translate f g).get? (f key) = (b.get? key).map g := by
  simp only [get?, entries_translate, List.find?_map, Option.map_map, Function.comp_def, hf]

/-- **Binding under another key is binding under the old one.** -/
theorem insert_translate (b : Bindings κ ν) (key : κ) (value : ν) :
    (b.translate f g).insert (f key) (g value) = (b.insert key value).translate f g := by
  obtain ⟨entries⟩ := b
  simp only [insert, translate, mk.injEq]
  induction entries with
  | nil => rfl
  | cons entry entries ih =>
    rw [List.map_cons, put, put, hf]
    split
    · rfl
    · rw [ih, List.map_cons]

end Bindings

/-! ## Contexts -/

/-- An entry under other ids. -/
def Entry.rename (ρ : Renaming) : Entry → Entry
  | .nodeType node type => .nodeType (node.rename ρ) (type.rename ρ)
  | .varType handle type => .varType (handle.rename ρ) (type.rename ρ)
  | .error v => .error (v.rename ρ)

namespace Context

/-- A context under other ids. -/
def rename (ρ : Renaming) (c : Context) : Context :=
  { c with
    parent := c.parent.map (ContextId.rename ρ)
    settings := c.settings.rename ρ
    nodeTypes := c.nodeTypes.translate (NodeKey.rename ρ) (Value.rename ρ)
    varTypes := c.varTypes.translate (Handle.rename ρ) (Value.rename ρ)
    errors := c.errors.map (Value.rename ρ) }

variable {ρ : Renaming} (policy : VersionPolicy)

theorem noteWrite_rename (c : Context) :
    (c.rename ρ).noteWrite policy = (c.noteWrite policy).rename ρ := by
  have hpending : (c.rename ρ).pending = c.pending := rfl
  unfold noteWrite
  rw [hpending]
  split <;> rfl

variable (hρ : ρ.OneToOne)
include hρ

/-- Putting an entry down does not look at ids. -/
theorem enter_rename (e : Entry) (c : Context) :
    (c.rename ρ).enter policy (e.rename ρ) = (c.enter policy e).rename ρ := by
  cases e with
  | nodeType node type =>
    have hinsert := Bindings.insert_translate (NodeKey.beq_rename hρ) (Value.rename ρ) c.nodeTypes
      ⟨node⟩ type
    simp only [enter, Entry.rename, recordType]
    rw [← noteWrite_rename]
    simp only [rename, ← hinsert]
    rfl
  | varType handle type =>
    have hinsert := Bindings.insert_translate (Handle.beq_rename hρ) (Value.rename ρ) c.varTypes
      handle type
    simp only [enter, Entry.rename, recordVariable]
    rw [← noteWrite_rename]
    simp only [rename, ← hinsert]
  | error v =>
    simp only [enter, addError, Entry.rename, rename, List.map_append, List.map_cons, List.map_nil]

/-- **Putting entries down does not look at ids.** -/
theorem enterAll_rename (es : List Entry) (c : Context) :
    (c.rename ρ).enterAll policy (es.map (Entry.rename ρ)) = (c.enterAll policy es).rename ρ := by
  induction es generalizing c with
  | nil => rfl
  | cons e es ih => rw [List.map_cons, enterAll_cons, enterAll_cons, enter_rename policy hρ, ih]

omit hρ in
theorem entries_rename (c : Context) : (c.rename ρ).entries = c.entries.map (Entry.rename ρ) := by
  simp only [entries, rename, Bindings.entries_translate, List.map_append, List.map_map]
  rfl

/-- A parent takes over a child under other ids as well. -/
theorem absorb_rename (c child : Context) :
    (c.rename ρ).absorb policy (child.rename ρ) = (c.absorb policy child).rename ρ := by
  rw [absorb_eq_enterAll, absorb_eq_enterAll, entries_rename, enterAll_rename policy hρ]

end Context

/-! ## Operations -/

/-- A failure under other ids. -/
def Failure.rename (ρ : Renaming) : Failure → Failure
  | .fault ref => .fault (ref.rename ρ)
  | failure => failure

/-- An answer under other ids. -/
def Answer.rename (ρ : Renaming) : Answer → Answer
  | .done => .done
  | .context c => .context (c.rename ρ)
  | .truth b => .truth b
  | .value v => .value (v.rename ρ)
  | .typings entries => .typings (entries.map fun e => (e.1.rename ρ, e.2.rename ρ))
  | .variableTypes entries => .variableTypes (entries.map fun e => (e.1.rename ρ, e.2.rename ρ))
  | .errors vs => .errors (vs.map (Value.rename ρ))
  | .text s => .text s

/-- A result with its failure under other ids. -/
def Failure.renameIn {α : Type} (ρ : Renaming) (result : Except Failure α) : Except Failure α :=
  result.mapError (rename ρ)

/-- The end of an operation under other ids. -/
def Outcome.rename (ρ : Renaming) (outcome : Outcome) : Outcome :=
  (Failure.renameIn ρ outcome).map (Answer.rename ρ)

theorem Outcome.rename_value (ρ : Renaming) (v : Value) :
    Outcome.rename ρ (.ok (.value v)) = .ok (.value (v.rename ρ)) := rfl

/-- An operation under other ids. -/
def Action.rename (ρ : Renaming) : Action → Action
  | .createRoot settings summarizer => .createRoot (settings.map (SettingsRef.rename ρ)) summarizer
  | .createChild parent settings summarizer =>
    .createChild (parent.rename ρ) (settings.map (SettingsRef.rename ρ)) summarizer
  | .spawn parent => .spawn (parent.rename ρ)
  | .recordType c node type => .recordType (c.rename ρ) (node.rename ρ) (type.rename ρ)
  | .recordVariable c name type => .recordVariable (c.rename ρ) (name.rename ρ) (type.rename ρ)
  | .addError c error => .addError (c.rename ρ) (error.rename ρ)
  | .commit c => .commit (c.rename ρ)
  | .hasType c node => .hasType (c.rename ρ) (node.rename ρ)
  | .hasVariable c name => .hasVariable (c.rename ρ) (name.rename ρ)
  | .typeOf c node => .typeOf (c.rename ρ) (node.rename ρ)
  | .variableTypeOf c name => .variableTypeOf (c.rename ρ) (name.rename ρ)
  | .typings c => .typings (c.rename ρ)
  | .variableTypes c => .variableTypes (c.rename ρ)
  | .errors c => .errors (c.rename ρ)
  | .dump c => .dump (c.rename ρ)
  | .caption c => .caption (c.rename ρ)
  | .assign target field new => .assign (target.rename ρ) field (new.rename ρ)
  | .newRecord kind fields others =>
    .newRecord kind (fields.map (Value.rename ρ)) (others.map fun e => (e.1, e.2.rename ρ))
  | .newIndividual kind attributes =>
    .newIndividual kind (attributes.map fun e => (e.1, e.2.rename ρ))

theorem Action.context?_rename (ρ : Renaming) (a : Action) :
    (a.rename ρ).context? = a.context?.map (ContextId.rename ρ) := by
  cases a <;> rfl

end TypingStore
