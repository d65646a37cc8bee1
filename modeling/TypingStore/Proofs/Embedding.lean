import TypingStore.Objects.Equality
import TypingStore.Proofs.Renaming

/-!
# Objects among other objects

The same objects may stand among others, under other ids (`Objects.Embeds`). Then a value that
mentions only them reads the same: it has the same attributes, up to ids, and the very same texts.

The texts are followed through objects, as far as there are objects. How many others there are makes
no difference, because nothing is followed into an object twice (`Embeds.formsTo`).

* `Value.written_rename`, `Embeds.plain`, `Embeds.display`: the texts of a value.
* `Embeds.equal`, `Embeds.joined`: which values are equal, and the members of a join.
* `Embeds.summary`, `Embeds.settingsOf`: how a value is summarized, and settings are followed.
-/

namespace TypingStore

/-- Every object that a value mentions is one of the first `n`. -/
abbrev Value.Within (n : Nat) (v : Value) : Prop := v.AllIds (· < n) fun _ => True

theorem Value.Within.mono {m n : Nat} (h : m ≤ n) {v : Value} (hv : v.Within m) : v.Within n :=
  Value.AllIds.imp (fun _ hi => Nat.lt_of_lt_of_le hi h) (fun _ _ => trivial) v hv

/-! ## Texts -/

/-- Objects are shown alike: the first `n` by `forms`, and under other ids by `forms'`. -/
structure Value.Forms.Alike (ρ : Renaming) (n : Nat) (forms forms' : Value.Forms) : Prop where
  record : ∀ ref : RecordRef, ref.index < n → forms'.record (ref.rename ρ) = forms.record ref
  individual : ∀ ref : IndividualRef, ref.index < n →
    forms'.individual (ref.rename ρ) = forms.individual ref
  said : ∀ ref : IndividualRef, ref.index < n → forms'.said (ref.rename ρ) = forms.said ref

namespace Value

variable {ρ : Renaming} {n : Nat} {forms forms' : Forms}

mutual

/-- **The written form of a value does not look at ids.** -/
theorem written_rename (h : forms.Alike ρ n forms') : ∀ v : Value, v.Within n →
    (v.rename ρ).written forms' = v.written forms
  | .absent, _ | .bool _, _ | .int _ _, _ | .text _ _, _ | .level _, _ | .policy _, _
  | .anyType _, _ | .nilType _, _ => rfl
  | .list _ items, hv | .tuple _ items, hv | .instanceType _ _ items, hv
  | .unionType _ items, hv => by
    simp only [AllIds, true_and] at hv
    simp only [rename, written, writtenAll_rename h items hv]
  | .procType _ params result, hv => by
    simp only [AllIds, true_and] at hv
    simp only [rename, written, writtenAll_rename h params hv.1, written_rename h result hv.2]
  | .typeError _ site _ _, hv => by
    simp only [AllIds, true_and] at hv
    simp only [rename, written, written_rename h site hv]
  | .location _ filename span, hv => by
    simp only [AllIds, true_and] at hv
    simp only [rename, written, written_rename h filename hv.1, written_rename h span hv.2]
  | .record ref, hv => h.record ref hv
  | .individual ref, hv => h.individual ref hv

theorem writtenAll_rename (h : forms.Alike ρ n forms') : ∀ vs : List Value,
    AllIdsOf (· < n) (fun _ => True) vs →
      writtenAll forms' (renameAll ρ vs) = writtenAll forms vs
  | [], _ => rfl
  | v :: vs, hv => by
    rw [renameAll, writtenAll, writtenAll, written_rename h v hv.1, writtenAll_rename h vs hv.2]

end

/-- The plain text of a value does not look at ids. -/
theorem plain_rename (h : forms.Alike ρ n forms') {v : Value} (hv : v.Within n) :
    (v.rename ρ).plain forms' = v.plain forms := by
  cases v with
  | text stamp s => rfl
  | level l => rfl
  | policy p => rfl
  | typeError stamp site message kind => rfl
  | individual ref => exact h.said ref hv
  | _ => exact written_rename h _ hv

/-- What an exception says does not look at ids. -/
theorem Forms.Alike.ofArguments (h : forms.Alike ρ n forms') {vs : List Value}
    (hvs : ∀ v ∈ vs, v.Within n) :
    forms'.ofArguments (vs.map (rename ρ)) = forms.ofArguments vs := by
  have hall := writtenAll_rename h vs (allIdsOf_iff.2 hvs)
  rw [renameAll_eq_map] at hall
  match vs with
  | [] => rfl
  | [v] => exact plain_rename h (hvs v List.mem_cons_self)
  | v :: w :: vs => exact congrArg Text.Written.tuple hall

theorem Forms.Alike.ofRaisable (h : forms.Alike ρ n forms') {vs : List Value}
    (hvs : ∀ v ∈ vs, v.Within n) (name : String) :
    forms'.ofRaisable name (vs.map (rename ρ)) = forms.ofRaisable name vs := by
  have hall := writtenAll_rename h vs (allIdsOf_iff.2 hvs)
  rw [renameAll_eq_map] at hall
  match vs with
  | [] => rfl
  | [v] =>
    have hone := written_rename h v (hvs v List.mem_cons_self)
    simp only [List.map_cons, List.map_nil, Forms.ofRaisable, hone]
  | v :: w :: vs => exact congrArg (fun parts => name ++ Text.Written.tuple parts) hall

theorem Forms.Alike.ofPieces (h : forms.Alike ρ n forms') {tag : Value} (htag : tag.Within n)
    (pieces : List Piece) : forms'.ofPieces (tag.rename ρ) pieces = forms.ofPieces tag pieces := by
  induction pieces with
  | nil => rfl
  | cons piece pieces ih =>
    cases piece <;> simp only [Forms.ofPieces, ih, plain_rename h htag, written_rename h tag htag]

mutual

/-- The displayed form of a type does not look at ids. -/
theorem display_rename {other other' : Value → String}
    (h : ∀ v : Value, v.Within n → other' (v.rename ρ) = other v) : ∀ v : Value, v.Within n →
      (v.rename ρ).display other' = v.display other
  | .absent, _ | .anyType _, _ | .nilType _, _ => rfl
  | .bool _, hv | .int _ _, hv | .text _ _, hv | .level _, hv | .policy _, hv | .list _ _, hv
  | .tuple _ _, hv | .typeError _ _ _ _, hv | .location _ _ _, hv | .record _, hv
  | .individual _, hv => by
    simp only [display]
    exact h _ hv
  | .instanceType _ _ [], _ => rfl
  | .instanceType _ _ (arg :: args), hv => by
    simp only [AllIds, AllIdsOf, true_and] at hv
    simp only [rename, renameAll, display, display_rename h arg hv.1, displayAll_rename h args hv.2]
  | .unionType _ members, hv => by
    simp only [AllIds, true_and] at hv
    simp only [rename, display, displayAll_rename h members hv]
  | .procType _ params result, hv => by
    simp only [AllIds, true_and] at hv
    simp only [rename, display, displayAll_rename h params hv.1, display_rename h result hv.2]

theorem displayAll_rename {other other' : Value → String}
    (h : ∀ v : Value, v.Within n → other' (v.rename ρ) = other v) : ∀ vs : List Value,
      AllIdsOf (· < n) (fun _ => True) vs →
        displayAll other' (renameAll ρ vs) = displayAll other vs
  | [], _ => rfl
  | v :: vs, hv => by
    rw [renameAll, displayAll, displayAll, display_rename h v hv.1, displayAll_rename h vs hv.2]

end

end Value

/-! ## Members -/

namespace Value

theorem members_rename (ρ : Renaming) (v : Value) :
    (v.rename ρ).members = v.members.map (rename ρ) := by
  cases v with
  | unionType stamp members => exact renameAll_eq_map ρ members
  | _ => rfl

theorem within_members {n : Nat} {v : Value} (hv : v.Within n) : ∀ m ∈ v.members, m.Within n := by
  cases v with
  | unionType stamp members => exact allIdsOf_iff.1 hv.2
  | _ => exact List.forall_mem_singleton.2 hv

end Value

/-- Duplicates are dropped alike on both sides of a map that keeps them apart. -/
theorem eraseDupsBy_map {α β : Type} {f : α → β} {same : α → α → Bool} {same' : β → β → Bool}
    {l : List α} (h : ∀ a ∈ l, ∀ b ∈ l, same' (f a) (f b) = same a b) :
    (l.map f).eraseDupsBy same' = (l.eraseDupsBy same).map f := by
  match l with
  | [] => rfl
  | a :: l =>
    have hfilter : (l.map f).filter (fun b => decide (same' b (f a) = false)) =
        (l.filter fun b => decide (same b a = false)).map f := by
      rw [List.filter_map]
      refine congrArg _ (List.filter_congr fun b hb => ?_)
      rw [Function.comp_apply, h b (List.mem_cons_of_mem a hb) a List.mem_cons_self]
    have hrest := eraseDupsBy_map (l := l.filter fun b => decide (same b a = false))
      fun b hb c hc => h b (List.mem_cons_of_mem a (List.mem_filter.1 hb).1) c
        (List.mem_cons_of_mem a (List.mem_filter.1 hc).1)
    rw [List.map_cons, List.eraseDupsBy_cons, List.eraseDupsBy_cons, hfilter, hrest, List.map_cons]
termination_by l.length
decreasing_by exact Nat.lt_succ_of_le (List.length_filter_le _ _)

namespace Objects

/-- The objects are all among `objects'`, under other ids: with the same attributes, and mentioning
nothing else. -/
structure Embeds (ρ : Renaming) (objects objects' : Objects) : Prop where
  oneToOne : ρ.OneToOne
  size : objects.attributes.size ≤ objects'.attributes.size
  made : ∀ i < objects.attributes.size, ρ.object i < objects'.attributes.size
  get? : ∀ i < objects.attributes.size, ∀ name,
    (objects'.attributesAt (ρ.object i)).get? name =
      ((objects.attributesAt i).get? name).map (Value.rename ρ)
  closed : ∀ i < objects.attributes.size, ∀ name, ∀ v ∈ (objects.attributesAt i).get? name,
    v.Within objects.attributes.size

/-- How many of the first `n` objects are not at `path`. -/
def aside (n : Nat) (path : List Nat) : Nat := ((List.range n).filter (· ∉ path)).length

theorem aside_nil (n : Nat) : aside n [] = n := by
  rw [aside, List.filter_eq_self.2 fun i _ => by simp, List.length_range]

/-- An object that is stepped into is not aside any more. -/
theorem aside_cons_lt {n i : Nat} {path : List Nat} (hi : i < n) (hnew : i ∉ path) :
    aside n (i :: path) < aside n path := by
  have hfilter : (List.range n).filter (· ∉ i :: path) =
      ((List.range n).filter (· ∉ path)).filter (· ≠ i) := by
    rw [List.filter_filter]
    refine List.filter_congr fun j _ => ?_
    by_cases hj : j = i <;> simp [hj]
  have hmem : i ∈ (List.range n).filter (· ∉ path) := by
    simp [hi, hnew]
  rw [aside, aside, hfilter]
  exact List.length_filter_lt_length_iff_exists.2 ⟨i, hmem, by simp⟩

/-- With none aside, every object is at the path. -/
theorem mem_of_aside_eq_zero {n i : Nat} {path : List Nat} (h : aside n path = 0) (hi : i < n) :
    i ∈ path := by
  have hnone := List.filter_eq_nil_iff.1 (List.length_eq_zero_iff.1 h) i (List.mem_range.2 hi)
  simpa using hnone

/-- Looking further into a value shows nothing more: no record that is met holds itself. -/
def Settled (objects : Objects) (v : Value) : Prop :=
  ∀ depth, objects.attributes.size ≤ depth → v.shape (objects.fieldShapes depth) = objects.shape v

/-- A value without records is settled. -/
theorem settled_of_hashable (objects : Objects) {v : Value} (h : v.unhashable? = none) :
    objects.Settled v := fun _ _ => v.shape_eq_of_hashable _ _ h

/-- The members of a settled union are settled. -/
theorem Settled.members {objects : Objects} {v : Value} (h : objects.Settled v) :
    ∀ m ∈ v.members, objects.Settled m := by
  intro m hm depth hdepth
  cases v with
  | unionType stamp members =>
    have hshapes := h depth hdepth
    simp only [Objects.shape, Value.shape, Value.parts, Value.shapes_eq_map, Shape.of.injEq,
      true_and] at hshapes
    exact List.map_inj_left.1 hshapes m hm
  | _ =>
    rw [List.mem_singleton.1 hm]
    exact h depth hdepth

namespace Embeds

variable {ρ : Renaming} {objects objects' : Objects} (h : objects.Embeds ρ objects')
  {v : Value}
include h

/-! ## Attributes -/

/-- **A value has the same attributes**, under other ids. -/
theorem attribute? (hv : v.Within objects.attributes.size) (name : String) :
    objects'.attribute? (v.rename ρ) name = (objects.attribute? v name).map (Value.rename ρ) := by
  cases v with
  | record ref => exact h.get? ref.index hv name
  | individual ref => exact h.get? ref.index hv name
  | typeError stamp site message kind =>
    simp only [Value.rename, Objects.attribute?, List.lookup_cons, List.lookup_nil]
    split
    · rfl
    · split
      · exact congrArg some (Value.rename_ofText ρ message).symm
      · split
        · exact congrArg some (Value.rename_ofText ρ kind).symm
        · rfl
  | location stamp filename span =>
    simp only [Value.rename, Objects.attribute?, List.lookup_cons, List.lookup_nil]
    split
    · rfl
    · split <;> rfl
  | _ => rfl

/-- What a value has mentions nothing else. -/
theorem within_attribute? (hv : v.Within objects.attributes.size) {name : String} {w : Value}
    (hw : objects.attribute? v name = some w) : w.Within objects.attributes.size := by
  cases v with
  | record ref => exact h.closed ref.index hv name w hw
  | individual ref => exact h.closed ref.index hv name w hw
  | typeError stamp site message kind =>
    simp only [Value.AllIds, true_and] at hv
    simp only [Objects.attribute?, List.lookup_cons, List.lookup_nil] at hw
    split at hw
    · cases hw; exact hv
    · split at hw
      · cases hw; trivial
      · split at hw
        · cases hw; trivial
        · cases hw
  | location stamp filename span =>
    simp only [Value.AllIds, true_and] at hv
    simp only [Objects.attribute?, List.lookup_cons, List.lookup_nil] at hw
    split at hw
    · cases hw; exact hv.1
    · split at hw
      · cases hw; exact hv.2
      · cases hw
  | _ => cases hw

theorem get (hv : v.Within objects.attributes.size) (name : String) :
    objects'.get (v.rename ρ) name = (objects.get v name).rename ρ := by
  rw [Objects.get, Objects.get, h.attribute? hv]
  cases objects.attribute? v name <;> rfl

theorem within_get (hv : v.Within objects.attributes.size) (name : String) :
    (objects.get v name).Within objects.attributes.size := by
  rw [Objects.get]
  cases hw : objects.attribute? v name with
  | none => trivial
  | some w => exact h.within_attribute? hv hw

theorem need (hv : v.Within objects.attributes.size) (name : String) :
    objects'.need (v.rename ρ) name = (objects.need v name).map (Value.rename ρ) := by
  rw [Objects.need, Objects.need, h.attribute? hv]
  cases objects.attribute? v name with
  | none => simp only [Option.map_none, Value.kindName_rename]; rfl
  | some w => rfl

theorem within_need (hv : v.Within objects.attributes.size) {name : String} {w : Value}
    (hw : objects.need v name = .ok w) : w.Within objects.attributes.size := by
  rw [Objects.need] at hw
  split at hw
  · rename_i found hfound
    cases hw
    exact h.within_attribute? hv hfound
  · cases hw

/-- What hides an operation hides it under other ids. -/
theorem operation {α : Type} (hv : v.Within objects.attributes.size) (name : String)
    {answer answer' : Except Failure α} (hanswer : answer' = answer) :
    objects'.operation (v.rename ρ) name answer' = objects.operation v name answer := by
  rw [Objects.operation, Objects.operation, h.attribute? hv, hanswer]
  cases objects.attribute? v name with
  | none => rfl
  | some noted => simp only [Option.map_some, Value.kindName_rename]

theorem fields {ref : RecordRef} (href : ref.index < objects.attributes.size) :
    objects'.fields (ref.rename ρ) = (objects.fields ref).map (Value.rename ρ) := by
  simp only [Objects.fields, List.map_map]
  exact List.map_congr_left fun name _ => h.get (v := .record ref) href name

theorem within_fields {ref : RecordRef} (href : ref.index < objects.attributes.size) :
    ∀ v ∈ objects.fields ref, v.Within objects.attributes.size := by
  intro v hv
  obtain ⟨name, -, rfl⟩ := List.mem_map.1 hv
  exact h.within_get (v := .record ref) href name

theorem arguments {ref : IndividualRef} (href : ref.index < objects.attributes.size) :
    objects'.arguments (ref.rename ρ) = (objects.arguments ref).map (Value.rename ρ) ∧
      ∀ v ∈ objects.arguments ref, v.Within objects.attributes.size := by
  have hget := h.get (v := .individual ref) href "args"
  have hwithin := h.within_get (v := .individual ref) href "args"
  simp only [Value.rename] at hget
  simp only [Objects.arguments, hget]
  generalize objects.get (.individual ref) "args" = args at hwithin
  cases args with
  | tuple stamp items =>
    simp only [Value.AllIds, Value.allIdsOf_iff, true_and] at hwithin
    exact ⟨Value.renameAll_eq_map ρ items, hwithin⟩
  | _ => exact ⟨rfl, fun v hv => absurd hv List.not_mem_nil⟩

/-! ## Texts at a moment -/

omit h in
/-- What is at a path is there under its other id. -/
theorem mem_path (hone : ρ.OneToOne) {path : List Nat} {i : Nat} :
    ρ.object i ∈ path.map ρ.object ↔ i ∈ path := by
  refine ⟨fun hi => ?_, List.mem_map_of_mem⟩
  obtain ⟨j, hj, heq⟩ := List.mem_map.1 hi
  rwa [← hone.object heq]

/-- An object is shown alike where what it holds is. -/
theorem formsTo_succ {depth depth' : Nat} {path : List Nat}
    (hinner : ∀ i < objects.attributes.size, i ∉ path →
      (objects.formsTo depth (i :: path)).Alike ρ objects.attributes.size
        (objects'.formsTo depth' (ρ.object i :: path.map ρ.object))) :
    (objects.formsTo (depth + 1) path).Alike ρ objects.attributes.size
      (objects'.formsTo (depth' + 1) (path.map ρ.object)) := by
  have hmem : ∀ i, ρ.object i ∈ path.map ρ.object ↔ i ∈ path := fun i => mem_path h.oneToOne
  refine ⟨fun ref href => ?_, fun ref href => ?_, fun ref href => ?_⟩
  · by_cases hin : ref.index ∈ path
    · exact (if_pos ((hmem ref.index).2 hin)).trans (if_pos hin).symm
    · have hforms := hinner ref.index href hin
      have hfields := Value.writtenAll_rename hforms (objects.fields ref)
        (Value.allIdsOf_iff.2 (h.within_fields href))
      rw [Value.renameAll_eq_map, ← h.fields href] at hfields
      simp only [Objects.formsTo, RecordRef.rename, hmem, hin, if_false]
      simp only [RecordRef.rename] at hfields
      rw [hfields]
  · by_cases hin : ref.index ∈ path
    · exact (if_pos ((hmem ref.index).2 hin)).trans (if_pos hin).symm
    · have hforms := hinner ref.index href hin
      have htag := hforms.ofPieces (h.within_get (v := .individual ref) href "tag")
      rw [← h.get (v := .individual ref) href] at htag
      obtain ⟨harguments, hwithin⟩ := h.arguments href
      have hraised := hforms.ofRaisable hwithin
      obtain ⟨index, kind⟩ := ref
      simp only [Value.rename, IndividualRef.rename] at htag harguments
      simp only [Objects.formsTo, IndividualRef.rename, hmem, hin, if_false, htag, harguments,
        hraised]
  · by_cases hin : ref.index ∈ path
    · exact (if_pos ((hmem ref.index).2 hin)).trans (if_pos hin).symm
    · have hforms := hinner ref.index href hin
      have htag := hforms.ofPieces (h.within_get (v := .individual ref) href "tag")
      rw [← h.get (v := .individual ref) href] at htag
      obtain ⟨harguments, hwithin⟩ := h.arguments href
      have hsaid := hforms.ofArguments hwithin
      obtain ⟨index, kind⟩ := ref
      simp only [Value.rename, IndividualRef.rename] at htag harguments
      simp only [Objects.formsTo, IndividualRef.rename, hmem, hin, if_false, htag, harguments,
        hsaid]

/-- **Objects are shown alike**, however many others there are: nothing is followed deeper than
there are objects aside. -/
theorem formsTo {depth depth' : Nat} {path : List Nat}
    (hdepth : aside objects.attributes.size path ≤ depth)
    (hdepth' : aside objects.attributes.size path ≤ depth') :
    (objects.formsTo depth path).Alike ρ objects.attributes.size
      (objects'.formsTo depth' (path.map ρ.object)) := by
  -- the two depths go down together; where one has run out, all objects are at the path
  induction depth generalizing depth' path with
  | zero =>
    have hzero : aside objects.attributes.size path = 0 := Nat.le_zero.1 hdepth
    cases depth' with
    | zero => exact ⟨fun _ _ => rfl, fun _ _ => rfl, fun _ _ => rfl⟩
    | succ depth' =>
      refine ⟨fun ref href => ?_, fun ref href => ?_, fun ref href => ?_⟩
      all_goals exact if_pos ((mem_path h.oneToOne).2 (mem_of_aside_eq_zero hzero href))
  | succ depth ih =>
    cases depth' with
    | zero =>
      have hzero : aside objects.attributes.size path = 0 := Nat.le_zero.1 hdepth'
      refine ⟨fun ref href => ?_, fun ref href => ?_, fun ref href => ?_⟩
      all_goals exact (if_pos (mem_of_aside_eq_zero hzero href)).symm
    | succ depth' =>
      refine h.formsTo_succ fun i hi hnew => ?_
      have hlt := aside_cons_lt hi hnew
      exact ih (by omega) (by omega)

theorem forms : objects.forms.Alike ρ objects.attributes.size objects'.forms := by
  have hall := aside_nil objects.attributes.size
  have hsize := h.size
  exact h.formsTo (by omega) (by omega)

/-- The texts of a value are the same. -/
theorem written (hv : v.Within objects.attributes.size) :
    objects'.written (v.rename ρ) = objects.written v :=
  Value.written_rename h.forms v hv

theorem plain (hv : v.Within objects.attributes.size) :
    objects'.plain (v.rename ρ) = objects.plain v :=
  Value.plain_rename h.forms hv

theorem display (hv : v.Within objects.attributes.size) :
    objects'.display (v.rename ρ) = objects.display v :=
  Value.display_rename (fun _ => h.written) v hv

/-! ## Equality at a moment -/

/-- The fields of a record have the same shapes, to whichever depth they are followed. -/
theorem fieldShapes (depth : Nat) {ref : RecordRef}
    (href : ref.index < objects.attributes.size) :
    objects'.fieldShapes depth (ref.rename ρ) =
      Shape.renameAll ρ (objects.fieldShapes depth ref) := by
  induction depth generalizing ref with
  | zero => rfl
  | succ depth ih =>
    have hfields := Value.allIdsOf_iff.2 (h.within_fields href)
    rw [Objects.fieldShapes, h.fields href, ← Value.renameAll_eq_map]
    exact Value.shapes_rename (fun _ => ih) _ hfields

theorem shape (hv : v.Within objects.attributes.size) (hsettled : objects.Settled v) :
    objects'.shape (v.rename ρ) = (objects.shape v).rename ρ := by
  rw [← hsettled _ h.size]
  exact Value.shape_rename (fun _ => h.fieldShapes _) hv

/-- **Values are equal when they are equal under other ids.** -/
theorem equal {a b : Value} (ha : a.Within objects.attributes.size) (hsettled : objects.Settled a)
    (hb : b.Within objects.attributes.size) (hsettled' : objects.Settled b) :
    objects'.equal (a.rename ρ) (b.rename ρ) = objects.equal a b := by
  rw [Bool.eq_iff_iff, equal_iff, equal_iff, h.shape ha hsettled, h.shape hb hsettled']
  exact ⟨Shape.rename_inj h.oneToOne _ _, fun heq => congrArg _ heq⟩

/-- **The same members are kept of a join.** -/
theorem joined {types : List Value} (htypes : ∀ t ∈ types, t.Within objects.attributes.size)
    (hsettled : ∀ t ∈ types, objects.Settled t) :
    Types.joined objects'.equal (types.map (Value.rename ρ)) =
      (Types.joined objects.equal types).map (Value.rename ρ) := by
  have hmembers : (types.map (Value.rename ρ)).flatMap Value.members =
      (types.flatMap Value.members).map (Value.rename ρ) := by
    simp only [List.flatMap_map, List.map_flatMap, Value.members_rename]
  rw [Types.joined, Types.joined, hmembers]
  have hall : ∀ m ∈ types.flatMap Value.members,
      m.Within objects.attributes.size ∧ objects.Settled m := by
    intro m hm
    obtain ⟨type, htype, hm⟩ := List.mem_flatMap.1 hm
    exact ⟨Value.within_members (htypes type htype) m hm, (hsettled type htype).members m hm⟩
  exact eraseDupsBy_map fun a ha b hb =>
    h.equal (hall a ha).1 (hall a ha).2 (hall b hb).1 (hall b hb).2

/-! ## Summaries -/

/-- The start of a span is the same text. -/
theorem start (hv : v.Within objects.attributes.size) :
    objects'.start (v.rename ρ) = objects.start v := by
  unfold Objects.start
  rw [h.need hv, h.need hv]
  cases hline : objects.need v "start_line" with
  | error failure => simp only [Except.map, bind, Except.bind]
  | ok line =>
    cases hcolumn : objects.need v "start_column" with
    | error failure => simp only [Except.map, bind, Except.bind]
    | ok column =>
      have hlineText := h.plain (h.within_need hv hline)
      have hcolumnText := h.plain (h.within_need hv hcolumn)
      simp only [Except.map, bind, Except.bind, Span.start, hlineText, hcolumnText]

theorem startOf (hv : v.Within objects.attributes.size) :
    objects'.startOf (v.rename ρ) = objects.startOf v := by
  have hspan := h.start (h.within_get hv "span")
  unfold Objects.startOf
  rw [h.get hv]
  generalize objects.get v "span" = span at hspan
  cases span with
  | absent => rfl
  | _ => exact hspan

theorem excerptOf (hv : v.Within objects.attributes.size) :
    objects'.excerptOf (v.rename ρ) = objects.excerptOf v := by
  have hwithin := h.within_get hv "source"
  unfold Objects.excerptOf
  rw [h.get hv]
  simp only [Value.isTrue_rename, Value.kindName_rename]
  generalize objects.get v "source" = source at hwithin
  split
  · cases source with
    | text stamp s => rfl
    | _ => exact h.operation hwithin "split" rfl
  · rfl

/-- **A value is summarized alike.** -/
theorem summary (hv : v.Within objects.attributes.size) :
    objects'.summary (v.rename ρ) = objects.summary v := by
  unfold Objects.summary
  rw [h.startOf hv, h.excerptOf hv]

/-- Settings are followed alike. -/
theorem settingsOf {ref : SettingsRef} (href : ref.index < objects.attributes.size) :
    objects'.settingsOf (ref.rename ρ) = objects.settingsOf ref := by
  have hget := fun name => h.get (v := ref.value) href name
  have hvalue : (ref.rename ρ).value = ref.value.rename ρ := rfl
  unfold Objects.settingsOf
  rw [hvalue, hget, hget, hget, Value.number?_rename, Value.isTrue_rename]
  congr 1
  cases objects.get ref.value "version_bump" <;> rfl

end Embeds

end Objects

end TypingStore
