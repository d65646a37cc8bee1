import TypingStore.Proofs.Abandoned
import TypingStore.Proofs.Embedding

/-!
# Making and changing objects in step

Objects among other objects stay the same objects when what is made or changed in the one place is
made or changed in the other, under other ids. New ones get the next id in both, so the renaming has
to be in step with both (`Objects.Relocated`). For stamps it need only be so below a limit: which
stamps come after those that are given out by now may still be open.

* `Relocated.add`, `Relocated.set`: an object is made, or one of its attributes changed.
* `Relocated.make`: an object is made whose contents do not change.
* `Relocated.newFault`, `Relocated.settingsOr`: what operations make.
* `Relocated.assign`: an assignment.
-/

namespace TypingStore

/-- A bound value is that of an entry. -/
theorem Bindings.exists_mem_of_get? {κ ν : Type} [BEq κ] {b : Bindings κ ν} {key : κ} {value : ν}
    (h : b.get? key = some value) : ∃ entry ∈ b.entries, entry.2 = value := by
  obtain ⟨entry, hentry, hvalue⟩ := Option.map_eq_some_iff.1 h
  exact ⟨entry, List.mem_of_find?_eq_some hentry, hvalue⟩

namespace Cause

/-- What went wrong, under other ids. -/
def rename (ρ : Renaming) : Cause → Cause
  | .other message => .other (message.rename ρ)
  | .nodeNotTyped node => .nodeNotTyped (node.rename ρ)
  | .variableNotTyped name => .variableNotTyped (name.rename ρ)
  | .staleContext expected actual => .staleContext (expected.rename ρ) (actual.rename ρ)
  | .commitOnRoot => .commitOnRoot

/-- What went wrong mentions only the first `n` objects. -/
def Within (n : Nat) : Cause → Prop
  | .other v | .nodeNotTyped v | .variableNotTyped v => v.Within n
  | .staleContext expected actual => expected.Within n ∧ actual.Within n
  | .commitOnRoot => True

variable {n : Nat} {cause : Cause}

theorem kind_rename (ρ : Renaming) (cause : Cause) : (cause.rename ρ).kind = cause.kind := by
  cases cause <;> rfl

theorem notes_rename (ρ : Renaming) (cause : Cause) :
    (cause.rename ρ).notes = cause.notes.map fun e => (e.1, e.2.rename ρ) := by
  cases cause <;> rfl

/-- What is noted about a fault is what went wrong. -/
theorem within_notes (h : cause.Within n) : ∀ e ∈ cause.notes, e.2.Within n := by
  intro e he
  cases cause with
  | nodeNotTyped node | variableNotTyped name =>
    rw [List.mem_singleton.1 he]
    exact h
  | staleContext expected actual =>
    rcases List.mem_cons.1 he with rfl | he
    · exact h.1
    · rw [List.mem_singleton.1 he]
      exact h.2
  | _ => cases he

/-- A fault says a text, unless the words are its own. -/
theorem within_message (h : cause.Within n) (written plain : Value → String) :
    (cause.message written plain).Within n := by
  cases cause with
  | other message => exact h
  | _ => trivial

end Cause

/-! ## What objects keep -/

section

variable {ρ : Renaming} {n : Nat} (new : Value)

theorem Value.toRow_rename (ρ : Renaming) (v : Value) :
    (v.rename ρ).toRow = (Failure.renameIn ρ v.toRow).map (List.map (Value.rename ρ)) := by
  cases v with
  | list stamp items | tuple stamp items =>
    exact congrArg Except.ok (Value.renameAll_eq_map ρ items)
  | text stamp s =>
    have hchars : (s.toList.map fun c => Value.ofText c.toString).map (Value.rename ρ) =
        s.toList.map fun c => Value.ofText c.toString := by
      simp only [List.map_map, Function.comp_def, Value.rename_ofText]
    exact congrArg Except.ok hchars.symm
  | _ => rfl

theorem Value.within_toRow {v : Value} (hv : v.Within n) {items : List Value}
    (hitems : v.toRow = .ok items) : ∀ item ∈ items, item.Within n := by
  cases v with
  | list stamp items' | tuple stamp items' =>
    cases hitems
    simp only [AllIds, allIdsOf_iff, true_and] at hv
    exact hv
  | text stamp s =>
    cases hitems
    intro item hitem
    obtain ⟨c, -, rfl⟩ := List.mem_map.1 hitem
    trivial
  | _ => cases hitems

theorem keptByObject_rename (family field : String) :
    keptByObject family field (new.rename ρ) =
      (Failure.renameIn ρ (keptByObject family field new)).map (Value.rename ρ) := by
  unfold keptByObject
  rw [Value.kindName_rename]
  split <;> rfl

theorem within_keptByObject {family field : String} {kept : Value} (hnew : new.Within n)
    (hkept : keptByObject family field new = .ok kept) : kept.Within n := by
  unfold keptByObject at hkept
  split at hkept
  · cases hkept
  · cases hkept
  · cases hkept
  · cases hkept
    exact hnew

theorem keptByException_rename (hρ : ρ.OneToOne) (field : String) :
    keptByException field (new.rename ρ) =
      (Failure.renameIn ρ (keptByException field new)).map (Value.rename ρ) := by
  have habsent : (new.rename ρ).isSame .absent = new.isSame .absent :=
    Value.isSame_rename hρ new .absent
  have hchained : ∀ link, keptByException.chained (new.rename ρ) link =
      (Failure.renameIn ρ (keptByException.chained new link)).map (Value.rename ρ) := by
    intro link
    unfold keptByException.chained
    rw [habsent, Value.isRaisable_rename]
    split <;> rfl
  unfold keptByException
  rw [Value.toRow_rename, Value.kindName_rename, habsent, hchained, hchained]
  split
  · cases new.toRow with
    | error failure => rfl
    | ok items =>
      have hrow : Value.rename ρ (.tuple ⟨0⟩ items) = .tuple ⟨0⟩ (items.map (Value.rename ρ)) := by
        rw [Value.rename, Stamp.rename_zero, Value.renameAll_eq_map]
      exact congrArg Except.ok hrow.symm
  · rfl
  · rfl
  · split <;> rfl
  · rfl
  · rfl
  · cases new <;> rfl
  · rfl

theorem within_keptByException {field : String} {kept : Value} (hnew : new.Within n)
    (hkept : keptByException field new = .ok kept) : kept.Within n := by
  have hchained : ∀ {link}, keptByException.chained new link = .ok kept → kept.Within n := by
    intro link hkept
    unfold keptByException.chained at hkept
    split at hkept
    · cases hkept
      exact hnew
    · cases hkept
  unfold keptByException at hkept
  split at hkept
  · cases hrow : new.toRow with
    | error failure =>
      rw [hrow] at hkept
      cases hkept
    | ok items =>
      rw [hrow] at hkept
      cases hkept
      exact ⟨trivial, Value.allIdsOf_iff.2 (Value.within_toRow hnew hrow)⟩
  · cases hkept
  · cases hkept
  · split at hkept
    · cases hkept
      exact hnew
    · cases hkept
  · exact hchained hkept
  · exact hchained hkept
  · cases new with
    | bool b =>
      cases hkept
      trivial
    | _ => cases hkept
  · cases hkept
    exact hnew

/-- **What an object keeps of what it is given does not depend on ids.** -/
theorem IndividualKind.kept_rename (hρ : ρ.OneToOne) (kind : IndividualKind) (field : String) :
    kind.kept field (new.rename ρ) =
      (Failure.renameIn ρ (kind.kept field new)).map (Value.rename ρ) := by
  cases kind with
  | foreign kind => exact keptByObject_rename new _ field
  | exception kind => exact keptByException_rename new hρ field
  | fault kind =>
    simp only [kept, keptByObject_rename]
    cases hkept : keptByObject (IndividualKind.fault kind).general.name field new with
    | error failure => rfl
    | ok w => exact keptByException_rename w hρ field

theorem IndividualKind.within_kept {kind : IndividualKind} {field : String} {w : Value}
    (hnew : new.Within n) (hkept : kind.kept field new = .ok w) : w.Within n := by
  cases kind with
  | foreign kind => exact within_keptByObject new hnew hkept
  | exception kind => exact within_keptByException new hnew hkept
  | fault kind =>
    simp only [kept] at hkept
    cases hobject : keptByObject (IndividualKind.fault kind).general.name field new with
    | error failure =>
      rw [hobject] at hkept
      cases hkept
    | ok w' =>
      rw [hobject] at hkept
      exact within_keptByException w' (within_keptByObject new hnew hobject) hkept

/-- Why plain data cannot be changed does not depend on ids. -/
theorem Value.refusal_rename (ρ : Renaming) (v : Value) (field : String) (new : Value) :
    (v.rename ρ).refusal field (new.rename ρ) = (v.refusal field new).rename ρ := by
  have hparts : (v.rename ρ).partNames = v.partNames := by cases v <;> rfl
  have hoperations : (v.rename ρ).operations = v.operations := by cases v <;> rfl
  unfold Value.refusal
  rw [hparts, hoperations, Value.kindName_rename, Value.kindName_rename]
  split
  · rfl
  · split
    · rfl
    · split <;> rfl

end

namespace Objects

theorem attributesAt_add (objects : Objects) (attributes : List (String × Value)) :
    (objects.add attributes).attributesAt objects.attributes.size = ⟨attributes⟩ := by
  simp [attributesAt, add, Array.getD_eq_getD_getElem?]

theorem size_add (objects : Objects) (attributes : List (String × Value)) :
    (objects.add attributes).attributes.size = objects.attributes.size + 1 :=
  Array.size_push ..

theorem size_set (objects : Objects) (index : Nat) (name : String) (new : Value) :
    (objects.set index name new).attributes.size = objects.attributes.size :=
  Array.size_modify

/-- What an object reads as after a change of one of them. -/
theorem get?_attributesAt_set (objects : Objects) {index : Nat}
    (made : index < objects.attributes.size) (field name : String) (new : Value) (i : Nat) :
    ((objects.set index field new).attributesAt i).get? name =
      if i = index ∧ field = name then some new else (objects.attributesAt i).get? name := by
  have hread := objects.attribute?_set made field name new (.record ⟨i, default⟩)
  simpa only [attribute?, Value.index?, Option.some.injEq] using hread

/-- The objects are all among `objects'`, under other ids, and so will be the next ones. The stamps
below `limit` are given out in step. -/
structure Relocated (limit : Nat) (ρ : Renaming) (objects objects' : Objects) : Prop
    extends objects.Embeds ρ objects' where
  next : ∀ n, ρ.object (objects.attributes.size + n) = objects'.attributes.size + n
  nextStamp : ∀ n, objects.nextStamp + n < limit →
    ρ.stamp (objects.nextStamp + n) = objects'.nextStamp + n

namespace Relocated

variable {limit : Nat} {ρ : Renaming} {objects objects' : Objects}
  (h : objects.Relocated limit ρ objects')
include h

/-- **An object is made in both.** It may refer to itself. -/
theorem add (attributes : List (String × Value))
    (hattributes : ∀ e ∈ attributes, e.2.Within (objects.attributes.size + 1)) :
    (objects.add attributes).Relocated limit ρ
      (objects'.add (attributes.map fun e => (e.1, e.2.rename ρ))) := by
  have hsize := objects.size_add attributes
  have hsize' := objects'.size_add (attributes.map fun e => (e.1, e.2.rename ρ))
  have hnew : ρ.object objects.attributes.size = objects'.attributes.size := h.next 0
  have hold : ∀ i < objects.attributes.size,
      (objects.add attributes).attributesAt i = objects.attributesAt i ∧
        (objects'.add (attributes.map fun e => (e.1, e.2.rename ρ))).attributesAt (ρ.object i) =
          objects'.attributesAt (ρ.object i) := fun i hi =>
    ⟨(objects.added_add attributes).attributesAt i hi,
      (objects'.added_add _).attributesAt _ (h.made i hi)⟩
  refine { oneToOne := h.oneToOne, size := ?_, made := ?_, get? := ?_, closed := ?_, next := ?_,
           nextStamp := h.nextStamp }
  · have hle := h.size
    omega
  -- each object was there before, or it is the one that is made
  · intro i hi
    rcases Nat.lt_or_eq_of_le (Nat.lt_succ_iff.1 (hsize ▸ hi)) with hlt | rfl
    · have hmade := h.made i hlt
      omega
    · omega
  · intro i hi name
    rcases Nat.lt_or_eq_of_le (Nat.lt_succ_iff.1 (hsize ▸ hi)) with hlt | rfl
    · rw [(hold i hlt).1, (hold i hlt).2]
      exact h.get? i hlt name
    · rw [hnew, attributesAt_add, attributesAt_add]
      exact Bindings.get?_map (fun _ v => v.rename ρ) ⟨attributes⟩ name
  · intro i hi name v hv
    rw [hsize]
    rcases Nat.lt_or_eq_of_le (Nat.lt_succ_iff.1 (hsize ▸ hi)) with hlt | rfl
    · rw [(hold i hlt).1] at hv
      exact (h.closed i hlt name v hv).mono (Nat.le_succ _)
    · rw [attributesAt_add] at hv
      obtain ⟨entry, hentry, rfl⟩ := Bindings.exists_mem_of_get? hv
      exact hattributes entry hentry
  · intro n
    have hnext := h.next (n + 1)
    rw [hsize, hsize', Nat.add_assoc, Nat.add_assoc, Nat.add_comm 1 n]
    exact hnext

/-- **An attribute is changed in both.** -/
theorem set {index : Nat} (hindex : index < objects.attributes.size) (field : String) {new : Value}
    (hnew : new.Within objects.attributes.size) :
    (objects.set index field new).Relocated limit ρ
      (objects'.set (ρ.object index) field (new.rename ρ)) := by
  have hsize := objects.size_set index field new
  have hsize' := objects'.size_set (ρ.object index) field (new.rename ρ)
  refine { oneToOne := h.oneToOne, size := ?_, made := ?_, get? := ?_, closed := ?_, next := ?_,
           nextStamp := h.nextStamp }
  · rw [hsize, hsize']
    exact h.size
  · rw [hsize, hsize']
    exact h.made
  · intro i hi name
    rw [hsize] at hi
    have hiff : ρ.object i = ρ.object index ↔ i = index :=
      ⟨h.oneToOne.object, fun heq => congrArg _ heq⟩
    simp only [get?_attributesAt_set _ hindex, get?_attributesAt_set _ (h.made index hindex), hiff,
      h.get? i hi name]
    split <;> rfl
  · intro i hi name v hv
    rw [hsize] at hi ⊢
    rw [get?_attributesAt_set _ hindex] at hv
    split at hv
    · cases hv
      exact hnew
    · exact h.closed i hi name v hv
  · rw [hsize, hsize']
    exact h.next

/-- **An object whose contents do not change is made in both.** -/
theorem make {f g : Stamp → Value} (hroom : objects.nextStamp < limit)
    (hsame : ∀ stamp : Stamp, g (stamp.rename ρ) = (f stamp).rename ρ) :
    (objects'.make g).1 = (objects.make f).1.rename ρ ∧
      (objects.make f).2.Relocated limit ρ (objects'.make g).2 := by
  have hnew : ρ.stamp objects.nextStamp = objects'.nextStamp := h.nextStamp 0 hroom
  refine ⟨?_, { h with get? := h.get?, closed := h.closed, nextStamp := fun n hn => ?_ }⟩
  · have hmade := hsame ⟨objects.nextStamp⟩
    rwa [Stamp.rename, hnew] at hmade
  · simp only [Objects.make] at hn ⊢
    have hnext := h.nextStamp (n + 1) (by omega)
    rw [Nat.add_assoc, Nat.add_assoc, Nat.add_comm 1 n]
    exact hnext

/-- A number is made in both. -/
theorem number (hroom : objects.nextStamp < limit) (n : Int) :
    (objects'.number n).1 = (objects.number n).1.rename ρ ∧
      (objects.number n).2.Relocated limit ρ (objects'.number n).2 :=
  h.make hroom fun _ => rfl

/-- Settings are given in both, or made in both. -/
theorem settingsOr {settings : Option SettingsRef}
    (hsettings : ∀ ref ∈ settings, ref.index < objects.attributes.size) :
    (objects'.settingsOr (settings.map (SettingsRef.rename ρ))).1 =
        (objects.settingsOr settings).1.rename ρ ∧
      (objects.settingsOr settings).1.index < (objects.settingsOr settings).2.attributes.size ∧
      (objects.settingsOr settings).2.Relocated limit ρ
        (objects'.settingsOr (settings.map (SettingsRef.rename ρ))).2 := by
  cases settings with
  | some ref => exact ⟨rfl, hsettings ref rfl, h⟩
  | none =>
    have hnew : ρ.object objects.attributes.size = objects'.attributes.size := h.next 0
    have hmade := h.add [("log_level", .level .warning),
      ("log_rich_format", .bool false), ("version_bump", .policy .firstWriteAfterSpawn)]
      (by simp [Value.AllIds])
    refine ⟨congrArg SettingsRef.mk hnew.symm, ?_, hmade⟩
    have hsize := objects.size_add [("log_level", .level .warning),
      ("log_rich_format", .bool false), ("version_bump", .policy .firstWriteAfterSpawn)]
    exact Nat.lt_of_lt_of_eq (Nat.lt_succ_self _) hsize.symm

/-- A fault says the same in both. -/
theorem causeMessage {cause : Cause} (hcause : cause.Within objects.attributes.size) :
    (cause.rename ρ).message objects'.written objects'.plain =
      (cause.message objects.written objects.plain).rename ρ := by
  cases cause with
  | other message => rfl
  | nodeNotTyped node | variableNotTyped name =>
    simp only [Cause.rename, Cause.message, Cause.message.coded, Value.rename_ofText,
      h.written hcause, Cause.kind]
  | staleContext expected actual =>
    simp only [Cause.rename, Cause.message, Cause.message.coded, Value.rename_ofText,
      h.plain hcause.1, h.plain hcause.2, Cause.kind]
  | commitOnRoot => exact (Value.rename_ofText ρ _).symm

/-- A fault arises at the same place in both. -/
theorem locationOf {cause : Cause} (hcause : cause.Within objects.attributes.size) :
    objects'.locationOf (cause.rename ρ) = (objects.locationOf cause).rename ρ ∧
      (objects.locationOf cause).Within objects.attributes.size := by
  cases cause with
  | nodeNotTyped node =>
    refine ⟨?_, trivial, trivial, h.within_get hcause "span"⟩
    simp only [Cause.rename, Objects.locationOf, Value.rename, Stamp.rename_zero, h.get hcause]
  | _ => exact ⟨rfl, trivial⟩

/-- **A fault arises in both**, in the same words. -/
theorem newFault {cause : Cause} (hcause : cause.Within objects.attributes.size) :
    (objects'.newFault (cause.rename ρ)).1 = (objects.newFault cause).1.rename ρ ∧
      (objects.newFault cause).2.Relocated limit ρ (objects'.newFault (cause.rename ρ)).2 := by
  have hnew : ρ.object objects.attributes.size = objects'.attributes.size := h.next 0
  have hmessage := cause.within_message hcause objects.written objects.plain
  obtain ⟨hlocation, hlocationWithin⟩ := h.locationOf hcause
  have hattributes : ∀ e ∈ [("args", .tuple ⟨0⟩ [cause.message objects.written objects.plain]),
      ("message", cause.message objects.written objects.plain),
      ("loc", objects.locationOf cause)] ++ cause.notes, e.2.Within objects.attributes.size := by
    intro e he
    simp only [List.mem_append, List.mem_cons, List.not_mem_nil, or_false] at he
    rcases he with (rfl | rfl | rfl) | he
    · exact ⟨trivial, hmessage, trivial⟩
    · exact hmessage
    · exact hlocationWithin
    · exact cause.within_notes hcause e he
  refine ⟨?_, ?_⟩
  · simp only [Objects.newFault, newIndividual, FaultRef.rename, hnew, cause.kind_rename]
  · have hmade := h.add _ fun e he => (hattributes e he).mono (Nat.le_succ _)
    simp only [List.map_append, List.map_cons, List.map_nil, Value.rename, Value.renameAll,
      Stamp.rename_zero] at hmade
    simp only [Objects.newFault, newIndividual, h.causeMessage hcause, hlocation,
      cause.notes_rename]
    exact hmade

/-- **An assignment is made in both, or refused in both.** -/
theorem assign {target new : Value} (htarget : target.Within objects.attributes.size)
    (hnew : new.Within objects.attributes.size) (field : String) :
    (∃ failure, objects.assign target field new = .error failure ∧
        objects'.assign (target.rename ρ) field (new.rename ρ) = .error (failure.rename ρ)) ∨
      ∃ after after', objects.assign target field new = .ok after ∧
        objects'.assign (target.rename ρ) field (new.rename ρ) = .ok after' ∧
        after.Relocated limit ρ after' := by
  have hset : ∀ {index : Nat} {kept : Except Failure Value}, index < objects.attributes.size →
      (∀ w, kept = .ok w → w.Within objects.attributes.size) →
      (∃ failure, kept.map (objects.set index field) = .error failure ∧
          ((Failure.renameIn ρ kept).map (Value.rename ρ)).map
            (objects'.set (ρ.object index) field) = .error (failure.rename ρ)) ∨
        ∃ after after', kept.map (objects.set index field) = .ok after ∧
          ((Failure.renameIn ρ kept).map (Value.rename ρ)).map
            (objects'.set (ρ.object index) field) = .ok after' ∧
          after.Relocated limit ρ after' := by
    intro index kept hindex hkept
    cases kept with
    | error failure => exact .inl ⟨failure, rfl, rfl⟩
    | ok w => exact .inr ⟨_, _, rfl, rfl, h.set hindex field (hkept w rfl)⟩
  cases target with
  | record ref =>
    have hkept : ref.kind.kept field (new.rename ρ) =
        (Failure.renameIn ρ (ref.kind.kept field new)).map (Value.rename ρ) :=
      keptByObject_rename new _ field
    simp only [Value.rename, RecordRef.rename, Objects.assign, hkept]
    exact hset htarget fun w hw => within_keptByObject new hnew hw
  | individual ref =>
    simp only [Value.rename, IndividualRef.rename, Objects.assign,
      IndividualKind.kept_rename new h.oneToOne]
    exact hset htarget fun w hw => IndividualKind.within_kept new hnew hw
  | absent | bool b | int stamp n | text stamp s | level l | policy p | list stamp items
  | tuple stamp items =>
    exact .inl ⟨_, rfl, congrArg Except.error (Value.refusal_rename ρ _ field new)⟩
  | _ => exact .inl ⟨_, rfl, rfl⟩

/-- A record is made in both; fields that are not given are absent in both. -/
theorem newRecord (kind : RecordKind) {fields : List Value} {others : List (String × Value)}
    (hfields : ∀ v ∈ fields, v.Within objects.attributes.size)
    (hothers : ∀ e ∈ others, e.2.Within objects.attributes.size) :
    (objects'.newRecord kind (fields.map (Value.rename ρ))
        (others.map fun e => (e.1, e.2.rename ρ))).1 =
      (objects.newRecord kind fields others).1.rename ρ ∧
    (objects.newRecord kind fields others).2.Relocated limit ρ
      (objects'.newRecord kind (fields.map (Value.rename ρ))
        (others.map fun e => (e.1, e.2.rename ρ))).2 := by
  have hnew : ρ.object objects.attributes.size = objects'.attributes.size := h.next 0
  let missing := List.replicate (kind.fieldNames.length - fields.length) Value.absent
  have hgiven : fields.map (Value.rename ρ) ++ missing =
      (fields ++ missing).map (Value.rename ρ) := by
    rw [List.map_append, List.map_replicate]
    rfl
  have hzip : kind.fieldNames.zip (fields.map (Value.rename ρ) ++ missing) =
      (kind.fieldNames.zip (fields ++ missing)).map fun e => (e.1, e.2.rename ρ) := by
    rw [hgiven, List.zip_map_right]
    rfl
  have hmade := h.add (kind.fieldNames.zip (fields ++ missing) ++ others) (by
    intro e he
    rcases List.mem_append.1 he with he | he
    · have hmem : e.2 ∈ fields ++ missing := (List.of_mem_zip he).2
      rcases List.mem_append.1 hmem with hfield | hmissing
      · exact (hfields e.2 hfield).mono (Nat.le_succ _)
      · rw [(List.mem_replicate.1 hmissing).2]
        trivial
    · exact (hothers e he).mono (Nat.le_succ _))
  rw [List.map_append, ← hzip] at hmade
  refine ⟨?_, ?_⟩
  · simp only [Objects.newRecord, RecordRef.rename, hnew]
  · simp only [Objects.newRecord, List.length_map]
    exact hmade

theorem newIndividual (kind : IndividualKind) {attributes : List (String × Value)}
    (hattributes : ∀ e ∈ attributes, e.2.Within objects.attributes.size) :
    (objects'.newIndividual kind (attributes.map fun e => (e.1, e.2.rename ρ))).1 =
      (objects.newIndividual kind attributes).1.rename ρ ∧
    (objects.newIndividual kind attributes).2.Relocated limit ρ
      (objects'.newIndividual kind (attributes.map fun e => (e.1, e.2.rename ρ))).2 := by
  have hnew : ρ.object objects.attributes.size = objects'.attributes.size := h.next 0
  have hmade := h.add attributes fun e he => (hattributes e he).mono (Nat.le_succ _)
  refine ⟨?_, hmade⟩
  simp only [Objects.newIndividual, IndividualRef.rename, hnew]

end Relocated

end Objects

end TypingStore
