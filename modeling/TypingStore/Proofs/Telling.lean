import TypingStore.Proofs.Change
import TypingStore.Proofs.Texts
import TypingStore.Proofs.Unversioned

/-!
# Which words tell versions

Stores that differ only in versions may differ in words. Few of them do: a commit that is refused
names two versions, and a text that shows settings shows a policy. What is worded from these may
tell of them again, if it shows them. So account is kept of the objects whose words may tell
(`Store.tellingAfter`), and apart from policies all other objects are the same
(`Objects.SameWords`). A text that shows neither settings nor an object that tells is the same text.

* `Objects.SameWords.lookAlike`: what shows nothing that tells looks the same.
* `Store.Alike.sameWords_perform`: one operation words alike what shows nothing that tells.
* `Store.Alike.dump_of_sameWords`: a dump that shows nothing that tells is the same text.
* `World.tellingAfter`: the objects whose words may tell, after a run.
-/

namespace TypingStore

/-- The attribute that holds a policy. -/
def policyNames : List String := ["version_bump"]

namespace Objects

/-- Values whose texts may tell a policy or a version: settings, and the objects at the positions
`telling`. -/
def TellsVersion (telling : Nat → Prop) (v : Value) : Prop :=
  (∃ ref : RecordRef, v = .record ref ∧ ref.kind = .settings) ∨ ∃ i ∈ v.index?, telling i

/-- The objects are the same, apart from policies and from those at the positions `telling`. -/
def SameWords (telling : Nat → Prop) (objects objects' : Objects) : Prop :=
  ∀ i, ¬ telling i → objects.attributes[i]?.map (Bindings.hide policyNames) =
    objects'.attributes[i]?.map (Bindings.hide policyNames)

namespace SameWords

variable {telling telling' : Nat → Prop} {objects objects' : Objects}

theorem refl (telling : Nat → Prop) (objects : Objects) : objects.SameWords telling objects :=
  fun _ _ => rfl

theorem mono (h : objects.SameWords telling objects') (himp : ∀ i, telling i → telling' i) :
    objects.SameWords telling' objects' :=
  fun i hi => h i (mt (himp i) hi)

theorem attribute? (h : objects.SameWords telling objects') {v : Value}
    (hv : ∀ i ∈ v.index?, ¬ telling i) {name : String} (hname : name ∉ policyNames) :
    objects.attribute? v name = objects'.attribute? v name := by
  have hread : ∀ i, ¬ telling i →
      (objects.attributesAt i).get? name = (objects'.attributesAt i).get? name := by
    intro i hi
    -- all that is hidden there is a policy, and this is another attribute
    have hhidden := congrArg
      (fun b => (b.getD ({} : Bindings String Value)).get? name) (h i hi)
    have hget : ∀ o : Objects, ((o.attributes[i]?.map (Bindings.hide policyNames)).getD {}).get?
        name = (o.attributesAt i).get? name := by
      intro o
      rw [attributesAt, Array.getD_eq_getD_getElem?]
      cases o.attributes[i]? with
      | none => rfl
      | some b =>
        simp only [Option.map_some, Option.getD_some, Bindings.get?_hide]
        cases b.get? name with
        | none => rfl
        | some w => simp only [Option.map_some, veil, if_neg hname]
    simpa only [hget] using hhidden
  cases v with
  | record ref => exact hread ref.index (hv _ rfl)
  | individual ref => exact hread ref.index (hv _ rfl)
  | _ => rfl

theorem get (h : objects.SameWords telling objects') {v : Value}
    (hv : ∀ i ∈ v.index?, ¬ telling i) {name : String} (hname : name ∉ policyNames) :
    objects.get v name = objects'.get v name := by
  simp only [Objects.get, h.attribute? hv hname]

/-- **What shows nothing that tells looks the same.** -/
theorem lookAlike (h : objects.SameWords telling objects')
    (hsize : objects.attributes.size = objects'.attributes.size) :
    LookAlike (TellsVersion telling) objects objects' where
  size := hsize
  fields ref href := by
    refine List.map_congr_left fun name hname =>
      h.get (fun i hi htold => href (.inr ⟨i, hi, htold⟩)) fun hpolicy => href (.inl ⟨ref, rfl, ?_⟩)
    exact RecordKind.eq_settings_of_field hname (by rw [List.mem_singleton.1 hpolicy]; decide)
  arguments ref href := by
    simp only [Objects.arguments, h.get (v := .individual ref)
      (fun i hi htold => href (.inr ⟨i, hi, htold⟩)) (show "args" ∉ policyNames by decide)]
  tag ref href := h.get (fun i hi htold => href (.inr ⟨i, hi, htold⟩)) (by decide)

/-! ## What is done -/

theorem set (h : objects.SameWords telling objects') (i : Nat) (field : String) (new : Value) :
    (objects.set i field new).SameWords telling (objects'.set i field new) := by
  intro j hj
  simp only [Objects.set, Array.getElem?_modify]
  split
  · have hone := congrArg (Option.map fun b : Bindings String Value =>
      b.insert field (veil policyNames field new)) (h j hj)
    simpa only [Option.map_map, Function.comp_def, Bindings.hide_insert] using hone
  · exact h j hj

/-- A new object is the same in both, or one that tells. -/
theorem add (h : objects.SameWords telling objects')
    (hsize : objects.attributes.size = objects'.attributes.size)
    {attributes attributes' : List (String × Value)}
    (hnew : ¬ telling objects.attributes.size → attributes = attributes') :
    (objects.add attributes).SameWords telling (objects'.add attributes') := by
  intro j hj
  simp only [Objects.add, Array.getElem?_push, ← hsize]
  split
  · next hlast => rw [hnew (hlast ▸ hj)]
  · exact h j hj

theorem settingsOr (h : objects.SameWords telling objects')
    (hsize : objects.attributes.size = objects'.attributes.size) (settings : Option SettingsRef) :
    (objects.settingsOr settings).2.SameWords telling (objects'.settingsOr settings).2 := by
  cases settings with
  | some ref => exact h
  | none => exact h.add hsize fun _ => rfl

/-- An assignment changes both alike. -/
theorem assign (h : objects.SameWords telling objects') {target : Value} {field : String}
    {new : Value} {after after' : Objects} (hafter : objects.assign target field new = .ok after)
    (hafter' : objects'.assign target field new = .ok after') : after.SameWords telling after' := by
  have hset : ∀ (i : Nat) (kept : Except Failure Value),
      kept.map (objects.set i field) = .ok after → kept.map (objects'.set i field) = .ok after' →
        after.SameWords telling after' := by
    intro i kept hkept hkept'
    cases kept with
    | error failure => cases hkept
    | ok v =>
      cases hkept
      cases hkept'
      exact h.set i field v
  cases target with
  | record ref => exact hset _ _ hafter hafter'
  | individual ref => exact hset _ _ hafter hafter'
  | _ => cases hafter

/-- A fault that is worded alike is the same; any other is one that tells. -/
theorem newFault (h : objects.SameWords telling objects')
    (hsize : objects.attributes.size = objects'.attributes.size) {cause cause' : Cause}
    (hsame : ¬ telling objects.attributes.size → cause = cause' ∧
      objects.locationOf cause = objects'.locationOf cause ∧
        cause.message objects.written objects.plain =
          cause.message objects'.written objects'.plain) :
    (objects.newFault cause).2.SameWords telling (objects'.newFault cause').2 := by
  refine h.add hsize fun hnew => ?_
  obtain ⟨rfl, hlocation, hmessage⟩ := hsame hnew
  rw [hlocation, hmessage]

end SameWords

end Objects

namespace Store

/-- The positions of the objects that may tell a policy or a version, once an operation is done: a
refused commit leaves a fault that does, and a failed lookup one that does if what it asked for
shows one. -/
def tellingAfter (s : Store) (telling : Nat → Prop) (a : Action) (i : Nat) : Prop :=
  telling i ∨
    match a with
    | .commit c => ∃ ref, (s.commit c).1 = .error (.fault ref) ∧ ref.index = i ∧
        ref.kind = .staleContext
    | .typeOf c asked => ∃ ref, (s.typeOf c asked).1 = .error (.fault ref) ∧ ref.index = i ∧
        ¬ s.objects.ShowsNo (Objects.TellsVersion telling) asked
    | .variableTypeOf c asked => ∃ ref, (s.variableTypeOf c asked).1 = .error (.fault ref) ∧
        ref.index = i ∧ ¬ s.objects.ShowsNo (Objects.TellsVersion telling) asked
    | _ => False

/-- A refused commit ends in a fault, which is all that it adds to the objects. -/
theorem objects_commit_of_stale (s : Store) {c p : ContextId}
    (hp : (s.context c).parent = some p)
    (hv : (s.context p).version ≠ (s.context c).snapshot) :
    (s.commit c).1 = .error (.fault ⟨s.objects.attributes.size, .staleContext⟩) ∧
      ∃ (objects : Objects) (cause : Cause), objects.attributes = s.objects.attributes ∧
        (s.commit c).2.objects = (objects.newFault cause).2 := by
  simp only [commit, hp]
  rw [if_pos hv]
  -- the fault names two versions, and these are numbers of their own
  exact ⟨rfl, ((s.objects.number (s.context c).snapshot).2.number (s.context p).version).2, _, rfl,
    rfl⟩

namespace Alike

variable {s s' : Store} {c : ContextId} {telling : Nat → Prop}

theorem sameWords_commit (h : s.Alike s') (hwords : s.objects.SameWords telling s'.objects)
    (hfresh : ∀ p, (s'.context c).parent = some p →
      ((s.context p).version = (s.context c).snapshot ↔
        (s'.context p).version = (s'.context c).snapshot)) :
    (s.commit c).2.objects.SameWords (s.tellingAfter telling (.commit c))
      (s'.commit c).2.objects := by
  obtain ⟨hparent, -⟩ := h.same c
  have hsize := Objects.size_of_hide h.objects
  have hkept : s.objects.SameWords (s.tellingAfter telling (.commit c)) s'.objects :=
    hwords.mono fun i => .inl
  cases hp : (s'.context c).parent with
  | none =>
    rw [hp] at hparent
    simp only [Store.commit, hparent, hp]
    exact hkept.newFault hsize fun _ => ⟨rfl, rfl, by rw [Cause.message, Cause.message]⟩
  | some p =>
    rw [hp] at hparent
    have hiff := hfresh p hp
    by_cases hv : (s'.context p).version = (s'.context c).snapshot
    · obtain ⟨-, hobjects, -⟩ := s.commit_of_fresh hparent (hiff.2 hv)
      obtain ⟨-, hobjects', -⟩ := s'.commit_of_fresh hp hv
      rw [hobjects, hobjects']
      exact hkept
    · obtain ⟨hends, o, cause, hsame, hobjects⟩ := s.objects_commit_of_stale hparent (mt hiff.1 hv)
      obtain ⟨-, o', cause', hsame', hobjects'⟩ := s'.objects_commit_of_stale hp hv
      have hnumbers : o.SameWords (s.tellingAfter telling (.commit c)) o' := by
        simpa only [Objects.SameWords, hsame, hsame'] using hkept
      rw [hobjects, hobjects']
      refine hnumbers.newFault (by rw [hsame, hsame', hsize]) fun hnot => absurd ?_ hnot
      exact .inr ⟨_, hends, congrArg Array.size hsame.symm, rfl⟩

/-- A lookup that fails words its fault alike, if what it asked for shows nothing that tells. -/
theorem sameWords_fail (h : s.Alike s') (hwords : s.objects.SameWords telling s'.objects)
    {asked : Value} {cause : Cause} (hcause : cause = .nodeNotTyped asked ∨
      cause = .variableNotTyped asked) {after : Nat → Prop} (hkept : ∀ i, telling i → after i)
    (hafter : ¬ s.objects.ShowsNo (Objects.TellsVersion telling) asked →
      after s.objects.attributes.size) :
    (s.objects.newFault cause).2.SameWords after (s'.objects.newFault cause).2 := by
  have hsize := Objects.size_of_hide h.objects
  refine (hwords.mono hkept).newFault hsize fun hnot => ⟨rfl, ?_, ?_⟩
  · exact Objects.locationOf_of_hide h.objects (by decide) cause
  · have hshows : s.objects.ShowsNo (Objects.TellsVersion telling) asked :=
      Classical.byContradiction fun hshows => hnot (hafter hshows)
    have hwritten := (hwords.lookAlike hsize).written hshows
    rcases hcause with rfl | rfl <;> simp only [Cause.message, hwritten]

/-- **One operation** leaves the same objects but for policies, and for those that tell. -/
theorem sameWords_perform (h : s.Alike s') (hwords : s.objects.SameWords telling s'.objects)
    (a : Action) (hfresh : ∀ c p, a = .commit c → (s'.context c).parent = some p →
      ((s.context p).version = (s.context c).snapshot ↔
        (s'.context p).version = (s'.context c).snapshot)) :
    (s.perform a).2.objects.SameWords (s.tellingAfter telling a) (s'.perform a).2.objects := by
  have hsize := Objects.size_of_hide h.objects
  have hkept : s.objects.SameWords (s.tellingAfter telling a) s'.objects :=
    hwords.mono fun i => .inl
  cases a with
  | createRoot settings summarizer => exact hkept.settingsOr hsize settings
  | commit c => exact h.sameWords_commit hwords fun p => hfresh c p rfl
  | recordVariable c name type =>
    simp only [Store.perform, Store.recordVariable]
    cases handleOf name <;> exact hkept
  | typeOf c node =>
    have hfound := h.findType c node
    cases hlooked : s'.findType c node with
    | some type =>
      rw [hlooked] at hfound
      simp only [Store.perform, Store.typeOf, hfound, hlooked]
      exact hkept
    | none =>
      rw [hlooked] at hfound
      have hends : s.typeOf c node = s.fail (.nodeNotTyped node) := by
        simp only [Store.typeOf, hfound]
      have hends' : s'.typeOf c node = s'.fail (.nodeNotTyped node) := by
        simp only [Store.typeOf, hlooked]
      simp only [Store.perform, hends']
      rw [hends]
      exact h.sameWords_fail hwords (.inl rfl) (fun i => .inl) fun hshows =>
        .inr ⟨_, congrArg Prod.fst hends, rfl, hshows⟩
  | variableTypeOf c name =>
    cases hhandle : handleOf name with
    | error failure =>
      simp only [Store.perform, Store.variableTypeOf, hhandle]
      exact hkept
    | ok handle =>
      have hfound := h.findVariable c handle
      cases hlooked : s'.findVariable c handle with
      | some type =>
        rw [hlooked] at hfound
        simp only [Store.perform, Store.variableTypeOf, hhandle, hfound, hlooked]
        exact hkept
      | none =>
        rw [hlooked] at hfound
        have hends : s.variableTypeOf c name = s.fail (.variableNotTyped name) := by
          simp only [Store.variableTypeOf, hhandle, hfound]
        have hends' : s'.variableTypeOf c name = s'.fail (.variableNotTyped name) := by
          simp only [Store.variableTypeOf, hhandle, hlooked]
        simp only [Store.perform, hends']
        rw [hends]
        exact h.sameWords_fail hwords (.inr rfl) (fun i => .inl) fun hshows =>
          .inr ⟨_, congrArg Prod.fst hends, rfl, hshows⟩
  | assign target field new =>
    simp only [Store.perform]
    rcases Objects.assign_of_hide h.objects target field new with
      ⟨failure, ho, ho'⟩ | ⟨after, after', ho, ho', -⟩
    · rw [ho, ho']
      exact hkept
    · rw [ho, ho']
      exact hkept.assign ho ho'
  | newRecord kind fields others => exact hkept.add hsize fun _ => rfl
  | newIndividual kind attributes => exact hkept.add hsize fun _ => rfl
  | _ => exact hkept

end Alike

/-! ## Dumps -/

/-- The values that a dump in the standard way shows: where the nodes start, the types, and what the
errors say. -/
def shownInDump (s : Store) (c : ContextId) : List Value :=
  (s.typings c).flatMap (fun typing =>
      s.objects.saidOfStart (s.objects.get typing.1 "span") ++ [typing.2])
    ++ (s.context c).errors.flatMap fun error =>
      s.objects.saidOfStart (s.objects.get (s.objects.nodeOf error) "span") ++ Objects.said error

/-- **A dump that shows nothing that tells is the same text.** -/
theorem Alike.dump_of_sameWords {s s' : Store} {c : ContextId} {telling : Nat → Prop}
    (h : s.Alike s') (hwords : s.objects.SameWords telling s'.objects)
    (hstandard : (s.context c).summarizer = .standard)
    (hshown : ∀ v ∈ s.shownInDump c, s.objects.ShowsNo (Objects.TellsVersion telling) v) :
    s.dump c = s'.dump c := by
  have hlook := hwords.lookAlike (Objects.size_of_hide h.objects)
  have hsummary : ∀ node, (∀ v ∈ s.objects.saidOfStart (s.objects.get node "span"),
      s.objects.ShowsNo (Objects.TellsVersion telling) v) →
        Summarizer.standard.summary s.objects node = Summarizer.standard.summary s'.objects node :=
    fun node hsaid => hlook.summary_of_said h.objects (by decide) hsaid
  obtain ⟨-, -, hsummarizer, -, -, -, herrors⟩ := h.same c
  refine dump_congr (h.typings c) herrors hsummarizer (fun typing hmem => ?_) fun error hmem => ?_
  · have hparts := fun v hv =>
      hshown v (List.mem_append_left _ (List.mem_flatMap.2 ⟨typing, hmem, hv⟩))
    rw [hstandard]
    exact ⟨hsummary typing.1 fun v hv => hparts v (List.mem_append_left _ hv),
      hlook.display (hparts typing.2 (List.mem_append_right _ List.mem_cons_self))⟩
  · have hparts := fun v hv =>
      hshown v (List.mem_append_right _ (List.mem_flatMap.2 ⟨error, hmem, hv⟩))
    rw [hstandard]
    exact ⟨Objects.get_of_hide h.objects (by decide) error,
      fun _ => hsummary _ fun v hv => hparts v (List.mem_append_left _ hv),
      hlook.plain_of_said fun v hv => hparts v (List.mem_append_right _ hv)⟩

end Store

/-- The positions of the objects that may tell a policy or a version, once several operations are
done. -/
def World.tellingAfter (regime : Regime) : World → (Nat → Prop) → List Action → Nat → Prop
  | _, telling, [] => telling
  | w, telling, a :: actions =>
    let s := w.prepared regime
    tellingAfter regime (w.step regime a)
      (if s.Admits a then s.tellingAfter telling a else telling) actions

end TypingStore
