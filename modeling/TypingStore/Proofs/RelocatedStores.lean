import TypingStore.Proofs.EmbeddedStores
import TypingStore.Proofs.Policies

/-!
# Operations among other contexts

A store among the contexts and the objects of another stays there when the same operation is carried
out in both. New contexts, objects and stamps get the next id in both, so the renaming has to be in
step with both (`Store.Relocated`), for the stamps as far as the operation gives any out. Then **an
operation ends alike in both, and leaves them in step** (`Relocated.perform`).

* `Relocated.update`, `Relocated.add`, `Relocated.fail`: contexts and faults, in both.
* `Relocated.createRoot`, `Relocated.createChild`, `Relocated.commit`.
-/

namespace TypingStore

/-! ## Operations -/

namespace Action

/-- The values that an operation is given. -/
def values : Action → List Value
  | .recordType _ node type => [node, type]
  | .recordVariable _ name type => [name, type]
  | .addError _ v | .hasType _ v | .typeOf _ v | .hasVariable _ v | .variableTypeOf _ v => [v]
  | .assign target _ new => [target, new]
  | .newRecord _ fields others => fields ++ others.map Prod.snd
  | .newIndividual _ attributes => attributes.map Prod.snd
  | _ => []

/-- The settings that an operation is given. -/
def settings? : Action → Option SettingsRef
  | .createRoot settings _ | .createChild _ settings _ => settings
  | _ => none

/-- What an operation is given mentions only the first `n` objects, and goes by the node alone if it
is a way to summarize. -/
structure Within (n : Nat) (a : Action) : Prop where
  values : ∀ v ∈ a.values, v.Within n
  settings : ∀ ref ∈ a.settings?, ref.index < n
  summarizer : ∀ f ∈ a.summarizer?, f.Pure

end Action

/-! ## Stores -/

namespace Store

/-- The contexts and the objects of `s` are among those of `s'`, and so will be the next ones. The
stamps below `limit` are given out in step. -/
structure Relocated (limit : Nat) (ρ : Renaming) (s s' : Store) : Prop
    extends s.Embeds ρ s' where
  nextContext : ∀ n, ρ.context (s.contexts.size + n) = s'.contexts.size + n
  nextObject : ∀ n, ρ.object (s.objects.attributes.size + n) = s'.objects.attributes.size + n
  nextStamp : ∀ n, s.objects.nextStamp + n < limit →
    ρ.stamp (s.objects.nextStamp + n) = s'.objects.nextStamp + n

namespace Relocated

variable {limit : Nat} {ρ : Renaming} {s s' r r' : Store} {c : ContextId}

/-- Only contexts and objects matter. -/
theorem congr (h : s.Relocated limit ρ s') (hr : r.contexts = s.contexts)
    (ho : r.objects = s.objects) (hr' : r'.contexts = s'.contexts)
    (ho' : r'.objects = s'.objects) : r.Relocated limit ρ r' := by
  refine { objects := ?_, made := fun d hd => ?_, context := fun d hd => ?_,
           within := fun d hd => ?_, nextContext := ?_, nextObject := ?_, nextStamp := ?_ }
  · rw [ho, ho']
    exact h.objects
  · exact (has_congr hr' _).2 (h.made d ((has_congr hr d).1 hd))
  · rw [context_congr hr, context_congr hr']
    exact h.context d ((has_congr hr d).1 hd)
  · rw [context_congr hr, ho]
    exact h.within d ((has_congr hr d).1 hd)
  · rw [hr, hr']
    exact h.nextContext
  · rw [ho, ho']
    exact h.nextObject
  · rw [ho, ho']
    exact h.nextStamp

/-- Objects are added or changed in both. -/
theorem withObjects (h : s.Relocated limit ρ s') {objects objects' : Objects}
    (hobjects : objects.Relocated limit ρ objects')
    (hsize : s.objects.attributes.size ≤ objects.attributes.size) :
    (s.withObjects objects).Relocated limit ρ (s'.withObjects objects') where
  objects := hobjects.toEmbeds
  made := h.made
  context := h.context
  within d hd := (h.within d hd).mono hsize
  nextContext := h.nextContext
  nextObject := hobjects.next
  nextStamp := hobjects.nextStamp

variable (h : s.Relocated limit ρ s')
include h

theorem relocated_objects : s.objects.Relocated limit ρ s'.objects where
  toEmbeds := h.objects
  next := h.nextObject
  nextStamp := h.nextStamp

/-- A context is there when it is there under its other id. -/
theorem has_iff : s'.Has (c.rename ρ) ↔ s.Has c := by
  refine ⟨fun hc' => Decidable.byContradiction fun hc => ?_, h.made c⟩
  -- a context to come has an id that is to come in the other store as well
  have hle : s.contexts.size ≤ c.index := Nat.le_of_not_lt hc
  have hnext := h.nextContext (c.index - s.contexts.size)
  rw [Nat.add_sub_cancel' hle] at hnext
  simp only [Has, ContextId.rename] at hc'
  omega

theorem admits_iff (a : Action) : s'.Admits (a.rename ρ) ↔ s.Admits a := by
  unfold Admits
  rw [Action.context?_rename]
  cases a.context? with
  | none => simp
  | some d => simp [h.has_iff]

/-- **A context is changed in both.** -/
theorem update {f g : Context → Context} (hf : ∀ x : Context, g (x.rename ρ) = (f x).rename ρ)
    (hwithin : ∀ x : Context, x.Within s.objects.attributes.size →
      (f x).Within s.objects.attributes.size) :
    (s.update c f).Relocated limit ρ (s'.update (c.rename ρ) g) where
  objects := h.objects
  nextContext := by
    rw [size_update, size_update]
    exact h.nextContext
  nextObject := h.nextObject
  nextStamp := h.nextStamp
  made d hd := (has_update ..).2 (h.made d ((has_update ..).1 hd))
  context d hd := by
    have hd' := (has_update ..).1 hd
    simp only [context_update, ContextId.rename_inj h.oneToOne, h.has_iff]
    split
    · rename_i hboth
      rw [h.context c hboth.2, hf]
    · exact h.context d hd'
  within d hd := by
    have hd' := (has_update ..).1 hd
    rw [context_update]
    split
    · rename_i hboth
      exact hwithin _ (h.within c hboth.2)
    · exact h.within d hd'

/-- **A context is added to both.** -/
theorem add {x : Context} (hx : x.Within s.objects.attributes.size) :
    (s'.add (x.rename ρ)).1 = (s.add x).1.rename ρ ∧
      (s.add x).2.Relocated limit ρ (s'.add (x.rename ρ)).2 := by
  have hnew : ρ.context s.contexts.size = s'.contexts.size := h.nextContext 0
  have hid : (s'.add (x.rename ρ)).1 = (s.add x).1.rename ρ := congrArg ContextId.mk hnew.symm
  refine ⟨hid, { objects := h.objects, made := fun d hd => ?_, context := fun d hd => ?_,
                 within := fun d hd => ?_, nextContext := fun n => ?_,
                 nextObject := h.nextObject, nextStamp := h.nextStamp }⟩
  · rw [has_add] at hd ⊢
    rcases hd with hd | rfl
    · exact .inl (h.made d hd)
    · exact .inr hid.symm
  · rcases (has_add s x d).1 hd with hd | rfl
    · rw [context_add_of_has s x hd, context_add_of_has s' _ (h.made d hd), h.context d hd]
    · have hself := context_add_self s x
      have hself' := context_add_self s' (x.rename ρ)
      rw [hid] at hself'
      exact hself'.trans (congrArg _ hself.symm)
  · rcases (has_add s x d).1 hd with hd | rfl
    · rw [context_add_of_has s x hd]
      exact h.within d hd
    · have hself := context_add_self s x
      exact (congrArg (Context.Within s.objects.attributes.size) hself).mpr hx
  · have hnext := h.nextContext (n + 1)
    have hshift : s.contexts.size + 1 + n = s.contexts.size + (n + 1) := by omega
    simp only [Store.add, Array.size_push, hshift]
    omega

/-- **A fault ends an operation in both.** -/
theorem fail {α : Type} (cause : Cause) (hcause : cause.Within s.objects.attributes.size) :
    (s'.fail (α := α) (cause.rename ρ)).1 = Failure.renameIn ρ (s.fail (α := α) cause).1 ∧
      (s.fail (α := α) cause).2.Relocated limit ρ (s'.fail (α := α) (cause.rename ρ)).2 := by
  obtain ⟨href, hobjects⟩ := h.relocated_objects.newFault hcause
  refine ⟨congrArg (fun ref => Except.error (Failure.fault ref)) href, ?_⟩
  have hsize : s.objects.attributes.size ≤ (s.objects.newFault cause).2.attributes.size := by
    have hadded := Objects.size_add s.objects
    simp only [Objects.newFault, Objects.newIndividual, hadded]
    omega
  exact h.withObjects hobjects hsize

/-! ## What is done -/

theorem createRoot (settings : Option SettingsRef) (summarizer : Option Summarizer)
    (hsettings : ∀ ref ∈ settings, ref.index < s.objects.attributes.size)
    (hpure : ∀ f ∈ summarizer, f.Pure) :
    (s'.createRoot (settings.map (SettingsRef.rename ρ)) summarizer).1 =
        (s.createRoot settings summarizer).1.rename ρ ∧
      (s.createRoot settings summarizer).2.Relocated limit ρ
        (s'.createRoot (settings.map (SettingsRef.rename ρ)) summarizer).2 := by
  obtain ⟨href, hindex, hobjects⟩ := h.relocated_objects.settingsOr hsettings
  have hsize : s.objects.attributes.size ≤ (s.objects.settingsOr settings).2.attributes.size := by
    cases settings with
    | none => exact Nat.le_of_lt (Nat.lt_of_lt_of_eq (Nat.lt_succ_self _)
        (Objects.size_add s.objects _).symm)
    | some ref => exact Nat.le_refl _
  have hpure' : (summarizer.getD .standard).Pure := by
    cases summarizer with
    | none => exact Summarizer.pure_standard
    | some f => exact hpure f rfl
  let new : Context :=
    { parent := none, settings := (s.objects.settingsOr settings).1
      summarizer := summarizer.getD .standard }
  have hadded := (h.withObjects hobjects hsize).add (x := new) ⟨hindex, hpure', nofun, nofun, nofun⟩
  simp only [new, Context.rename, ← href] at hadded
  exact hadded

theorem createChild {p : ContextId} (hp : s.Has p) (settings : Option SettingsRef)
    (summarizer : Option Summarizer)
    (hsettings : ∀ ref ∈ settings, ref.index < s.objects.attributes.size)
    (hpure : ∀ f ∈ summarizer, f.Pure) :
    (s'.createChild (p.rename ρ) (settings.map (SettingsRef.rename ρ)) summarizer).1 =
        (s.createChild p settings summarizer).1.rename ρ ∧
      (s.createChild p settings summarizer).2.Relocated limit ρ
        (s'.createChild (p.rename ρ) (settings.map (SettingsRef.rename ρ)) summarizer).2 := by
  have hmarked := h.update (c := p) (f := fun c => { c with pending := true })
    (g := fun c => { c with pending := true }) (fun _ => rfl)
    (fun x hx => ⟨hx.settings, hx.summarizer, hx.nodeTypes, hx.varTypes, hx.errors⟩)
  have habove := h.within p hp
  have hchild : (((s.context p).childOf p (settings.getD (s.context p).settings)
      (summarizer.getD (s.context p).summarizer))).Within s.objects.attributes.size := by
    refine ⟨?_, ?_, nofun, nofun, nofun⟩
    · cases settings with
      | none => exact habove.settings
      | some ref => exact hsettings ref rfl
    · cases summarizer with
      | none => exact habove.summarizer
      | some f => exact hpure f rfl
  have hrenamed : ((s.context p).childOf p (settings.getD (s.context p).settings)
      (summarizer.getD (s.context p).summarizer)).rename ρ =
        (s'.context (p.rename ρ)).childOf (p.rename ρ)
          ((settings.map (SettingsRef.rename ρ)).getD (s'.context (p.rename ρ)).settings)
          (summarizer.getD (s'.context (p.rename ρ)).summarizer) := by
    rw [h.context p hp]
    cases settings <;> rfl
  have hadded := hmarked.add hchild
  rw [hrenamed] at hadded
  exact hadded

theorem enter (hc : s.Has c) {e : Entry} (he : e.Within s.objects.attributes.size) :
    (s.update c (Context.enter (s.policy c) e)).Relocated limit ρ
      (s'.update (c.rename ρ) (Context.enter (s'.policy (c.rename ρ)) (e.rename ρ))) := by
  rw [h.policy hc]
  exact h.update (fun x => Context.enter_rename _ h.oneToOne e x) fun x hx => hx.enter _ he

/-- **A commit is made in both, or refused in both.** -/
theorem commit (hs : s.Ordered) (hc : s.Has c)
    (hroom : (s.commit c).2.objects.nextStamp ≤ limit) :
    (s'.commit (c.rename ρ)).1 = Failure.renameIn ρ (s.commit c).1 ∧
      (s.commit c).2.Relocated limit ρ (s'.commit (c.rename ρ)).2 := by
  have hcontext := h.context c hc
  have hparent : (s'.context (c.rename ρ)).parent =
      (s.context c).parent.map (ContextId.rename ρ) := by
    rw [hcontext]
    rfl
  have hsnapshot : (s'.context (c.rename ρ)).snapshot = (s.context c).snapshot := by
    rw [hcontext]
    rfl
  cases hp : (s.context c).parent with
  | none =>
    rw [hp, Option.map_none] at hparent
    simp only [Store.commit, hp, hparent]
    exact h.fail .commitOnRoot trivial
  | some p =>
    rw [hp, Option.map_some] at hparent
    have hmade : s.Has p := hs.has_parent hp
    have hversion : (s'.context (p.rename ρ)).version = (s.context p).version := by
      rw [h.context p hmade]
      rfl
    simp only [Store.commit, hp, hparent, hversion, hsnapshot] at hroom ⊢
    split
    · -- the two versions in the fault are numbers, which are made one after the other
      rename_i hstale
      rw [if_pos hstale] at hroom
      have htwo : s.objects.nextStamp + 2 ≤ limit := hroom
      obtain ⟨hwas, hfirst⟩ := h.relocated_objects.number (by omega) (s.context c).snapshot
      obtain ⟨hnow, hsecond⟩ := hfirst.number htwo (s.context p).version
      rw [hwas, hnow]
      -- the refusal is reported before it arises, which is a matter of the journal
      have hstore := h.withObjects hsecond (Nat.le_refl _)
      refine (hstore.congr ?_ ?_ ?_ ?_).fail (.staleContext _ _) ⟨trivial, trivial⟩
      all_goals rfl
    · refine ⟨rfl, ?_⟩
      rw [h.policy hmade, hcontext]
      have hchild := h.within c hc
      have habsorbed := h.update (c := p)
        (f := fun above => above.absorb (s.policy p) (s.context c))
        (g := fun above => above.absorb (s.policy p) ((s.context c).rename ρ))
        (fun x => Context.absorb_rename _ h.oneToOne x _) (fun x hx => by
          rw [Context.absorb_eq_enterAll]
          exact hx.enterAll _ hchild.entries)
      exact habsorbed.congr rfl rfl rfl rfl

/-- **A lookup along a chain finds the same, or ends in the same fault.** -/
theorem typeOf (hs : s.Ordered) (hs' : s'.Ordered) (hc : s.Has c) {node : Value}
    (hnode : node.Within s.objects.attributes.size) :
    (s'.typeOf (c.rename ρ) (node.rename ρ)).1 =
        (Failure.renameIn ρ (s.typeOf c node).1).map (Value.rename ρ) ∧
      (s.typeOf c node).2.Relocated limit ρ (s'.typeOf (c.rename ρ) (node.rename ρ)).2 := by
  unfold Store.typeOf
  rw [h.findType hs hs' hc]
  cases s.findType c node with
  | some type => exact ⟨rfl, h⟩
  | none =>
    obtain ⟨hresult, hstore⟩ := h.fail (α := Value) (.nodeNotTyped node) hnode
    exact ⟨hresult, hstore⟩

theorem variableTypeOf (hs : s.Ordered) (hs' : s'.Ordered) (hc : s.Has c) {name : Value}
    (hname : name.Within s.objects.attributes.size) :
    (s'.variableTypeOf (c.rename ρ) (name.rename ρ)).1 =
        (Failure.renameIn ρ (s.variableTypeOf c name).1).map (Value.rename ρ) ∧
      (s.variableTypeOf c name).2.Relocated limit ρ
        (s'.variableTypeOf (c.rename ρ) (name.rename ρ)).2 := by
  have hfaultless := faultless_handleOf name
  unfold Store.variableTypeOf
  rw [Handle.handleOf_rename]
  cases hh : handleOf name with
  | error failure =>
    rw [hh] at hfaultless
    exact ⟨congrArg (Except.map (Value.rename ρ)) (hfaultless.renameIn_error ρ).symm, h⟩
  | ok handle =>
    simp only [Except.map, h.findVariable hs hs' hc]
    cases s.findVariable c handle with
    | some type => exact ⟨rfl, h⟩
    | none =>
      obtain ⟨hresult, hstore⟩ := h.fail (α := Value) (.variableNotTyped name) hname
      exact ⟨hresult, hstore⟩

theorem recordVariable (hc : s.Has c) {name type : Value}
    (hname : name.Within s.objects.attributes.size)
    (htype : type.Within s.objects.attributes.size) :
    (s'.recordVariable (c.rename ρ) (name.rename ρ) (type.rename ρ)).1 =
        Failure.renameIn ρ (s.recordVariable c name type).1 ∧
      (s.recordVariable c name type).2.Relocated limit ρ
        (s'.recordVariable (c.rename ρ) (name.rename ρ) (type.rename ρ)).2 := by
  have hfaultless := faultless_handleOf name
  unfold Store.recordVariable
  rw [Handle.handleOf_rename]
  cases hh : handleOf name with
  | error failure =>
    rw [hh] at hfaultless
    exact ⟨(hfaultless.renameIn_error ρ).symm, h⟩
  | ok handle =>
    have hhandle : handle.value.Within s.objects.attributes.size := by
      rw [value_of_handleOf hh]
      exact hname
    exact ⟨rfl, h.enter hc (e := .varType handle type) ⟨hhandle, htype⟩⟩

/-- **An assignment is made in both stores, or refused in both.** -/
theorem assign {target new : Value} (htarget : target.Within s.objects.attributes.size)
    (hnew : new.Within s.objects.attributes.size) (field : String) :
    (s'.perform (.assign (target.rename ρ) field (new.rename ρ))).1 =
        Outcome.rename ρ (s.perform (.assign target field new)).1 ∧
      (s.perform (.assign target field new)).2.Relocated limit ρ
        (s'.perform (.assign (target.rename ρ) field (new.rename ρ))).2 := by
  simp only [Store.perform]
  rcases h.relocated_objects.assign htarget hnew field with
    ⟨failure, hrefused, hrefused'⟩ | ⟨after, after', hmade, hmade', hafter⟩
  · rw [hrefused, hrefused']
    exact ⟨rfl, h⟩
  · have hsize : s.objects.attributes.size ≤ after.attributes.size := by
      obtain ⟨index, w, -, rfl⟩ := Objects.exists_set_of_assign hmade
      exact Nat.le_of_eq (Objects.size_set ..).symm
    rw [hmade, hmade']
    exact ⟨rfl, h.withObjects hafter hsize⟩

/-- **An operation ends alike in both stores, and leaves them in step.** -/
theorem perform (hs : s.Ordered) (hs' : s'.Ordered) {a : Action} (ha : s.Admits a)
    (hwithin : a.Within s.objects.attributes.size)
    (hroom : (s.perform a).2.objects.nextStamp ≤ limit) :
    (s'.perform (a.rename ρ)).1 = Outcome.rename ρ (s.perform a).1 ∧
      (s.perform a).2.Relocated limit ρ (s'.perform (a.rename ρ)).2 := by
  have hvalue : ∀ v ∈ a.values, v.Within s.objects.attributes.size := hwithin.values
  cases a with
  | createRoot settings summarizer =>
    obtain ⟨hid, hstore⟩ := h.createRoot settings summarizer hwithin.settings hwithin.summarizer
    exact ⟨congrArg (fun d => Except.ok (Answer.context d)) hid, hstore⟩
  | createChild p settings summarizer =>
    obtain ⟨hid, hstore⟩ := h.createChild (ha p rfl) settings summarizer hwithin.settings
      hwithin.summarizer
    exact ⟨congrArg (fun d => Except.ok (Answer.context d)) hid, hstore⟩
  | spawn p =>
    obtain ⟨hid, hstore⟩ := h.createChild (ha p rfl) none none nofun nofun
    exact ⟨congrArg (fun d => Except.ok (Answer.context d)) hid, hstore.congr rfl rfl rfl rfl⟩
  | recordType c node type =>
    have hnode := hvalue node (by simp [Action.values])
    have htype := hvalue type (by simp [Action.values])
    exact ⟨rfl, h.enter (ha c rfl) (e := .nodeType node type) ⟨hnode, htype⟩⟩
  | recordVariable c name type =>
    have hname := hvalue name (by simp [Action.values])
    have htype := hvalue type (by simp [Action.values])
    obtain ⟨hresult, hstore⟩ := h.recordVariable (ha c rfl) hname htype
    refine ⟨?_, hstore⟩
    simp only [Action.rename, Store.perform, hresult]
    cases (s.recordVariable c name type).1 <;> rfl
  | addError c error =>
    have herror := hvalue error (by simp [Action.values])
    exact ⟨rfl, h.enter (ha c rfl) (e := .error error) herror⟩
  | commit c =>
    obtain ⟨hresult, hstore⟩ := h.commit hs (ha c rfl) hroom
    refine ⟨?_, hstore⟩
    simp only [Action.rename, Store.perform, hresult]
    cases (s.commit c).1 <;> rfl
  | hasType c node =>
    exact ⟨congrArg (fun b => Except.ok (Answer.truth b)) (h.hasType (ha c rfl) node), h⟩
  | hasVariable c name =>
    refine ⟨?_, h⟩
    have hfaultless : Faultless (s.hasVariable c name) := (faultless_handleOf name).map _
    simp only [Action.rename, Store.perform, h.hasVariable (ha c rfl)]
    cases hhas : s.hasVariable c name with
    | error failure =>
      rw [hhas] at hfaultless
      exact congrArg (Except.map (Answer.rename ρ)) (hfaultless.renameIn_error ρ).symm
    | ok has => rfl
  | typeOf c node =>
    have hnode := hvalue node (by simp [Action.values])
    obtain ⟨hresult, hstore⟩ := h.typeOf hs hs' (ha c rfl) hnode
    refine ⟨?_, hstore⟩
    simp only [Action.rename, Store.perform, hresult]
    cases (s.typeOf c node).1 <;> rfl
  | variableTypeOf c name =>
    have hname := hvalue name (by simp [Action.values])
    obtain ⟨hresult, hstore⟩ := h.variableTypeOf hs hs' (ha c rfl) hname
    refine ⟨?_, hstore⟩
    simp only [Action.rename, Store.perform, hresult]
    cases (s.variableTypeOf c name).1 <;> rfl
  | typings c =>
    exact ⟨congrArg (fun entries => Except.ok (Answer.typings entries)) (h.typings (ha c rfl)), h⟩
  | variableTypes c =>
    refine ⟨?_, h⟩
    simp only [Action.rename, Store.perform, h.context c (ha c rfl)]
    rfl
  | errors c =>
    refine ⟨?_, h⟩
    simp only [Action.rename, Store.perform, h.context c (ha c rfl)]
    rfl
  | dump c =>
    refine ⟨?_, h⟩
    simp only [Action.rename, Store.perform, h.dump (ha c rfl)]
    cases s.dump c <;> rfl
  | caption c =>
    exact ⟨congrArg (fun text => Except.ok (Answer.text text)) (h.caption hs hs' (ha c rfl)), h⟩
  | assign target field new =>
    have htarget := hvalue target (by simp [Action.values])
    have hnew := hvalue new (by simp [Action.values])
    exact h.assign htarget hnew field
  | newRecord kind fields others =>
    have hfields : ∀ v ∈ fields, v.Within s.objects.attributes.size := fun v hv =>
      hvalue v (List.mem_append_left _ hv)
    have hothers : ∀ e ∈ others, e.2.Within s.objects.attributes.size := fun e he =>
      hvalue e.2 (List.mem_append_right _ (List.mem_map_of_mem he))
    obtain ⟨href, hobjects⟩ := h.relocated_objects.newRecord kind hfields hothers
    refine ⟨congrArg (fun ref => Except.ok (Answer.value (.record ref))) href, ?_⟩
    exact h.withObjects hobjects (Nat.le_of_lt (Nat.lt_of_lt_of_eq (Nat.lt_succ_self _)
      (Objects.size_add ..).symm))
  | newIndividual kind attributes =>
    have hattributes : ∀ e ∈ attributes, e.2.Within s.objects.attributes.size := fun e he =>
      hvalue e.2 (List.mem_map_of_mem he)
    obtain ⟨href, hobjects⟩ := h.relocated_objects.newIndividual kind hattributes
    refine ⟨congrArg (fun ref => Except.ok (Answer.value (.individual ref))) href, ?_⟩
    exact h.withObjects hobjects (Nat.le_of_lt (Nat.lt_of_lt_of_eq (Nat.lt_succ_self _)
      (Objects.size_add ..).symm))

end Relocated

end Store

end TypingStore
