import TypingStore.Proofs.EqualHandles
import TypingStore.Proofs.Unversioned

/-!
# Equal handles are interchangeable

The same operations are run twice, and wherever a variable is named, the two runs name it by values
that are equal: the number one and the truth value, say, or types that hold them. **The runs cannot
be told apart** (`World.equal_handles_interchangeable`): every operation answers the same in both,
the contexts hold the same nodes, types and errors, at the same versions, and the same variables
under equal names. Each run keeps the name that came first.

What differs besides is the words of faults. A fault for a variable that was not found carries the
name it was asked for, and prints it; after that, a fault for a node may print it too, with all that
the node holds. These faults are kept account of (`Store.unfound`), and nothing else differs in the
objects.

* `Objects.SameBut`: objects that differ at most in what some faults carry and print.
* `Store.Interchanged.perform`: one operation, in two stores that differ only in names.
-/

namespace TypingStore

/-- The attributes in which a fault carries or prints the name of a variable. -/
def handleNames : List String := ["var", "args", "message"]

namespace Objects

/-- A new number is shown alike in all objects. -/
theorem plain_number (shown objects : Objects) (n : Int) :
    shown.plain (objects.number n).1 = Text.Written.int n := by
  show shown.plain (.int ⟨objects.nextStamp⟩ n) = _
  simp only [plain, Value.plain, Value.written]

/-- What a refused commit says goes by no other objects. -/
theorem message_of_refusal {cause : Cause} {written written' plain plain' : Value → String}
    (hcause : cause = .commitOnRoot ∨ ∃ was now, cause = .staleContext was now ∧
      plain was = plain' was ∧ plain now = plain' now) :
    cause.message written plain = cause.message written' plain' := by
  rcases hcause with rfl | ⟨was, now, rfl, hwas, hnow⟩
  · rfl
  · rw [Cause.message, Cause.message, hwas, hnow]

/-- The objects differ at most in what those at the positions `faults` carry or print. -/
structure SameBut (faults : List Nat) (objects objects' : Objects) : Prop where
  hidden : objects.hide handleNames = objects'.hide handleNames
  others : ∀ i, i ∉ faults → objects.attributes[i]? = objects'.attributes[i]?

/-- The objects with what those at the positions `faults` carry or print hidden. -/
def veilAt (faults : List Nat) (objects : Objects) : Objects :=
  { objects with
    attributes := objects.attributes.mapIdx fun i attributes =>
      if i ∈ faults then attributes.hide handleNames else attributes }

namespace SameBut

variable {faults : List Nat} {objects objects' : Objects}

theorem refl (faults : List Nat) (objects : Objects) : objects.SameBut faults objects :=
  ⟨rfl, fun _ _ => rfl⟩

theorem size (h : objects.SameBut faults objects') :
    objects.attributes.size = objects'.attributes.size := size_of_hide h.hidden

theorem kept (h : objects.SameBut faults objects') :
    objects.canonical = objects'.canonical ∧ objects.nextStamp = objects'.nextStamp :=
  ⟨(congrArg canonical h.hidden :), (congrArg nextStamp h.hidden :)⟩

/-- **Once it is hidden, nothing differs.** -/
theorem veilAt_eq (h : objects.SameBut faults objects') :
    objects.veilAt faults = objects'.veilAt faults := by
  have hattributes : (objects.veilAt faults).attributes = (objects'.veilAt faults).attributes := by
    refine Array.ext_getElem? fun i => ?_
    simp only [veilAt, Array.getElem?_mapIdx]
    by_cases hi : i ∈ faults
    · have hone := congrArg (fun o : Objects => o.attributes[i]?) h.hidden
      simp only [hide, Array.getElem?_map] at hone
      simpa only [hi, if_true] using hone
    · simp only [h.others i hi]
  simp only [veilAt, Objects.mk.injEq] at hattributes ⊢
  exact ⟨hattributes, h.kept⟩

/-- **Nothing differs if there is no such fault.** -/
theorem eq_of_nil (h : objects.SameBut [] objects') : objects = objects' := by
  have hattributes : objects.attributes = objects'.attributes :=
    Array.ext_getElem? fun i => h.others i List.not_mem_nil
  obtain ⟨attributes, canonical, nextStamp⟩ := objects
  obtain ⟨rfl, rfl⟩ := h.kept
  obtain rfl := hattributes
  rfl

theorem set (h : objects.SameBut faults objects') (i : Nat) (field : String) (new : Value) :
    (objects.set i field new).SameBut faults (objects'.set i field new) := by
  refine ⟨set_of_hide h.hidden i field new, fun j hj => ?_⟩
  simp only [Objects.set, Array.getElem?_modify, h.others j hj]

theorem add (h : objects.SameBut faults objects') (attributes : List (String × Value)) :
    (objects.add attributes).SameBut faults (objects'.add attributes) := by
  refine ⟨add_of_hide h.hidden attributes, fun j hj => ?_⟩
  simp only [Objects.add, Array.getElem?_push, h.size, h.others j hj]

theorem number (h : objects.SameBut faults objects') (n : Int) :
    (objects.number n).1 = (objects'.number n).1 ∧
      (objects.number n).2.SameBut faults (objects'.number n).2 := by
  exact ⟨by simp only [Objects.number, make, h.kept.2], number_of_hide h.hidden n n, h.others⟩

theorem settingsOr (h : objects.SameBut faults objects') (settings : Option SettingsRef) :
    (objects.settingsOr settings).1 = (objects'.settingsOr settings).1 ∧
      (objects.settingsOr settings).2.SameBut faults (objects'.settingsOr settings).2 := by
  obtain ⟨href, -⟩ := settingsOr_of_hide h.hidden settings
  refine ⟨href, ?_⟩
  cases settings with
  | some ref => exact h
  | none => exact h.add _

theorem settingsOf (h : objects.SameBut faults objects') (ref : SettingsRef) :
    objects.settingsOf ref = objects'.settingsOf ref := by
  simp only [Objects.settingsOf,
    get_of_hide h.hidden (show "log_level" ∉ handleNames by decide),
    get_of_hide h.hidden (show "log_rich_format" ∉ handleNames by decide),
    get_of_hide h.hidden (show "version_bump" ∉ handleNames by decide)]

/-- An assignment is refused in both for the same reason, or made in both. -/
theorem assign (h : objects.SameBut faults objects') (target : Value) (field : String)
    (new : Value) :
    (∃ failure, objects.assign target field new = .error failure ∧
        objects'.assign target field new = .error failure) ∨
      ∃ after after', objects.assign target field new = .ok after ∧
        objects'.assign target field new = .ok after' ∧ after.SameBut faults after' := by
  have hset : ∀ (i : Nat) (kept : Except Failure Value),
      (∃ failure, kept.map (objects.set i field) = .error failure ∧
          kept.map (objects'.set i field) = .error failure) ∨
        ∃ after after', kept.map (objects.set i field) = .ok after ∧
          kept.map (objects'.set i field) = .ok after' ∧ after.SameBut faults after' := by
    intro i kept
    cases kept with
    | error failure => exact .inl ⟨failure, rfl, rfl⟩
    | ok v => exact .inr ⟨_, _, rfl, rfl, h.set i field v⟩
  cases target with
  | record ref => exact hset _ _
  | individual ref => exact hset _ _
  | _ => exact .inl ⟨_, rfl, rfl⟩

/-- A fault is the same fault. It is one of those that differ, if its causes differ in what is
hidden, or if it is worded by what differs. -/
theorem newFault (h : objects.SameBut faults objects') (cause cause' : Cause)
    (hkind : cause.kind = cause'.kind)
    (hloc : objects.locationOf cause = objects'.locationOf cause')
    (hnotes : cause.notes.map (fun e => (e.1, veil handleNames e.1 e.2)) =
      cause'.notes.map fun e => (e.1, veil handleNames e.1 e.2)) :
    (objects.newFault cause).1 = (objects'.newFault cause').1 ∧
      (objects.newFault cause).1.index = objects.attributes.size ∧
      (objects.newFault cause).2.SameBut (faults ++ [objects.attributes.size])
        (objects'.newFault cause').2 := by
  obtain ⟨href, hhidden⟩ := newFault_of_hide h.hidden (by decide) (by decide) cause cause' hkind
    hloc hnotes
  refine ⟨href, rfl, hhidden, fun i hi => ?_⟩
  rw [List.mem_append, not_or, List.mem_singleton] at hi
  simp only [Objects.newFault, newIndividual, Objects.add, Array.getElem?_push, ← h.size,
    if_neg hi.2, h.others i hi.1]

/-- A fault that is worded alike is the same in all it carries. -/
theorem newFault_of_message (h : objects.SameBut faults objects') (cause : Cause)
    (hloc : objects.locationOf cause = objects'.locationOf cause)
    (hmessage : cause.message objects.written objects.plain =
      cause.message objects'.written objects'.plain) :
    (objects.newFault cause).1 = (objects'.newFault cause).1 ∧
      (objects.newFault cause).2.SameBut faults (objects'.newFault cause).2 := by
  simp only [Objects.newFault, newIndividual, hmessage, hloc, h.size]
  exact ⟨trivial, h.add _⟩

end SameBut

end Objects

/-! ## Contexts -/

/-- The contexts hold the same, the variables under equal names. -/
structure Context.Interchanged (c c' : Context) : Prop where
  rest : c = { c' with varTypes := c.varTypes }
  varTypes : c.varTypes.Alike c'.varTypes

/-- The entries are the same, or put down the same type for a variable under equal names. -/
inductive Entry.Interchanged : Entry → Entry → Prop where
  | same (entry : Entry) : Interchanged entry entry
  | varType {handle handle' : Handle} (h : (handle == handle') = true) (type : Value) :
    Interchanged (.varType handle type) (.varType handle' type)

namespace Context.Interchanged

variable {c c' : Context} {e e' : Entry} {es es' : List Entry}

theorem refl (c : Context) : c.Interchanged c := ⟨rfl, .refl _⟩

/-- What the contexts agree on. -/
theorem same (h : c.Interchanged c') :
    c.parent = c'.parent ∧ c.settings = c'.settings ∧ c.summarizer = c'.summarizer ∧
      c.snapshot = c'.snapshot ∧ c.version = c'.version ∧ c.nodeTypes = c'.nodeTypes ∧
      c.errors = c'.errors :=
  ⟨(congrArg parent h.rest :), (congrArg settings h.rest :), (congrArg summarizer h.rest :),
    (congrArg snapshot h.rest :), (congrArg version h.rest :), (congrArg nodeTypes h.rest :),
    (congrArg errors h.rest :)⟩

/-- Counting a write goes by no variable. -/
theorem noteWrite_varTypes (policy : VersionPolicy) (c : Context) (b : Bindings Handle Value) :
    ({ c with varTypes := b } : Context).noteWrite policy =
      { c.noteWrite policy with varTypes := b } := by
  simp only [noteWrite]
  split <;> rfl

theorem noteWrite (h : c.Interchanged c') (policy : VersionPolicy) :
    (c.noteWrite policy).Interchanged (c'.noteWrite policy) := by
  refine ⟨?_, by simpa using h.varTypes⟩
  rw [varTypes_noteWrite, ← noteWrite_varTypes, ← h.rest]

/-- **Equal names are put down alike.** -/
theorem enter (h : c.Interchanged c') (he : e.Interchanged e') (policy : VersionPolicy) :
    (c.enter policy e).Interchanged (c'.enter policy e') := by
  obtain ⟨p, st, sm, sn, v, pe, nt, vt, er⟩ := c
  obtain ⟨p', st', sm', sn', v', pe', nt', vt', er'⟩ := c'
  obtain ⟨hrest, hvars⟩ := h
  simp only [mk.injEq, true_and] at hrest
  obtain ⟨rfl, rfl, rfl, rfl, rfl, rfl, rfl, rfl⟩ := hrest
  cases he with
  | varType hhandles type =>
    refine noteWrite ?_ policy
    exact ⟨rfl, hvars.insert hhandles type⟩
  | same e =>
    cases e with
    | nodeType node type =>
      refine noteWrite ?_ policy
      exact ⟨rfl, hvars⟩
    | varType handle type =>
      refine noteWrite ?_ policy
      exact ⟨rfl, hvars.insert BEq.rfl type⟩
    | error error => exact ⟨rfl, hvars⟩

theorem enterAll (h : c.Interchanged c') (hes : List.Forall₂ Entry.Interchanged es es')
    (policy : VersionPolicy) :
    (c.enterAll policy es).Interchanged (c'.enterAll policy es') := by
  induction hes generalizing c c' with
  | nil => exact h
  | cons he _ ih => exact ih (h.enter he policy)

/-- Such contexts hand over the same, with variables under equal names. -/
theorem entries (h : c.Interchanged c') : List.Forall₂ Entry.Interchanged c.entries c'.entries := by
  have hself : ∀ es : List Entry, List.Forall₂ Entry.Interchanged es es := fun es =>
    List.forall₂_same.2 fun e _ => .same e
  obtain ⟨-, -, -, -, -, hnodes, herrors⟩ := h.same
  have hvars : List.Forall₂ Entry.Interchanged
      (c.varTypes.entries.map fun e => .varType e.1 e.2)
      (c'.varTypes.entries.map fun e => .varType e.1 e.2) := by
    rw [List.forall₂_map_left_iff, List.forall₂_map_right_iff]
    refine h.varTypes.imp fun e e' he => ?_
    rw [he.2]
    exact .varType he.1 e'.2
  rw [Context.entries, Context.entries, hnodes, herrors]
  exact List.rel_append (List.rel_append (hself _) hvars) (hself _)

/-- Such contexts are reported alike when they are committed. -/
theorem acceptance_eq (h : c.Interchanged c') : Store.acceptance c = Store.acceptance c' := by
  obtain ⟨-, -, -, hsnapshot, -, hnodes, herrors⟩ := h.same
  have hvars : c.varTypes.size = c'.varTypes.size := h.varTypes.size
  unfold Store.acceptance
  rw [hnodes, hvars, herrors, hsnapshot]

end Context.Interchanged

/-! ## Stores -/

/-- The operations are the same, or name a variable by equal values. -/
inductive Action.Interchanged : Action → Action → Prop where
  | same (a : Action) : Interchanged a a
  | recordVariable {handle handle' : Handle} (h : (handle == handle') = true) (c : ContextId)
    (type : Value) :
    Interchanged (.recordVariable c handle.value type) (.recordVariable c handle'.value type)
  | hasVariable {handle handle' : Handle} (h : (handle == handle') = true) (c : ContextId) :
    Interchanged (.hasVariable c handle.value) (.hasVariable c handle'.value)
  | variableTypeOf {handle handle' : Handle} (h : (handle == handle') = true) (c : ContextId) :
    Interchanged (.variableTypeOf c handle.value) (.variableTypeOf c handle'.value)

/-- The outcomes are the same, or list the same types of variables under equal names. -/
inductive Outcome.Interchanged : Outcome → Outcome → Prop where
  | same (outcome : Outcome) : Interchanged outcome outcome
  | listed {b b' : Bindings Handle Value} (h : b.Alike b') :
    Interchanged (.ok (.variableTypes b.entries)) (.ok (.variableTypes b'.entries))

theorem Outcome.Interchanged.of_eq {outcome outcome' : Outcome} (h : outcome = outcome') :
    Outcome.Interchanged outcome outcome' := by
  rw [h]
  exact .same outcome'

namespace Store

/-- Two values are refused as names for the same reason, or are equal as names. -/
def NamesAlike (name name' : Value) : Prop :=
  (∃ kind, handleOf name = .error (.unhashable kind) ∧
      handleOf name' = .error (.unhashable kind)) ∨
    ∃ handle handle', handleOf name = .ok handle ∧ handleOf name' = .ok handle' ∧
      (handle == handle') = true

theorem NamesAlike.refl (name : Value) : NamesAlike name name := by
  cases hvalue : Handle.ofValue name with
  | error kind =>
    have hname : handleOf name = .error (.unhashable kind) := by rw [handleOf, hvalue]; rfl
    exact .inl ⟨kind, hname, hname⟩
  | ok handle =>
    have hname : handleOf name = .ok handle := by rw [handleOf, hvalue]; rfl
    exact .inr ⟨handle, handle, hname, hname, BEq.rfl⟩

theorem NamesAlike.of_beq {handle handle' : Handle} (h : (handle == handle') = true) :
    NamesAlike handle.value handle'.value :=
  .inr ⟨handle, handle', handleOf_value handle, handleOf_value handle', h⟩

/-- The positions of the faults that can carry or print the name of a variable that was not found,
once an operation is done: that of a new fault for a variable, and, if there is one already, that of
a new fault for a node, which may hold it. -/
def unfound (s : Store) (faults : List Nat) : Action → List Nat
  | .variableTypeOf c name =>
    match (s.variableTypeOf c name).1 with
    | .error (.fault ref) => faults ++ [ref.index]
    | _ => faults
  | .typeOf c node =>
    match (s.typeOf c node).1 with
    | .error (.fault ref) => if faults = [] then [] else faults ++ [ref.index]
    | _ => faults
  | _ => faults

/-- A lookup of a variable ends in no fault but one for a variable. -/
theorem kind_of_variableTypeOf {s : Store} {c : ContextId} {name : Value} {ref : FaultRef}
    (h : (s.variableTypeOf c name).1 = .error (.fault ref)) : ref.kind = .variableNotTyped := by
  rcases NamesAlike.refl name with ⟨kind, hname, -⟩ | ⟨handle, -, hname, -, -⟩
  · simp only [Store.variableTypeOf, hname] at h
    cases h
  · simp only [Store.variableTypeOf, hname] at h
    cases hlooked : s.findVariable c handle with
    | some type =>
      rw [hlooked] at h
      cases h
    | none =>
      rw [hlooked] at h
      cases h
      rfl

/-- The stores differ at most in the names of variables, and in what some faults carry and print of
them. -/
structure Interchanged (faults : List Nat) (s s' : Store) : Prop where
  objects : s.objects.SameBut faults s'.objects
  size : s.contexts.size = s'.contexts.size
  context : ∀ c, (s.context c).Interchanged (s'.context c)
  journal : s.journal = s'.journal

/-- The store with what some faults carry or print hidden. -/
def veilAt (faults : List Nat) (s : Store) : Store :=
  { s with objects := s.objects.veilAt faults }

namespace Interchanged

variable {faults : List Nat} {s s' : Store} {c : ContextId}

theorem has (h : s.Interchanged faults s') : s.Has c ↔ s'.Has c := by
  simp only [Has, h.size]

/-! ### What is read -/

theorem settingsOf (h : s.Interchanged faults s') (c : ContextId) :
    s.settingsOf c = s'.settingsOf c := by
  obtain ⟨-, hsettings, -⟩ := (h.context c).same
  rw [Store.settingsOf, Store.settingsOf, hsettings]
  exact h.objects.settingsOf _

theorem chain (h : s.Interchanged faults s') (c : ContextId) : s.chain c = s'.chain c :=
  chain_congr fun d _ => (h.context d).same.1

theorem findType (h : s.Interchanged faults s') (c : ContextId) (node : Value) :
    s.findType c node = s'.findType c node := by
  have hview : (fun a => (s.context a).nodeTypes.get? ⟨node⟩) =
      fun a => (s'.context a).nodeTypes.get? ⟨node⟩ := by
    funext a
    obtain ⟨-, -, -, -, -, hnodes, -⟩ := (h.context a).same
    rw [hnodes]
  rw [Store.findType, Store.findType, h.chain, hview]

/-- **The same type is found under equal names.** -/
theorem findVariable (h : s.Interchanged faults s') (c : ContextId) {handle handle' : Handle}
    (hhandles : (handle == handle') = true) :
    s.findVariable c handle = s'.findVariable c handle' := by
  have hview : (fun a => (s.context a).varTypes.get? handle) =
      fun a => (s'.context a).varTypes.get? handle' :=
    funext fun a => (h.context a).varTypes.get? hhandles
  rw [Store.findVariable, Store.findVariable, h.chain, hview]

/-- A dump goes by the objects, and by what the context holds but for the variables. -/
theorem dump_of_objects (h : s.Interchanged faults s') {objects : Objects} (c : ContextId) :
    Store.dump { s with objects := objects } c = Store.dump { s' with objects := objects } c := by
  obtain ⟨-, -, hsummarizer, -, -, hnodes, herrors⟩ := (h.context c).same
  have htypings : s.typings c = s'.typings c := by rw [typings, typings, hnodes]
  -- the objects matter to the entries alone
  have hread : ∀ t : Store, Store.typings { t with objects := objects } c = t.typings c ∧
      Store.context { t with objects := objects } c = t.context c := fun _ => ⟨rfl, rfl⟩
  simp only [Store.dump, hread, htypings, herrors, hsummarizer]
  rfl

/-- **A dump is the same** but for what is hidden here, and ends alike if the summaries do not go by
that. -/
theorem dump (h : s.Interchanged faults s') (c : ContextId) :
    (s.veilAt faults).dump c = (s'.veilAt faults).dump c ∧
      ((s'.context c).summarizer.Steady handleNames →
        ending (s.dump c) = ending (s'.dump c)) := by
  obtain ⟨-, -, hsummarizer, -, -, hnodes, herrors⟩ := (h.context c).same
  have htypings : s.typings c = s'.typings c := by rw [typings, typings, hnodes]
  refine ⟨?_, fun hsteady => ending_dump h.objects.hidden (by decide) htypings herrors hsummarizer
    hsteady⟩
  rw [veilAt, veilAt, h.objects.veilAt_eq]
  exact h.dump_of_objects c

/-! ### What is done -/

theorem withObjects (h : s.Interchanged faults s') {faults' : List Nat} {objects objects' : Objects}
    (ho : objects.SameBut faults' objects') :
    Interchanged faults' { s with objects := objects } { s' with objects := objects' } :=
  ⟨ho, h.size, h.context, h.journal⟩

theorem update (h : s.Interchanged faults s') {f g : Context → Context}
    (hfg : (f (s.context c)).Interchanged (g (s'.context c))) :
    (s.update c f).Interchanged faults (s'.update c g) := by
  refine ⟨h.objects, by simp [Store.update, h.size], fun d => ?_, h.journal⟩
  rw [context_update, context_update]
  simp only [h.has]
  split
  · exact hfg
  · exact h.context d

/-- Entries are put down alike. -/
theorem enterAll (h : s.Interchanged faults s') {es es' : List Entry}
    (hes : List.Forall₂ Entry.Interchanged es es') :
    (s.update c (Context.enterAll (s.policy c) es)).Interchanged faults
      (s'.update c (Context.enterAll (s'.policy c) es')) := by
  have hpolicy : s.policy c = s'.policy c := by rw [policy, policy, h.settingsOf]
  rw [hpolicy]
  exact h.update ((h.context c).enterAll hes _)

theorem add (h : s.Interchanged faults s') {new new' : Context} (hnew : new.Interchanged new') :
    (s.add new).1 = (s'.add new').1 ∧ (s.add new).2.Interchanged faults (s'.add new').2 := by
  refine ⟨congrArg ContextId.mk h.size, h.objects, by simp [Store.add, h.size], fun d => ?_,
    h.journal⟩
  rw [context_add, context_add, h.size]
  split
  · exact hnew
  · exact h.context d

theorem createRoot (h : s.Interchanged faults s') (settings : Option SettingsRef)
    (summarizer : Option Summarizer) :
    (s.createRoot settings summarizer).1 = (s'.createRoot settings summarizer).1 ∧
      (s.createRoot settings summarizer).2.Interchanged faults
        (s'.createRoot settings summarizer).2 := by
  obtain ⟨href, hobjects⟩ := h.objects.settingsOr settings
  simp only [Store.createRoot, href]
  exact (h.withObjects hobjects).add (.refl _)

theorem createChild (h : s.Interchanged faults s') (p : ContextId) (settings : Option SettingsRef)
    (summarizer : Option Summarizer) :
    (s.createChild p settings summarizer).1 = (s'.createChild p settings summarizer).1 ∧
      (s.createChild p settings summarizer).2.Interchanged faults
        (s'.createChild p settings summarizer).2 := by
  obtain ⟨-, hsettings, hsummarizer, -, hversion, -⟩ := (h.context p).same
  have hmark : (s.update p fun c => { c with pending := true }).Interchanged faults
      (s'.update p fun c => { c with pending := true }) := by
    refine h.update ⟨?_, (h.context p).varTypes⟩
    exact (congrArg (fun c : Context => { c with pending := true }) (h.context p).rest :)
  have hchild : (s.context p).childOf p (settings.getD (s.context p).settings)
        (summarizer.getD (s.context p).summarizer) =
      (s'.context p).childOf p (settings.getD (s'.context p).settings)
        (summarizer.getD (s'.context p).summarizer) := by
    rw [Context.childOf, Context.childOf, hsettings, hsummarizer, hversion]
  simp only [Store.createChild, hchild]
  exact hmark.add (.refl _)

theorem report (h : s.Interchanged faults s') (c : ContextId) (level : LogLevel)
    (message : String) :
    (s.report c level message).Interchanged faults (s'.report c level message) := by
  refine ⟨h.objects, h.size, h.context, ?_⟩
  rw [Store.report, Store.report, h.settingsOf, h.journal]

/-- A fault for a variable is the same fault, under whatever name it was asked for. -/
theorem fail_variableNotTyped (h : s.Interchanged faults s') (name name' : Value) :
    let x : Except Failure Value × Store := s.fail (.variableNotTyped name)
    let x' : Except Failure Value × Store := s'.fail (.variableNotTyped name')
    x.1 = x'.1 ∧ x.2.Interchanged (faults ++ [s.objects.attributes.size]) x'.2 := by
  obtain ⟨href, -, hobjects⟩ :=
    h.objects.newFault (.variableNotTyped name) (.variableNotTyped name') rfl rfl rfl
  exact ⟨congrArg (fun ref => Except.error (Failure.fault ref)) href, h.withObjects hobjects⟩

/-- A fault for a node is the same fault, but it may be worded by what differs, if anything does. -/
theorem fail_nodeNotTyped (h : s.Interchanged faults s') (node : Value) :
    let x : Except Failure Value × Store := s.fail (.nodeNotTyped node)
    let x' : Except Failure Value × Store := s'.fail (.nodeNotTyped node)
    x.1 = x'.1 ∧ x.2.Interchanged
      (if faults = [] then [] else faults ++ [s.objects.attributes.size]) x'.2 := by
  have hloc : s.objects.locationOf (.nodeNotTyped node) =
      s'.objects.locationOf (.nodeNotTyped node) :=
    Objects.locationOf_of_hide h.objects.hidden (by decide) _
  by_cases hfaults : faults = []
  · subst hfaults
    rw [if_pos rfl]
    have hsame : s.objects = s'.objects := h.objects.eq_of_nil
    simp only [fail, hsame]
    exact ⟨trivial, h.withObjects (.refl _ _)⟩
  · rw [if_neg hfaults]
    obtain ⟨href, -, hobjects⟩ :=
      h.objects.newFault (.nodeNotTyped node) (.nodeNotTyped node) rfl hloc rfl
    exact ⟨congrArg (fun ref => Except.error (Failure.fault ref)) href, h.withObjects hobjects⟩

/-- A fault that no value is shown in is the same in all it carries. -/
theorem fail_of_message (h : s.Interchanged faults s') (cause : Cause)
    (hloc : s.objects.locationOf cause = s'.objects.locationOf cause)
    (hmessage : cause.message s.objects.written s.objects.plain =
      cause.message s'.objects.written s'.objects.plain) :
    let x : Except Failure Unit × Store := s.fail cause
    let x' : Except Failure Unit × Store := s'.fail cause
    x.1 = x'.1 ∧ x.2.Interchanged faults x'.2 := by
  obtain ⟨href, hobjects⟩ := h.objects.newFault_of_message cause hloc hmessage
  exact ⟨congrArg (fun ref => Except.error (Failure.fault ref)) href, h.withObjects hobjects⟩

/-- **A commit ends alike.** Versions do not go by names. -/
theorem commit (h : s.Interchanged faults s') (c : ContextId) :
    (s.commit c).1 = (s'.commit c).1 ∧ (s.commit c).2.Interchanged faults (s'.commit c).2 := by
  obtain ⟨hparent, -, -, hsnapshot, -, hnodes, herrors⟩ := (h.context c).same
  simp only [Store.commit, hparent]
  cases hp : (s'.context c).parent with
  | none => exact h.fail_of_message _ rfl (Objects.message_of_refusal (.inl rfl))
  | some p =>
    obtain ⟨-, -, -, -, hversion, -⟩ := (h.context p).same
    simp only [hversion, hsnapshot]
    by_cases hv : (s'.context p).version = (s'.context c).snapshot
    · have hacceptance : acceptance (s.context c) = acceptance (s'.context c) :=
        (h.context c).acceptance_eq
      simp only [hv, ne_eq, not_true_eq_false, if_false, Context.absorb_eq_enterAll, hacceptance]
      exact ⟨trivial, (h.enterAll (h.context c).entries).report _ _ _⟩
    · simp only [hv, ne_eq, not_false_eq_true, if_true]
      obtain ⟨hwas, hobjects⟩ := h.objects.number (s'.context c).snapshot
      obtain ⟨hnow, hobjects⟩ := hobjects.number (s'.context p).version
      rw [hwas, hnow]
      -- the refusal shows two numbers, which look alike in all objects
      refine ((h.withObjects hobjects).report c .debug _).fail_of_message _ rfl
        (Objects.message_of_refusal (.inr ⟨_, _, rfl, ?_, ?_⟩))
      · rw [Objects.plain_number, Objects.plain_number]
      · rw [Objects.plain_number, Objects.plain_number]

/-! ### Operations that name a variable -/

theorem recordVariable (h : s.Interchanged faults s') {name name' : Value}
    (hnames : NamesAlike name name') (c : ContextId) (type : Value) :
    (s.recordVariable c name type).1 = (s'.recordVariable c name' type).1 ∧
      (s.recordVariable c name type).2.Interchanged faults (s'.recordVariable c name' type).2 := by
  rcases hnames with ⟨kind, hname, hname'⟩ | ⟨handle, handle', hname, hname', hhandles⟩
  · simp only [Store.recordVariable, hname, hname']
    exact ⟨trivial, h⟩
  · simp only [Store.recordVariable, hname, hname']
    exact ⟨trivial, h.enterAll (.cons (.varType hhandles type) .nil)⟩

theorem hasVariable (h : s.Interchanged faults s') {name name' : Value}
    (hnames : NamesAlike name name') (c : ContextId) :
    s.hasVariable c name = s'.hasVariable c name' := by
  rcases hnames with ⟨kind, hname, hname'⟩ | ⟨handle, handle', hname, hname', hhandles⟩
  · rw [Store.hasVariable, Store.hasVariable, hname, hname']
    rfl
  · have hcontains := (h.context c).varTypes.contains hhandles
    rw [Store.hasVariable, Store.hasVariable, hname, hname']
    exact congrArg Except.ok hcontains

theorem variableTypeOf (h : s.Interchanged faults s') {name name' : Value}
    (hnames : NamesAlike name name') (c : ContextId) :
    (s.variableTypeOf c name).1 = (s'.variableTypeOf c name').1 ∧
      (s.variableTypeOf c name).2.Interchanged (s.unfound faults (.variableTypeOf c name))
        (s'.variableTypeOf c name').2 := by
  rcases hnames with ⟨kind, hname, hname'⟩ | ⟨handle, handle', hname, hname', hhandles⟩
  · simp only [unfound, Store.variableTypeOf, hname, hname']
    exact ⟨trivial, h⟩
  · have hfound := h.findVariable c hhandles
    cases hlooked : s'.findVariable c handle' with
    | some type =>
      rw [hlooked] at hfound
      simp only [unfound, Store.variableTypeOf, hname, hname', hfound, hlooked]
      exact ⟨trivial, h⟩
    | none =>
      rw [hlooked] at hfound
      simp only [unfound, Store.variableTypeOf, hname, hname', hfound, hlooked]
      exact h.fail_variableNotTyped name name'

/-- The fault for a node is one of those that differ, if there are any. -/
theorem typeOf (h : s.Interchanged faults s') (c : ContextId) (node : Value) :
    (s.typeOf c node).1 = (s'.typeOf c node).1 ∧
      (s.typeOf c node).2.Interchanged (s.unfound faults (.typeOf c node))
        (s'.typeOf c node).2 := by
  have hfound := h.findType c node
  cases hlooked : s'.findType c node with
  | some type =>
    rw [hlooked] at hfound
    simp only [unfound, Store.typeOf, hfound, hlooked]
    exact ⟨trivial, h⟩
  | none =>
    rw [hlooked] at hfound
    simp only [unfound, Store.typeOf, hfound, hlooked]
    exact h.fail_nodeNotTyped node

/-! ### Every operation -/

theorem perform_recordVariable (h : s.Interchanged faults s') {name name' : Value}
    (hnames : NamesAlike name name') (c : ContextId) (type : Value) :
    (s.perform (.recordVariable c name type)).2.Interchanged faults
        (s'.perform (.recordVariable c name' type)).2 ∧
      Outcome.Interchanged (s.perform (.recordVariable c name type)).1
        (s'.perform (.recordVariable c name' type)).1 := by
  obtain ⟨hanswer, hstore⟩ := h.recordVariable hnames c type
  exact ⟨hstore, .of_eq (congrArg (Except.map fun _ => Answer.value type) hanswer)⟩

theorem perform_hasVariable (h : s.Interchanged faults s') {name name' : Value}
    (hnames : NamesAlike name name') (c : ContextId) :
    Outcome.Interchanged (s.perform (.hasVariable c name)).1
      (s'.perform (.hasVariable c name')).1 :=
  .of_eq (congrArg (Except.map Answer.truth) (h.hasVariable hnames c))

theorem perform_variableTypeOf (h : s.Interchanged faults s') {name name' : Value}
    (hnames : NamesAlike name name') (c : ContextId) :
    (s.perform (.variableTypeOf c name)).2.Interchanged
        (s.unfound faults (.variableTypeOf c name)) (s'.perform (.variableTypeOf c name')).2 ∧
      Outcome.Interchanged (s.perform (.variableTypeOf c name)).1
        (s'.perform (.variableTypeOf c name')).1 := by
  obtain ⟨hanswer, hstore⟩ := h.variableTypeOf hnames c
  exact ⟨hstore, .of_eq (congrArg (Except.map Answer.value) hanswer)⟩

/-- The same operation in two stores that differ only in names. -/
theorem perform_same (h : s.Interchanged faults s') (a : Action) :
    (s.perform a).2.Interchanged (s.unfound faults a) (s'.perform a).2 ∧
      ((∀ c, a ≠ .dump c) → Outcome.Interchanged (s.perform a).1 (s'.perform a).1) := by
  cases a with
  | createRoot settings summarizer =>
    obtain ⟨hid, hstore⟩ := h.createRoot settings summarizer
    exact ⟨hstore, fun _ => .of_eq (congrArg (fun c => Except.ok (Answer.context c)) hid)⟩
  | createChild p settings summarizer =>
    obtain ⟨hid, hstore⟩ := h.createChild p settings summarizer
    exact ⟨hstore, fun _ => .of_eq (congrArg (fun c => Except.ok (Answer.context c)) hid)⟩
  | spawn p =>
    obtain ⟨hid, hstore⟩ := h.createChild p none none
    obtain ⟨-, -, -, -, hversion, -⟩ := (hstore.context p).same
    refine ⟨?_, fun _ => .of_eq (congrArg (fun c => Except.ok (Answer.context c)) hid)⟩
    have hreported := hstore.report p .debug ("typing: spawned child at version " ++
      toString ((s.createChild p none none).2.context p).version)
    simp only [Store.perform, Store.spawn, ← hversion]
    exact hreported
  | recordType c node type =>
    exact ⟨h.enterAll (.cons (.same (.nodeType node type)) .nil), fun _ => .same _⟩
  | recordVariable c name type =>
    obtain ⟨hstore, houtcome⟩ := h.perform_recordVariable (.refl name) c type
    exact ⟨hstore, fun _ => houtcome⟩
  | addError c error =>
    have hentered := (h.context c).enter (.same (.error error)) .everyWrite
    exact ⟨h.update hentered, fun _ => .same _⟩
  | commit c =>
    obtain ⟨hanswer, hstore⟩ := h.commit c
    exact ⟨hstore, fun _ => .of_eq (congrArg (Except.map fun _ => Answer.done) hanswer)⟩
  | hasType c node =>
    obtain ⟨-, -, -, -, -, hnodes, -⟩ := (h.context c).same
    have hanswer : s.hasType c node = s'.hasType c node := by rw [hasType, hasType, hnodes]
    exact ⟨h, fun _ => .of_eq (congrArg (fun b => Except.ok (Answer.truth b)) hanswer)⟩
  | hasVariable c name => exact ⟨h, fun _ => h.perform_hasVariable (.refl name) c⟩
  | typeOf c node =>
    obtain ⟨hanswer, hstore⟩ := h.typeOf c node
    exact ⟨hstore, fun _ => .of_eq (congrArg (Except.map Answer.value) hanswer)⟩
  | variableTypeOf c name =>
    obtain ⟨hstore, houtcome⟩ := h.perform_variableTypeOf (.refl name) c
    exact ⟨hstore, fun _ => houtcome⟩
  | typings c =>
    obtain ⟨-, -, -, -, -, hnodes, -⟩ := (h.context c).same
    have hanswer : s.typings c = s'.typings c := by rw [typings, typings, hnodes]
    exact ⟨h, fun _ => .of_eq (congrArg (fun l => Except.ok (Answer.typings l)) hanswer)⟩
  | variableTypes c => exact ⟨h, fun _ => .listed (h.context c).varTypes⟩
  | errors c =>
    obtain ⟨-, -, -, -, -, -, herrors⟩ := (h.context c).same
    exact ⟨h, fun _ => .of_eq (congrArg (fun l => Except.ok (Answer.errors l)) herrors)⟩
  | dump c => exact ⟨h, fun hno => absurd rfl (hno c)⟩
  | caption c =>
    obtain ⟨-, -, -, -, hversion, hnodes, herrors⟩ := (h.context c).same
    have hdepth : s.depth c = s'.depth c := by rw [depth, depth, h.chain]
    have hanswer : s.caption c = s'.caption c := by
      dsimp only [caption]
      rw [hdepth, hversion, hnodes, herrors]
    exact ⟨h, fun _ => .of_eq (congrArg (fun t => Except.ok (Answer.text t)) hanswer)⟩
  | assign target field new =>
    simp only [Store.perform, unfound]
    rcases h.objects.assign target field new with
      ⟨failure, ho, ho'⟩ | ⟨after, after', ho, ho', hafter⟩
    · rw [ho, ho']
      exact ⟨h, fun _ => .same _⟩
    · rw [ho, ho']
      exact ⟨h.withObjects hafter, fun _ => .same _⟩
  | newRecord kind fields others =>
    refine ⟨h.withObjects (h.objects.add _), fun _ => .of_eq ?_⟩
    simp only [Store.perform, Objects.newRecord, h.objects.size]
  | newIndividual kind attributes =>
    refine ⟨h.withObjects (h.objects.add _), fun _ => .of_eq ?_⟩
    simp only [Store.perform, Objects.newIndividual, h.objects.size]

/-- **One operation** answers the same in two stores that differ only in names, whatever it calls a
variable, and leaves them that way. Only a dump may show what differs. -/
theorem perform (h : s.Interchanged faults s') {a a' : Action} (ha : a.Interchanged a') :
    (s.perform a).2.Interchanged (s.unfound faults a) (s'.perform a').2 ∧
      ((∀ c, a ≠ .dump c) → Outcome.Interchanged (s.perform a).1 (s'.perform a').1) := by
  cases ha with
  | same a => exact h.perform_same a
  | recordVariable hh c type =>
    obtain ⟨hstore, houtcome⟩ := h.perform_recordVariable (.of_beq hh) c type
    exact ⟨hstore, fun _ => houtcome⟩
  | hasVariable hh c => exact ⟨h, fun _ => h.perform_hasVariable (.of_beq hh) c⟩
  | variableTypeOf hh c =>
    obtain ⟨hstore, houtcome⟩ := h.perform_variableTypeOf (.of_beq hh) c
    exact ⟨hstore, fun _ => houtcome⟩

end Interchanged

end Store

/-! ## Runs -/

/-- What is done to the objects between the operations does not go by what faults carry or print of
a variable. -/
def Regime.Discreet (regime : Regime) : Prop :=
  ∀ t faults objects objects', objects.SameBut faults objects' →
    (regime t objects).SameBut faults (regime t objects')

namespace World

variable {regime : Regime} {faults : List Nat} {w w' : World}

/-- The positions of the faults that can carry or print the name of a variable that was not found,
once several operations are done. -/
def unfound (regime : Regime) : World → List Nat → List Action → List Nat
  | _, faults, [] => faults
  | w, faults, a :: actions =>
    let s := w.prepared regime
    unfound regime (w.step regime a) (if s.Admits a then s.unfound faults a else faults) actions

/-- Two runs that went alike, whatever they called the variables. -/
structure Interchanged (faults : List Nat) (w w' : World) : Prop where
  store : w.store.Interchanged faults w'.store
  length : w.outcomes.length = w'.outcomes.length

namespace Interchanged

theorem prepared (h : w.Interchanged faults w') (hregime : regime.Discreet) :
    (w.prepared regime).Interchanged faults (w'.prepared regime) := by
  refine h.store.withObjects ?_
  rw [h.length]
  exact hregime _ _ _ _ h.store.objects

/-- **One operation keeps two runs alike.** -/
theorem step (h : w.Interchanged faults w') (hregime : regime.Discreet) {a a' : Action}
    (ha : a.Interchanged a') :
    let s := w.prepared regime
    (w.step regime a).Interchanged (if s.Admits a then s.unfound faults a else faults)
      (w'.step regime a') := by
  intro s
  have hprepared : s.Interchanged faults (w'.prepared regime) := h.prepared hregime
  have hcontext : a.context? = a'.context? := by
    cases ha <;> rfl
  have hadmits : s.Admits a ↔ (w'.prepared regime).Admits a' := by
    rw [Store.Admits, Store.Admits, hcontext]
    exact forall₂_congr fun c _ => hprepared.has
  by_cases hadm : s.Admits a
  · obtain ⟨hstore, -⟩ := hprepared.perform ha
    rw [step_of_admits hadm, step_of_admits (hadmits.1 hadm), if_pos hadm]
    exact ⟨hstore, by simp [h.length]⟩
  · rw [step_of_not_admits hadm, step_of_not_admits (mt hadmits.2 hadm), if_neg hadm]
    exact h

/-- **Operations keep two runs alike**, however many there are. -/
theorem steps (h : w.Interchanged faults w') (hregime : regime.Discreet)
    {actions actions' : List Action}
    (hactions : List.Forall₂ Action.Interchanged actions actions') :
    (actions.foldl (World.step regime) w).Interchanged (unfound regime w faults actions)
      (actions'.foldl (World.step regime) w') := by
  induction hactions generalizing w w' faults with
  | nil => exact h
  | cons ha _ ih => exact ih (h.step hregime ha)

end Interchanged

/-- Outcomes stay. -/
theorem outcomes_prefix_foldl (regime : Regime) (w : World) (actions : List Action) :
    w.outcomes <+: (actions.foldl (World.step regime) w).outcomes := by
  induction actions generalizing w with
  | nil => exact List.prefix_refl _
  | cons a actions ih =>
    refine List.IsPrefix.trans ?_ (ih (w.step regime a))
    by_cases ha : (w.prepared regime).Admits a
    · rw [step_of_admits ha]
      exact List.prefix_append _ _
    · have hsame : w.step regime a = w := step_of_not_admits ha
      exact ⟨[], by rw [hsame, List.append_nil]⟩

/-- No fault speaks of a variable that was not found, if no operation ended in a fault for one. -/
theorem unfound_eq_nil (regime : Regime) (w : World) (actions : List Action)
    (hfound : ∀ ref, Except.error (.fault ref) ∈ (actions.foldl (World.step regime) w).outcomes →
      ref.kind ≠ .variableNotTyped) :
    unfound regime w [] actions = [] := by
  induction actions generalizing w with
  | nil => rfl
  | cons a actions ih =>
    have hone : (if (w.prepared regime).Admits a then (w.prepared regime).unfound [] a else []) =
        [] := by
      split
      · rename_i ha
        have houtcome : ((w.prepared regime).perform a).1 ∈
            ((a :: actions).foldl (World.step regime) w).outcomes := by
          refine (outcomes_prefix_foldl regime (w.step regime a) actions).subset ?_
          rw [step_of_admits ha]
          simp
        cases a with
        | variableTypeOf c name =>
          simp only [Store.unfound]
          split
          · rename_i ref hlooked
            -- the lookup would have ended in a fault for a variable
            have hmem := houtcome
            simp only [Store.perform, hlooked, Except.map] at hmem
            exact absurd (Store.kind_of_variableTypeOf hlooked) (hfound ref hmem)
          · rfl
        | typeOf c node =>
          simp only [Store.unfound, if_true]
          split <;> rfl
        | _ => rfl
      · rfl
    rw [unfound, hone]
    exact ih (w.step regime a) hfound

/-- **Equal handles are interchangeable.** Equality of values is an equivalence, and of two equal
values both can be handles or neither, for the same reason; handles are compared as values are. So
in every run a context holds no two equal handles, and of those that reached it the first.

Let two runs be the same but for the names of variables, which are equal. Then the contexts are the
same but for the names they keep, which are equal place by place, and the objects differ at most in
what some faults carry or print. Whatever the next operation is, and whichever of two equal names it
uses, it answers the same; a listing of variables shows them under equal names. A dump is the same
but for what these faults print, and ends alike if the summaries do not go by that. If no lookup
failed for want of a variable, all objects are the same, and so is every dump. -/
theorem equal_handles_interchangeable :
    (∀ objects : Objects, Equivalence (fun a b => objects.equal a b = true) ∧
      (∀ a b, objects.equal a b = true → a.unhashable? = b.unhashable?) ∧
      ∀ handle handle' : Handle,
        (handle == handle') = objects.equal handle.value handle'.value) ∧
    (∀ (regime : Regime) (objects : Objects) (actions : List Action) (c : ContextId),
      let w := run regime objects actions
      let handles := (w.store.context c).varTypes.keys
      (handles.Pairwise fun handle handle' => (handle == handle') = false) ∧
        ∀ handle ∈ handles, w.FirstRecorded Entry.varType? c handle) ∧
    ∀ (regime : Regime) (objects : Objects) (actions actions' : List Action), regime.Discreet →
      List.Forall₂ Action.Interchanged actions actions' →
      let w := run regime objects actions
      let s := w.prepared regime
      let s' := (run regime objects actions').prepared regime
      let faults := unfound regime (init objects) [] actions
      s.Interchanged faults s' ∧
      (∀ a a', a.Interchanged a' → (∀ c, a ≠ .dump c) →
        Outcome.Interchanged (s.perform a).1 (s'.perform a').1) ∧
      (∀ c, (s.veilAt faults).dump c = (s'.veilAt faults).dump c ∧
        ((s'.context c).summarizer.Steady handleNames → ending (s.dump c) = ending (s'.dump c))) ∧
      ((∀ ref, Except.error (.fault ref) ∈ w.outcomes → ref.kind ≠ .variableNotTyped) →
        s.objects = s'.objects ∧ ∀ c, s.dump c = s'.dump c) := by
  refine ⟨fun objects => ?_, fun regime objects actions c => ?_, ?_⟩
  · obtain ⟨hequivalence, hhashable⟩ := objects.equal_equivalence
    exact ⟨hequivalence, hhashable, Handle.beq_eq_equal objects⟩
  · have htold : (run regime objects actions).Told := told_run regime objects actions
    obtain ⟨-, -, hdistinct⟩ := htold.keys c
    exact ⟨hdistinct, (htold.first c).2⟩
  · intro regime objects actions actions' hregime hactions w s s' faults
    have hinit : (init objects).Interchanged [] (init objects) :=
      ⟨⟨.refl _ _, rfl, fun _ => .refl _, rfl⟩, rfl⟩
    have hruns : w.Interchanged faults (run regime objects actions') := hinit.steps hregime hactions
    have hstores : s.Interchanged faults s' := hruns.prepared hregime
    refine ⟨hstores, fun a a' ha hno => (hstores.perform ha).2 hno, hstores.dump, fun hfound => ?_⟩
    have hnone : faults = [] := unfound_eq_nil regime (init objects) actions hfound
    rw [hnone] at hstores
    have hobjects : s.objects = s'.objects := hstores.objects.eq_of_nil
    refine ⟨hobjects, fun c => ?_⟩
    have hdump : s.dump c = Store.dump { s' with objects := s.objects } c :=
      hstores.dump_of_objects c
    rw [hdump, hobjects]

/-- A child binds a variable, which is looked for in the root, then bound again, and committed. The
variable goes by one name when it is bound first and by another one after that. -/
def bindTwice (first second : Value) : List Action :=
  [.createRoot none none, .spawn ⟨0⟩, .recordVariable ⟨1⟩ first (.nilType ⟨1⟩),
    .hasVariable ⟨0⟩ second, .recordVariable ⟨1⟩ second (.anyType ⟨2⟩), .commit ⟨1⟩]

/-- The variable may be called by the truth value or by the number one. The root keeps the name by
which it was bound first, and answers alike to both. -/
theorem bindTwice_interchanged :
    let idle : Regime := fun _ objects => objects
    let one : Handle := ⟨.int ⟨5⟩ 1, rfl⟩
    let yes : Handle := ⟨.bool true, rfl⟩
    let s := (run idle {} (bindTwice one.value yes.value)).prepared idle
    let s' := (run idle {} (bindTwice yes.value yes.value)).prepared idle
    let kinds := fun s : Store =>
      ((s.context ⟨0⟩).varTypes.entries.map fun e => (e.1.value.kindName, e.2.kindName))
    idle.Discreet ∧
      List.Forall₂ Action.Interchanged (bindTwice one.value yes.value)
        (bindTwice yes.value yes.value) ∧
      kinds s = [("int", "AnyType")] ∧ kinds s' = [("bool", "AnyType")] ∧
      s.objects = s'.objects ∧
      Outcome.Interchanged (s.perform (.variableTypeOf ⟨0⟩ yes.value)).1
        (s'.perform (.variableTypeOf ⟨0⟩ one.value)).1 := by
  intro idle one yes s s' kinds
  have hidle : idle.Discreet := fun _ _ _ _ h => h
  have hequal : (one == yes) = true := by decide +kernel
  have hactions : List.Forall₂ Action.Interchanged (bindTwice one.value yes.value)
      (bindTwice yes.value yes.value) :=
    .cons (.same _) (.cons (.same _) (.cons (.recordVariable hequal _ _) (.cons (.same _)
      (.cons (.same _) (.cons (.same _) .nil)))))
  obtain ⟨-, -, hruns⟩ := equal_handles_interchangeable
  obtain ⟨-, hanswer, -, hobjects⟩ := hruns idle {} _ _ hidle hactions
  have hwell : (run idle {} (bindTwice one.value yes.value)).outcomes.all Except.isOk = true := by
    decide +kernel
  have hfound : ∀ ref, Except.error (.fault ref) ∈
      (run idle {} (bindTwice one.value yes.value)).outcomes → ref.kind ≠ .variableNotTyped := by
    intro ref href
    cases List.all_eq_true.1 hwell _ href
  have hlook : Action.Interchanged (.variableTypeOf ⟨0⟩ yes.value)
      (.variableTypeOf ⟨0⟩ one.value) :=
    .variableTypeOf (BEq.symm hequal) ⟨0⟩
  exact ⟨hidle, hactions, by decide +kernel, by decide +kernel, (hobjects hfound).1,
    hanswer _ _ hlook nofun⟩

end World

end TypingStore
