import TypingStore.Proofs.RelocatedStores

/-!
# What an engine does

Besides the operations on contexts, an engine makes values of its own, asks for the one type of a
class, joins and compares types, looks at the contexts and the objects it knows, and puts values
into words. Each of these is a deed (`Deed`), and an engine is a tree of them: what it does next
depends on how the deeds before it ended (`Work`).

An engine that goes by nothing but the values it is handed does the same under other ids
(`Work.Alike`). A deed only gives out ids in step and asks for what is there, so it **ends alike in
a store and where that store stands among others** (`Store.Relocated.carryOut`). The one exception
is the type of a class, which those others may have asked for before.

* `Deed`, `Store.carryOut`: one thing that an engine does.
* `Work`, `Work.run`: all that it does.
* `Deed.Own`: a deed of a unit that keeps to itself.
-/

namespace TypingStore

/-! ## Deeds -/

/-- A value built like `v`, under this stamp. What has no stamp stays what it is. -/
def Value.stamped (stamp : Stamp) : Value → Value
  | .int _ n => .int stamp n
  | .text _ s => .text stamp s
  | .list _ items => .list stamp items
  | .tuple _ items => .tuple stamp items
  | .instanceType _ name args => .instanceType stamp name args
  | .unionType _ members => .unionType stamp members
  | .procType _ params result => .procType stamp params result
  | .anyType _ => .anyType stamp
  | .nilType _ => .nilType stamp
  | .typeError _ node message kind => .typeError stamp node message kind
  | .location _ filename span => .location stamp filename span
  | v => v

theorem Value.stamped_rename (ρ : Renaming) (stamp : Stamp) (v : Value) :
    (v.rename ρ).stamped (stamp.rename ρ) = (v.stamped stamp).rename ρ := by
  cases v <;> rfl

/-- A way to put a value into words. -/
inductive Wording where
  | written
  | plain
  /-- As a type. -/
  | displayed
  /-- As a node, with its place and its first line. -/
  | summarized

/-- A value in words. -/
def Objects.worded (objects : Objects) : Wording → Value → Except Failure String
  | .written, v => .ok (objects.written v)
  | .plain, v => .ok (objects.plain v)
  | .displayed, v => .ok (objects.display v)
  | .summarized, v => objects.summary v

/-- What there is to be seen of a context besides what was recorded in it. -/
inductive Facet where
  | parent
  | settings
  /-- The version that its parent had. -/
  | snapshot
  | version
  /-- Whether the next write advances the version. -/
  | pending

/-- What is seen of a context. -/
def Context.facet (context : Context) : Facet → Answer
  | .parent => context.parent.elim (.value .absent) .context
  | .settings => .value context.settings.value
  | .snapshot => .value (.int ⟨0⟩ context.snapshot)
  | .version => .value (.int ⟨0⟩ context.version)
  | .pending => .truth context.pending

theorem Context.facet_rename (ρ : Renaming) (context : Context) (facet : Facet) :
    (context.rename ρ).facet facet = (context.facet facet).rename ρ := by
  cases facet with
  | parent =>
    simp only [Context.facet, Context.rename]
    cases context.parent <;> rfl
  | settings | pending => rfl
  | snapshot | version =>
    simp only [Context.facet, Context.rename, Answer.rename, Value.rename, Stamp.rename_zero]

/-- One thing that an engine does. -/
inductive Deed where
  | act (a : Action)
  /-- Makes an object whose contents do not change, built like `v`. -/
  | make (v : Value)
  | instanceOf (name : String)
  | join (types : List Value)
  | equal (a b : Value)
  | inspect (c : ContextId) (facet : Facet)
  /-- Reads an attribute of an object that can change. The contents of the others come with them. -/
  | read (v : Value) (name : String)
  | word (wording : Wording) (v : Value)
  /-- Puts a fault into words. -/
  | report (fault : FaultRef)
  | log (settings : SettingsRef) (level : LogLevel) (message : String)

/-- Does it. -/
def Store.carryOut (s : Store) : Deed → Outcome × Store
  | .act a => s.perform a
  | .make v =>
    let (made, objects) := s.objects.make fun stamp => v.stamped stamp
    (.ok (.value made), s.withObjects objects)
  | .instanceOf name =>
    let (type, objects) := s.objects.instanceOf name
    (.ok (.value type), s.withObjects objects)
  | .join types =>
    let (result, objects) := s.objects.join types
    (result.map .value, s.withObjects objects)
  | .equal a b => (.ok (.truth (s.objects.equal a b)), s)
  | .inspect c facet => (.ok ((s.context c).facet facet), s)
  | .read v name => ((s.objects.need v name).map .value, s)
  | .word wording v => ((s.objects.worded wording v).map .text, s)
  | .report fault => ((s.objects.report fault).map .text, s)
  | .log settings level message =>
    let journal := s.journal.report (s.objects.settingsOf settings) level message
    (.ok .done, { s with journal := journal })

/-- The same under other ids. -/
def Deed.rename (ρ : Renaming) : Deed → Deed
  | .act a => .act (a.rename ρ)
  | .make v => .make (v.rename ρ)
  | .instanceOf name => .instanceOf name
  | .join types => .join (types.map (Value.rename ρ))
  | .equal a b => .equal (a.rename ρ) (b.rename ρ)
  | .inspect c facet => .inspect (c.rename ρ) facet
  | .read v name => .read (v.rename ρ) name
  | .word wording v => .word wording (v.rename ρ)
  | .report fault => .report (fault.rename ρ)
  | .log settings level message => .log (settings.rename ρ) level message

/-! ## Works -/

/-- What an engine does, deed by deed. What a callback does to the child it is given are deeds of
their own, after the one that makes the child. -/
inductive Work where
  /-- The engine is done, or a failure leaves it. -/
  | done (result : Except Failure Unit)
  /-- A deed, and how the engine goes on after each of its outcomes. -/
  | deed (d : Deed) (next : Outcome → Work)

namespace Work

/-- Does it all. -/
def run : Work → Store → Except Failure Unit × Store
  | done result, s => (result, s)
  | deed d next, s => (next (s.carryOut d).1).run (s.carryOut d).2

/-- A deed that answers a value, with which the engine goes on; a failure leaves the engine. -/
def ask (d : Deed) (next : Value → Work) : Work :=
  .deed d fun
    | .ok (.value v) => next v
    | .ok _ => .done (.ok ())
    | .error failure => .done (.error failure)

/-- Two engines that do the same, the second under other ids. -/
inductive Alike (ρ : Renaming) : Work → Work → Prop where
  | done (result : Except Failure Unit) : Alike ρ (.done result) (.done (Failure.renameIn ρ result))
  | deed {d d' : Deed} {next next' : Outcome → Work} (hd : d' = d.rename ρ)
    (hnext : ∀ outcome, Alike ρ (next outcome) (next' (Outcome.rename ρ outcome))) :
    Alike ρ (.deed d next) (.deed d' next')

/-- Asking is asking alike where the engine goes on alike. -/
theorem Alike.ask {ρ : Renaming} {d d' : Deed} {next next' : Value → Work} (hd : d' = d.rename ρ)
    (hnext : ∀ v, Alike ρ (next v) (next' (v.rename ρ))) :
    Alike ρ (.ask d next) (.ask d' next') := by
  refine .deed hd fun outcome => ?_
  cases outcome with
  | error failure => exact .done (.error failure)
  | ok answer =>
    cases answer with
    | value v => exact hnext v
    | _ => exact .done (.ok ())

end Work

/-! ## Deeds of one's own -/

/-- An operation of a unit that keeps to itself. It mentions only what is there, and the objects it
changes are its own: none is known to everybody. -/
structure Action.Own (known : Objects) (s : Store) (a : Action) : Prop where
  admits : s.Admits a
  within : a.Within s.objects.attributes.size
  changed : ∀ target field new, a = .assign target field new →
    ∀ i ∈ target.index?, known.attributes.size ≤ i

namespace Action

variable {known : Objects} {s : Store} {a : Action}

/-- An operation on a context of one's own, which is given no settings and no summaries. -/
theorem own_of_context {c : ContextId} (ha : a.context? = some c) (hc : s.Has c)
    (hvalues : ∀ v ∈ a.values, v.Within s.objects.attributes.size) (hsettings : a.settings? = none)
    (hsummarizer : a.summarizer? = none) : a.Own known s where
  admits d hd := by
    obtain rfl : c = d := Option.some.inj (ha.symm.trans hd)
    exact hc
  within := ⟨hvalues, by simp [hsettings], by simp [hsummarizer]⟩
  changed target field new heq := by
    subst heq
    cases ha

theorem own_recordType {c : ContextId} {node type : Value} (hc : s.Has c)
    (hnode : node.Within s.objects.attributes.size)
    (htype : type.Within s.objects.attributes.size) : (recordType c node type).Own known s :=
  own_of_context rfl hc (List.forall_mem_cons.2 ⟨hnode, List.forall_mem_singleton.2 htype⟩) rfl rfl

theorem own_addError {c : ContextId} {error : Value} (hc : s.Has c)
    (herror : error.Within s.objects.attributes.size) : (addError c error).Own known s :=
  own_of_context rfl hc (List.forall_mem_singleton.2 herror) rfl rfl

/-- An operation that makes something new, and changes nothing. -/
theorem own_of_new (ha : a.context? = none) (hwithin : a.Within s.objects.attributes.size)
    (hassign : ∀ target field new, a ≠ .assign target field new) : a.Own known s where
  admits c hc := by
    rw [ha] at hc
    cases hc
  within := hwithin
  changed target field new heq := absurd heq (hassign target field new)

theorem own_newRecord (kind : RecordKind) : (newRecord kind [] []).Own known s :=
  own_of_new rfl ⟨by simp [values], by simp [settings?], by simp [summarizer?]⟩ (by simp)

end Action

/-- A deed of a unit that keeps to itself. What it compares does not hold itself. -/
def Deed.Own (known : Objects) (s : Store) : Deed → Prop
  | .act a => a.Own known s
  | .make v | .word _ v => v.Within s.objects.attributes.size
  | .instanceOf _ => True
  | .join types => ∀ t ∈ types, t.Within s.objects.attributes.size ∧ s.objects.Settled t
  | .equal a b => ∀ v ∈ [a, b], v.Within s.objects.attributes.size ∧ s.objects.Settled v
  | .inspect c _ => s.Has c
  | .read v _ => v.index?.isSome ∧ v.Within s.objects.attributes.size
  | .report fault => fault.index < s.objects.attributes.size
  | .log settings _ _ => settings.index < s.objects.attributes.size

/-- An engine that keeps to itself: all its deeds do, and a fault that leaves it is one that it has
made or met. -/
def Work.Keeps (known : Objects) : Work → Store → Prop
  | done result, s => ∀ ref, result = .error (.fault ref) →
    known.attributes.size ≤ ref.index ∧ ref.index < s.objects.attributes.size
  | deed d next, s => d.Own known s ∧ (next (s.carryOut d).1).Keeps known (s.carryOut d).2

/-- A fault that leaves an engine which keeps to itself is its own. -/
theorem Work.Keeps.ends {known : Objects} {work : Work} {s : Store} (h : work.Keeps known s)
    {ref : FaultRef} (hend : (work.run s).1 = .error (.fault ref)) :
    known.attributes.size ≤ ref.index ∧
      ref.index < (work.run s).2.objects.attributes.size := by
  induction work generalizing s with
  | done result => exact h ref hend
  | deed d next ih => exact ih _ h.2 hend

/-! ## Deeds among other objects -/

/-- A value is put into the same words under other ids. -/
theorem Objects.Embeds.worded {ρ : Renaming} {objects objects' : Objects}
    (h : objects.Embeds ρ objects') (wording : Wording) {v : Value}
    (hv : v.Within objects.attributes.size) :
    objects'.worded wording (v.rename ρ) = objects.worded wording v := by
  cases wording with
  | written => exact congrArg Except.ok (h.written hv)
  | plain => exact congrArg Except.ok (h.plain hv)
  | displayed => exact congrArg Except.ok (h.display hv)
  | summarized => exact h.summary hv

theorem Objects.faultless_worded (objects : Objects) (wording : Wording) (v : Value) :
    Faultless (objects.worded wording v) := by
  cases wording with
  | summarized => exact objects.faultless_summary v
  | _ => nofun

/-- The text of an answer without an id is the same under other ids. -/
theorem Faultless.rename_text {result : Except Failure String} (h : Faultless result)
    (ρ : Renaming) : Outcome.rename ρ (result.map .text) = result.map .text := by
  rw [Outcome.rename, (h.map _).renameIn]
  cases result <;> rfl

namespace Store.Relocated

variable {limit : Nat} {known : Objects} {ρ : Renaming} {s s' : Store}
  (h : s.Relocated limit ρ s')
include h

/-- An object whose contents do not change is made in both stores. -/
theorem make {f g : Stamp → Value} (hroom : s.objects.nextStamp < limit)
    (hsame : ∀ stamp : Stamp, g (stamp.rename ρ) = (f stamp).rename ρ) :
    (s'.objects.make g).1 = (s.objects.make f).1.rename ρ ∧
      (s.withObjects (s.objects.make f).2).Relocated limit ρ
        (s'.withObjects (s'.objects.make g).2) := by
  obtain ⟨hmade, hobjects⟩ := h.relocated_objects.make hroom hsame
  exact ⟨hmade, h.withObjects hobjects (Nat.le_refl _)⟩

/-- **Types are joined alike in both stores.** -/
theorem join {types : List Value}
    (htypes : ∀ t ∈ types, t.Within s.objects.attributes.size ∧ s.objects.Settled t)
    (hroom : (s.objects.join types).2.nextStamp ≤ limit) :
    (s'.objects.join (types.map (Value.rename ρ))).1 =
        (s.objects.join types).1.map (Value.rename ρ) ∧
      (s.withObjects (s.objects.join types).2).Relocated limit ρ
        (s'.withObjects (s'.objects.join (types.map (Value.rename ρ))).2) := by
  -- which members are kept is a matter of equality, which does not look at ids
  have hjoined := h.objects.joined (fun t ht => (htypes t ht).1) fun t ht => (htypes t ht).2
  unfold Objects.join at hroom ⊢
  rw [hjoined]
  generalize Types.joined s.objects.equal types = members at hroom
  match members with
  | [] => exact ⟨rfl, h⟩
  | [member] => exact ⟨rfl, h⟩
  | member :: other :: members =>
    obtain ⟨hmade, hstores⟩ := h.make (Nat.lt_of_succ_le hroom)
      (f := fun stamp => .unionType stamp (member :: other :: members))
      (g := fun stamp => .unionType stamp ((member :: other :: members).map (Value.rename ρ)))
      fun stamp => by rw [Value.rename, Value.renameAll_eq_map]
    exact ⟨congrArg Except.ok hmade, hstores⟩

/-- **A deed ends alike in both stores, and leaves them in step**, unless it asks for the type of a
class. -/
theorem carryOut (hs : s.Ordered) (hs' : s'.Ordered) {d : Deed}
    (hd : ∀ name, d ≠ .instanceOf name) (hown : d.Own known s)
    (hroom : (s.carryOut d).2.objects.nextStamp ≤ limit) :
    (s'.carryOut (d.rename ρ)).1 = Outcome.rename ρ (s.carryOut d).1 ∧
      (s.carryOut d).2.Relocated limit ρ (s'.carryOut (d.rename ρ)).2 := by
  cases d with
  | act a => exact h.perform hs hs' hown.admits hown.within hroom
  | make v =>
    obtain ⟨hmade, hstores⟩ := h.make (Nat.lt_of_succ_le hroom) (f := (v.stamped ·))
      (g := ((v.rename ρ).stamped ·)) fun stamp => v.stamped_rename ρ stamp
    exact ⟨congrArg (fun v => Except.ok (Answer.value v)) hmade, hstores⟩
  | instanceOf name => exact absurd rfl (hd name)
  | join types =>
    obtain ⟨hresult, hstores⟩ := h.join hown hroom
    refine ⟨?_, hstores⟩
    simp only [Deed.rename, Store.carryOut, hresult]
    unfold Objects.join
    split <;> rfl
  | equal a b =>
    obtain ⟨ha, hsettled⟩ := hown a (by simp)
    obtain ⟨hb, hsettled'⟩ := hown b (by simp)
    have hequal := h.objects.equal ha hsettled hb hsettled'
    exact ⟨congrArg (fun yes => Except.ok (Answer.truth yes)) hequal, h⟩
  | inspect c facet =>
    refine ⟨?_, h⟩
    simp only [Deed.rename, Store.carryOut, h.context c hown, Context.facet_rename]
    rfl
  | read v name =>
    refine ⟨?_, h⟩
    have hfaultless := s.objects.faultless_need v name
    simp only [Deed.rename, Store.carryOut, h.objects.need hown.2]
    generalize s.objects.need v name = found at hfaultless
    cases found with
    | error failure => exact (hfaultless.renameIn_error ρ).symm
    | ok v => rfl
  | word wording v =>
    refine ⟨?_, h⟩
    simp only [Deed.rename, Store.carryOut, h.objects.worded wording hown]
    exact ((s.objects.faultless_worded wording v).rename_text ρ).symm
  | report fault =>
    refine ⟨?_, h⟩
    simp only [Deed.rename, Store.carryOut, h.objects.report hown]
    exact ((s.objects.faultless_report fault).rename_text ρ).symm
  | log settings level message => exact ⟨rfl, h.congr rfl rfl rfl rfl⟩

end Store.Relocated

end TypingStore
