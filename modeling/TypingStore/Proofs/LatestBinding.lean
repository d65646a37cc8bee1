import TypingStore.Proofs.History

/-!
# A lookup finds the latest record of the nearest context

A context keeps one type for each key, and a lookup walks up the parents. Told by what happened, the
two together come to this: **a lookup in a context finds the type that was recorded last in the
nearest context in which the key was ever recorded**, and fails if there is none
(`World.lookup_finds_latest`). A record counts wherever it came from, an operation or the commit of
a child.

Nodes and variables differ only in when two keys are the same. A node is the same node only if it is
the very object: a copy of it is another one, and what becomes of its attributes plays no part. A
handle is the same handle if it is equal.

* `Event.Records`: an event puts a type for a key down in a context.
* `World.EverRecorded`, `World.LastRecorded`, `World.Nearest`: what the events tell of a key.
* `World.Told.get?`, `World.lastRecorded_iff`: a context holds the last type recorded in it.
-/

namespace TypingStore

/-- The last of several bindings of a key, told by what the bindings are read off: the item that
gives it has no other item for the key behind it. -/
theorem Bindings.last?_filterMap_eq_some_iff {α κ ν : Type} [BEq κ] {read : α → Option (κ × ν)}
    {items : List α} {key : κ} {value : ν} :
    last? (items.filterMap read) key = some value ↔
      ∃ before item after, items = before ++ item :: after ∧
        (∃ k, read item = some (k, value) ∧ (k == key) = true) ∧
        ∀ other ∈ after, ∀ k v, read other = some (k, v) → (k == key) = false := by
  have hlast : last? (items.filterMap read) key =
      ((items.reverse.find? fun item => (read item).any fun e => e.1 == key).bind read).map
        Prod.snd := by
    rw [last?, ← List.filterMap_reverse, List.find?_filterMap]
  rw [hlast]
  constructor
  · intro hfound
    obtain ⟨⟨k, v⟩, hread, rfl⟩ := Option.map_eq_some_iff.1 hfound
    obtain ⟨item, hitem, hread⟩ := Option.bind_eq_some_iff.1 hread
    obtain ⟨hkey, after, before, hitems, hafter⟩ := List.find?_eq_some_iff_append.1 hitem
    have hsplit : items = before.reverse ++ item :: after.reverse := by
      rw [← List.reverse_reverse items, hitems]
      simp
    refine ⟨before.reverse, item, after.reverse, hsplit, ⟨k, hread, ?_⟩, ?_⟩
    · simpa [hread] using hkey
    · intro other hother k' v' hread'
      simpa [hread'] using hafter other (List.mem_reverse.1 hother)
  · rintro ⟨before, item, after, rfl, ⟨k, hread, hkey⟩, hafter⟩
    have hitem : (before ++ item :: after).reverse.find?
        (fun item => (read item).any fun e => e.1 == key) = some item := by
      refine List.find?_eq_some_iff_append.2 ⟨by simp [hread, hkey], after.reverse, before.reverse,
        by simp, ?_⟩
      intro other hother
      cases hread' : read other with
      | none => rfl
      | some e => simp [hafter other (List.mem_reverse.1 hother) e.1 e.2 hread']
    rw [hitem, Option.bind_some, hread]
    rfl

/-! ## What the events tell of a key -/

section

variable {κ : Type} [BEq κ]

/-- The event puts `type` down for `key` in `c`. What an entry records is told by `read`: the type
of a node, or that of a variable. -/
def Event.Records (read : Entry → Option (κ × Value)) (c : ContextId) (key : κ) (type : Value)
    (event : Event) : Prop :=
  ∃ entry k, event = .entered c entry ∧ read entry = some (k, type) ∧ (k == key) = true

namespace World

variable (w : World) (read : Entry → Option (κ × Value)) (c : ContextId) (key : κ)

/-- A type for `key` was recorded in `c` at some time. -/
def EverRecorded : Prop := ∃ event ∈ w.events, ∃ type, event.Records read c key type

/-- The type recorded last for `key` in `c` is `type`. -/
def LastRecorded (type : Value) : Prop :=
  ∃ before event after, w.events = before ++ event :: after ∧ event.Records read c key type ∧
    ∀ later ∈ after, ∀ type', ¬ later.Records read c key type'

/-- On the way from `c` up to its root, the first context in which `key` was ever recorded had
`type` recorded for it last. -/
def Nearest (type : Value) : Prop :=
  ∃ nearer a farther, w.store.chain c = nearer ++ a :: farther ∧
    (∀ b ∈ nearer, ¬ w.EverRecorded read b key) ∧ w.LastRecorded read a key type

variable {w read c key} {type : Value}

/-- An event records what its entry in the context says. -/
theorem records_iff {event : Event} : event.Records read c key type ↔
    ∃ k, (event.entryIn c).bind read = some (k, type) ∧ (k == key) = true := by
  cases event with
  | created d p => simp [Event.Records, Event.entryIn]
  | entered d entry =>
    by_cases hd : d = c <;> simp [Event.Records, Event.entryIn, hd]

theorem lastRecorded_iff : w.LastRecorded read c key type ↔
    Bindings.last? ((w.events.filterMap (Event.entryIn c)).filterMap read) key = some type := by
  rw [List.filterMap_filterMap, Bindings.last?_filterMap_eq_some_iff]
  simp only [LastRecorded, records_iff, not_exists, not_and, Bool.not_eq_true]
  constructor
  · rintro ⟨before, event, after, hevents, hrecords, hafter⟩
    exact ⟨before, event, after, hevents, hrecords, fun later hlater k v => hafter later hlater v k⟩
  · rintro ⟨before, event, after, hevents, hrecords, hafter⟩
    exact ⟨before, event, after, hevents, hrecords, fun later hlater v k => hafter later hlater k v⟩

/-- What was ever recorded was recorded last with some type. -/
theorem everRecorded_iff : w.EverRecorded read c key ↔ ∃ type, w.LastRecorded read c key type := by
  constructor
  · rintro ⟨event, hevent, type, hrecords⟩
    -- the last record is found, as there is one to be found
    simp only [lastRecorded_iff, Bindings.last?, ← Option.isSome_iff_exists, Option.isSome_map,
      List.find?_isSome, List.mem_reverse]
    obtain ⟨k, hread, hkey⟩ := records_iff.1 hrecords
    rw [List.filterMap_filterMap]
    exact ⟨(k, type), List.mem_filterMap.2 ⟨event, hevent, hread⟩, hkey⟩
  · rintro ⟨type, before, event, after, hevents, hrecords, -⟩
    exact ⟨event, by rw [hevents]; simp, type, hrecords⟩

end World

end

/-! ## What contexts hold -/

namespace World

variable {w : World}

/-- Every context holds what its events put down in it. -/
def Told (w : World) : Prop :=
  ∀ d, (w.store.context d).HoldsAll (w.events.filterMap (Event.entryIn d))

/-- In every run contexts hold what their events put down. -/
theorem told_run (regime : Regime) (objects : Objects) (actions : List Action) :
    (run regime objects actions).Told :=
  (remembered_run regime objects actions).told

/-- **A context holds the last type recorded in it.** -/
theorem Told.get? (hw : w.Told) (c : ContextId) :
    (∀ key type, (w.store.context c).nodeTypes.get? key = some type ↔
        w.LastRecorded Entry.nodeType? c key type) ∧
      ∀ handle type, (w.store.context c).varTypes.get? handle = some type ↔
        w.LastRecorded Entry.varType? c handle type := by
  have hempty : (default : Context).nodeTypes = {} ∧ (default : Context).varTypes = {} := ⟨rfl, rfl⟩
  constructor
  · intro key type
    rw [lastRecorded_iff, (hw c).nodeTypes, Bindings.get?_insertAll, hempty.1]
    exact iff_of_eq (congrArg (· = some type) Option.or_none)
  · intro handle type
    rw [lastRecorded_iff, (hw c).varTypes, Bindings.get?_insertAll, hempty.2]
    exact iff_of_eq (congrArg (· = some type) Option.or_none)

/-- **What is found along a chain** is the last record of the nearest context, if what each context
answers is the last record in it. -/
theorem findSome?_eq_some_iff {κ : Type} [BEq κ] {read : Entry → Option (κ × Value)} {key : κ}
    {view : ContextId → Option Value}
    (hview : ∀ a type, view a = some type ↔ w.LastRecorded read a key type)
    (c : ContextId) (type : Value) :
    (w.store.chain c).findSome? view = some type ↔
      w.Nearest read c key type := by
  have hnone : ∀ a, view a = none ↔ ¬ w.EverRecorded read a key := by
    intro a
    rw [everRecorded_iff, Option.eq_none_iff_forall_ne_some, not_exists]
    exact forall_congr' fun type => not_congr (hview a type)
  simp only [List.findSome?_eq_some_iff, hview, hnone, Nearest]
  constructor
  · rintro ⟨nearer, a, farther, hchain, hlast, hnearer⟩
    exact ⟨nearer, a, farther, hchain, hnearer, hlast⟩
  · rintro ⟨nearer, a, farther, hchain, hnearer, hlast⟩
    exact ⟨nearer, a, farther, hchain, hlast, hnearer⟩

/-- Nothing is found along a chain on which nothing was ever recorded. -/
theorem findSome?_eq_none_iff {κ : Type} [BEq κ] {read : Entry → Option (κ × Value)} {key : κ}
    {view : ContextId → Option Value}
    (hview : ∀ a type, view a = some type ↔ w.LastRecorded read a key type)
    (c : ContextId) :
    (w.store.chain c).findSome? view = none ↔
      ∀ a ∈ w.store.chain c, ¬ w.EverRecorded read a key := by
  rw [List.findSome?_eq_none_iff]
  refine forall₂_congr fun a _ => ?_
  rw [everRecorded_iff, Option.eq_none_iff_forall_ne_some, not_exists]
  exact forall_congr' fun type => not_congr (hview a type)

end World

namespace Store

variable {s : Store}

/-! ## The way up -/

/-- **The parents above a context make no circle.** -/
theorem Ordered.acyclic (hs : s.Ordered) (c : ContextId) :
    ¬ Relation.TransGen (fun d p => (s.context d).parent = some p) c c := by
  have hback : ∀ {d p}, Relation.TransGen (fun d p => (s.context d).parent = some p) d p →
      p.index < d.index := by
    intro d p hup
    induction hup with
    | single hp => exact hs _ _ hp
    | tail _ hp ih => exact Nat.lt_trans (hs _ _ hp) ih
  exact fun hcircle => Nat.lt_irrefl _ (hback hcircle)

/-- The way up goes through every parent, up to a root. -/
theorem Ordered.chain_eq (hs : s.Ordered) (c : ContextId) :
    s.chain c = c :: ((s.context c).parent.map s.chain).getD [] := by
  cases hp : (s.context c).parent with
  | none => rw [chain, hp]; rfl
  | some p => rw [chain_of_parent s hp (hs c p hp)]; rfl

theorem Ordered.depth_eq (hs : s.Ordered) (c : ContextId) :
    s.depth c = ((s.context c).parent.map fun p => s.depth p + 1).getD 0 := by
  rw [depth, hs.chain_eq]
  cases (s.context c).parent with
  | none => rfl
  | some p =>
    have hpos : 0 < (s.chain p).length := by rw [chain]; simp
    simp only [Option.map_some, Option.getD_some, List.length_cons, depth]
    omega

/-! ## Failed lookups -/

/-- A lookup ended in a fault of this kind, with these things noted about it. -/
def EndsInFault (kind : FaultKind) (notes : List (String × Value))
    (ended : Except Failure Value × Store) : Prop :=
  ∃ ref, ended.1 = .error (.fault ref) ∧ ref.kind = kind ∧
    ∀ note ∈ notes, ended.2.objects.attribute? ref.value note.1 = some note.2

/-- An operation that fails ends in a fault that carries where it arises and what is noted of its
cause. -/
theorem endsInFault_fail (s : Store) (cause : Cause) :
    EndsInFault cause.kind (("loc", s.objects.locationOf cause) :: cause.notes) (s.fail cause) := by
  refine ⟨(s.objects.newFault cause).1, rfl, rfl, fun note hnote => ?_⟩
  show (s.objects.newFault cause).2.attribute? (s.objects.newFault cause).1.value note.1 = _
  rw [Objects.attribute?_newFault]
  rcases List.mem_cons.1 hnote with rfl | hnoted
  · rfl
  · -- no cause notes anything under the names that every fault has
    cases cause with
    | other message => cases hnoted
    | commitOnRoot => cases hnoted
    | nodeNotTyped node => rw [List.mem_singleton.1 hnoted]; rfl
    | variableNotTyped name => rw [List.mem_singleton.1 hnoted]; rfl
    | staleContext expected actual =>
      rcases List.mem_cons.1 hnoted with rfl | hnoted
      · rfl
      · rw [List.mem_singleton.1 hnoted]; rfl

/-- An operation that fails has found nothing. -/
theorem fail_eq_ok_iff (s : Store) (cause : Cause) (type : Value) :
    (s.fail cause).1 = .ok type ↔ none = some type := by
  constructor <;> intro h <;> cases h

/-- **A lookup of a node** finds what there is to be found, or ends in a fault that carries the node
and the span it has at that moment. -/
theorem typeOf_ends (s : Store) (c : ContextId) (node : Value) :
    (∀ type, (s.typeOf c node).1 = .ok type ↔ s.findType c node = some type) ∧
      (EndsInFault .nodeNotTyped
          [("loc", .location ⟨0⟩ .absent (s.objects.get node "span")), ("node", node)]
          (s.typeOf c node) ↔
        s.findType c node = none) := by
  cases hfound : s.findType c node with
  | some found => simp [typeOf, hfound, EndsInFault]
  | none =>
    have hfails : s.typeOf c node = s.fail (.nodeNotTyped node) := by simp only [typeOf, hfound]
    rw [hfails]
    exact ⟨s.fail_eq_ok_iff (.nodeNotTyped node), fun _ => rfl,
      fun _ => s.endsInFault_fail (.nodeNotTyped node)⟩

/-- **A lookup of a variable** finds what there is to be found, or ends in a fault that carries the
name and no place. -/
theorem variableTypeOf_ends (s : Store) (c : ContextId) (handle : Handle) :
    (∀ type, (s.variableTypeOf c handle.value).1 = .ok type ↔
        s.findVariable c handle = some type) ∧
      (EndsInFault .variableNotTyped [("loc", .absent), ("var", handle.value)]
          (s.variableTypeOf c handle.value) ↔
        s.findVariable c handle = none) := by
  cases hfound : s.findVariable c handle with
  | some found => simp [variableTypeOf, handleOf_value, hfound, EndsInFault]
  | none =>
    have hfails : s.variableTypeOf c handle.value = s.fail (.variableNotTyped handle.value) := by
      simp only [variableTypeOf, handleOf_value, hfound]
    rw [hfails]
    exact ⟨s.fail_eq_ok_iff (.variableNotTyped handle.value), fun _ => rfl,
      fun _ => s.endsInFault_fail (.variableNotTyped handle.value)⟩

/-- Whether a context has a variable itself. -/
theorem hasVariable_handle (s : Store) (c : ContextId) (handle : Handle) :
    s.hasVariable c handle.value = .ok ((s.context c).varTypes.get? handle).isSome := by
  rw [hasVariable, handleOf_value, Bindings.get?_isSome]
  rfl

end Store

namespace World

/-- What a context holds for a key was recorded in it at some time. -/
theorem isSome_iff_everRecorded {w : World} {κ : Type} [BEq κ] {read : Entry → Option (κ × Value)}
    {key : κ} {c : ContextId} {held : Option Value}
    (hheld : ∀ type, held = some type ↔ w.LastRecorded read c key type) :
    held.isSome = true ↔ w.EverRecorded read c key := by
  rw [everRecorded_iff, Option.isSome_iff_exists]
  exact exists_congr hheld

/-- **A lookup finds the latest record of the nearest context.** In every world that a script can
come to, whatever has been done to the objects in the meantime: the parents make no circle, the way
up from a context goes through each of them to a root, and its length is the depth.

A lookup of a node answers the type that was recorded last, for that very object, in the first
context on the way in which there ever was a record of it. It ends in the fault that names the node,
and the span it has at that moment, exactly if there is no such context. A context itself has a type
for the node exactly if one was ever recorded there. The same holds of variables, where equal
handles count as one. -/
theorem lookup_finds_latest (regime : Regime) (objects : Objects) (script : Script) :
    let w := script.world regime objects
    let s := w.prepared regime
    (∀ c, ¬ Relation.TransGen (fun d p => (s.context d).parent = some p) c c ∧
      s.chain c = c :: ((s.context c).parent.map s.chain).getD [] ∧
      s.depth c = ((s.context c).parent.map fun p => s.depth p + 1).getD 0) ∧
    (∀ c node,
      (∀ type, (s.typeOf c node).1 = .ok type ↔ w.Nearest Entry.nodeType? c ⟨node⟩ type) ∧
      (Store.EndsInFault .nodeNotTyped
          [("loc", .location ⟨0⟩ .absent (s.objects.get node "span")), ("node", node)]
          (s.typeOf c node) ↔
        ∀ a ∈ s.chain c, ¬ w.EverRecorded Entry.nodeType? a ⟨node⟩) ∧
      (s.hasType c node = true ↔ w.EverRecorded Entry.nodeType? c ⟨node⟩)) ∧
    ∀ c (handle : Handle),
      (∀ type, (s.variableTypeOf c handle.value).1 = .ok type ↔
        w.Nearest Entry.varType? c handle type) ∧
      (Store.EndsInFault .variableNotTyped [("loc", .absent), ("var", handle.value)]
          (s.variableTypeOf c handle.value) ↔
        ∀ a ∈ s.chain c, ¬ w.EverRecorded Entry.varType? a handle) ∧
      (s.hasVariable c handle.value = .ok true ↔ w.EverRecorded Entry.varType? c handle) := by
  intro w s
  obtain ⟨actions, hrun⟩ := script.exists_run regime objects
  have hordered : s.Ordered := by
    have hsound : w.Sound := by rw [show w = _ from hrun]; exact sound_run regime objects actions
    exact hsound.ordered
  have htold : w.Told := by
    rw [show w = _ from hrun]
    exact told_run regime objects actions
  -- what is done to the objects leaves the contexts alone
  have hchain : ∀ c, w.store.chain c = s.chain c := fun c => Store.chain_congr fun d _ => rfl
  refine ⟨fun c => ⟨hordered.acyclic c, hordered.chain_eq c, hordered.depth_eq c⟩, ?_, ?_⟩
  · intro c node
    have hview : ∀ a type, (w.store.context a).nodeTypes.get? ⟨node⟩ = some type ↔
        w.LastRecorded Entry.nodeType? a ⟨node⟩ type := fun a => (htold.get? a).1 ⟨node⟩
    have hfind : s.findType c node =
        (w.store.chain c).findSome? fun a => (w.store.context a).nodeTypes.get? ⟨node⟩ := by
      rw [hchain]
      rfl
    obtain ⟨hfound, hmissed⟩ := s.typeOf_ends c node
    refine ⟨fun type => ?_, ?_, ?_⟩
    · rw [hfound, hfind]
      exact findSome?_eq_some_iff hview c type
    · rw [hmissed, hfind, ← hchain]
      exact findSome?_eq_none_iff hview c
    · rw [Store.hasType, ← Bindings.get?_isSome]
      exact isSome_iff_everRecorded (hview c)
  · intro c handle
    have hview : ∀ a type, (w.store.context a).varTypes.get? handle = some type ↔
        w.LastRecorded Entry.varType? a handle type := fun a => (htold.get? a).2 handle
    have hfind : s.findVariable c handle =
        (w.store.chain c).findSome? fun a => (w.store.context a).varTypes.get? handle := by
      rw [hchain]
      rfl
    obtain ⟨hfound, hmissed⟩ := s.variableTypeOf_ends c handle
    refine ⟨fun type => ?_, ?_, ?_⟩
    · rw [hfound, hfind]
      exact findSome?_eq_some_iff hview c type
    · rw [hmissed, hfind, ← hchain]
      exact findSome?_eq_none_iff hview c
    · rw [Store.hasVariable_handle, Except.ok.injEq]
      exact isSome_iff_everRecorded (hview c)

/-- Two nodes that are alike, and a context below a context below a root. The root has a type for
the first node and one for a variable. The context in the middle has a type for the second node, and
takes over another type for the first one from below. Then the first node is changed. -/
def lookAlikes : Script :=
  .act (.newRecord (.node .variableUse) [.text ⟨1⟩ "x"] []) fun _ =>
    .act (.newRecord (.node .variableUse) [.text ⟨2⟩ "x"] []) fun _ =>
      .act (.createRoot none none) fun _ => .act (.spawn ⟨0⟩) fun _ => .act (.spawn ⟨1⟩) fun _ =>
        .act (.recordType ⟨0⟩ (.record ⟨0, .node .variableUse⟩) (.nilType ⟨3⟩)) fun _ =>
          .act (.recordVariable ⟨0⟩ (.bool true) (.nilType ⟨3⟩)) fun _ =>
            .act (.recordType ⟨1⟩ (.record ⟨1, .node .variableUse⟩) (.anyType ⟨4⟩)) fun _ =>
              .act (.spawn ⟨1⟩) fun _ =>
              .act (.recordType ⟨3⟩ (.record ⟨0, .node .variableUse⟩) (.unionType ⟨5⟩ [])) fun _ =>
                .act (.commit ⟨3⟩) fun _ =>
                  .act (.assign (.record ⟨0, .node .variableUse⟩) "name" (.text ⟨6⟩ "y")) fun _ =>
                    .done (.ok ())

/-- From the lowest context the first node has the type that was taken over last in the middle, the
second one its own, and the variable, under an equal name, the one in the root. -/
theorem lookup_of_lookAlikes :
    let idle : Regime := fun _ objects => objects
    let w := lookAlikes.world idle {}
    let first : Value := .record ⟨0, .node .variableUse⟩
    let second : Value := .record ⟨1, .node .variableUse⟩
    let handle : Handle := ⟨.int ⟨7⟩ 1, rfl⟩
    (∃ type, type.kindName = "UnionType" ∧ w.Nearest Entry.nodeType? ⟨2⟩ ⟨first⟩ type) ∧
      (∃ type, type.kindName = "AnyType" ∧ w.Nearest Entry.nodeType? ⟨2⟩ ⟨second⟩ type) ∧
      ∃ type, type.kindName = "NilType" ∧ w.Nearest Entry.varType? ⟨2⟩ handle type := by
  intro idle w first second handle
  obtain ⟨-, hnodes, hhandles⟩ := lookup_finds_latest idle {} lookAlikes
  have hanswered : ∀ {answer : Except Failure Value} {name : String},
      answer.toOption.map Value.kindName = some name →
        ∃ type, type.kindName = name ∧ answer = .ok type := by
    intro answer name hname
    cases answer with
    | error failure => cases hname
    | ok type => exact ⟨type, Option.some.inj hname, rfl⟩
  have hnearest : ∀ node name,
      (((w.prepared idle).typeOf ⟨2⟩ node).1.toOption.map Value.kindName = some name) →
        ∃ type, type.kindName = name ∧ w.Nearest Entry.nodeType? ⟨2⟩ ⟨node⟩ type := by
    intro node name hname
    obtain ⟨type, hkind, hanswer⟩ := hanswered hname
    exact ⟨type, hkind, ((hnodes ⟨2⟩ node).1 type).1 hanswer⟩
  have hhandle : ((w.prepared idle).variableTypeOf ⟨2⟩ handle.value).1.toOption.map Value.kindName =
      some "NilType" := by
    decide +kernel
  obtain ⟨type, hkind, hanswer⟩ := hanswered hhandle
  exact ⟨hnearest first _ (by decide +kernel), hnearest second _ (by decide +kernel),
    type, hkind, ((hhandles ⟨2⟩ handle).1 type).1 hanswer⟩

end World

end TypingStore
