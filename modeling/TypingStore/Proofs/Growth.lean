import TypingStore.Proofs.Lookups
import TypingStore.Proofs.Recommit

/-!
# Contexts only grow

Nothing that was put into a context is ever taken out. New nodes, variables and errors come after
those that are there, a key that is bound stays the key it is, and versions do not go back
(`Context.Extends`). This holds of one change (`Change.extends`), so it holds however a run goes on
(`Sound.extends`).

So what can be found in a context can be found in it from then on, and a parent that has moved past
the snapshot of a child never comes back to it (`World.contexts_append_only`).

* `Bindings.keys_prefix_insertAll`: binding keys keeps those that are bound, in their places.
* `Store.findType_isSome`, `Store.findVariable_isSome`: a lookup succeeds when some context of the
  chain has what is looked for.
-/

namespace TypingStore

namespace Bindings

variable {κ ν : Type} [BEq κ]

/-- **A key that is bound keeps its place**, whatever is bound after it. -/
theorem keys_prefix_insertAll (b : Bindings κ ν) (entries : List (κ × ν)) :
    b.keys <+: (b.insertAll entries).keys := by
  induction entries generalizing b with
  | nil => exact List.prefix_refl _
  | cons entry entries ih =>
    have hone : b.keys <+: (b.insert entry.1 entry.2).keys := by
      rw [keys_insert]
      split
      · exact List.prefix_refl _
      · exact List.prefix_append _ _
    exact hone.trans (ih (b.insert entry.1 entry.2))

/-- A key that is bound is bound among more keys. -/
theorem contains_of_prefix {b b' : Bindings κ ν} (h : b.keys <+: b'.keys) {key : κ}
    (hkey : b.contains key = true) : b'.contains key = true := by
  obtain ⟨k, hk, heq⟩ := contains_iff.1 hkey
  exact contains_iff.2 ⟨k, h.subset hk, heq⟩

end Bindings

/-- The context `c'` has all that `c` has, in the same places, and its version is not smaller. -/
structure Context.Extends (c c' : Context) : Prop where
  nodes : c.nodeTypes.keys <+: c'.nodeTypes.keys
  handles : c.varTypes.keys <+: c'.varTypes.keys
  errors : c.errors <+: c'.errors
  version : c.version ≤ c'.version

theorem Context.Extends.refl (c : Context) : c.Extends c :=
  ⟨List.prefix_refl _, List.prefix_refl _, List.prefix_refl _, Nat.le_refl _⟩

theorem Context.Extends.trans {c c' c'' : Context} (h : c.Extends c') (h' : c'.Extends c'') :
    c.Extends c'' where
  nodes := h.nodes.trans h'.nodes
  handles := h.handles.trans h'.handles
  errors := h.errors.trans h'.errors
  version := Nat.le_trans h.version h'.version

/-- What a context holds after some entries were put down in it extends what it held. -/
theorem Context.Grows.extends {c c' : Context} {es : List Entry} (h : c.Grows es c')
    (hversion : c.version ≤ c'.version) : c.Extends c' where
  nodes := by rw [h.nodeTypes]; exact Bindings.keys_prefix_insertAll _ _
  handles := by rw [h.varTypes]; exact Bindings.keys_prefix_insertAll _ _
  errors := by rw [h.errors]; exact List.prefix_append _ _
  version := hversion

namespace Store

variable {s s' : Store} {c d p : ContextId} {es : List Event}

/-- **A change extends every context** there is. -/
theorem Change.extends (h : s.Change s' es) (hd : s.Has d) :
    (s.context d).Extends (s'.context d) := by
  refine (h.grows hd).extends ?_
  rw [h.version hd]
  exact Nat.le_add_right _ _

/-! ## Lookups -/

/-- The nodes of the typings are the keys. -/
theorem map_fst_typings (s : Store) (c : ContextId) :
    (s.typings c).map Prod.fst = (s.context c).nodeTypes.keys.map NodeKey.node := by
  simp only [typings, Bindings.keys, List.map_map]
  rfl

/-- A node has a type along the chain when a context of the chain has one. -/
theorem findType_isSome (s : Store) (c : ContextId) (node : Value) :
    (s.findType c node).isSome = true ↔ ∃ a ∈ s.chain c, s.hasType a node = true := by
  simp only [findType, List.findSome?_isSome_iff, Bindings.get?_isSome, hasType]

theorem findVariable_isSome (s : Store) (c : ContextId) (handle : Handle) :
    (s.findVariable c handle).isSome = true ↔
      ∃ a ∈ s.chain c, (s.context a).varTypes.contains handle = true := by
  simp only [findVariable, List.findSome?_isSome_iff, Bindings.get?_isSome]

/-- Looking a type up succeeds when there is one. -/
theorem typeOf_eq_ok_iff (s : Store) (c : ContextId) (node : Value) :
    (∃ type, (s.typeOf c node).1 = .ok type) ↔ (s.findType c node).isSome = true := by
  simp only [typeOf]
  cases s.findType c node with
  | none => simp [fail]
  | some type => simp

theorem variableTypeOf_eq_ok_iff (s : Store) (c : ContextId) (name : Value) :
    (∃ type, (s.variableTypeOf c name).1 = .ok type) ↔
      ∃ handle, handleOf name = .ok handle ∧ (s.findVariable c handle).isSome = true := by
  simp only [variableTypeOf]
  cases handleOf name with
  | error failure => simp
  | ok handle =>
    cases hfound : s.findVariable c handle with
    | none => simp [hfound, fail]
    | some type => simp [hfound]

/-- **A commit is refused as stale** when the parent is at another version than the snapshot. -/
theorem commit_refused_iff (s : Store) (c : ContextId) :
    (∃ ref, (s.commit c).1 = .error (.fault ref) ∧ ref.kind = .staleContext) ↔
      ∃ p, (s.context c).parent = some p ∧ (s.context p).version ≠ (s.context c).snapshot := by
  constructor
  · rintro ⟨ref, hrefused, hkind⟩
    cases hp : (s.context c).parent with
    | none =>
      simp only [commit, hp, fail, Except.error.injEq, Failure.fault.injEq] at hrefused
      rw [← hrefused] at hkind
      cases hkind
    | some p =>
      refine ⟨p, rfl, fun hfresh => ?_⟩
      have hok := commit_eq_ok_iff.2 ⟨p, hp, hfresh⟩
      cases hok.symm.trans hrefused
  · rintro ⟨p, hp, hstale⟩
    obtain ⟨ref, -, -, hrefused, hkind, -⟩ := s.commit_of_stale hp hstale
    exact ⟨ref, hrefused, hkind⟩

/-! ## Later stores -/

/-- The store `s'` has the contexts of `s`, where they stood, and each has all that it had. -/
structure Grown (s s' : Store) : Prop where
  parent : ∀ d, s.Has d → (s'.context d).parent = (s.context d).parent
  snapshot : ∀ d, s.Has d → (s'.context d).snapshot = (s.context d).snapshot
  context : ∀ d, s.Has d → (s.context d).Extends (s'.context d)

namespace Grown

/-- The chain of a context is settled when it is made, and so is what can be found along it. -/
theorem exists_mem_chain (h : s.Grown s') (hd : s.Has d) {P P' : ContextId → Prop}
    (hP : ∀ a, s.Has a → P a → P' a) (hfound : ∃ a ∈ s.chain d, P a) :
    ∃ a ∈ s'.chain d, P' a := by
  have hchain : s'.chain d = s.chain d :=
    chain_congr fun e he => h.parent e (Nat.lt_of_le_of_lt he hd)
  obtain ⟨a, ha, hPa⟩ := hfound
  have hhas : s.Has a := Nat.lt_of_le_of_lt (s.index_le_of_mem_chain d a ha) hd
  rw [hchain]
  exact ⟨a, ha, hP a hhas hPa⟩

/-- **A node that has a type keeps having one.** -/
theorem hasType (h : s.Grown s') (hd : s.Has d) {node : Value} (htype : s.hasType d node = true) :
    s'.hasType d node = true :=
  Bindings.contains_of_prefix (h.context d hd).nodes htype

/-- **A variable that has a type keeps having one.** -/
theorem hasVariable (h : s.Grown s') (hd : s.Has d) {name : Value}
    (htype : s.hasVariable d name = .ok true) : s'.hasVariable d name = .ok true := by
  unfold Store.hasVariable at htype ⊢
  cases hh : handleOf name with
  | error failure =>
    rw [hh] at htype
    cases htype
  | ok handle =>
    rw [hh] at htype
    have hcontains := Except.ok.inj htype
    exact congrArg Except.ok (Bindings.contains_of_prefix (h.context d hd).handles hcontains)

/-- **A lookup of a node succeeds again.** -/
theorem typeOf (h : s.Grown s') (hd : s.Has d) {node : Value}
    (hfound : ∃ type, (s.typeOf d node).1 = .ok type) :
    ∃ type, (s'.typeOf d node).1 = .ok type := by
  rw [typeOf_eq_ok_iff, findType_isSome] at hfound ⊢
  exact h.exists_mem_chain hd (fun a ha => h.hasType ha) hfound

/-- **A lookup of a variable succeeds again.** -/
theorem variableTypeOf (h : s.Grown s') (hd : s.Has d) {name : Value}
    (hfound : ∃ type, (s.variableTypeOf d name).1 = .ok type) :
    ∃ type, (s'.variableTypeOf d name).1 = .ok type := by
  rw [variableTypeOf_eq_ok_iff] at hfound ⊢
  obtain ⟨handle, hh, hsome⟩ := hfound
  rw [findVariable_isSome] at hsome
  refine ⟨handle, hh, (s'.findVariable_isSome d handle).2 ?_⟩
  exact h.exists_mem_chain hd
    (fun a ha => Bindings.contains_of_prefix (h.context a ha).handles) hsome

end Grown

end Store

namespace World

variable {w w' : World}

/-- **However a run goes on, it extends every context** there is. -/
theorem Sound.extends (hw : w.Sound) (regime : Regime) (actions : List Action) {d : ContextId}
    (hd : w.store.Has d) :
    (w.store.context d).Extends ((actions.foldl (World.step regime) w).store.context d) := by
  induction actions generalizing w with
  | nil => exact .refl _
  | cons a actions ih =>
    by_cases ha : (w.prepared regime).Admits a
    · -- what the regime does to the objects leaves the contexts alone
      have hord : (w.prepared regime).Ordered := hw.ordered
      have hchange := Store.perform_change hord ha
      have hone : (w.store.context d).Extends ((w.step regime a).store.context d) := by
        rw [step_of_admits ha]
        exact hchange.extends hd
      have hd1 : (w.step regime a).store.Has d := by
        rw [step_of_admits ha]
        exact (hchange.made d).2 (.inl hd)
      exact hone.trans (ih (hw.step regime a) hd1)
    · rw [List.foldl_cons, step_of_not_admits ha]
      exact ih hw hd

theorem Sound.grown (hw : w.Sound) (regime : Regime) (actions : List Action) :
    w.store.Grown (actions.foldl (World.step regime) w).store := by
  obtain ⟨new, hlater⟩ := hw.exists_later regime actions
  exact ⟨hlater.parent, hlater.snapshot, fun d hd => hw.extends regime actions hd⟩

/-- **What is refused as stale is refused from then on**: the version of the parent is past the
snapshot, and does not come back. -/
theorem Sound.refused_again (hw : w.Sound) (h : w.store.Grown w'.store) {c : ContextId}
    (hrefused : ∃ ref, (w.store.commit c).1 = .error (.fault ref) ∧ ref.kind = .staleContext) :
    ∃ ref, (w'.store.commit c).1 = .error (.fault ref) ∧ ref.kind = .staleContext := by
  rw [Store.commit_refused_iff] at hrefused ⊢
  obtain ⟨p, hp, hne⟩ := hrefused
  have hc : w.store.Has c := Store.has_of_parent hp
  have hstale : w.Stale c p := (hw.standing c p hp).resolve_left fun hfresh => hne hfresh.1.symm
  have hpast : (w.store.context c).snapshot < (w.store.context p).version := hstale.1
  have hversion := (h.context p (hw.ordered.has_parent hp)).version
  refine ⟨p, (h.parent c hc).trans hp, ?_⟩
  rw [h.snapshot c hc]
  omega

/-- **Contexts are append-only, and a stale branch stays stale.** However a run goes on, by one
operation or by many, every context has its nodes, its variables and its errors in the places where
they were, and its version is not smaller. So a node or a variable that has a type in a context
keeps having one, a lookup that succeeds in a context succeeds there from then on, and a commit that
is refused as stale is refused as stale every time. -/
theorem contexts_append_only (regime : Regime) (objects : Objects) (earlier later : Script) :
    let w := earlier.world regime objects
    let w' := (later.run regime w).2
    (∀ d, w.store.Has d →
      (w.store.typings d).map Prod.fst <+: (w'.store.typings d).map Prod.fst ∧
      (w.store.context d).varTypes.keys <+: (w'.store.context d).varTypes.keys ∧
      (w.store.context d).errors <+: (w'.store.context d).errors ∧
      (w.store.context d).version ≤ (w'.store.context d).version ∧
      (∀ node, w.store.hasType d node = true → w'.store.hasType d node = true) ∧
      (∀ name, w.store.hasVariable d name = .ok true → w'.store.hasVariable d name = .ok true) ∧
      (∀ node, (∃ type, (w.store.typeOf d node).1 = .ok type) →
        ∃ type, (w'.store.typeOf d node).1 = .ok type) ∧
      ∀ name, (∃ type, (w.store.variableTypeOf d name).1 = .ok type) →
        ∃ type, (w'.store.variableTypeOf d name).1 = .ok type) ∧
    ∀ c, (∃ ref, (w.store.commit c).1 = .error (.fault ref) ∧ ref.kind = .staleContext) →
      ∃ ref, (w'.store.commit c).1 = .error (.fault ref) ∧ ref.kind = .staleContext := by
  intro w w'
  obtain ⟨before, hbefore⟩ := earlier.exists_run regime objects
  obtain ⟨after, hafter⟩ := later.exists_run_from regime w
  have hw : w.Sound := by rw [show w = _ from hbefore]; exact sound_run regime objects before
  have hgrown : w.store.Grown w'.store := by
    rw [show w' = _ from hafter]
    exact hw.grown regime after
  refine ⟨fun d hd => ?_, fun c => hw.refused_again hgrown⟩
  have hext := hgrown.context d hd
  have hnodes : (w.store.typings d).map Prod.fst <+: (w'.store.typings d).map Prod.fst := by
    rw [Store.map_fst_typings, Store.map_fst_typings]
    exact hext.nodes.map _
  exact ⟨hnodes, hext.handles, hext.errors, hext.version, fun _ => hgrown.hasType hd,
    fun _ => hgrown.hasVariable hd, fun _ => hgrown.typeOf hd, fun _ => hgrown.variableTypeOf hd⟩

/-- A variable and a node are recorded after a child was made, which comes too late then. -/
def growing : Script :=
  .act (.createRoot none none) fun _ => .act (.spawn ⟨0⟩) fun _ =>
    .act (.recordVariable ⟨0⟩ (.bool true) (.nilType ⟨1⟩)) fun _ =>
      .act (.recordType ⟨0⟩ .absent (.nilType ⟨1⟩)) fun _ => .done (.ok ())

/-- The variable is bound again under an equal name, and another one by a commit; the commit of the
first child is refused. -/
def growingOn : Script :=
  .act (.recordVariable ⟨0⟩ (.int ⟨2⟩ 1) (.anyType ⟨3⟩)) fun _ =>
    .inChild ⟨0⟩ (fun child => .act (.recordVariable child (.int ⟨4⟩ 2) (.anyType ⟨3⟩)) fun _ =>
      .act (.commit child) fun _ => .done (.ok ()))
    fun _ => .act (.commit ⟨1⟩) fun _ => .done (.ok ())

/-- The root keeps what it has, under the names it has, and the first child stays stale. -/
theorem growingOn_extends :
    let idle : Regime := fun _ objects => objects
    let w := growing.world idle {}
    let w' := (growingOn.run idle w).2
    (w.store.context ⟨0⟩).varTypes.keys <+: (w'.store.context ⟨0⟩).varTypes.keys ∧
      (w.store.context ⟨0⟩).varTypes.size = 1 ∧ (w'.store.context ⟨0⟩).varTypes.size = 2 ∧
      w'.store.hasType ⟨0⟩ .absent = true ∧ w'.store.hasVariable ⟨0⟩ (.bool true) = .ok true ∧
      (∃ type, (w'.store.typeOf ⟨1⟩ .absent).1 = .ok type) ∧
      (∃ type, (w'.store.variableTypeOf ⟨1⟩ (.bool true)).1 = .ok type) ∧
      ∃ ref, (w'.store.commit ⟨1⟩).1 = .error (.fault ref) ∧ ref.kind = .staleContext := by
  dsimp only
  obtain ⟨hcontexts, hstale⟩ :=
    contexts_append_only (fun _ objects => objects) {} growing growingOn
  obtain ⟨-, hkeys, -, -, htype, hvariable, -⟩ := hcontexts ⟨0⟩ (by decide +kernel)
  obtain ⟨-, -, -, -, -, -, htypeOf, hvariableTypeOf⟩ := hcontexts ⟨1⟩ (by decide +kernel)
  refine ⟨hkeys, by decide +kernel, by decide +kernel, htype .absent (by decide +kernel),
    hvariable (.bool true) ?_, htypeOf .absent ?_, hvariableTypeOf (.bool true) ?_,
    hstale ⟨1⟩ ?_⟩
  · rfl
  · rw [Store.typeOf_eq_ok_iff]
    decide +kernel
  · rw [Store.variableTypeOf_eq_ok_iff]
    exact ⟨_, rfl, by decide +kernel⟩
  · rw [Store.commit_refused_iff]
    exact ⟨⟨0⟩, by decide +kernel, by decide +kernel⟩

end World

end TypingStore
