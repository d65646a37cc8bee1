import TypingStore.Store

/-!
# Looking things up

A context answers for itself and, where it has nothing, for its parent, and so on up to the root.
The nearest context that has a type for a node or a variable decides.

* `Store.chain`: a context and all those above it, the nearest first.
* `Store.findType`, `Store.findVariable`: the type found along the chain, if there is one.
* `Store.typeOf`, `Store.variableTypeOf`: the same, with a fault when there is none.
-/

namespace TypingStore.Store

/-- A context, its parent, and so on up to the root. A parent comes before its children in the
order of creation; a link that does not go back in that order is not followed. -/
def chain (s : Store) (c : ContextId) : List ContextId :=
  c :: match (s.context c).parent with
    | none => []
    | some parent => if parent.index < c.index then chain s parent else []
termination_by c.index

/-- The chain of a child goes on with that of its parent. -/
theorem chain_of_parent (s : Store) {c parent : ContextId}
    (child : (s.context c).parent = some parent) (earlier : parent.index < c.index) :
    s.chain c = c :: s.chain parent := by
  rw [chain, child]
  simp [earlier]

/-- **Chains go back in the order of creation**, so they never come round. -/
theorem index_le_of_mem_chain (s : Store) (c : ContextId) :
    ∀ a ∈ s.chain c, a.index ≤ c.index := by
  induction hn : c.index using Nat.strongRecOn generalizing c with
  | ind n ih =>
    intro a mem
    rw [chain] at mem
    rcases List.mem_cons.1 mem with rfl | mem
    · omega
    · cases up : (s.context c).parent with
      | none => simp [up] at mem
      | some parent =>
        simp only [up] at mem
        split at mem
        · next earlier =>
          have := ih parent.index (by omega) parent rfl a mem
          omega
        · simp at mem

/-- Whether a context has no parent. -/
def isRoot (s : Store) (c : ContextId) : Bool := (s.context c).parent.isNone

/-- The number of contexts above a context. -/
def depth (s : Store) (c : ContextId) : Nat := (s.chain c).length - 1

/-- Whether a context itself has a type for a node. -/
def hasType (s : Store) (c : ContextId) (node : Value) : Bool :=
  (s.context c).nodeTypes.contains ⟨node⟩

/-- The type of a node, from the nearest context that has one. -/
def findType (s : Store) (c : ContextId) (node : Value) : Option Value :=
  (s.chain c).findSome? fun a => (s.context a).nodeTypes.get? ⟨node⟩

/-- The type of a node as a context sees it. -/
def typeOf (s : Store) (c : ContextId) (node : Value) : Except Failure Value × Store :=
  match s.findType c node with
  | some type => (.ok type, s)
  | none => s.fail (.nodeNotTyped node)

/-- Whether a context itself has a type for a variable. -/
def hasVariable (s : Store) (c : ContextId) (name : Value) : Except Failure Bool :=
  (handleOf name).map fun handle => (s.context c).varTypes.contains handle

/-- The type of a variable, from the nearest context that has one. -/
def findVariable (s : Store) (c : ContextId) (handle : Handle) : Option Value :=
  (s.chain c).findSome? fun a => (s.context a).varTypes.get? handle

/-- The type of a variable as a context sees it. -/
def variableTypeOf (s : Store) (c : ContextId) (name : Value) :
    Except Failure Value × Store :=
  match handleOf name with
  | .error failure => (.error failure, s)
  | .ok handle =>
    match s.findVariable c handle with
    | some type => (.ok type, s)
    | none => s.fail (.variableNotTyped name)

end TypingStore.Store
