import TypingStore.Proofs.Change

/-!
# Lookups along the chain

A lookup goes up the chain of a context and takes the first answer. Everything above a
context was made before it, so nothing that is made or written later on can come between
(`above_congr`).

* `findType_eq_or`, `findVariable_eq_or`: a context answers for itself, or those above it do.
* `findType_of_parent`, `findVariable_of_parent`: those above it are its parent and what the
  parent sees.
-/

namespace TypingStore.Store

variable {s s' : Store} {c p : ContextId}

/-- Everything above a context was made before it. -/
theorem index_lt_of_mem_tail_chain : ∀ a ∈ (s.chain c).tail, a.index < c.index := by
  intro a ha
  rw [chain, List.tail_cons] at ha
  cases hp : (s.context c).parent with
  | none => simp [hp] at ha
  | some p =>
    simp only [hp] at ha
    split at ha
    · rename_i hlt
      exact Nat.lt_of_le_of_lt (index_le_of_mem_chain s p a ha) hlt
    · simp at ha

/-- Parents alone make a chain. -/
theorem chain_congr
    (h : ∀ d : ContextId, d.index ≤ c.index → (s'.context d).parent = (s.context d).parent) :
    s'.chain c = s.chain c := by
  induction hn : c.index using Nat.strongRecOn generalizing c with
  | ind n ih =>
    rw [chain, chain, h c (Nat.le_refl _)]
    cases (s.context c).parent with
    | none => rfl
    | some p =>
      by_cases hlt : p.index < c.index
      · have hrec := ih p.index (by omega) (fun d hd => h d (by omega)) rfl
        simp only [hlt, if_true, hrec]
      · simp only [hlt, if_false]

/-- The contexts above a context, the nearest first. -/
def above (s : Store) (c : ContextId) : List Context := (s.chain c).tail.map s.context

/-- A context answers for itself, or those above it do. -/
theorem findType_eq_or (s : Store) (c : ContextId) (node : Value) :
    s.findType c node = ((s.context c).nodeTypes.get? ⟨node⟩).or
      ((s.above c).findSome? fun a => a.nodeTypes.get? ⟨node⟩) := by
  rw [above, List.findSome?_map, findType, chain, List.findSome?_cons, List.tail_cons]
  cases (s.context c).nodeTypes.get? ⟨node⟩ <;> rfl

theorem findVariable_eq_or (s : Store) (c : ContextId) (handle : Handle) :
    s.findVariable c handle = ((s.context c).varTypes.get? handle).or
      ((s.above c).findSome? fun a => a.varTypes.get? handle) := by
  rw [above, List.findSome?_map, findVariable, chain, List.findSome?_cons, List.tail_cons]
  cases (s.context c).varTypes.get? handle <;> rfl

/-- Above a child are its parent and those above the parent. -/
theorem above_of_parent (hp : (s.context c).parent = some p) (hlt : p.index < c.index) :
    s.above c = s.context p :: s.above p := by
  simp only [above, chain_of_parent s hp hlt, List.tail_cons]
  rw [chain]; rfl

/-- **A child sees what it has, and else what its parent sees.** -/
theorem findType_of_parent (hp : (s.context c).parent = some p) (hlt : p.index < c.index)
    (node : Value) :
    s.findType c node = ((s.context c).nodeTypes.get? ⟨node⟩).or (s.findType p node) := by
  rw [findType_eq_or, findType_eq_or s p, above_of_parent hp hlt, List.findSome?_cons]
  cases (s.context p).nodeTypes.get? ⟨node⟩ <;> rfl

theorem findVariable_of_parent (hp : (s.context c).parent = some p) (hlt : p.index < c.index)
    (handle : Handle) :
    s.findVariable c handle =
      ((s.context c).varTypes.get? handle).or (s.findVariable p handle) := by
  rw [findVariable_eq_or, findVariable_eq_or s p, above_of_parent hp hlt, List.findSome?_cons]
  cases (s.context p).varTypes.get? handle <;> rfl

/-- **Only contexts made before a context are above it**: while they stay as they are, so do those
above. -/
theorem above_congr (hp : (s'.context c).parent = (s.context c).parent)
    (h : ∀ d : ContextId, d.index < c.index → s'.context d = s.context d) :
    s'.above c = s.above c := by
  have hchain : s'.chain c = s.chain c := chain_congr fun d hd => by
    rcases Nat.lt_or_eq_of_le hd with hd | hd
    · rw [h d hd]
    · obtain rfl : d = c := by cases d; cases c; exact congrArg _ hd
      exact hp
  rw [above, above, hchain]
  exact List.map_congr_left fun a ha => h a (index_lt_of_mem_tail_chain a ha)

/-- What is above a context is the parent of something on its chain. -/
theorem exists_child_of_mem_tail_chain {d : ContextId} (hd : d ∈ (s.chain c).tail) :
    ∃ q ∈ s.chain c, (s.context q).parent = some d := by
  induction hn : c.index using Nat.strongRecOn generalizing c with
  | ind n ih =>
    have hself : c ∈ s.chain c := by rw [chain]; exact List.mem_cons_self
    cases hp : (s.context c).parent with
    | none => rw [chain, hp] at hd; cases hd
    | some p =>
      by_cases hlt : p.index < c.index
      · rw [chain_of_parent s hp hlt] at hd ⊢
        rw [List.tail_cons, chain] at hd
        rcases List.mem_cons.1 hd with rfl | hd
        · exact ⟨c, List.mem_cons_self, hp⟩
        · have htail : d ∈ (s.chain p).tail := by rw [chain]; exact hd
          obtain ⟨q, hq, hqd⟩ := ih p.index (by omega) htail rfl
          exact ⟨q, List.mem_cons_of_mem _ hq, hqd⟩
      · rw [chain, hp] at hd
        simp [hlt] at hd

/-- A lookup goes by the parents and by what the contexts on the chain hold. -/
theorem findType_congr
    (hp : ∀ d : ContextId, d.index ≤ c.index → (s'.context d).parent = (s.context d).parent)
    (h : ∀ d ∈ s.chain c, (s'.context d).nodeTypes = (s.context d).nodeTypes) (node : Value) :
    s'.findType c node = s.findType c node := by
  have hfind := congrArg (List.findSome? fun b : Bindings NodeKey Value => b.get? ⟨node⟩)
    (List.map_congr_left h)
  rw [List.findSome?_map, List.findSome?_map] at hfind
  rw [findType, findType, chain_congr hp]
  exact hfind

theorem findVariable_congr
    (hp : ∀ d : ContextId, d.index ≤ c.index → (s'.context d).parent = (s.context d).parent)
    (h : ∀ d ∈ s.chain c, (s'.context d).varTypes = (s.context d).varTypes) (handle : Handle) :
    s'.findVariable c handle = s.findVariable c handle := by
  have hfind := congrArg (List.findSome? fun b : Bindings Handle Value => b.get? handle)
    (List.map_congr_left h)
  rw [List.findSome?_map, List.findSome?_map] at hfind
  rw [findVariable, findVariable, chain_congr hp]
  exact hfind

end TypingStore.Store
