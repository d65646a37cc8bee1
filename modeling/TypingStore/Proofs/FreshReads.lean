import TypingStore.Proofs.Later
import TypingStore.Proofs.Lookups

/-!
# Reads of a branch that can still be committed

A commit looks at the parent only, but a lookup goes through all contexts above. So a branch can
pass the check although what it has read is no longer there: something was written further up. It
cannot happen when the whole chain passes the check. **What a branch reads through its parents is
then what its parent read when the branch was made** (`reads_of_committable`).

Each context on the chain was made after the one above it, so whatever was written above since the
branch was made was written after the context in between was made, and makes that one stale.

* `Store.Committable`: a context and all those above it could still be committed.
* `unwritten_above`: nothing was written above such a branch since it was made.
-/

namespace TypingStore

/-- A failure without saying which object the fault is. -/
def Failure.anonymous : Failure → Failure
  | .fault ref => .fault ⟨0, ref.kind⟩
  | failure => failure

/-- Every context on the chain finds its parent at the version it was made at. -/
def Store.Committable (s : Store) (c : ContextId) : Prop :=
  ∀ d ∈ s.chain c, ∀ p, (s.context d).parent = some p →
    (s.context p).version = (s.context d).snapshot

namespace Store

variable {s s' : Store} {c c' : ContextId}

theorem typeOf_of_findType {node : Value} (h : s.findType c node = s'.findType c' node) :
    (s.typeOf c node).1.mapError Failure.anonymous =
      (s'.typeOf c' node).1.mapError Failure.anonymous := by
  simp only [typeOf, h]
  cases s'.findType c' node <;> rfl

theorem variableTypeOf_of_findVariable {name : Value}
    (h : ∀ handle, handleOf name = .ok handle →
      s.findVariable c handle = s'.findVariable c' handle) :
    (s.variableTypeOf c name).1.mapError Failure.anonymous =
      (s'.variableTypeOf c' name).1.mapError Failure.anonymous := by
  simp only [variableTypeOf]
  cases hn : handleOf name with
  | error failure => rfl
  | ok handle =>
    simp only [h handle hn]
    cases s'.findVariable c' handle <;> rfl

end Store

namespace World

variable {born w : World} {c p : ContextId} {new : List Event}

/-- Nothing was written above a branch since it was there, if the whole chain can be committed. -/
theorem unwritten_above (hborn : born.Sound) (hw : w.Sound) (hlater : born.Later new w)
    (hc : born.store.Has c) (hcommit : w.store.Committable c) :
    ∀ d ∈ (w.store.chain c).tail, ¬ ∃ e ∈ new, e.writes d = true := by
  intro d hd hwritten
  obtain ⟨q, hq, hqd⟩ := Store.exists_child_of_mem_tail_chain hd
  have hqc := Store.index_le_of_mem_chain w.store c q hq
  have hhas : born.store.Has q := Nat.lt_of_le_of_lt hqc hc
  have hunwritten := (hw.fresh_iff hqd).1 (hcommit q hq d hqd)
  -- what is new happened after `q` was made, as `q` is not younger than the branch
  have hsince : Event.since q w.events = Event.since q born.events ++ new := by
    rw [hlater.events]; exact Event.since_append ((hborn.created q).1 hhas) new
  obtain ⟨e, he, hew⟩ := hwritten
  exact hunwritten ⟨e, by rw [hsince]; exact List.mem_append_right _ he, hew⟩

/-- **No stale read survives a chain of commits.** A branch has been made, and the run goes on. If
in the end the branch and all contexts above it could be committed, then a lookup of what the branch
does not hold itself answers as the same lookup in its parent did back then: when the branch had
just been made, or at any other moment since. -/
theorem reads_of_committable (regime : Regime) (objects : Objects) (before after : List Action)
    {c p : ContextId} :
    let born := run regime objects before
    let w := run regime objects (before ++ after)
    born.store.Has c → (w.store.context c).parent = some p → w.store.Committable c →
    (∀ node, w.store.hasType c node = false →
      (w.store.typeOf c node).1.mapError Failure.anonymous =
        (born.store.typeOf p node).1.mapError Failure.anonymous) ∧
      ∀ name, w.store.hasVariable c name ≠ .ok true →
        (w.store.variableTypeOf c name).1.mapError Failure.anonymous =
          (born.store.variableTypeOf p name).1.mapError Failure.anonymous := by
  intro born w hc hp hcommit
  have hborn : born.Sound := sound_run regime objects before
  have hw : w.Sound := sound_run regime objects (before ++ after)
  have hfold : w = after.foldl (step regime) born := List.foldl_append ..
  obtain ⟨new, hlater⟩ := hborn.exists_later regime after
  rw [← hfold] at hlater
  have hlt : p.index < c.index := hw.ordered c p hp
  have hchain : (w.store.chain c).tail = w.store.chain p := by
    rw [Store.chain_of_parent _ hp hlt, List.tail_cons]
  have hhas : ∀ d : ContextId, d.index ≤ p.index → born.store.Has d := fun d hd =>
    Nat.lt_of_le_of_lt hd (Nat.lt_trans hlt hc)
  have hparent : ∀ d : ContextId, d.index ≤ p.index →
      (born.store.context d).parent = (w.store.context d).parent := fun d hd =>
    (hlater.parent d (hhas d hd)).symm
  have htypes : ∀ d ∈ w.store.chain p,
      (born.store.context d).nodeTypes = (w.store.context d).nodeTypes ∧
        (born.store.context d).varTypes = (w.store.context d).varTypes := by
    intro d hd
    have hunwritten := unwritten_above hborn hw hlater hc hcommit d (by rw [hchain]; exact hd)
    obtain ⟨hn, hv⟩ := hlater.types (hhas d (Store.index_le_of_mem_chain _ p d hd)) hunwritten
    exact ⟨hn.symm, hv.symm⟩
  -- what the branch does not hold is looked up in its parent
  constructor
  · intro node hnode
    have hnone := Bindings.get?_eq_none hnode
    refine Store.typeOf_of_findType ?_
    rw [Store.findType_of_parent hp hlt, hnone, Option.none_or]
    exact (Store.findType_congr hparent (fun d hd => (htypes d hd).1) node).symm
  · intro name hname
    refine Store.variableTypeOf_of_findVariable fun handle hh => ?_
    have hnot : (w.store.context c).varTypes.contains handle = false := by
      simpa [Store.hasVariable, hh, Except.map] using hname
    rw [Store.findVariable_of_parent hp hlt, Bindings.get?_eq_none hnot, Option.none_or]
    exact (Store.findVariable_congr hparent (fun d hd => (htypes d hd).2) handle).symm

/-- A node. -/
def site : Value := .record ⟨1, .node .variableUse⟩

/-- A root with a type for `site`, and a branch of a branch of it. -/
def nestedBranch : List Action :=
  [.createRoot none none, .recordType ⟨0⟩ site (.nilType ⟨2⟩), .spawn ⟨0⟩, .spawn ⟨1⟩]

/-- An error of the root, another branch with another type for `site`, and a type in the first. -/
def besideNestedBranch : List Action :=
  [.addError ⟨0⟩ .absent, .spawn ⟨0⟩, .recordType ⟨3⟩ site (.anyType ⟨3⟩),
    .recordType ⟨2⟩ .absent (.anyType ⟨4⟩)]

/-- The branch still finds the type of `site` that the root has. -/
theorem reads_of_nestedBranch :
    let idle : Regime := fun _ objects => objects
    let born := run idle {} nestedBranch
    let w := run idle {} (nestedBranch ++ besideNestedBranch)
    born.store.Has ⟨2⟩ ∧ (w.store.context ⟨2⟩).parent = some ⟨1⟩ ∧ w.store.Committable ⟨2⟩ ∧
      w.store.hasType ⟨2⟩ site = false ∧
      (w.store.typeOf ⟨2⟩ site).1.mapError Failure.anonymous =
        (born.store.typeOf ⟨1⟩ site).1.mapError Failure.anonymous := by
  intro idle born w
  have hc : born.store.Has ⟨2⟩ := by decide +kernel
  have hp : (w.store.context ⟨2⟩).parent = some ⟨1⟩ := by decide +kernel
  have hcommit : w.store.Committable ⟨2⟩ := by
    have hp' : (w.store.context ⟨1⟩).parent = some ⟨0⟩ := by decide +kernel
    have hroot : w.store.chain ⟨0⟩ = [⟨0⟩] := by
      have h : (w.store.context ⟨0⟩).parent = none := by decide +kernel
      rw [Store.chain, h]
    intro d hd p hdp
    rw [Store.chain_of_parent _ hp (by decide), Store.chain_of_parent _ hp' (by decide),
      hroot] at hd
    have hall : ∀ d ∈ [⟨2⟩, ⟨1⟩, ⟨0⟩], ∀ p ∈ (w.store.context d).parent,
        (w.store.context p).version = (w.store.context d).snapshot := by decide +kernel
    exact hall d hd p hdp
  have hsite : w.store.hasType ⟨2⟩ site = false := by decide +kernel
  obtain ⟨hreads, -⟩ := reads_of_committable idle {} nestedBranch besideNestedBranch hc hp hcommit
  exact ⟨hc, hp, hcommit, hsite, hreads site hsite⟩

end World

end TypingStore
