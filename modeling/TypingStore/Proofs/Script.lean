import TypingStore.Proofs.Run

/-!
# Engines as scripts

A script is an engine told operation by operation. Each operation may depend on how the
ones before it ended, a failure can be caught or end the script, and a block can be called
on a new child.

Whatever a script does is a run of operations (`Script.exists_run`), so what holds of all
runs holds of all engines, at every moment of their work. What one operation preserves under a
rule, a script that keeps to the rule preserves (`Script.Keeps.invariant`).
-/

namespace TypingStore

/-- What an engine does, operation by operation. -/
inductive Script where
  /-- The engine is done, or a failure leaves it. -/
  | done (result : Except Failure Unit)
  /-- An operation, and how the engine goes on after each of its outcomes. -/
  | act (a : Action) (next : Outcome → Script)
  /-- A block called on a new child, and how the engine goes on after it. -/
  | inChild (parent : ContextId) (body : ContextId → Script) (next : Except Failure Unit → Script)

/-- How an operation ends. One that is passed over ends at once. -/
def World.outcome (regime : Regime) (w : World) (a : Action) : Outcome :=
  let s := w.prepared regime
  if s.Admits a then (s.perform a).1 else .ok .done

/-- A child gets the next id. -/
theorem World.outcome_spawn {regime : Regime} {w : World} {parent : ContextId}
    (ha : (w.prepared regime).Admits (.spawn parent)) :
    w.outcome regime (.spawn parent) = .ok (.context ⟨w.store.contexts.size⟩) := by
  simp only [outcome, ha, if_true, Store.perform, Store.spawn, Store.createChild, Store.add,
    Store.update, Array.size_modify]
  rfl

namespace Script

/-- Carries out a script. -/
def run (regime : Regime) : Script → World → Except Failure Unit × World
  | done result, w => (result, w)
  | act a next, w => (next (w.outcome regime a)).run regime (w.step regime a)
  | inChild parent body next, w =>
    match w.outcome regime (.spawn parent) with
    | .ok (.context child) =>
      let (result, w) := (body child).run regime (w.step regime (.spawn parent))
      (next result).run regime w
    | _ => (next (.ok ())).run regime w

/-- The world a script leaves behind, from one in which only objects have been made. -/
def world (regime : Regime) (objects : Objects) (script : Script) : World :=
  (script.run regime (.init objects)).2

/-- **Whatever an engine does is a run**, callbacks included. -/
theorem exists_run_from (regime : Regime) (script : Script) (w : World) :
    ∃ actions : List Action, (script.run regime w).2 = actions.foldl (World.step regime) w := by
  induction script generalizing w with
  | done result => exact ⟨[], rfl⟩
  | act a next ih =>
    obtain ⟨actions, h⟩ := ih (w.outcome regime a) (w.step regime a)
    exact ⟨a :: actions, h⟩
  | inChild parent body next ihb ihn =>
    unfold run
    split
    · rename_i child _
      -- the operations of the callback come between the creation of the child and the rest
      obtain ⟨as, ha⟩ := ihb child (w.step regime (.spawn parent))
      obtain ⟨bs, hb⟩ := ihn ((body child).run regime (w.step regime (.spawn parent))).1
        ((body child).run regime (w.step regime (.spawn parent))).2
      refine ⟨Action.spawn parent :: as ++ bs, ?_⟩
      rw [List.foldl_append, List.foldl_cons, ← ha]
      exact hb
    · exact ihn (.ok ()) w

theorem exists_run (regime : Regime) (objects : Objects) (script : Script) :
    ∃ actions, script.world regime objects = World.run regime objects actions :=
  exists_run_from regime script (.init objects)

/-! ## Scripts that keep to a rule -/

/-- Every operation that is carried out meets a rule, in the store it finds. -/
def Keeps (regime : Regime) (rule : Store → Action → Prop) : Script → World → Prop
  | done _, _ => True
  | act a next, w =>
    ((w.prepared regime).Admits a → rule (w.prepared regime) a) ∧
      (next (w.outcome regime a)).Keeps regime rule (w.step regime a)
  | inChild parent body next, w =>
    ((w.prepared regime).Admits (.spawn parent) → rule (w.prepared regime) (.spawn parent)) ∧
      match w.outcome regime (.spawn parent) with
      | .ok (.context child) =>
        let called := (body child).run regime (w.step regime (.spawn parent))
        (body child).Keeps regime rule (w.step regime (.spawn parent)) ∧
          (next called.1).Keeps regime rule called.2
      | _ => (next (.ok ())).Keeps regime rule w

/-- **What every operation under a rule preserves, a script under the rule preserves**, wherever
its callbacks end. -/
theorem Keeps.invariant {regime : Regime} {rule : Store → Action → Prop} {I : World → Prop}
    (hstep : ∀ w a, I w → (w.prepared regime).Admits a → rule (w.prepared regime) a →
      I (w.step regime a)) {script : Script} {w : World} (h : script.Keeps regime rule w)
    (hw : I w) : I (script.run regime w).2 := by
  -- an operation that is passed over leaves the world alone
  have hone : ∀ {w : World} {a : Action}, I w →
      ((w.prepared regime).Admits a → rule (w.prepared regime) a) → I (w.step regime a) := by
    intro w a hw hrule
    by_cases ha : (w.prepared regime).Admits a
    · exact hstep w a hw ha (hrule ha)
    · rw [World.step_of_not_admits ha]; exact hw
  induction script generalizing w with
  | done result => exact hw
  | act a next ih => exact ih _ h.2 (hone hw h.1)
  | inChild parent body next ihb ihn =>
    unfold Keeps at h
    obtain ⟨hrule, hrest⟩ := h
    unfold run
    split
    · rename_i child hchild
      rw [hchild] at hrest
      exact ihn _ hrest.2 (ihb child hrest.1 (hone hw hrule))
    · rename_i hno
      split at hrest
      · rename_i child hchild
        exact absurd hchild (hno child)
      · exact ihn _ hrest hw

end Script

end TypingStore
