import TypingStore.Store

/-!
# Committing a branch

A commit hands what a context holds to its parent. It is refused at a root, and it is refused as
stale when the parent is no longer at the version it had when the context was created: the
context may have been worked out from what the parent no longer says.

* `Store.commit`: the commit, with its report.
* `Store.contexts_commit_of_stale`, `Store.contexts_commit_of_fresh`: a commit changes nothing or
  hands over everything.
-/

namespace TypingStore.Store

/-- The report of a refused commit. -/
def rejection (snapshot actual : Nat) : String :=
  "typing: rejected commit (snapshot " ++ toString snapshot ++ ", parent " ++ toString actual ++ ")"

/-- The report of an accepted commit. -/
def acceptance (child : Context) : String :=
  "typing: committed " ++ toString child.nodeTypes.size ++ " type(s), "
    ++ toString child.varTypes.size ++ " variable(s), " ++ toString child.errors.length
    ++ " error(s) into version " ++ toString child.snapshot

/-- Hands what a context holds to its parent. The context itself stays as it is. -/
def commit (s : Store) (c : ContextId) : Except Failure Unit × Store :=
  let child := s.context c
  match child.parent with
  | none => s.fail .commitOnRoot
  | some parent =>
    let actual := (s.context parent).version
    if actual ≠ child.snapshot then
      let (was, objects) := s.objects.number child.snapshot
      let (now, objects) := objects.number actual
      ({ s with objects := objects }.report c .debug (rejection child.snapshot actual)).fail
        (.staleContext was now)
    else
      let s := s.update parent fun above => above.absorb (s.policy parent) child
      (.ok (), s.report c .debug (acceptance child))

/-- **A stale commit touches no context.** -/
theorem contexts_commit_of_stale (s : Store) {c parent : ContextId}
    (child : (s.context c).parent = some parent)
    (stale : (s.context parent).version ≠ (s.context c).snapshot) :
    (s.commit c).2.contexts = s.contexts := by
  simp only [commit, child]
  rw [if_pos stale]
  rfl

/-- **A fresh commit succeeds** and hands everything over at once. -/
theorem contexts_commit_of_fresh (s : Store) {c parent : ContextId}
    (child : (s.context c).parent = some parent)
    (fresh : (s.context parent).version = (s.context c).snapshot) :
    (s.commit c).1 = .ok () ∧
      (s.commit c).2.contexts =
        (s.update parent fun above => above.absorb (s.policy parent) (s.context c)).contexts := by
  simp only [commit, child]
  rw [if_neg (by simpa using fresh)]
  exact ⟨rfl, rfl⟩

end TypingStore.Store
