import TypingStore.Proofs.Growth

/-!
# The history of a branch

Everything that was ever recorded in a context is its history. A context does not keep it: it holds
every key once, with the last of its types. So a commit hands over much less than the history, and
yet the parent ends up as if the whole history had been put down in it, operation by operation
(`commit_replays_history`).

The history of a context is told in two ways, and either will do. It is what was put down in the
context, and what a commit of a child puts down there is what the child holds in the end; or it goes
back further, and a commit of a child adds the whole history of the child (`World.historyOf`).

* `Context.HoldsAll`: a context holds what a history says, and nothing else.
* `Store.performAll`: several operations, one after the other.
* `Remembered.step`: every operation keeps the contexts and their histories together.
-/

namespace TypingStore

/-- The operation that puts an entry down in a context. -/
def Entry.action (c : ContextId) : Entry → Action
  | nodeType node type => .recordType c node type
  | varType handle type => .recordVariable c handle.value type
  | error e => .addError c e

namespace Context

/-- The context holds what a list of entries makes of an empty context. -/
def HoldsAll (c : Context) (history : List Entry) : Prop := (default : Context).Grows history c

/-- Contexts that grow alike from one context hold the same. -/
theorem Grows.unique {c c' c'' : Context} {es : List Entry} (h : c.Grows es c')
    (h' : c.Grows es c'') :
    c'.nodeTypes = c''.nodeTypes ∧ c'.varTypes = c''.varTypes ∧ c'.errors = c''.errors :=
  ⟨h.nodeTypes.trans h'.nodeTypes.symm, h.varTypes.trans h'.varTypes.symm,
    h.errors.trans h'.errors.symm⟩

/-- **Handing over what a context holds is handing over its history.** -/
theorem HoldsAll.handed {child : Context} {history : List Entry} (h : child.HoldsAll history)
    (policy : VersionPolicy) (c : Context) :
    c.Grows history (c.enterAll policy child.entries) :=
  h.replay rfl policy c

end Context

namespace Store

/-- Carries out several operations, one after the other, whatever their outcomes. -/
def performAll (s : Store) (actions : List Action) : Store :=
  actions.foldl (fun s a => (s.perform a).2) s

variable {s s' : Store} {c d p : ContextId} {es : List Event}

theorem handleOf_value (handle : Handle) : handleOf handle.value = .ok handle := by
  obtain ⟨v, hv⟩ := handle
  unfold handleOf Handle.ofValue
  split
  · rfl
  · rename_i kind hkind
    rw [hv] at hkind
    cases hkind

/-- An entry is put down by its operation. -/
theorem perform_action (s : Store) (c : ContextId) (e : Entry) :
    (s.perform (e.action c)).2 = s.update c (Context.enter (s.policy c) e) := by
  cases e with
  | nodeType node type => rfl
  | varType handle type =>
    simp only [Entry.action, perform, recordVariable, handleOf_value]
    rfl
  | error e => rfl

/-- **Entries that are put down by their operations** are put down one after the other. -/
theorem grows_performAll (hc : s.Has c) (entries : List Entry) :
    (s.context c).Grows entries ((s.performAll (entries.map (Entry.action c))).context c) := by
  induction entries generalizing s with
  | nil => exact .refl _
  | cons e entries ih =>
    have hone : (s.context c).Grows [e] ((s.perform (e.action c)).2.context c) := by
      rw [perform_action, context_update, if_pos ⟨rfl, hc⟩]
      exact Context.grows_enter _ e _
    have hc' : (s.perform (e.action c)).2.Has c := by
      rw [perform_action, has_update]
      exact hc
    exact hone.trans (ih hc')

/-- A context that was not there holds nothing when it is made. -/
theorem Change.grows_of_new (h : s.Change s' es) (hd : ¬ s.Has d) :
    (default : Context).Grows (es.filterMap (Event.entryIn d)) (s'.context d) := by
  have hnone : es.filterMap (Event.entryIn d) = [] := by
    cases h with
    | rest h => rfl
    | root settings summarizer h => rfl
    | child p hp settings summarizer h => rfl
    | entered p hp entries h =>
      have hpd : p ≠ d := fun heq => hd (heq ▸ hp)
      rw [Event.filterMap_entryIn_map, if_neg hpd]
  obtain ⟨hnodes, hvars, herrors, -⟩ := h.blank_of_not_has hd
  rw [hnone]
  exact ⟨hnodes, hvars, herrors⟩

/-- **A change adds to what a context holds** what it puts down there. -/
theorem Change.holdsAll (h : s.Change s' es) {history : List Entry}
    (hd : (s.context d).HoldsAll history) :
    (s'.context d).HoldsAll (history ++ es.filterMap (Event.entryIn d)) := by
  by_cases hhas : s.Has d
  · exact hd.trans (h.grows hhas)
  · rw [context_of_not_has hhas] at hd
    obtain ⟨hn, hv, he⟩ := hd
    have hnew := h.grows_of_new hhas
    refine ⟨?_, ?_, ?_⟩
    · rw [List.filterMap_append, Bindings.insertAll_append, ← hn]
      exact hnew.nodeTypes
    · rw [List.filterMap_append, Bindings.insertAll_append, ← hv]
      exact hnew.varTypes
    · rw [List.filterMap_append, ← List.append_assoc, ← he]
      exact hnew.errors

/-- What was ever recorded in each context, after an operation. What is recorded in a context is
added to its history; an accepted commit adds the whole history of the child to that of the
parent. -/
def remember (s : Store) (past : ContextId → List Entry) (a : Action) : ContextId → List Entry :=
  fun d => past d ++
    match a with
    | .commit c =>
      match (s.commit c).1, (s.context c).parent with
      | .ok (), some parent => if parent = d then past c else []
      | _, _ => []
    | a => (s.eventsOf a).filterMap (Event.entryIn d)

theorem remember_of_accepted (hok : (s.commit c).1 = .ok ()) (hp : (s.context c).parent = some p)
    (past : ContextId → List Entry) :
    s.remember past (.commit c) d = past d ++ if p = d then past c else [] := by
  simp only [remember, hok, hp]

theorem remember_of_refused (hno : (s.commit c).1 ≠ .ok ()) (past : ContextId → List Entry) :
    s.remember past (.commit c) d = past d := by
  simp only [remember]
  split
  · rename_i hok _
    exact absurd hok hno
  · exact List.append_nil _

/-- A commit that is refused puts nothing down. -/
theorem eventsOf_of_refused (hno : (s.commit c).1 ≠ .ok ()) : s.eventsOf (.commit c) = [] := by
  simp only [eventsOf]
  split
  · rename_i hok _
    exact absurd hok hno
  · rfl

end Store

namespace World

/-- What was ever recorded in each context, given what was before some operations. -/
def pasts (regime : Regime) :
    World → (ContextId → List Entry) → List Action → ContextId → List Entry
  | _, past, [] => past
  | w, past, a :: actions =>
    let s := w.prepared regime
    pasts regime (w.step regime a) (if s.Admits a then s.remember past a else past) actions

/-- All that was ever recorded in a context in a run, in order. What a child committed into it comes
with all that was ever recorded in the child. -/
def historyOf (regime : Regime) (objects : Objects) (actions : List Action) :
    ContextId → List Entry :=
  pasts regime (init objects) (fun _ => []) actions

variable {w : World} {past : ContextId → List Entry}

/-- What every run keeps: each context holds what its history says, told in either way. -/
structure Remembered (w : World) (past : ContextId → List Entry) : Prop where
  told : ∀ d, (w.store.context d).HoldsAll (w.events.filterMap (Event.entryIn d))
  whole : ∀ d, (w.store.context d).HoldsAll (past d)

/-- **What is remembered is held.** An accepted commit adds the whole history of the child to what
the parent holds; a refused one adds nothing. -/
theorem holdsAll_remember {s : Store} (hs : s.Ordered)
    (hpast : ∀ d, (s.context d).HoldsAll (past d)) {a : Action} (ha : s.Admits a) (d : ContextId) :
    ((s.perform a).2.context d).HoldsAll (s.remember past a d) := by
  have hchange := Store.perform_change hs ha
  cases a with
  | commit c =>
    by_cases hok : (s.commit c).1 = .ok ()
    · obtain ⟨p, hp, hv⟩ := Store.commit_eq_ok_iff.1 hok
      obtain ⟨hparent, hothers⟩ := Store.context_commit_of_fresh hs hp hv
      rw [Store.remember_of_accepted hok hp]
      by_cases hpd : p = d
      · rw [← hpd, if_pos rfl]
        have hafter := (hpast p).trans ((hpast c).handed (s.policy p) (s.context p))
        rw [← hparent] at hafter
        exact hafter
      · rw [if_neg hpd, List.append_nil]
        have hkept := hpast d
        rw [← hothers d (Ne.symm hpd)] at hkept
        exact hkept
    · have hheld := hchange.holdsAll (hpast d)
      rw [Store.eventsOf_of_refused hok, List.filterMap_nil, List.append_nil] at hheld
      rw [Store.remember_of_refused hok]
      exact hheld
  | _ => exact hchange.holdsAll (hpast d)

/-- **Every operation keeps the contexts and their histories together.** -/
theorem Remembered.step (h : Remembered w past) (hw : w.Sound) (regime : Regime) (a : Action) :
    Remembered (w.step regime a)
      (if (w.prepared regime).Admits a then (w.prepared regime).remember past a else past) := by
  by_cases ha : (w.prepared regime).Admits a
  · have hord : (w.prepared regime).Ordered := hw.ordered
    rw [step_of_admits ha, if_pos ha]
    refine ⟨fun d => ?_, fun d => ?_⟩
    · rw [List.filterMap_append]
      exact (Store.perform_change hord ha).holdsAll (h.told d)
    · exact holdsAll_remember hord h.whole ha d
  · rw [step_of_not_admits ha, if_neg ha]
    exact h

theorem Remembered.steps (h : Remembered w past) (hw : w.Sound) (regime : Regime)
    (actions : List Action) :
    Remembered (actions.foldl (World.step regime) w) (pasts regime w past actions) := by
  induction actions generalizing w past with
  | nil => exact h
  | cons a actions ih => exact ih (h.step hw regime a) (hw.step regime a)

/-- **Every run keeps the contexts and their histories together.** -/
theorem remembered_run (regime : Regime) (objects : Objects) (actions : List Action) :
    Remembered (run regime objects actions) (historyOf regime objects actions) := by
  have hinit : Remembered (init objects) fun _ => [] := by
    refine ⟨fun d => ?_, fun d => ?_⟩ <;>
      rw [context_init] <;> exact .refl _
  exact hinit.steps (sound_init objects) regime actions

/-- **A commit replays the whole history of the branch.** After an accepted commit the parent holds
the nodes, the variables and the errors that it would hold if everything ever recorded in the branch
had been recorded in the parent at that moment, one operation after the other, in the order in which
it was recorded in the branch. What children of the branch committed into it may be counted as what
they held or as all that was ever recorded in them.

So a key that the history binds has the last type that the history gives it, any other key the type
it had, and what the parent had keeps its place. -/
theorem commit_replays_history (regime : Regime) (objects : Objects) (actions : List Action)
    {c : ContextId} :
    let w := run regime objects actions
    let s := w.prepared regime
    (s.commit c).1 = .ok () →
    ∃ p, (s.context c).parent = some p ∧
      ∀ history ∈ [historyOf regime objects actions c, w.events.filterMap (Event.entryIn c)],
        let before := s.context p
        let after := (s.commit c).2.context p
        let replayed := (s.performAll (history.map (Entry.action p))).context p
        (after.nodeTypes = replayed.nodeTypes ∧ after.varTypes = replayed.varTypes ∧
          after.errors = replayed.errors) ∧
        (∀ node, after.nodeTypes.get? node =
          (Bindings.last? (history.filterMap Entry.nodeType?) node).or
            (before.nodeTypes.get? node)) ∧
        (∀ handle, after.varTypes.get? handle =
          (Bindings.last? (history.filterMap Entry.varType?) handle).or
            (before.varTypes.get? handle)) ∧
        before.nodeTypes.keys <+: after.nodeTypes.keys ∧
        before.varTypes.keys <+: after.varTypes.keys ∧
        after.errors = before.errors ++ history.filterMap Entry.error? := by
  intro w s hok
  obtain ⟨p, hp, hv⟩ := Store.commit_eq_ok_iff.1 hok
  refine ⟨p, hp, ?_⟩
  intro history hhistory before after replayed
  have hw : w.Sound := sound_run regime objects actions
  have hord : s.Ordered := hw.ordered
  have hhas : s.Has p := hord.has_parent hp
  have hremembered := remembered_run regime objects actions
  have hchild : (s.context c).HoldsAll history := by
    rcases List.mem_cons.1 hhistory with rfl | hhistory
    · exact hremembered.whole c
    · rw [List.mem_singleton.1 hhistory]
      exact hremembered.told c
  -- the commit and the operations make the same context grow by the same history
  have hafter : before.Grows history after := by
    have hcontext : after = before.enterAll (s.policy p) (s.context c).entries :=
      (Store.context_commit_of_fresh hord hp hv).1
    rw [hcontext]
    exact hchild.handed _ _
  have hreplayed : before.Grows history replayed := Store.grows_performAll hhas history
  refine ⟨hafter.unique hreplayed, fun node => ?_, fun handle => ?_, ?_, ?_, hafter.errors⟩
  · rw [hafter.nodeTypes, Bindings.get?_insertAll]
  · rw [hafter.varTypes, Bindings.get?_insertAll]
  · rw [hafter.nodeTypes]
    exact Bindings.keys_prefix_insertAll _ _
  · rw [hafter.varTypes]
    exact Bindings.keys_prefix_insertAll _ _

/-- A branch of a branch binds a variable twice, the second time under an equal name, and is
committed; then a node and an error are recorded in the branch. The root has the node already. -/
def rebinding : List Action :=
  [.createRoot none none, .recordType ⟨0⟩ .absent (.nilType ⟨1⟩), .spawn ⟨0⟩, .spawn ⟨1⟩,
    .recordVariable ⟨2⟩ (.bool true) (.nilType ⟨1⟩),
    .recordVariable ⟨2⟩ (.int ⟨2⟩ 1) (.anyType ⟨3⟩), .addError ⟨2⟩ .absent, .commit ⟨2⟩,
    .recordType ⟨1⟩ .absent (.anyType ⟨4⟩), .addError ⟨1⟩ (.bool false)]

/-- The history of the branch has the variable twice, and the root gets it with its last type. -/
theorem rebinding_replayed :
    let idle : Regime := fun _ objects => objects
    let s := (run idle {} rebinding).prepared idle
    let history := historyOf idle {} rebinding ⟨1⟩
    let after := (s.commit ⟨1⟩).2.context ⟨0⟩
    let replayed := (s.performAll (history.map (Entry.action ⟨0⟩))).context ⟨0⟩
    (s.commit ⟨1⟩).1 = .ok () ∧ history.length = 5 ∧ (s.context ⟨1⟩).entries.length = 4 ∧
      after.nodeTypes = replayed.nodeTypes ∧ after.varTypes = replayed.varTypes ∧
      after.errors.length = 2 := by
  intro idle s history after replayed
  have hok : (s.commit ⟨1⟩).1 = .ok () :=
    Store.commit_eq_ok_iff.2 ⟨⟨0⟩, by decide +kernel, by decide +kernel⟩
  obtain ⟨p, hp, hall⟩ := commit_replays_history idle {} rebinding hok
  have hroot : (s.context ⟨1⟩).parent = some ⟨0⟩ := by decide +kernel
  obtain rfl : p = ⟨0⟩ := Option.some.inj (hp.symm.trans hroot)
  obtain ⟨⟨hnodes, hvars, -⟩, -, -, -, -, herrors⟩ := hall history List.mem_cons_self
  exact ⟨hok, by decide +kernel, by decide +kernel, hnodes, hvars,
    by rw [herrors]; decide +kernel⟩

end World

end TypingStore
