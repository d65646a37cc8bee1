import TypingStore.Proofs.Branches
import TypingStore.Proofs.Unversioned
import TypingStore.Reporting

/-!
# The same contexts without a branch

Two stores are compared: the second has the contexts of the first that are outside a branch, each
under the id it has without the branch (`Store.Without`). Versions, snapshots and marks may differ.

* `Without.findType`, `Without.findVariable`, `Without.dump`: such contexts answer alike.
* `Without.change`: the stores stay comparable, whatever is done in the first, as long as the same
  is done in the second outside the branch.
* `Without.perform`: an operation outside the branch ends alike in both.
-/

namespace TypingStore

/-- The context `b` holds what `a` holds and shows it alike, and its parent has another id. -/
structure Context.CopiedAs (f : ContextId → ContextId) (a b : Context) : Prop where
  parent : b.parent = a.parent.map f
  settings : b.settings = a.settings
  summarizer : b.summarizer = a.summarizer
  nodeTypes : b.nodeTypes = a.nodeTypes
  varTypes : b.varTypes = a.varTypes
  errors : b.errors = a.errors

theorem Context.CopiedAs.entries {f : ContextId → ContextId} {a b : Context}
    (h : a.CopiedAs f b) : b.entries = a.entries := by
  unfold Context.entries
  rw [h.nodeTypes, h.varTypes, h.errors]

/-- The same operation on contexts of other ids. -/
def Action.renumber (f : ContextId → ContextId) : Action → Action
  | .createRoot settings summarizer => .createRoot settings summarizer
  | .createChild parent settings summarizer => .createChild (f parent) settings summarizer
  | .spawn parent => .spawn (f parent)
  | .recordType c node type => .recordType (f c) node type
  | .recordVariable c name type => .recordVariable (f c) name type
  | .addError c error => .addError (f c) error
  | .commit c => .commit (f c)
  | .hasType c node => .hasType (f c) node
  | .hasVariable c name => .hasVariable (f c) name
  | .typeOf c node => .typeOf (f c) node
  | .variableTypeOf c name => .variableTypeOf (f c) name
  | .typings c => .typings (f c)
  | .variableTypes c => .variableTypes (f c)
  | .errors c => .errors (f c)
  | .dump c => .dump (f c)
  | .caption c => .caption (f c)
  | .assign target field new => .assign target field new
  | .newRecord kind fields others => .newRecord kind fields others
  | .newIndividual kind attributes => .newIndividual kind attributes

theorem Action.context?_renumber (f : ContextId → ContextId) (a : Action) :
    (a.renumber f).context? = a.context?.map f := by
  cases a <;> rfl

/-- The same outcome, when contexts have other ids. -/
def Outcome.renumber (f : ContextId → ContextId) (outcome : Outcome) : Outcome :=
  outcome.map fun
    | .context c => .context (f c)
    | answer => answer

/-- Two outcomes of an operation that differ at most in a version that is shown. Only captions show
one. -/
def Action.SameOutcome (a : Action) (outcome outcome' : Outcome) : Prop :=
  match a with
  | .caption _ => ∃ text text', outcome = .ok (.text text) ∧ outcome' = .ok (.text text')
  | _ => outcome = outcome'

/-- Whether a context is made. -/
def Event.isCreation : Event → Bool
  | created _ _ => true
  | entered _ _ => false

namespace Store

/-- Contexts are as many as there were, and those that are made. -/
theorem Change.size {s s' : Store} {es : List Event} (h : s.Change s' es) :
    s'.contexts.size = s.contexts.size + es.countP Event.isCreation := by
  cases h with
  | rest h => rw [h]; rfl
  | root settings summarizer h => rw [h, add, Array.size_push]; rfl
  | child p hp settings summarizer h => rw [h, createChild, add, Array.size_push, size_update]; rfl
  | entered p hp entries h =>
    have hnone : (entries.map (Event.entered p)).countP Event.isCreation = 0 := by
      rw [List.countP_map]
      exact List.countP_eq_zero.2 fun _ _ => Bool.false_ne_true
    rw [h, size_update, hnone, Nat.add_zero]

theorem context_createRoot_self (s : Store) (settings : Option SettingsRef)
    (summarizer : Option Summarizer) :
    (s.createRoot settings summarizer).2.context ⟨s.contexts.size⟩ =
      { parent := none, settings := (s.objects.settingsOr settings).1,
        summarizer := summarizer.getD .standard } :=
  context_add_self { s with objects := (s.objects.settingsOr settings).2 } _

/-- The contexts of `s'` are those of `s` outside the branch of `c`, under other ids and apart from
versions and marks. What is in the branch goes by the parents in `t`. -/
structure Without (t : Store) (c : ContextId) (s s' : Store) : Prop where
  within : ∀ d, s.Has d → (t.context d).parent = (s.context d).parent
  size : s'.contexts.size = t.countOutside c s.contexts.size
  copy : ∀ d, s.Has d → ¬ t.InBranch c d →
    (s.context d).CopiedAs (t.renumber c) (s'.context (t.renumber c d))

namespace Without

variable {t s s' r r' : Store} {c d p : ContextId} {a : Action} {es : List Event}

theorem has (h : t.Without c s s') (hd : s.Has d) (hout : ¬ t.InBranch c d) :
    s'.Has (t.renumber c d) := by
  unfold Has
  rw [h.size]
  exact renumber_lt hout hd

theorem next (h : t.Without c s s') :
    (⟨s'.contexts.size⟩ : ContextId) = t.renumber c ⟨s.contexts.size⟩ :=
  congrArg ContextId.mk h.size

/-- The parent of a context outside the branch is outside as well. -/
theorem outside_parent (h : t.Without c s s') (ht : t.Ordered) (hout : ¬ t.InBranch c d)
    (hp : (s.context d).parent = some p) : ¬ t.InBranch c p := by
  intro hin
  have hp' : (t.context d).parent = some p := (h.within d (has_of_parent hp)).trans hp
  exact hout ((inBranch_iff_of_parent ht hp').2 (.inr hin))

theorem admits (h : t.Without c s s') (ha : s.Admits a)
    (hself : ∀ d ∈ a.context?, ¬ t.InBranch c d) : s'.Admits (a.renumber (t.renumber c)) := by
  intro d' hd'
  rw [Action.context?_renumber] at hd'
  obtain ⟨d, hd, rfl⟩ := Option.map_eq_some_iff.1 hd'
  exact h.has (ha d hd) (hself d hd)

/-! ## What is read -/

section Reading

variable (h : t.Without c s s') (ht : t.Ordered) (hs : s.Ordered) (hs' : s'.Ordered)
  (hd : s.Has d) (hout : ¬ t.InBranch c d)
include h ht hs hs' hd hout

/-- The chain of a context outside the branch stays outside. -/
theorem chain : s'.chain (t.renumber c d) = (s.chain d).map (t.renumber c) ∧
    ∀ a ∈ s.chain d, s.Has a ∧ ¬ t.InBranch c a := by
  induction hn : d.index using Nat.strongRecOn generalizing d with
  | ind n ih =>
    have hparent := (h.copy d hd hout).parent
    cases hp : (s.context d).parent with
    | none =>
      rw [hp, Option.map_none] at hparent
      have hone : s.chain d = [d] := by rw [Store.chain, hp]
      have hone' : s'.chain (t.renumber c d) = [t.renumber c d] := by rw [Store.chain, hparent]
      rw [hone, hone']
      refine ⟨rfl, fun a ha => ?_⟩
      rw [List.mem_singleton.1 ha]
      exact ⟨hd, hout⟩
    | some p =>
      rw [hp, Option.map_some] at hparent
      have hlt : p.index < d.index := hs d p hp
      have hpout : ¬ t.InBranch c p := h.outside_parent ht hout hp
      obtain ⟨hchain, hall⟩ := ih p.index (by omega) (hs.has_parent hp) hpout rfl
      rw [chain_of_parent s hp hlt, chain_of_parent s' hparent (hs' _ _ hparent), hchain]
      refine ⟨rfl, fun a ha => ?_⟩
      rcases List.mem_cons.1 ha with rfl | ha
      · exact ⟨hd, hout⟩
      · exact hall a ha

/-- What is looked up along the chain of such a context is found as before. -/
theorem findSome?_chain {α : Type} {look : Context → Option α}
    (hlook : ∀ a b, a.CopiedAs (t.renumber c) b → look b = look a) :
    ((s'.chain (t.renumber c d)).findSome? fun a => look (s'.context a)) =
      (s.chain d).findSome? fun a => look (s.context a) := by
  obtain ⟨hchain, hall⟩ := h.chain ht hs hs' hd hout
  have hmap : (s.chain d).map (fun a => look (s'.context (t.renumber c a))) =
      (s.chain d).map fun a => look (s.context a) :=
    List.map_congr_left fun a ha => hlook _ _ (h.copy a (hall a ha).1 (hall a ha).2)
  have hfind := congrArg (List.findSome? id) hmap
  rw [List.findSome?_map, List.findSome?_map] at hfind
  rw [hchain, List.findSome?_map]
  exact hfind

theorem findType (node : Value) : s'.findType (t.renumber c d) node = s.findType d node := by
  have hlook : ∀ a b : Context, a.CopiedAs (t.renumber c) b →
      b.nodeTypes.get? ⟨node⟩ = a.nodeTypes.get? ⟨node⟩ := fun a b hab => by rw [hab.nodeTypes]
  exact h.findSome?_chain ht hs hs' hd hout hlook

theorem findVariable (handle : Handle) :
    s'.findVariable (t.renumber c d) handle = s.findVariable d handle := by
  have hlook : ∀ a b : Context, a.CopiedAs (t.renumber c) b →
      b.varTypes.get? handle = a.varTypes.get? handle := fun a b hab => by rw [hab.varTypes]
  exact h.findSome?_chain ht hs hs' hd hout hlook

theorem depth : s'.depth (t.renumber c d) = s.depth d := by
  unfold Store.depth
  rw [(h.chain ht hs hs' hd hout).1, List.length_map]

variable (ho : s'.objects = s.objects)
include ho

theorem typeOf (node : Value) :
    (s'.typeOf (t.renumber c d) node).1 = (s.typeOf d node).1 ∧
      (s'.typeOf (t.renumber c d) node).2.objects = (s.typeOf d node).2.objects := by
  simp only [Store.typeOf, h.findType ht hs hs' hd hout]
  cases s.findType d node with
  | some type => exact ⟨rfl, ho⟩
  | none => simp only [fail, ho, and_self]

theorem variableTypeOf (name : Value) :
    (s'.variableTypeOf (t.renumber c d) name).1 = (s.variableTypeOf d name).1 ∧
      (s'.variableTypeOf (t.renumber c d) name).2.objects =
        (s.variableTypeOf d name).2.objects := by
  simp only [Store.variableTypeOf]
  cases handleOf name with
  | error failure => exact ⟨rfl, ho⟩
  | ok handle =>
    simp only [h.findVariable ht hs hs' hd hout]
    cases s.findVariable d handle with
    | some type => exact ⟨rfl, ho⟩
    | none => simp only [fail, ho, and_self]

end Reading

theorem typings (h : t.Without c s s') (hd : s.Has d) (hout : ¬ t.InBranch c d) :
    s'.typings (t.renumber c d) = s.typings d := by
  unfold Store.typings
  rw [(h.copy d hd hout).nodeTypes]

theorem diagnostics (h : t.Without c s s') (ho : s'.objects = s.objects) (hd : s.Has d)
    (hout : ¬ t.InBranch c d) (unit filename : Value) :
    s'.diagnostics (t.renumber c d) unit filename = s.diagnostics d unit filename := by
  unfold Store.diagnostics
  rw [(h.copy d hd hout).errors, ho]

/-- What is shown of a context goes by what it holds, for the same objects. -/
theorem dump (h : t.Without c s s') (ho : s'.objects = s.objects) (hd : s.Has d)
    (hout : ¬ t.InBranch c d) : s'.dump (t.renumber c d) = s.dump d := by
  have hcopy := h.copy d hd hout
  have htyping : s'.typingEntry = s.typingEntry := by
    funext summarizer typing
    unfold typingEntry
    rw [ho]
  have herror : s'.errorEntry = s.errorEntry := by
    funext summarizer error
    unfold errorEntry
    rw [ho]
  simp only [Store.dump, h.typings hd hout, hcopy.summarizer, hcopy.errors, htyping, herror]

/-! ## What is done -/

/-- Only contexts matter. -/
theorem congr (h : t.Without c s s') (hr : r.contexts = s.contexts)
    (hr' : r'.contexts = s'.contexts) : t.Without c r r' where
  within d hd := by
    rw [context_congr hr]
    exact h.within d ((has_congr hr d).1 hd)
  size := by rw [hr, hr', h.size]
  copy d hd hout := by
    rw [context_congr hr, context_congr hr']
    exact h.copy d ((has_congr hr d).1 hd) hout

section Changing

variable (h : t.Without c s s') (hchange : s.Change r es)
  (hchange' : s'.Change r' (es.filterMap (Event.without t c)))
include h hchange hchange'

theorem size_of_change : r'.contexts.size = t.countOutside c r.contexts.size := by
  have hsize' := hchange'.size
  have hnew : ∀ p, t.countOutside c s.contexts.size +
      ([.created ⟨s.contexts.size⟩ p].filterMap (Event.without t c)).countP Event.isCreation =
        t.countOutside c (s.contexts.size + 1) := by
    intro p
    rw [countOutside_succ]
    by_cases hin : t.InBranch c ⟨s.contexts.size⟩
    · simp [Event.without, Event.about, hin]
    · simp [Event.without, Event.about, hin, Event.renumber, Event.isCreation]
  rw [hsize', h.size]
  cases hchange with
  | rest hr => rw [hr]; rfl
  | root settings summarizer hr => rw [hr, hnew, add, Array.size_push]
  | child p hp settings summarizer hr =>
    rw [hr, hnew, createChild, add, Array.size_push, size_update]
  | entered p hp entries hr =>
    have hnone : ((entries.map (Event.entered p)).filterMap (Event.without t c)).countP
        Event.isCreation = 0 := by
      refine List.countP_eq_zero.2 fun e' he' => ?_
      obtain ⟨e, he, hwithout⟩ := List.mem_filterMap.1 he'
      obtain ⟨entry, -, rfl⟩ := List.mem_map.1 he
      by_cases hin : t.InBranch c p
      · simp [Event.without, Event.about, hin] at hwithout
      · obtain rfl : _ = e' := by simpa [Event.without, Event.about, hin] using hwithout
        exact Bool.false_ne_true
    rw [hr, hnone, size_update]
    rfl

/-- A context that is there is still copied. -/
theorem copy_of_change (hd : s.Has d) (hout : ¬ t.InBranch c d) :
    (r.context d).CopiedAs (t.renumber c) (r'.context (t.renumber c d)) := by
  have hcopy := h.copy d hd hout
  have hd' := h.has hd hout
  obtain ⟨hp, hset, hsum, -⟩ := hchange.origin hd
  obtain ⟨hp', hset', hsum', -⟩ := hchange'.origin hd'
  have hgrows := hchange.grows hd
  have hgrows' := hchange'.grows hd'
  rw [Event.filterMap_entryIn_without hout] at hgrows'
  exact {
    parent := by rw [hp', hp, hcopy.parent]
    settings := by rw [hset', hset, hcopy.settings]
    summarizer := by rw [hsum', hsum, hcopy.summarizer]
    nodeTypes := by rw [hgrows'.nodeTypes, hgrows.nodeTypes, hcopy.nodeTypes]
    varTypes := by rw [hgrows'.varTypes, hgrows.varTypes, hcopy.varTypes]
    errors := by rw [hgrows'.errors, hgrows.errors, hcopy.errors] }

/-- **The stores stay comparable** when the same happens to both outside the branch, and contexts
that are made are alike. -/
theorem change (hwithin : ∀ d, r.Has d → (t.context d).parent = (r.context d).parent)
    (hborn : ∀ d p, .created d p ∈ es → ¬ t.InBranch c d →
      (r.context d).CopiedAs (t.renumber c) (r'.context (t.renumber c d))) : t.Without c r r' where
  within := hwithin
  size := h.size_of_change hchange hchange'
  copy d hd hout := by
    rcases (hchange.made d).1 hd with hd | ⟨e, he, hcreates⟩
    · exact h.copy_of_change hchange hchange' hd hout
    · cases e with
      | created x p =>
        obtain rfl : x = d := of_decide_eq_true hcreates
        exact hborn x p he hout
      | entered x entry => cases hcreates

end Changing

/-- **What is done in the branch** changes nothing outside, apart from versions and marks. -/
theorem skip (h : t.Without c s s') (hchange : s.Change r es)
    (hin : ∀ e ∈ es, t.InBranch c e.about)
    (hwithin : ∀ d, r.Has d → (t.context d).parent = (r.context d).parent) : t.Without c r s' := by
  have hchange' : s'.Change s' (es.filterMap (Event.without t c)) := by
    rw [Event.filterMap_without_of_inBranch hin]
    exact .rest rfl
  exact h.change hchange hchange' hwithin fun d p he hout => absurd (hin _ he) hout

/-- A commit of a context outside the branch ends the same in both, if versions refuse it in both or
in neither. The objects differ afterwards at most in the versions that a refusal names. -/
theorem commit (h : t.Without c s s') (ho : s'.objects = s.objects) (hd : s.Has d)
    (hout : ¬ t.InBranch c d)
    (hfresh : ∀ p, (s.context d).parent = some p →
      ((s.context p).version = (s.context d).snapshot ↔
        (s'.context (t.renumber c p)).version = (s'.context (t.renumber c d)).snapshot)) :
    (s'.commit (t.renumber c d)).1 = (s.commit d).1 ∧
      (s'.commit (t.renumber c d)).2.objects.hide versionNames =
        (s.commit d).2.objects.hide versionNames := by
  have hparent := (h.copy d hd hout).parent
  cases hp : (s.context d).parent with
  | none =>
    rw [hp, Option.map_none] at hparent
    simp only [Store.commit, hp, hparent, fail, ho, and_self]
  | some p =>
    rw [hp, Option.map_some] at hparent
    have hiff := hfresh p hp
    by_cases hv : (s.context p).version = (s.context d).snapshot
    · obtain ⟨hok, hobjects, -⟩ := s.commit_of_fresh hp hv
      obtain ⟨hok', hobjects', -⟩ := s'.commit_of_fresh hparent (hiff.1 hv)
      rw [hok, hok', hobjects, hobjects', ho]
      exact ⟨rfl, rfl⟩
    · have hv' := mt hiff.2 hv
      -- the versions that are named may differ, but not the fault
      have hnumbers := Objects.number_of_hide
        (Objects.number_of_hide (congrArg (Objects.hide versionNames) ho)
          (s'.context (t.renumber c d)).snapshot (s.context d).snapshot)
        (s'.context (t.renumber c p)).version (s.context p).version
      have hfault := fun was now was' now' : Value => Objects.newFault_of_hide hnumbers (by decide)
        (by decide) (.staleContext was' now') (.staleContext was now) rfl rfl rfl
      simp only [Store.commit, hp, hparent, ne_eq, hv, hv', not_false_eq_true, if_true, fail]
      exact ⟨congrArg (fun ref => Except.error (Failure.fault ref)) (hfault _ _ _ _).1,
        (hfault _ _ _ _).2⟩

section Performing

variable (h : t.Without c s s') (ho : s'.objects = s.objects) (ha : s.Admits a)
  (hself : ∀ d ∈ a.context?, ¬ t.InBranch c d)

include h ha hself in
/-- The same happens outside the branch, if commits end the same. -/
theorem eventsOf_renumber
    (hcommit : ∀ d, a = .commit d → (s'.commit (t.renumber c d)).1 = (s.commit d).1) :
    s'.eventsOf (a.renumber (t.renumber c)) =
      (s.eventsOf a).map (Event.renumber (t.renumber c)) := by
  cases a with
  | createRoot settings summarizer => exact congrArg (fun d => [Event.created d none]) h.next
  | createChild p settings summarizer =>
    exact congrArg (fun d => [Event.created d (some (t.renumber c p))]) h.next
  | spawn p => exact congrArg (fun d => [Event.created d (some (t.renumber c p))]) h.next
  | recordVariable d name type =>
    simp only [Action.renumber, eventsOf]
    cases handleOf name <;> rfl
  | commit d =>
    have hcopy := h.copy d (ha d rfl) (hself d rfl)
    simp only [Action.renumber, eventsOf, hcommit d rfl, hcopy.parent, hcopy.entries]
    cases (s.commit d).1 with
    | error failure => rfl
    | ok answer =>
      cases (s.context d).parent with
      | none => rfl
      | some p => simp only [Option.map_some, List.map_map]; rfl
  | _ => rfl

include h ho ha hself in
/-- A context that is made outside the branch is made alike. -/
theorem copy_of_created {q : Option ContextId} (he : .created d q ∈ s.eventsOf a) :
    ((s.perform a).2.context d).CopiedAs (t.renumber c)
      ((s'.perform (a.renumber (t.renumber c))).2.context (t.renumber c d)) := by
  have hchild : ∀ p settings summarizer, s.Has p → ¬ t.InBranch c p →
      ((s.createChild p settings summarizer).2.context ⟨s.contexts.size⟩).CopiedAs (t.renumber c)
        ((s'.createChild (t.renumber c p) settings summarizer).2.context
          (t.renumber c ⟨s.contexts.size⟩)) := by
    intro p settings summarizer hp hpout
    have hcopy := h.copy p hp hpout
    rw [← h.next, context_createChild_self, context_createChild_self, hcopy.settings,
      hcopy.summarizer]
    exact ⟨rfl, rfl, rfl, rfl, rfl, rfl⟩
  cases a with
  | createRoot settings summarizer =>
    cases List.mem_singleton.1 he
    show ((s.createRoot settings summarizer).2.context _).CopiedAs _
      ((s'.createRoot settings summarizer).2.context _)
    rw [← h.next, context_createRoot_self, context_createRoot_self, ho]
    exact ⟨rfl, rfl, rfl, rfl, rfl, rfl⟩
  | createChild p settings summarizer =>
    cases List.mem_singleton.1 he
    exact hchild p settings summarizer (ha p rfl) (hself p rfl)
  | spawn p =>
    cases List.mem_singleton.1 he
    exact hchild p none none (ha p rfl) (hself p rfl)
  | recordVariable d name type =>
    simp only [eventsOf] at he
    split at he <;> simp at he
  | commit d =>
    simp only [eventsOf] at he
    split at he <;> simp at he
  | recordType d node type => simp [eventsOf] at he
  | addError d error => simp [eventsOf] at he
  | _ => cases he

variable (ht : t.Ordered) (hs : s.Ordered) (hs' : s'.Ordered)
  (hfresh : ∀ d p, a = .commit d → (s.context d).parent = some p →
    ((s.context p).version = (s.context d).snapshot ↔
      (s'.context (t.renumber c p)).version = (s'.context (t.renumber c d)).snapshot))
include h ho ha hself ht hs hs' hfresh

/-- The operation ends the same in both, and leaves the objects alike. -/
theorem sameOutcome :
    a.SameOutcome (Outcome.renumber (t.renumber c) (s.perform a).1)
        (s'.perform (a.renumber (t.renumber c))).1 ∧
      (s'.perform (a.renumber (t.renumber c))).2.objects.hide versionNames =
        (s.perform a).2.objects.hide versionNames := by
  have hkeep : s'.objects.hide versionNames = s.objects.hide versionNames := by rw [ho]
  have hmade : ∀ p q settings summarizer, t.renumber c (s.createChild p settings summarizer).1 =
      (s'.createChild q settings summarizer).1 := by
    intro p q settings summarizer
    simp only [Store.createChild, Store.add, size_update, h.next]
  cases a with
  | createRoot settings summarizer =>
    refine ⟨congrArg (fun d => Except.ok (Answer.context d)) h.next.symm, ?_⟩
    simp only [Action.renumber, Store.perform, Store.createRoot, Store.add, ho]
  | createChild p settings summarizer =>
    exact ⟨congrArg (fun d => Except.ok (Answer.context d)) (hmade p _ settings summarizer), hkeep⟩
  | spawn p =>
    exact ⟨congrArg (fun d => Except.ok (Answer.context d)) (hmade p _ none none), hkeep⟩
  | recordVariable d name type =>
    simp only [Action.SameOutcome, Action.renumber, Store.perform, Store.recordVariable]
    cases handleOf name <;> exact ⟨rfl, hkeep⟩
  | commit d =>
    obtain ⟨hresult, hobjects⟩ := h.commit ho (ha d rfl) (hself d rfl) fun p => hfresh d p rfl
    refine ⟨?_, hobjects⟩
    simp only [Action.SameOutcome, Action.renumber, Store.perform, hresult]
    cases (s.commit d).1 <;> rfl
  | hasType d node =>
    refine ⟨?_, hkeep⟩
    simp only [Action.SameOutcome, Action.renumber, Store.perform, Store.hasType,
      (h.copy d (ha d rfl) (hself d rfl)).nodeTypes]
    rfl
  | hasVariable d name =>
    refine ⟨?_, hkeep⟩
    simp only [Action.SameOutcome, Action.renumber, Store.perform, Store.hasVariable,
      (h.copy d (ha d rfl) (hself d rfl)).varTypes]
    cases handleOf name <;> rfl
  | typeOf d node =>
    obtain ⟨hresult, hobjects⟩ := h.typeOf ht hs hs' (ha d rfl) (hself d rfl) ho node
    refine ⟨?_, congrArg _ hobjects⟩
    simp only [Action.SameOutcome, Action.renumber, Store.perform, hresult]
    cases (s.typeOf d node).1 <;> rfl
  | variableTypeOf d name =>
    obtain ⟨hresult, hobjects⟩ := h.variableTypeOf ht hs hs' (ha d rfl) (hself d rfl) ho name
    refine ⟨?_, congrArg _ hobjects⟩
    simp only [Action.SameOutcome, Action.renumber, Store.perform, hresult]
    cases (s.variableTypeOf d name).1 <;> rfl
  | typings d =>
    refine ⟨?_, hkeep⟩
    simp only [Action.SameOutcome, Action.renumber, Store.perform,
      h.typings (ha d rfl) (hself d rfl)]
    rfl
  | variableTypes d =>
    refine ⟨?_, hkeep⟩
    simp only [Action.SameOutcome, Action.renumber, Store.perform,
      (h.copy d (ha d rfl) (hself d rfl)).varTypes]
    rfl
  | errors d =>
    refine ⟨?_, hkeep⟩
    simp only [Action.SameOutcome, Action.renumber, Store.perform,
      (h.copy d (ha d rfl) (hself d rfl)).errors]
    rfl
  | dump d =>
    refine ⟨?_, hkeep⟩
    simp only [Action.SameOutcome, Action.renumber, Store.perform,
      h.dump ho (ha d rfl) (hself d rfl)]
    cases s.dump d <;> rfl
  | caption d => exact ⟨⟨_, _, rfl, rfl⟩, hkeep⟩
  | assign target field new =>
    simp only [Action.SameOutcome, Action.renumber, Store.perform, ho]
    cases s.objects.assign target field new with
    | error failure => exact ⟨rfl, hkeep⟩
    | ok objects => exact ⟨rfl, rfl⟩
  | newRecord kind fields others =>
    simp only [Action.SameOutcome, Action.renumber, Store.perform, ho]
    exact ⟨rfl, trivial⟩
  | newIndividual kind attributes =>
    simp only [Action.SameOutcome, Action.renumber, Store.perform, ho]
    exact ⟨rfl, trivial⟩
  | _ => exact ⟨rfl, hkeep⟩

/-- **An operation outside the branch** ends the same in both, and is told by the same events. -/
theorem perform (hout : ¬ t.OfBranch c s a)
    (hwithin : ∀ d, (s.perform a).2.Has d →
      (t.context d).parent = ((s.perform a).2.context d).parent) :
    a.SameOutcome (Outcome.renumber (t.renumber c) (s.perform a).1)
        (s'.perform (a.renumber (t.renumber c))).1 ∧
      t.Without c (s.perform a).2 (s'.perform (a.renumber (t.renumber c))).2 ∧
      s'.eventsOf (a.renumber (t.renumber c)) = (s.eventsOf a).filterMap (Event.without t c) ∧
      (s'.perform (a.renumber (t.renumber c))).2.objects.hide versionNames =
        (s.perform a).2.objects.hide versionNames := by
  have hchange := perform_change hs ha
  have hchange' := perform_change hs' (h.admits ha hself)
  obtain ⟨hsame, hobjects⟩ := h.sameOutcome ho ha hself ht hs hs' hfresh
  have hcommit : ∀ d, a = .commit d → (s'.commit (t.renumber c d)).1 = (s.commit d).1 := by
    rintro d rfl
    exact (h.commit ho (ha d rfl) (hself d rfl) fun p => hfresh d p rfl).1
  have hevents : s'.eventsOf (a.renumber (t.renumber c)) =
      (s.eventsOf a).filterMap (Event.without t c) := by
    rw [h.eventsOf_renumber ha hself hcommit]
    exact (Event.filterMap_without_of_not_inBranch
      (not_inBranch_about ht hchange hwithin hout)).symm
  rw [hevents] at hchange'
  have hwithout := h.change hchange hchange' hwithin fun _ _ he _ =>
    h.copy_of_created ho ha hself he
  exact ⟨hsame, hwithout, hevents, hobjects⟩

end Performing

end Without

end Store

end TypingStore
