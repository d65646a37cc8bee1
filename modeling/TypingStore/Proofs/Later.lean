import TypingStore.Proofs.Replay
import TypingStore.Proofs.Staleness

/-!
# What a run keeps as it goes on

A world that comes later in a run has the events of the earlier one and some more. It has the same
contexts, each under the same parent and with the same snapshot, and **each holds what it held and,
after that, what was put down in it** (`World.Later`).

* `Sound.exists_later`: whatever operations come next.
* `Later.types`: the types in a context stay while nothing is written to it.
* `Later.errors`: errors stay for good.
-/

namespace TypingStore

/-- The entry put down in `d`, if the event is one. -/
def Event.entryIn (d : ContextId) : Event → Option Entry
  | created _ _ => none
  | entered c entry => if c = d then some entry else none

theorem Event.filterMap_entryIn_map (p d : ContextId) (entries : List Entry) :
    (entries.map (entered p)).filterMap (entryIn d) = if p = d then entries else [] := by
  by_cases hpd : p = d
  · simp [List.filterMap_map, Function.comp_def, entryIn, hpd]
  · simp [List.filterMap_map, Function.comp_def, entryIn, hpd]

/-- A context is written to when a write is among what is put down in it. -/
theorem Event.exists_writes_iff {d : ContextId} {es : List Event} :
    (∃ e ∈ es, e.writes d = true) ↔ ∃ x ∈ es.filterMap (entryIn d), x.isWrite = true := by
  have hone : ∀ e : Event, e.writes d = true ↔ ∃ x ∈ e.entryIn d, x.isWrite = true := by
    intro e
    cases e with
    | created c p => simp [writes, entryIn]
    | entered c entry => by_cases hc : c = d <;> simp [writes, entryIn, hc]
  simp only [hone, List.mem_filterMap]
  constructor
  · rintro ⟨e, he, x, hx, hw⟩
    exact ⟨x, ⟨e, he, hx⟩, hw⟩
  · rintro ⟨x, ⟨e, he, hx⟩, hw⟩
    exact ⟨e, he, x, hx, hw⟩

/-- **A context holds what it held and, after that, what was put down in it.** -/
theorem Store.Change.grows {s s' : Store} {es : List Event} (h : s.Change s' es) {d : ContextId}
    (hd : s.Has d) : (s.context d).Grows (es.filterMap (Event.entryIn d)) (s'.context d) := by
  cases h with
  | rest h => rw [context_congr h]; exact .refl _
  | root settings summarizer h =>
    rw [context_congr h, context_add_of_has _ _ hd]; exact .refl _
  | child p hp settings summarizer h =>
    rw [context_congr h, context_createChild _ _ _ _ hd]
    split
    · exact ⟨rfl, rfl, (List.append_nil _).symm⟩
    · exact .refl _
  | entered p hp entries h =>
    rw [context_congr h, context_update, Event.filterMap_entryIn_map]
    by_cases hpd : p = d
    · subst hpd
      simp only [hd, and_self, if_true]
      exact Context.grows_enterAll _ _ _
    · simp only [hpd, Ne.symm hpd, false_and, if_false]
      exact .refl _

namespace World

/-- The world `w'` comes later than `w` in a run, and `new` happened in between. -/
structure Later (w : World) (new : List Event) (w' : World) : Prop where
  events : w'.events = w.events ++ new
  has : ∀ d, w.store.Has d → w'.store.Has d
  parent : ∀ d, w.store.Has d → (w'.store.context d).parent = (w.store.context d).parent
  snapshot : ∀ d, w.store.Has d → (w'.store.context d).snapshot = (w.store.context d).snapshot
  grows : ∀ d, w.store.Has d →
    (w.store.context d).Grows (new.filterMap (Event.entryIn d)) (w'.store.context d)

namespace Later

variable {w w' w'' : World} {new new' : List Event}

theorem refl (w : World) : w.Later [] w :=
  ⟨(List.append_nil _).symm, fun _ h => h, fun _ _ => rfl, fun _ _ => rfl, fun _ _ => .refl _⟩

theorem trans (h : w.Later new w') (h' : w'.Later new' w'') : w.Later (new ++ new') w'' where
  events := by rw [h'.events, h.events, List.append_assoc]
  has d hd := h'.has d (h.has d hd)
  parent d hd := (h'.parent d (h.has d hd)).trans (h.parent d hd)
  snapshot d hd := (h'.snapshot d (h.has d hd)).trans (h.snapshot d hd)
  grows d hd := by
    rw [List.filterMap_append]
    exact (h.grows d hd).trans (h'.grows d (h.has d hd))

/-- **The types in a context stay** while nothing is written to it. -/
theorem types (h : w.Later new w') {d : ContextId} (hd : w.store.Has d)
    (hw : ¬ ∃ e ∈ new, e.writes d = true) :
    (w'.store.context d).nodeTypes = (w.store.context d).nodeTypes ∧
      (w'.store.context d).varTypes = (w.store.context d).varTypes := by
  rw [Event.exists_writes_iff] at hw
  have hentries : ∀ x ∈ new.filterMap (Event.entryIn d), x.isWrite = false :=
    fun x hx => Bool.eq_false_iff.2 fun hwrite => hw ⟨x, hx, hwrite⟩
  have hn : (new.filterMap (Event.entryIn d)).filterMap Entry.nodeType? = [] :=
    List.filterMap_eq_nil_iff.2 fun x hx => by
      have hwrite := hentries x hx
      cases x <;> first | rfl | cases hwrite
  have hv : (new.filterMap (Event.entryIn d)).filterMap Entry.varType? = [] :=
    List.filterMap_eq_nil_iff.2 fun x hx => by
      have hwrite := hentries x hx
      cases x <;> first | rfl | cases hwrite
  have hg := h.grows d hd
  rw [hg.nodeTypes, hg.varTypes, hn, hv]
  exact ⟨rfl, rfl⟩

/-- **Errors stay for good**, and new ones come after them. -/
theorem errors (h : w.Later new w') {d : ContextId} (hd : w.store.Has d) :
    ∃ errors, (w'.store.context d).errors = (w.store.context d).errors ++ errors :=
  ⟨_, (h.grows d hd).errors⟩

end Later

variable {w : World}

/-- One operation makes a later world. -/
theorem later_step (hw : w.store.Ordered) (regime : Regime) {a : Action}
    (ha : (w.prepared regime).Admits a) :
    w.Later ((w.prepared regime).eventsOf a) (w.step regime a) := by
  -- what the regime does to the objects leaves the contexts alone
  have hord : (w.prepared regime).Ordered := hw
  have hchange := Store.perform_change hord ha
  rw [step_of_admits ha]
  exact ⟨rfl, fun d hd => (hchange.made d).2 (.inl hd), fun _ hd => (hchange.origin hd).1,
    fun _ hd => (hchange.origin hd).2.2.2, fun _ hd => hchange.grows hd⟩

/-- **However a run goes on, it comes to a later world.** -/
theorem Sound.exists_later (hw : w.Sound) (regime : Regime) (actions : List Action) :
    ∃ new, w.Later new (actions.foldl (World.step regime) w) := by
  induction actions generalizing w with
  | nil => exact ⟨[], .refl w⟩
  | cons a actions ih =>
    obtain ⟨new', h'⟩ := ih (hw.step regime a)
    by_cases ha : (w.prepared regime).Admits a
    · exact ⟨_, (later_step hw.ordered regime ha).trans h'⟩
    · rw [step_of_not_admits ha] at h'
      rw [List.foldl_cons, step_of_not_admits ha]
      exact ⟨new', h'⟩

end World

end TypingStore
