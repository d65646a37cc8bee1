import TypingStore.Proofs.Change
import TypingStore.Proofs.Script

/-!
# When a commit is refused as stale

A commit compares two numbers: the version of the parent now, and the version it had when the child
was created. What it means is a matter of history: **a child can be committed as long as nothing was
written to its parent after the child was created** (`commit_iff_unwritten`), under every version
policy and however the policies change.

The invariant (`World.Sound`) puts every child into one of two places. It is *fresh*: the parent is
at the snapshot, nothing was written to it since, and the mark is there, so that the next write
moves the version. Or it is *stale*: the parent was written to since, and is past the snapshot for
good.
-/

namespace TypingStore

namespace Event

theorem since_append {c : ContextId} {es : List Event} (h : ∃ e ∈ es, e.creates c = true)
    (new : List Event) : since c (es ++ new) = since c es ++ new := by
  induction es with
  | nil => simp at h
  | cons e es ih =>
    by_cases he : e.creates c = true
    · simp [since, he]
    · have hr : ∃ x ∈ es, x.creates c = true := by simpa [he] using h
      simp [since, he, ih hr]

theorem since_append_of_new {c : ContextId} {es : List Event} (h : ¬ ∃ e ∈ es, e.creates c = true)
    (new : List Event) : since c (es ++ new) = since c new := by
  induction es with
  | nil => rfl
  | cons e es ih =>
    have he : ¬ e.creates c = true := fun hc => h ⟨e, List.mem_cons_self, hc⟩
    have hr : ¬ ∃ x ∈ es, x.creates c = true := fun ⟨x, hx, hc⟩ =>
      h ⟨x, List.mem_cons_of_mem _ hx, hc⟩
    simp [since, he, ih hr]

end Event

/-- What is noted about a fault when it arises. -/
theorem Objects.attribute?_newFault (objects : Objects) (cause : Cause) (name : String) :
    (objects.newFault cause).2.attribute? (objects.newFault cause).1.value name =
      Bindings.get? ⟨[("args", .tuple ⟨0⟩ [cause.message objects.written objects.plain]),
        ("message", cause.message objects.written objects.plain),
        ("loc", objects.locationOf cause)] ++ cause.notes⟩ name := by
  simp [newFault, newIndividual, add, FaultRef.value, attribute?, attributesAt,
    Array.getD_eq_getD_getElem?]

/-- **A stale commit says why**: the version the child was created at, and the one the parent is at
now. -/
theorem Store.commit_of_stale (s : Store) {c p : ContextId} (hp : (s.context c).parent = some p)
    (hv : (s.context p).version ≠ (s.context c).snapshot) :
    ∃ ref was now, (s.commit c).1 = .error (.fault ref) ∧ ref.kind = .staleContext ∧
      (s.commit c).2.objects.attribute? ref.value "expected_version" =
        some (.int was (s.context c).snapshot) ∧
      (s.commit c).2.objects.attribute? ref.value "actual_version" =
        some (.int now (s.context p).version) := by
  simp only [commit, hp, ne_eq, hv, not_false_eq_true, if_true, fail, report]
  refine ⟨_, ⟨s.objects.nextStamp⟩, ⟨s.objects.nextStamp + 1⟩, rfl, rfl, ?_, ?_⟩
  · rw [Objects.attribute?_newFault]; rfl
  · rw [Objects.attribute?_newFault]; rfl

namespace World

/-- The child `c` of `p` is **fresh**: nothing was written to `p` since `c` was created, and the
next write will be noticed. -/
def Fresh (w : World) (c p : ContextId) : Prop :=
  (w.store.context c).snapshot = (w.store.context p).version ∧
    (w.store.context p).pending = true ∧
    ¬ ∃ e ∈ Event.since c w.events, e.writes p = true

/-- The child `c` of `p` is **stale**: something was written to `p` since `c` was created. -/
def Stale (w : World) (c p : ContextId) : Prop :=
  (w.store.context c).snapshot < (w.store.context p).version ∧
    ∃ e ∈ Event.since c w.events, e.writes p = true

/-- What every run keeps: parents come first, the events tell which contexts there are, and every
child is fresh or stale. -/
structure Sound (w : World) : Prop where
  ordered : w.store.Ordered
  created : ∀ c, w.store.Has c ↔ ∃ e ∈ w.events, e.creates c = true
  standing : ∀ c p, (w.store.context c).parent = some p → w.Fresh c p ∨ w.Stale c p

theorem context_init (objects : Objects) (c : ContextId) :
    (init objects).store.context c = default := by
  simp [init, Store.context, Array.getD_eq_getD_getElem?]

theorem sound_init (objects : Objects) : (init objects).Sound where
  ordered c p hp := by rw [context_init] at hp; cases hp
  created c := by simp [init, Store.Has]
  standing c p hp := by rw [context_init] at hp; cases hp

/-- **One change keeps every child fresh or makes it stale**, and never the other way round. -/
theorem Sound.change {w w' : World} {new : List Event} (hw : w.Sound)
    (h : w.store.Change w'.store new) (he : w'.events = w.events ++ new) : w'.Sound where
  ordered := h.ordered hw.ordered
  created c := by
    rw [h.made, hw.created, he]
    simp [or_and_right, exists_or]
  standing c p hp := by
    by_cases hc : w.store.Has c
    · -- a context made before: its snapshot stays, and its parent may have been written to
      obtain ⟨hpar, -, -, hsnap⟩ := h.origin hc
      rw [hpar] at hp
      have hhp := hw.ordered.has_parent hp
      have hver := h.version hhp
      have hsince : Event.since c w'.events = Event.since c w.events ++ new := by
        rw [he]; exact Event.since_append ((hw.created c).1 hc) new
      by_cases hwr : ∃ e ∈ new, e.writes p = true
      · have hpos : 0 < new.countP (Event.writes p) := List.countP_pos_iff.2 hwr
        refine .inr ⟨?_, ?_⟩
        · rcases hw.standing c p hp with ⟨hs, hm, -⟩ | ⟨hs, -⟩
          · -- the mark makes the first write move the version, even where only that one does
            have := VersionPolicy.advance_pos (w.store.policy p) hpos
            rw [hm] at hver
            omega
          · omega
        · obtain ⟨e, hmem, hew⟩ := hwr
          exact ⟨e, by rw [hsince]; exact List.mem_append_right _ hmem, hew⟩
      · have hzero : new.countP (Event.writes p) = 0 :=
          List.countP_eq_zero.2 fun e he hw => hwr ⟨e, he, hw⟩
        rw [hzero, VersionPolicy.advance_zero] at hver
        rcases hw.standing c p hp with ⟨hs, hm, hno⟩ | ⟨hs, e, hmem, hew⟩
        · refine .inl ⟨by omega, h.pending_of_no_write hhp hzero hm, ?_⟩
          rintro ⟨e, hmem, hew⟩
          rw [hsince] at hmem
          rcases List.mem_append.1 hmem with hmem | hmem
          · exact hno ⟨e, hmem, hew⟩
          · exact hwr ⟨e, hmem, hew⟩
        · exact .inr ⟨by omega, e, by rw [hsince]; exact List.mem_append_left _ hmem, hew⟩
    · -- a child made just now is fresh: the mark was set for it
      rcases h.born hc (Store.has_of_parent hp) with ⟨h0, -⟩ | ⟨q, -, hnew, hcq, hsnap, -, hver, hm⟩
      · rw [h0] at hp; cases hp
      · rw [hcq] at hp
        cases hp
        refine .inl ⟨by omega, hm, ?_⟩
        rw [he, Event.since_append_of_new (mt (hw.created c).2 hc), hnew]
        simp [Event.since, Event.creates]

/-- What the regime does to the objects leaves the contexts alone. -/
theorem Sound.prepared {w : World} (hw : w.Sound) (regime : Regime) :
    Sound { w with store := w.prepared regime } :=
  ⟨hw.ordered, hw.created, hw.standing⟩

theorem Sound.step {w : World} (hw : w.Sound) (regime : Regime) (a : Action) :
    (w.step regime a).Sound := by
  by_cases ha : (w.prepared regime).Admits a
  · have hw' := hw.prepared regime
    rw [step_of_admits ha]
    exact hw'.change (Store.perform_change hw'.ordered ha) rfl
  · rw [step_of_not_admits ha]; exact hw

theorem Sound.steps {w : World} (hw : w.Sound) (regime : Regime) (actions : List Action) :
    (actions.foldl (World.step regime) w).Sound := by
  induction actions generalizing w with
  | nil => exact hw
  | cons a actions ih => exact ih (hw.step regime a)

/-- **Every run is sound.** -/
theorem sound_run (regime : Regime) (objects : Objects) (actions : List Action) :
    (run regime objects actions).Sound :=
  (sound_init objects).steps regime actions

/-- What the versions of a child and its parent say: whether the parent was written to since. -/
theorem Sound.fresh_iff {w : World} (hw : w.Sound) {c p : ContextId}
    (hp : (w.store.context c).parent = some p) :
    (w.store.context p).version = (w.store.context c).snapshot ↔
      ¬ ∃ e ∈ Event.since c w.events, e.writes p = true := by
  rcases hw.standing c p hp with ⟨hs, -, hno⟩ | ⟨hs, hwr⟩
  · exact ⟨fun _ => hno, fun _ => hs.symm⟩
  · exact ⟨fun h => absurd h (by omega), fun h => absurd hwr h⟩

/-- **A commit is refused exactly when the parent was written to** after the child was created. The
refusal names the version at the creation and the later one that the parent is at. -/
theorem commit_iff_unwritten (regime : Regime) (objects : Objects) (script : Script)
    {c p : ContextId} :
    let w := script.world regime objects
    (w.store.context c).parent = some p →
      ((w.store.commit c).1 = .ok () ↔ ¬ ∃ e ∈ Event.since c w.events, e.writes p = true) ∧
      ((w.store.commit c).1 ≠ .ok () →
        ∃ ref was now, (w.store.commit c).1 = .error (.fault ref) ∧ ref.kind = .staleContext ∧
          (w.store.commit c).2.objects.attribute? ref.value "expected_version" =
            some (.int was (w.store.context c).snapshot) ∧
          (w.store.commit c).2.objects.attribute? ref.value "actual_version" =
            some (.int now (w.store.context p).version) ∧
          (w.store.context c).snapshot < (w.store.context p).version) := by
  intro w hp
  obtain ⟨actions, hrun⟩ := script.exists_run regime objects
  have hw : w.Sound := by rw [show w = _ from hrun]; exact sound_run regime objects actions
  rcases hw.standing c p hp with ⟨hs, -, hno⟩ | ⟨hs, hwr⟩
  · have hok := (Store.contexts_commit_of_fresh w.store hp hs.symm).1
    exact ⟨⟨fun _ => hno, fun _ => hok⟩, fun h => absurd hok h⟩
  · obtain ⟨ref, was, now, herr, hkind, hexp, hact⟩ := w.store.commit_of_stale hp (by omega)
    have hne : (w.store.commit c).1 ≠ .ok () := by rw [herr]; nofun
    exact ⟨⟨fun h => absurd h hne, fun h => absurd hwr h⟩,
      fun _ => ⟨ref, was, now, herr, hkind, hexp, hact, hs⟩⟩

/-- A block called on a child of the root writes to the child, then to the root. -/
def lateWrite : Script :=
  .act (.createRoot none none) fun _ =>
    .inChild ⟨0⟩
      (fun child => .act (.recordType child .absent (.nilType ⟨1⟩)) fun _ =>
        .act (.recordType ⟨0⟩ .absent (.anyType ⟨2⟩)) fun _ => .done (.ok ()))
      .done

/-- The child of `lateWrite` cannot be committed any more. -/
theorem commit_refused_of_lateWrite :
    let w := lateWrite.world (fun _ objects => objects) {}
    (w.store.context ⟨1⟩).parent = some ⟨0⟩ ∧ (w.store.commit ⟨1⟩).1 ≠ .ok () ∧
      (w.store.context ⟨1⟩).snapshot < (w.store.context ⟨0⟩).version := by
  intro w
  have hp : (w.store.context ⟨1⟩).parent = some ⟨0⟩ := rfl
  obtain ⟨hiff, hwhy⟩ := commit_iff_unwritten (fun _ objects => objects) {} lateWrite hp
  have hw : ∃ e ∈ Event.since ⟨1⟩ w.events, e.writes ⟨0⟩ = true :=
    ⟨.entered ⟨0⟩ (.nodeType .absent (.anyType ⟨2⟩)), .tail _ (.head _), rfl⟩
  have hne : (w.store.commit ⟨1⟩).1 ≠ .ok () := fun h => hiff.1 h hw
  obtain ⟨-, -, -, -, -, -, -, hlt⟩ := hwhy hne
  exact ⟨hp, hne, hlt⟩

end World

end TypingStore
