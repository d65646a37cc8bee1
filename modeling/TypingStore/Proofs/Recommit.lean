import TypingStore.Proofs.Later

/-!
# Committing a branch again

A branch does not know that it was committed. A second commit is refused when the parent was written
to since the branch was made, and the first commit may have been such a write, but it need not: it
is none if the branch held no types. **Then the branch can be committed again, and its errors are in
the parent twice** (`commit_again_iff`). Types never are.

* `Store.commit_eq_ok_iff`: what it takes to commit.
-/

namespace TypingStore

/-- A commit goes through when the parent is at the version it had when the branch was made. -/
theorem Store.commit_eq_ok_iff {s : Store} {c : ContextId} :
    (s.commit c).1 = .ok () ↔ ∃ p, (s.context c).parent = some p ∧
      (s.context p).version = (s.context c).snapshot := by
  constructor
  · intro hok
    cases hp : (s.context c).parent with
    | none => simp [commit, hp, fail] at hok
    | some p =>
      refine ⟨p, rfl, Decidable.byContradiction fun hv => ?_⟩
      obtain ⟨ref, -, -, herr, -⟩ := s.commit_of_stale hp hv
      rw [herr] at hok; cases hok
  · rintro ⟨p, hp, hv⟩
    exact (contexts_commit_of_fresh s hp hv).1

namespace World

/-- After a commit the parent holds what it held and what the branch holds. -/
theorem later_commit {w : World} (hw : w.Sound) (regime : Regime) {c p : ContextId}
    (hp : (w.store.context c).parent = some p)
    (hv : (w.store.context p).version = (w.store.context c).snapshot) :
    w.Later ((w.store.context c).entries.map (.entered p)) (w.step regime (.commit c)) := by
  have hok : ((w.prepared regime).commit c).1 = .ok () := Store.commit_eq_ok_iff.2 ⟨p, hp, hv⟩
  have hadmits : (w.prepared regime).Admits (.commit c) := by
    intro d hd
    obtain rfl : c = d := by simpa [Action.context?] using hd
    exact Store.has_of_parent hp
  have hevents : (w.prepared regime).eventsOf (.commit c) =
      (w.store.context c).entries.map (.entered p) := by
    have hp' : ((w.prepared regime).context c).parent = some p := hp
    simp only [Store.eventsOf, hok, hp']
    rfl
  rw [← hevents]
  exact later_step hw.ordered regime hadmits

/-- **When a branch can be committed again.** Once it has been committed, it can be committed again
exactly if it held no types then and nothing has been written to the parent since. A refused commit
is refused as stale and touches no context. An accepted one hands the errors over that were handed
over before. -/
theorem commit_again_iff (regime : Regime) (objects : Objects) (before after : List Action)
    {c : ContextId} :
    let w := run regime objects before
    let handed := run regime objects (before ++ [.commit c])
    let w' := run regime objects (before ++ [.commit c] ++ after)
    (w.store.commit c).1 = .ok () →
    ∃ p new, (w.store.context c).parent = some p ∧ w'.events = handed.events ++ new ∧
      ((w'.store.commit c).1 = .ok () ↔
        (w.store.context c).nodeTypes.size = 0 ∧ (w.store.context c).varTypes.size = 0 ∧
          ¬ ∃ e ∈ new, e.writes p = true) ∧
      ((w'.store.commit c).1 ≠ .ok () →
        (∃ ref, (w'.store.commit c).1 = .error (.fault ref) ∧ ref.kind = .staleContext) ∧
          (w'.store.commit c).2.contexts = w'.store.contexts) ∧
      ((w'.store.commit c).1 = .ok () →
        ∃ others later, ((w'.store.commit c).2.context p).errors =
          (w.store.context p).errors ++ (w.store.context c).errors ++ others
            ++ ((w.store.context c).errors ++ later)) := by
  intro w handed w' hok
  have hw : w.Sound := sound_run regime objects before
  have hhanded : handed = w.step regime (.commit c) := by
    simp only [handed, w, run, List.foldl_append, List.foldl_cons, List.foldl_nil]
  have hw' : w'.Sound := sound_run regime objects _
  obtain ⟨p, hp, hv⟩ := Store.commit_eq_ok_iff.1 hok
  have hc : w.store.Has c := Store.has_of_parent hp
  have hhp : w.store.Has p := hw.ordered.has_parent hp
  have hfirst := later_commit hw regime hp hv
  rw [← hhanded] at hfirst
  obtain ⟨new, hrest⟩ :=
    (hhanded ▸ hw.step regime (.commit c) : handed.Sound).exists_later regime after
  have hfold : after.foldl (step regime) handed = w' := (List.foldl_append ..).symm
  rw [hfold] at hrest
  have hall := hfirst.trans hrest
  have hp' : (w'.store.context c).parent = some p := (hall.parent c hc).trans hp
  refine ⟨p, new, hp, hrest.events, ?_, ?_, ?_⟩
  · -- nothing was written before the first commit, as it went through
    have hnone := (hw.fresh_iff hp).1 hv
    have hsince : Event.since c w'.events = Event.since c w.events ++
        ((w.store.context c).entries.map (.entered p) ++ new) := by
      rw [hall.events]; exact Event.since_append ((hw.created c).1 hc) _
    have hwrites := @Store.exists_writes_map p p (w.store.context c).entries
    rw [Context.exists_isWrite_entries] at hwrites
    have hiff : (w'.store.commit c).1 = .ok () ↔
        ¬ ∃ e ∈ Event.since c w'.events, e.writes p = true := by
      rw [← hw'.fresh_iff hp', Store.commit_eq_ok_iff]
      simp [hp']
    rw [hiff, hsince]
    simp only [List.mem_append, or_and_right, exists_or, hnone, hwrites, false_or, true_and,
      not_or, ne_eq, Decidable.not_not, and_assoc]
  · intro hne
    have hv' : (w'.store.context p).version ≠ (w'.store.context c).snapshot := fun h =>
      hne (Store.commit_eq_ok_iff.2 ⟨p, hp', h⟩)
    obtain ⟨ref, -, -, herr, hkind, -⟩ := w'.store.commit_of_stale hp' hv'
    exact ⟨⟨ref, herr, hkind⟩, Store.contexts_commit_of_stale _ hp' hv'⟩
  · intro hok'
    obtain ⟨q, hq, hv'⟩ := Store.commit_eq_ok_iff.1 hok'
    obtain rfl : q = p := by rw [hp'] at hq; exact (Option.some.inj hq).symm
    obtain ⟨others, hothers⟩ := hrest.errors (hfirst.has q hhp)
    obtain ⟨later, hlater⟩ := hall.errors hc
    have hparent : (handed.store.context q).errors =
        (w.store.context q).errors ++ (w.store.context c).errors := by
      rw [(hfirst.grows q hhp).errors, Event.filterMap_entryIn_map, if_pos rfl,
        (Context.filterMap_entries _).2.2]
    have hcommit := (Store.contexts_commit_of_fresh w'.store hp' hv').2
    refine ⟨others, later, ?_⟩
    rw [Store.context_congr hcommit, Store.context_update, if_pos ⟨rfl, hall.has q hhp⟩,
      Context.errors_absorb, hothers, hparent, hlater]

/-- A branch that holds an error and no types. -/
def errorOnly : List Action := [.createRoot none none, .spawn ⟨0⟩, .addError ⟨1⟩ (.nilType ⟨1⟩)]

/-- Another branch is made, and an error is added to the root. -/
def meanwhile : List Action := [.spawn ⟨0⟩, .addError ⟨0⟩ (.anyType ⟨2⟩)]

/-- The branch is committed a second time, and its error is in the root twice. -/
theorem errorOnly_twice :
    let idle : Regime := fun _ objects => objects
    let w := run idle {} errorOnly
    let w' := run idle {} (errorOnly ++ [.commit ⟨1⟩] ++ meanwhile)
    (w.store.commit ⟨1⟩).1 = .ok () ∧ (w'.store.commit ⟨1⟩).1 = .ok () ∧
      ∃ others later, ((w'.store.commit ⟨1⟩).2.context ⟨0⟩).errors =
        [.nilType ⟨1⟩] ++ others ++ ([.nilType ⟨1⟩] ++ later) := by
  intro idle w w'
  have hok : (w.store.commit ⟨1⟩).1 = .ok () :=
    Store.commit_eq_ok_iff.2 ⟨⟨0⟩, by decide +kernel, by decide +kernel⟩
  obtain ⟨p, new, hp, hevents, hiff, -, htwice⟩ := commit_again_iff idle {} errorOnly meanwhile hok
  have hroot : (w.store.context ⟨1⟩).parent = some ⟨0⟩ := by decide +kernel
  obtain rfl : p = ⟨0⟩ := Option.some.inj (hp.symm.trans hroot)
  have hnone : ∀ e ∈ w'.events, e.writes ⟨0⟩ = false := by decide +kernel
  have hwrites : ¬ ∃ e ∈ new, e.writes ⟨0⟩ = true := by
    rintro ⟨e, he, hw⟩
    have hmem : e ∈ w'.events := by rw [hevents]; exact List.mem_append_right _ he
    rw [hnone e hmem] at hw; cases hw
  have hok' := hiff.2 ⟨by decide +kernel, by decide +kernel, hwrites⟩
  exact ⟨hok, hok', htwice hok'⟩

end World

end TypingStore
