import TypingStore.Proofs.Outside

/-!
# Abandoned branches have no influence

A run is taken again without the branch of a context that is never committed: neither is the context
made, nor is anything done to it or to what is below it. Every operation that remains finds the
objects as it found them before, and ends as it did before; every context that remains holds and
sees the same (`World.run_without`).

The branch has left its mark on one context outside, the parent: it was told that it has a child, so
its versions advance otherwise, and with them all snapshots taken from it. The two runs are compared
apart from versions and marks (`Store.Without`). That they still refuse the same commits is a matter
of the events, which are the same outside the branch (`World.Without.fresh_iff`).
-/

namespace TypingStore

/-- Objects were added, and those that were there are as they were. -/
structure Objects.Added (objects objects' : Objects) : Prop where
  attributesAt : ∀ i < objects.attributes.size,
    objects'.attributesAt i = objects.attributesAt i
  canonical : objects'.canonical = objects.canonical

theorem Objects.Added.refl (objects : Objects) : objects.Added objects := ⟨fun _ _ => rfl, rfl⟩

theorem Objects.added_add (objects : Objects) (attributes : List (String × Value)) :
    objects.Added (objects.add attributes) := by
  refine ⟨fun i hi => ?_, rfl⟩
  simp [Objects.attributesAt, Objects.add, Array.getD_eq_getD_getElem?, Array.getElem?_push,
    Nat.ne_of_lt hi]

/-- An assignment that is made changes one object. -/
theorem Objects.exists_set_of_assign {objects after : Objects} {target : Value} {field : String}
    {new : Value} (h : objects.assign target field new = .ok after) :
    ∃ index w, target.index? = some index ∧ after = objects.set index field w := by
  have hset : ∀ {index : Nat} {kept : Except Failure Value},
      kept.map (objects.set index field) = .ok after → ∃ w, after = objects.set index field w := by
    intro index kept hkept
    cases kept with
    | error failure => cases hkept
    | ok w => exact ⟨w, (Except.ok.inj hkept).symm⟩
  cases target with
  | record ref | individual ref =>
    obtain ⟨w, hw⟩ := hset h
    exact ⟨ref.index, w, rfl, hw⟩
  | _ => cases h

/-- The ways in which an operation can change the objects. -/
inductive Objects.Step (a : Action) (objects : Objects) : Objects → Prop where
  /-- The objects stay as they were. -/
  | same : Step a objects objects
  /-- An object is made, after so many numbers. -/
  | made (numbers : Nat) (attributes : List (String × Value)) :
    Step a objects
      (Objects.add { objects with nextStamp := objects.nextStamp + numbers } attributes)
  /-- An object is changed by an assignment. -/
  | changed (target : Value) (field : String) (new : Value) (ha : a = .assign target field new)
    (index : Nat) (hindex : target.index? = some index) (w : Value) :
    Step a objects (objects.set index field w)

namespace Store

variable {t s s' : Store} {c d : ContextId} {a : Action}

/-- **What an operation does to the objects.** -/
theorem perform_objects (s : Store) (a : Action) : s.objects.Step a (s.perform a).2.objects := by
  cases a with
  | createRoot settings summarizer =>
    cases settings with
    | none => exact .made 0 _
    | some ref => exact .same
  | recordVariable d name type =>
    simp only [Store.perform, Store.recordVariable]
    cases handleOf name <;> exact .same
  | commit d =>
    simp only [Store.perform, Store.commit]
    cases (s.context d).parent with
    | none => exact .made 0 _
    | some p =>
      dsimp only
      split
      · -- the fault holds two numbers
        exact .made 2 _
      · exact .same
  | typeOf d node =>
    simp only [Store.perform, Store.typeOf]
    cases s.findType d node with
    | none => exact .made 0 _
    | some type => exact .same
  | variableTypeOf d name =>
    simp only [Store.perform, Store.variableTypeOf]
    cases handleOf name with
    | error failure => exact .same
    | ok handle =>
      dsimp only
      cases s.findVariable d handle with
      | none => exact .made 0 _
      | some type => exact .same
  | assign target field new =>
    simp only [Store.perform]
    cases hassign : s.objects.assign target field new with
    | error failure => exact .same
    | ok after =>
      obtain ⟨index, w, hindex, rfl⟩ := Objects.exists_set_of_assign hassign
      exact .changed target field new rfl index hindex w
  | newRecord kind fields others => exact .made 0 _
  | newIndividual kind attributes => exact .made 0 _
  | _ => exact .same

/-- No operation but an assignment changes an object that is there. -/
theorem added_perform (s : Store) (ha : ∀ target field new, a ≠ .assign target field new) :
    s.objects.Added (s.perform a).2.objects := by
  have hstep := s.perform_objects a
  generalize (s.perform a).2.objects = objects' at hstep
  cases hstep with
  | same => exact .refl _
  | made numbers attributes =>
    have hadded := Objects.added_add { s.objects with nextStamp := s.objects.nextStamp + numbers }
      attributes
    exact ⟨hadded.attributesAt, rfl⟩
  | changed target field new heq => exact absurd heq (ha target field new)

/-- **An operation of the branch only adds objects**, and changes none that anything else knows. -/
theorem OfBranch.added (h : t.OfBranch c s a) : s.objects.Added (s.perform a).2.objects := by
  refine s.added_perform ?_
  rintro target field new rfl
  rcases h with ⟨d, hd, -⟩ | ⟨e, he, -⟩
  · cases hd
  · cases he

/-- The same contexts, with other objects. -/
def withObjects (s : Store) (objects : Objects) : Store := { s with objects := objects }

/-- The context `d'` of `s'` reads as `d` of `s`: it holds the same, and answers the same for the
same objects. -/
structure ReadsAs (s : Store) (d : ContextId) (s' : Store) (d' : ContextId) : Prop where
  depth : s'.depth d' = s.depth d
  typings : s'.typings d' = s.typings d
  varTypes : (s'.context d').varTypes = (s.context d).varTypes
  errors : (s'.context d').errors = (s.context d).errors
  typeOf : ∀ objects node,
    ((s'.withObjects objects).typeOf d' node).1 = ((s.withObjects objects).typeOf d node).1
  variableTypeOf : ∀ objects name,
    ((s'.withObjects objects).variableTypeOf d' name).1 =
      ((s.withObjects objects).variableTypeOf d name).1
  diagnostics : ∀ objects unit filename,
    (s'.withObjects objects).diagnostics d' unit filename =
      (s.withObjects objects).diagnostics d unit filename
  dump : ∀ objects, (s'.withObjects objects).dump d' = (s.withObjects objects).dump d

theorem Without.readsAs (h : t.Without c s s') (ht : t.Ordered) (hs : s.Ordered) (hs' : s'.Ordered)
    (hd : s.Has d) (hout : ¬ t.InBranch c d) : s.ReadsAs d s' (t.renumber c d) := by
  have hcopy := h.copy d hd hout
  have hobjects : ∀ objects, t.Without c (s.withObjects objects) (s'.withObjects objects) :=
    fun _ => h.congr rfl rfl
  exact {
    depth := h.depth ht hs hs' hd hout
    typings := h.typings hd hout
    varTypes := hcopy.varTypes
    errors := hcopy.errors
    typeOf := fun objects node => ((hobjects objects).typeOf ht hs hs' hd hout rfl node).1
    variableTypeOf := fun objects name =>
      ((hobjects objects).variableTypeOf ht hs hs' hd hout rfl name).1
    diagnostics := fun objects => (hobjects objects).diagnostics rfl hd hout
    dump := fun objects => (hobjects objects).dump rfl hd hout }

end Store

namespace World

/-! ## The run without the branch -/

/-- An operation of a run that remains: the objects it found, how it ended, and the objects it
left. -/
structure Kept where
  objects : Objects
  action : Action
  outcome : Outcome
  left : Objects

/-- An operation as it is carried out in `s`. -/
def Kept.of (s : Store) (a : Action) : Kept :=
  ⟨s.objects, a, (s.perform a).1, (s.perform a).2.objects⟩

/-- The operations that remain without the branch of `c`, out of those that come next. Which
contexts are in the branch is told by the parents in `t`. -/
def remaining (regime : Regime) (t : Store) (c : ContextId) : World → List Action → List Kept
  | _, [] => []
  | w, a :: actions =>
    let s := w.prepared regime
    let rest := remaining regime t c (w.step regime a) actions
    if s.Admits a ∧ ¬ t.OfBranch c s a then .of s a :: rest else rest

/-- Every operation finds the objects that it found before. -/
def finding (kept : List Kept) : Regime := fun i objects => (kept[i]?.map Kept.objects).getD objects

/-- The operation is taken again in `s'` on contexts of other ids: it can be carried out, ends as it
did, and leaves the objects as it did, up to versions and words. -/
structure Kept.TakenAgain (k : Kept) (f : ContextId → ContextId) (s' : Store) : Prop where
  admits : s'.Admits (k.action.renumber f)
  outcome : k.action.SameOutcome (Outcome.renumber f k.outcome)
    (s'.perform (k.action.renumber f)).1
  left : (s'.perform (k.action.renumber f)).2.objects.hide versionNames = k.left.hide versionNames

/-- The world `v` is `w` without the branch of `c`. -/
structure Without (t : Store) (c : ContextId) (w v : World) : Prop where
  store : t.Without c w.store v.store
  events : v.events = w.events.filterMap (Event.without t c)

namespace Without

variable {t : Store} {c : ContextId} {w v : World} {regime regime' : Regime} {a : Action}

/-- The same commits are refused outside the branch. -/
theorem fresh_iff (h : Without t c w v) (ht : t.Ordered) (hw : w.Sound) (hv : v.Sound)
    {d p : ContextId} (hout : ¬ t.InBranch c d) (hp : (w.store.context d).parent = some p) :
    (w.store.context p).version = (w.store.context d).snapshot ↔
      (v.store.context (t.renumber c p)).version = (v.store.context (t.renumber c d)).snapshot := by
  have hpout := h.store.outside_parent ht hout hp
  have hp' : (v.store.context (t.renumber c d)).parent = some (t.renumber c p) := by
    rw [(h.store.copy d (Store.has_of_parent hp) hout).parent, hp, Option.map_some]
  rw [hw.fresh_iff hp, hv.fresh_iff hp', h.events, Event.since_without hout,
    Event.exists_writes_without hpout]

/-- **An operation outside the branch is taken again.** -/
theorem step (h : Without t c w v) (ht : t.Ordered) (hw : w.Sound) (hv : v.Sound)
    (ho : (v.prepared regime').objects = (w.prepared regime).objects)
    (ha : (w.prepared regime).Admits a) (hout : ¬ t.OfBranch c (w.prepared regime) a)
    (hwithin : ∀ d, (w.step regime a).store.Has d →
      (t.context d).parent = ((w.step regime a).store.context d).parent) :
    Without t c (w.step regime a) (v.step regime' (a.renumber (t.renumber c))) ∧
      (Kept.of (w.prepared regime) a).TakenAgain (t.renumber c) (v.prepared regime') := by
  have hp : t.Without c (w.prepared regime) (v.prepared regime') := h.store.congr rfl rfl
  have hself : ∀ d ∈ a.context?, ¬ t.InBranch c d := fun d hd hin => hout (.inl ⟨d, hd, hin⟩)
  have ha' := hp.admits ha hself
  have hfresh : ∀ d p, a = .commit d → ((w.prepared regime).context d).parent = some p →
      (((w.prepared regime).context p).version = ((w.prepared regime).context d).snapshot ↔
        ((v.prepared regime').context (t.renumber c p)).version =
          ((v.prepared regime').context (t.renumber c d)).snapshot) := by
    rintro d p rfl hdp
    exact h.fresh_iff ht hw hv (hself d rfl) hdp
  rw [step_of_admits ha] at hwithin
  obtain ⟨hsame, hstore, hevents, hobjects⟩ :=
    hp.perform ho ha hself ht hw.ordered hv.ordered hfresh hout hwithin
  rw [step_of_admits ha, step_of_admits ha']
  refine ⟨⟨hstore, ?_⟩, ⟨ha', hsame, hobjects⟩⟩
  simp only [h.events, hevents, List.filterMap_append]

/-- **An operation of the branch is left out**, and nothing outside misses it. -/
theorem skip (h : Without t c w v) (ht : t.Ordered) (hw : w.Sound)
    (ha : (w.prepared regime).Admits a) (hin : t.OfBranch c (w.prepared regime) a)
    (hnever : a = .commit c → ((w.prepared regime).commit c).1 ≠ .ok ())
    (hwithin : ∀ d, (w.step regime a).store.Has d →
      (t.context d).parent = ((w.step regime a).store.context d).parent) :
    Without t c (w.step regime a) v := by
  have hp : t.Without c (w.prepared regime) v.store := h.store.congr rfl rfl
  have hord : (w.prepared regime).Ordered := hw.ordered
  have hchange := Store.perform_change hord ha
  rw [step_of_admits ha] at hwithin ⊢
  have hevents := hin.inBranch_about ht hchange hwithin hnever
  refine ⟨hp.skip hchange hevents hwithin, ?_⟩
  rw [List.filterMap_append, Event.filterMap_without_of_inBranch hevents, List.append_nil, h.events]

/-- **A run is taken again without the branch**, operation by operation. -/
theorem steps {actions : List Action} (h : Without t c w v) (hw : w.Sound) (hv : v.Sound)
    (hfinal : (actions.foldl (World.step regime) w).store = t)
    (hnever : ∀ before after, actions = before ++ .commit c :: after →
      (((before.foldl (World.step regime) w).prepared regime).commit c).1 ≠ .ok ())
    (hfind : ∀ (i : Nat) k, (remaining regime t c w actions)[i]? = some k →
      ∀ objects, regime' (v.outcomes.length + i) objects = k.objects) :
    let kept := remaining regime t c w actions
    let again := fun k : Kept => k.action.renumber (t.renumber c)
    Without t c (actions.foldl (World.step regime) w)
        ((kept.map again).foldl (World.step regime') v) ∧
      ∀ before k after, kept = before ++ k :: after →
        k.TakenAgain (t.renumber c)
          (((before.map again).foldl (World.step regime') v).prepared regime') := by
  induction actions generalizing w v with
  | nil => exact ⟨h, fun before k after hk => by cases before <;> cases hk⟩
  | cons a actions ih =>
    have hw1 := hw.step regime a
    have ht : t.Ordered := by
      rw [← hfinal]; exact (hw1.steps regime actions).ordered
    -- no context gets another parent on the way to the end of the run
    have hwithin : ∀ d, (w.step regime a).store.Has d →
        (t.context d).parent = ((w.step regime a).store.context d).parent := by
      obtain ⟨new, hlater⟩ := hw1.exists_later regime actions
      rw [← hfinal]
      exact hlater.parent
    have hnever' : ∀ before after, actions = before ++ .commit c :: after →
        (((before.foldl (World.step regime) (w.step regime a)).prepared regime).commit c).1 ≠
          .ok () := fun before after he => hnever (a :: before) after (by rw [he]; rfl)
    by_cases hkept : (w.prepared regime).Admits a ∧ ¬ t.OfBranch c (w.prepared regime) a
    · obtain ⟨ha, hout⟩ := hkept
      have hrem : remaining regime t c w (a :: actions) =
          .of (w.prepared regime) a :: remaining regime t c (w.step regime a) actions :=
        if_pos ⟨ha, hout⟩
      rw [hrem] at hfind ⊢
      have ho : (v.prepared regime').objects = (w.prepared regime).objects :=
        hfind 0 _ rfl v.store.objects
      obtain ⟨h1, hagain⟩ := h.step ht hw hv ho ha hout hwithin
      have ha' : (v.prepared regime').Admits (a.renumber (t.renumber c)) := hagain.admits
      have hone : (v.step regime' (a.renumber (t.renumber c))).outcomes.length =
          v.outcomes.length + 1 := by
        rw [step_of_admits ha', List.length_append, List.length_singleton]
      obtain ⟨h2, hall⟩ := ih h1 hw1 (hv.step regime' _) hfinal hnever' fun i k hk objects => by
        rw [hone, Nat.add_assoc, Nat.add_comm 1 i]
        exact hfind (i + 1) k hk objects
      refine ⟨h2, fun before k after hk => ?_⟩
      cases before with
      | nil =>
        cases hk
        exact hagain
      | cons k' before =>
        obtain ⟨hhead, htail⟩ := List.cons_eq_cons.1 hk
        subst hhead
        exact hall before k after htail
    · have hrem : remaining regime t c w (a :: actions) =
          remaining regime t c (w.step regime a) actions := if_neg hkept
      rw [hrem] at hfind ⊢
      have h1 : Without t c (w.step regime a) v := by
        by_cases ha : (w.prepared regime).Admits a
        · have hin := Decidable.byContradiction fun hout => hkept ⟨ha, hout⟩
          exact h.skip ht hw ha hin (fun hc => hnever [] actions (by rw [hc]; rfl)) hwithin
        · rw [step_of_not_admits ha]; exact h
      exact ih h1 hw1 hv hfinal hnever' hfind

end Without

/-- **An abandoned branch has no influence.** If a context is never committed, a run can be taken
again without its branch: without the operations that make it or are about it or anything below it.
Every other operation, on the same objects, ends as it did, and leaves the objects as it did, up to
versions and words. The contexts are those outside the branch; each holds what it held, and answers
what it answered. The operations that are left out did no more to the objects than add some. -/
theorem run_without (regime : Regime) (objects : Objects) (actions : List Action) (c : ContextId)
    (hnever : ∀ before after, actions = before ++ .commit c :: after →
      (((run regime objects before).prepared regime).commit c).1 ≠ .ok ()) :
    let w := run regime objects actions
    let id := w.store.renumber c
    let kept := remaining regime w.store c (init objects) actions
    let again := fun k : Kept => k.action.renumber id
    let v := run (finding kept) objects (kept.map again)
    (∀ before k after, kept = before ++ k :: after →
      k.TakenAgain id ((run (finding kept) objects (before.map again)).prepared (finding kept))) ∧
    (∀ d', v.store.Has d' → ∃ d, w.store.Has d ∧ ¬ w.store.InBranch c d ∧ id d = d') ∧
    (∀ d, w.store.Has d → ¬ w.store.InBranch c d →
      v.store.Has (id d) ∧ w.store.ReadsAs d v.store (id d) ∧
      (v.store.context (id d)).parent = (w.store.context d).parent.map id ∧
      ∀ e, w.store.Has e → ¬ w.store.InBranch c e → id e = id d → e = d) ∧
    ∀ before a after, actions = before ++ a :: after →
      let s := (run regime objects before).prepared regime
      w.store.OfBranch c s a → s.objects.Added (s.perform a).2.objects := by
  intro w id kept again v
  have hw : w.Sound := sound_run regime objects actions
  have hv : v.Sound := sound_run (finding kept) objects _
  have hhas : ∀ d, ¬ (init objects).store.Has d := fun d hd => Nat.not_lt_zero _ hd
  have hinit : Without w.store c (init objects) (init objects) :=
    ⟨⟨fun d hd => absurd hd (hhas d), rfl, fun d hd => absurd hd (hhas d)⟩, rfl⟩
  have hfind : ∀ (i : Nat) k, kept[i]? = some k →
      ∀ objects', finding kept ((init objects).outcomes.length + i) objects' = k.objects := by
    intro i k hk objects'
    simp only [finding, init, List.length_nil, Nat.zero_add, hk, Option.map_some, Option.getD_some]
  obtain ⟨h, hagain⟩ := hinit.steps (sound_init objects) (sound_init objects) rfl hnever hfind
  have hstore : w.store.Without c w.store v.store := h.store
  refine ⟨hagain, fun d' hd' => ?_, fun d hd hout => ?_, fun _ _ _ _ => Store.OfBranch.added⟩
  · simp only [Store.Has, hstore.size] at hd'
    obtain ⟨d, hd, hout, hid⟩ := Store.exists_renumber hd'
    exact ⟨d, hd, hout, hid⟩
  · exact ⟨hstore.has hd hout, hstore.readsAs hw.ordered hw.ordered hv.ordered hd hout,
      (hstore.copy d hd hout).parent, fun e he heout hid => (Store.renumber_inj heout hout).1 hid⟩

/-- Two branches of a root. The first one, with a branch of its own, comes too late to be committed
after the second. -/
def twoBranches : List Action :=
  [.createRoot none none, .spawn ⟨0⟩, .spawn ⟨0⟩, .spawn ⟨1⟩,
    .recordType ⟨3⟩ .absent (.nilType ⟨1⟩), .commit ⟨3⟩, .recordType ⟨2⟩ .absent (.anyType ⟨2⟩),
    .commit ⟨2⟩, .commit ⟨1⟩, .spawn ⟨0⟩, .typeOf ⟨4⟩ .absent]

/-- The first branch is committed once, and refused. -/
theorem twoBranches_refused (before after : List Action)
    (he : twoBranches = before ++ .commit ⟨1⟩ :: after) :
    (((run (fun _ objects => objects) {} before).prepared fun _ objects => objects).commit
      ⟨1⟩).1 ≠ .ok () := by
  have hlen : before.length < twoBranches.length := by rw [he]; simp
  have htake : before = twoBranches.take before.length := by rw [he]; simp
  have hget : twoBranches[before.length]? = some (.commit ⟨1⟩) := by rw [he]; simp
  generalize before.length = n at hlen htake hget
  obtain rfl : n = 8 := by
    rcases n with _ | _ | _ | _ | _ | _ | _ | _ | _ | _ | _ | n
    all_goals first | rfl | simp [twoBranches] at hget
  subst htake
  have hp : ((run (fun _ objects => objects) {} (twoBranches.take 8)).store.context
      ⟨1⟩).parent = some ⟨0⟩ := by decide +kernel
  obtain ⟨ref, -, -, hrefused, -⟩ := Store.commit_of_stale
    (run (fun _ objects => objects) {} (twoBranches.take 8)).store hp (by decide +kernel)
  exact fun hok => by cases hrefused.symm.trans hok

/-- Without the first branch, six operations remain, and the last context is the third one. It still
reads as before. -/
theorem run_without_first :
    let idle : Regime := fun _ objects => objects
    let w := run idle {} twoBranches
    let kept := remaining idle w.store ⟨1⟩ (init {}) twoBranches
    let v := run (finding kept) {} (kept.map fun k => k.action.renumber (w.store.renumber ⟨1⟩))
    (∀ before after, twoBranches = before ++ .commit ⟨1⟩ :: after →
      (((run idle {} before).prepared idle).commit ⟨1⟩).1 ≠ .ok ()) ∧
      kept.length = 6 ∧ w.store.Has ⟨4⟩ ∧ v.store.Has ⟨2⟩ ∧ ¬ v.store.Has ⟨3⟩ ∧
      w.store.ReadsAs ⟨0⟩ v.store ⟨0⟩ ∧ w.store.ReadsAs ⟨4⟩ v.store ⟨2⟩ := by
  intro idle w kept v
  obtain ⟨-, -, hcontexts, -⟩ := run_without idle {} twoBranches ⟨1⟩ twoBranches_refused
  have hroot := hcontexts ⟨0⟩ (by decide +kernel) (by decide +kernel)
  have hlast := hcontexts ⟨4⟩ (by decide +kernel) (by decide +kernel)
  have hid : w.store.renumber ⟨1⟩ ⟨0⟩ = ⟨0⟩ ∧ w.store.renumber ⟨1⟩ ⟨4⟩ = ⟨2⟩ := by decide +kernel
  rw [hid.1] at hroot
  rw [hid.2] at hlast
  exact ⟨twoBranches_refused, by decide +kernel, by decide +kernel, hlast.1, by decide +kernel,
    hroot.2.1, hlast.2.1⟩

end World

end TypingStore
