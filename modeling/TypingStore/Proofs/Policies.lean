import TypingStore.Proofs.Staleness
import TypingStore.Proofs.Telling

/-!
# Version policies cannot be told apart

The same operations are run twice, under two schedules of policies: for every settings object, and
before every operation, any policy (`Schedule`). The policies say how versions are counted, and
nothing else (`World.run_alike`): the same operations succeed and fail, in the same way, and the
contexts hold and see the same. The stricter policy counts further, but refuses no commit that the
other lets pass. Words differ only where they tell a policy or a version.

The two runs have the same events at every step, and it is the events that decide whether a commit
is refused (`World.Sound.fresh_iff`), under whichever policy.
-/

namespace TypingStore

/-- Which policy each settings object has, before each operation. -/
abbrev Schedule := Nat → SettingsRef → VersionPolicy

/-- Sets the policies of all settings objects. -/
def Objects.govern (policies : SettingsRef → VersionPolicy) (objects : Objects) : Objects :=
  { objects with
    attributes := objects.attributes.mapIdx fun i attributes =>
      ⟨attributes.entries.map fun e =>
        (e.1, if e.1 = "version_bump" then .policy (policies ⟨i⟩) else e.2)⟩ }

/-- Nothing else is done to the objects between the operations. -/
def Schedule.regime (schedule : Schedule) : Regime := fun t objects => objects.govern (schedule t)

namespace Objects

/-- Once policies are hidden, it does not matter which are set. -/
theorem hide_entries_govern {names : List String} (hn : "version_bump" ∈ names)
    (policy : VersionPolicy) (b : Bindings String Value) :
    Bindings.hide names ⟨b.entries.map fun e =>
      (e.1, if e.1 = "version_bump" then .policy policy else e.2)⟩ = b.hide names := by
  simp only [Bindings.hide, List.map_map, Bindings.mk.injEq]
  refine List.map_congr_left fun e _ => ?_
  by_cases he : e.1 = "version_bump"
  · simp [veil, he, hn]
  · simp [he]

theorem hide_govern (policies : SettingsRef → VersionPolicy) (objects : Objects) :
    (objects.govern policies).hide versionNames = objects.hide versionNames := by
  simp only [hide, govern, mk.injEq, and_true]
  refine Array.ext (by simp) fun i h1 h2 => ?_
  simp only [Array.getElem_map, Array.getElem_mapIdx]
  exact hide_entries_govern (by decide) _ _

theorem SameWords.govern {telling : Nat → Prop} {objects objects' : Objects}
    (h : objects.SameWords telling objects') (policies policies' : SettingsRef → VersionPolicy) :
    (objects.govern policies).SameWords telling (objects'.govern policies') := by
  have hgovern : ∀ (policies : SettingsRef → VersionPolicy) (objects : Objects) (i : Nat),
      (objects.govern policies).attributes[i]?.map (Bindings.hide policyNames) =
        objects.attributes[i]?.map (Bindings.hide policyNames) := by
    intro policies objects i
    simp only [Objects.govern, Array.getElem?_mapIdx, Option.map_map, Function.comp_def,
      hide_entries_govern (show "version_bump" ∈ policyNames by decide)]
  intro i hi
  rw [hgovern, hgovern]
  exact h i hi

/-- What has settings has the policy that is set. -/
theorem versions_settingsOf_govern (policies : SettingsRef → VersionPolicy) (objects : Objects)
    (ref : SettingsRef) :
    ((objects.govern policies).settingsOf ref).versions =
      if (objects.attribute? ref.value "version_bump").isSome then policies ref
      else .firstWriteAfterSpawn := by
  have hget : (objects.govern policies).attribute? ref.value "version_bump" =
      (objects.attribute? ref.value "version_bump").map fun _ => .policy (policies ref) := by
    simp only [SettingsRef.value, attribute?, attributesAt, govern, Array.getD_eq_getD_getElem?,
      Array.getElem?_mapIdx]
    cases objects.attributes[ref.index]? with
    | none => rfl
    | some b =>
      exact b.get?_map (fun name v => if name = "version_bump" then .policy (policies ref) else v) _
  simp only [settingsOf, get, hget]
  cases objects.attribute? ref.value "version_bump" <;> rfl

end Objects

/-- The summarizer that is given to a new context. -/
def Action.summarizer? : Action → Option Summarizer
  | .createRoot _ summarizer | .createChild _ _ summarizer => summarizer
  | _ => none

/-- No summarizer that is given goes by versions. -/
def Action.Steady (a : Action) : Prop :=
  ∀ summarizer ∈ a.summarizer?, summarizer.Steady versionNames

namespace Store

/-- No summarizer goes by versions. -/
def Steady (s : Store) : Prop := ∀ c, (s.context c).summarizer.Steady versionNames

theorem steady_standard : Summarizer.standard.Steady versionNames :=
  Summarizer.steady_standard (by decide)

theorem Steady.add {s : Store} (h : s.Steady) {new : Context}
    (hnew : new.summarizer.Steady versionNames) : (s.add new).2.Steady := by
  intro c
  rw [context_add]
  split
  · exact hnew
  · exact h c

theorem Steady.createChild {s : Store} (h : s.Steady) (p : ContextId)
    (settings : Option SettingsRef) {summarizer : Option Summarizer}
    (hs : ∀ x ∈ summarizer, x.Steady versionNames) :
    (s.createChild p settings summarizer).2.Steady := by
  have hmark : (s.update p fun c => { c with pending := true }).Steady := by
    intro c
    rw [context_update]
    split
    · exact h p
    · exact h c
  refine hmark.add ?_
  cases summarizer with
  | none => exact h p
  | some x => exact hs x rfl

theorem Steady.perform {s : Store} (h : s.Steady) (hs : s.Ordered) {a : Action} (ha : s.Admits a)
    (hsteady : a.Steady) : (s.perform a).2.Steady := by
  have hrest : (∀ c p, Event.created c p ∉ s.eventsOf a) → (s.perform a).2.Steady := fun hno c => by
    rw [(perform_change hs ha).summarizer_of_no_creation hno]; exact h c
  cases a with
  | createRoot settings summarizer =>
    have h' : Steady { s with objects := (s.objects.settingsOr settings).2 } := h
    refine h'.add ?_
    cases summarizer with
    | none => exact steady_standard
    | some x => exact hsteady x rfl
  | createChild p settings summarizer => exact h.createChild p settings hsteady
  | spawn p => exact h.createChild p none (by simp)
  | recordVariable c name type =>
    refine hrest fun d p => ?_
    simp only [eventsOf]
    split <;> simp
  | commit c =>
    refine hrest fun d p => ?_
    simp only [eventsOf]
    split <;> simp
  | _ => exact hrest fun d p => by simp [eventsOf]

/-- **Versions keep their order.** If one of two runs advances a version whenever the other does, it
stays ahead of it. -/
theorem Change.version_le {s s' t t' : Store} {es : List Event} (h : s.Change t es)
    (h' : s'.Change t' es) (hs : s.Alike s') (ht : t.Alike t')
    (hpolicy : ∀ p, s'.policy p = .everyWrite → s.policy p = .everyWrite)
    (hle : ∀ c, (s'.context c).version ≤ (s.context c).version) (c : ContextId) :
    (t'.context c).version ≤ (t.context c).version := by
  by_cases hc : s.Has c
  · obtain ⟨-, -, -, hpending, -⟩ := hs.same c
    have hadv := VersionPolicy.advance_le (hpolicy c) (s'.context c).pending
      (es.countP (Event.writes c))
    have := hle c
    rw [h.version hc, h'.version (hs.has.1 hc), hpending]
    omega
  · by_cases hnew : t.Has c
    · have hc' : ¬ s'.Has c := mt hs.has.2 hc
      have hnew' := ht.has.1 hnew
      obtain ⟨hparent, -⟩ := ht.same c
      rcases h'.born hc' hnew' with ⟨-, hv'⟩ | ⟨p', -, hes', hp', -, hv', -⟩
      · omega
      · rcases h.born hc hnew with ⟨hp, -⟩ | ⟨p, -, hes, hp, -, hv, -⟩
        · rw [hparent, hp'] at hp; cases hp
        · -- both are children of the same parent, and start from its version
          rw [hparent, hp'] at hp
          cases hp
          have := hle p'
          omega
    · have hsame : t'.context c = t.context c :=
        (context_of_not_has (mt ht.has.2 hnew)).trans (context_of_not_has hnew).symm
      exact Nat.le_of_eq (congrArg Context.version hsame)

end Store

namespace World

/-- Two runs that went alike: the same events, outcomes that differ only in words, and stores that
differ only in versions. -/
structure Alike (w w' : World) : Prop where
  store : w.store.Alike w'.store
  events : w.events = w'.events
  outcomes : w.outcomes.map Outcome.wordless = w'.outcomes.map Outcome.wordless

variable {w w' : World}

theorem Alike.prepared (h : w.Alike w') (schedule schedule' : Schedule) :
    (w.prepared schedule.regime).Alike (w'.prepared schedule'.regime) := by
  refine h.store.withObjects ?_
  simp only [Schedule.regime, Objects.hide_govern]
  exact h.store.objects

/-- The policy of a context before an operation is the one its settings object is given. -/
theorem policy_prepared (schedule : Schedule) (w : World) (c : ContextId) :
    (w.prepared schedule.regime).policy c =
      if (w.store.objects.attribute? (w.store.context c).settings.value "version_bump").isSome then
        schedule w.outcomes.length (w.store.context c).settings
      else .firstWriteAfterSpawn :=
  Objects.versions_settingsOf_govern _ _ _

/-- Whether a commit is refused is a matter of the events, which are the same. -/
theorem Alike.fresh_iff (h : w.Alike w') (hw : w.Sound) (hw' : w'.Sound) {c p : ContextId}
    (hparent : (w'.store.context c).parent = some p) :
    ((w.store.context p).version = (w.store.context c).snapshot ↔
      (w'.store.context p).version = (w'.store.context c).snapshot) := by
  obtain ⟨hsame, -⟩ := h.store.same c
  rw [hw.fresh_iff (hsame.trans hparent), hw'.fresh_iff hparent, h.events]

/-- **One operation keeps two runs alike.** The one that was ahead in versions stays ahead if its
policies are at least as strict. -/
theorem Alike.step (h : w.Alike w') (hw : w.Sound) (hw' : w'.Sound) (hst : w'.store.Steady)
    (schedule schedule' : Schedule) (a : Action) :
    (w.step schedule.regime a).Alike (w'.step schedule'.regime a) ∧
      ((∀ t ref, schedule' t ref = .everyWrite → schedule t ref = .everyWrite) →
        (∀ c, (w'.store.context c).version ≤ (w.store.context c).version) →
        ∀ c, ((w'.step schedule'.regime a).store.context c).version ≤
          ((w.step schedule.regime a).store.context c).version) := by
  have hp := h.prepared schedule schedule'
  by_cases ha : (w'.prepared schedule'.regime).Admits a
  · have ha' : (w.prepared schedule.regime).Admits a := fun c hc => hp.has.2 (ha c hc)
    obtain ⟨-, hout, hstore⟩ := hp.perform a fun c p _ => h.fresh_iff hw hw'
    have hev := hp.eventsOf a fun c hc => (hp.commit fun p => h.fresh_iff hw hw').1
    rw [step_of_admits ha, step_of_admits ha']
    refine ⟨⟨hstore, by rw [h.events, hev], ?_⟩, ?_⟩
    · simp only [List.map_append, h.outcomes, List.map_cons, hout hst, List.map_nil]
    · intro hschedule hle
      have hlen : w.outcomes.length = w'.outcomes.length := by
        simpa using congrArg List.length h.outcomes
      have hpolicy : ∀ p, (w'.prepared schedule'.regime).policy p = .everyWrite →
          (w.prepared schedule.regime).policy p = .everyWrite := by
        intro p
        obtain ⟨-, href, -⟩ := h.store.same p
        have hsome := congrArg (fun o : Objects =>
          (o.attribute? (w'.store.context p).settings.value "version_bump").isSome) h.store.objects
        simp only [Objects.isSome_attribute?_hide] at hsome
        rw [policy_prepared, policy_prepared, href, hsome, hlen]
        split
        · exact hschedule _ _
        · exact id
      have hord : (w.prepared schedule.regime).Ordered := hw.ordered
      have hord' : (w'.prepared schedule'.regime).Ordered := hw'.ordered
      have hc' := Store.perform_change hord' ha
      rw [← hev] at hc'
      exact (Store.perform_change hord ha').version_le hc' hp hstore hpolicy hle
  · have ha' : ¬ (w.prepared schedule.regime).Admits a :=
      fun hadm => ha fun c hc => hp.has.1 (hadm c hc)
    rw [step_of_not_admits ha, step_of_not_admits ha']
    exact ⟨h, fun _ hle => hle⟩

/-- One operation leaves the same objects but for policies, and for those that tell. -/
theorem Alike.sameWords_step {telling : Nat → Prop} (h : w.Alike w') (hw : w.Sound)
    (hw' : w'.Sound) (hwords : w.store.objects.SameWords telling w'.store.objects)
    (schedule schedule' : Schedule) (a : Action) :
    let s := w.prepared schedule.regime
    (w.step schedule.regime a).store.objects.SameWords
      (if s.Admits a then s.tellingAfter telling a else telling)
      (w'.step schedule'.regime a).store.objects := by
  intro s
  have hp : s.Alike (w'.prepared schedule'.regime) := h.prepared schedule schedule'
  have hwords' : s.objects.SameWords telling (w'.prepared schedule'.regime).objects :=
    hwords.govern _ _
  by_cases ha : s.Admits a
  · have ha' : (w'.prepared schedule'.regime).Admits a := fun c hc => hp.has.1 (ha c hc)
    rw [step_of_admits ha, step_of_admits ha', if_pos ha]
    exact hp.sameWords_perform hwords' a fun c p _ => h.fresh_iff hw hw'
  · have ha' : ¬ (w'.prepared schedule'.regime).Admits a :=
      fun hadm => ha fun c hc => hp.has.2 (hadm c hc)
    rw [step_of_not_admits ha, step_of_not_admits ha', if_neg ha]
    exact hwords

theorem steady_step (hw : w.Sound) (hst : w.store.Steady) (regime : Regime) {a : Action}
    (ha : a.Steady) : (w.step regime a).store.Steady := by
  by_cases hadm : (w.prepared regime).Admits a
  · have hst' : (w.prepared regime).Steady := hst
    have hord : (w.prepared regime).Ordered := hw.ordered
    rw [step_of_admits hadm]
    exact hst'.perform hord hadm ha
  · rw [step_of_not_admits hadm]; exact hst

/-- **Operations keep two runs alike**, however many there are. -/
theorem Alike.steps (schedule schedule' : Schedule) (actions : List Action)
    (hsteady : ∀ a ∈ actions, a.Steady) (h : w.Alike w') (hw : w.Sound) (hw' : w'.Sound)
    (hst : w'.store.Steady) {telling : Nat → Prop}
    (hwords : w.store.objects.SameWords telling w'.store.objects) :
    let v := actions.foldl (World.step schedule.regime) w
    let v' := actions.foldl (World.step schedule'.regime) w'
    v.Alike v' ∧ ((∀ t ref, schedule' t ref = .everyWrite → schedule t ref = .everyWrite) →
      (∀ c, (w'.store.context c).version ≤ (w.store.context c).version) →
      ∀ c, (v'.store.context c).version ≤ (v.store.context c).version) ∧
    v.store.objects.SameWords (tellingAfter schedule.regime w telling actions)
      v'.store.objects := by
  induction actions generalizing w w' telling with
  | nil => exact ⟨h, fun _ hle => hle, hwords⟩
  | cons a actions ih =>
    obtain ⟨h1, hle1⟩ := h.step hw hw' hst schedule schedule' a
    have hst1 := steady_step hw' hst schedule'.regime (hsteady a List.mem_cons_self)
    have hwords1 := h.sameWords_step hw hw' hwords schedule schedule' a
    obtain ⟨h2, hle2, hwords2⟩ := ih (fun x hx => hsteady x (List.mem_cons_of_mem _ hx)) h1
      (hw.step schedule.regime a) (hw'.step schedule'.regime a) hst1 hwords1
    exact ⟨h2, fun hs hle => hle2 hs (hle1 hs hle), hwords2⟩

/-- **Version policies cannot be told apart.** Under any two schedules of policies, the same
operations end alike one by one, and leave contexts that hold the same, see the same, and are marked
the same. A dump differs at most in what it shows of versions and policies. If one schedule is at
least as strict as the other, its versions are at least as high.

Little tells of versions at all. Policies apart, the objects are the same but for those that may
tell: the faults of refused commits, and those that were worded by settings or by other such faults.
A dump in the standard way that shows no settings and none of these is the same text, and whatever
the next operation is, it ends the same, unless it asks for a dump or a caption. -/
theorem run_alike (schedule schedule' : Schedule) (objects : Objects) (actions : List Action)
    (hsteady : ∀ a ∈ actions, a.Steady) :
    let w := run schedule.regime objects actions
    let w' := run schedule'.regime objects actions
    let telling := tellingAfter schedule.regime (init objects) (fun _ => False) actions
    w.outcomes.map Outcome.wordless = w'.outcomes.map Outcome.wordless ∧
      w.store.Alike w'.store ∧
      (∀ c, w.store.typings c = w'.store.typings c ∧
        (w.store.context c).varTypes = (w'.store.context c).varTypes ∧
        (w.store.context c).errors = (w'.store.context c).errors ∧
        (w.store.context c).pending = (w'.store.context c).pending ∧
        (∀ node, w.store.findType c node = w'.store.findType c node) ∧
        (∀ handle, w.store.findVariable c handle = w'.store.findVariable c handle) ∧
        w.store.unversioned.dump c = w'.store.unversioned.dump c) ∧
      ((∀ t ref, schedule' t ref = .everyWrite → schedule t ref = .everyWrite) →
        ∀ c, (w'.store.context c).version ≤ (w.store.context c).version) ∧
      w.store.objects.SameWords telling w'.store.objects ∧
      (∀ c, (w.store.context c).summarizer = .standard →
        (∀ v ∈ w.store.shownInDump c, w.store.objects.ShowsNo (Objects.TellsVersion telling) v) →
        w.store.dump c = w'.store.dump c) ∧
      ∀ a, (∀ c, a ≠ .dump c ∧ a ≠ .caption c) →
        ((w.prepared schedule.regime).perform a).1 =
          ((w'.prepared schedule'.regime).perform a).1 := by
  intro w w' telling
  have hinit : (init objects).Alike (init objects) := ⟨⟨rfl, rfl, fun _ => rfl, rfl⟩, rfl, rfl⟩
  have hst : (init objects).store.Steady := fun c => by
    rw [context_init]; exact Store.steady_standard
  have hrun : w.Alike w' ∧ _ ∧ w.store.objects.SameWords telling w'.store.objects :=
    hinit.steps schedule schedule' actions hsteady (sound_init objects) (sound_init objects) hst
      (.refl _ _)
  obtain ⟨h, hle, hwords⟩ := hrun
  have hw : w.Sound := sound_run schedule.regime objects actions
  have hw' : w'.Sound := sound_run schedule'.regime objects actions
  refine ⟨h.outcomes, h.store, fun c => ?_, fun hs => hle hs fun _ => Nat.le_refl _, hwords,
    fun c => h.store.dump_of_sameWords hwords, fun a => ?_⟩
  · obtain ⟨-, -, -, hpending, -, hvars, herrors⟩ := h.store.same c
    have hdump : w.store.unversioned.dump c = w'.store.unversioned.dump c := by
      rw [h.store.unversioned_eq]
    exact ⟨h.store.typings c, hvars, herrors, hpending, h.store.findType c,
      h.store.findVariable c, hdump⟩
  · obtain ⟨hsame, -⟩ :=
      (h.prepared schedule schedule').perform a fun c p _ => h.fresh_iff hw hw'
    exact hsame

/-- A child is left stale by two writes to its parent. -/
def twoWrites : List Action :=
  [.createRoot none (some .standard), .spawn ⟨0⟩, .recordType ⟨0⟩ .absent (.nilType ⟨1⟩),
    .recordType ⟨0⟩ .absent (.anyType ⟨2⟩), .commit ⟨1⟩, .dump ⟨0⟩]

/-- Counting both writes or only the first, the commit ends alike. -/
theorem twoWrites_alike :
    let strict : Schedule := fun _ _ => .everyWrite
    let lax : Schedule := fun _ _ => .firstWriteAfterSpawn
    let w := run strict.regime {} twoWrites
    let w' := run lax.regime {} twoWrites
    (∀ a ∈ twoWrites, a.Steady) ∧
      w.outcomes.map Outcome.wordless = w'.outcomes.map Outcome.wordless ∧
      (w'.store.context ⟨0⟩).version ≤ (w.store.context ⟨0⟩).version ∧
      (w'.store.context ⟨0⟩).version = 1 ∧ (w.store.context ⟨0⟩).version = 2 := by
  intro strict lax w w'
  have hsteady : ∀ a ∈ twoWrites, a.Steady := by
    intro a ha x hx
    simp only [twoWrites, List.mem_cons, List.not_mem_nil, or_false] at ha
    rcases ha with rfl | rfl | rfl | rfl | rfl | rfl
    · cases hx; exact Store.steady_standard
    all_goals cases hx
  obtain ⟨hout, -, -, hle, -⟩ := run_alike strict lax {} twoWrites hsteady
  exact ⟨hsteady, hout, hle (fun _ _ _ => rfl) ⟨0⟩, by decide +kernel, by decide +kernel⟩

end World

end TypingStore
