import TypingStore.Proofs.Routine

/-!
# How much is reported

How much is reported is nobody's business but the reader's: a run under other volumes does the same
and is told the same, and there is the same to report (`Routine.run_any_volume`). Of that, each run
reports what its volumes admit, in the form they ask for. So a run that is quieter at every moment
reports what it admits itself of what the louder run reports.

* `Running.Kept`: the journal is what the volumes admit of the notices.
* `Routine.faithful_run`: every routine keeps it so.
-/

namespace TypingStore

/-- The settings have the volumes of the moment, and the journal is what the volumes admitted. -/
structure Running.Kept (volumes : Volumes) (x : Running) : Prop where
  tuned : x.2.objects.Tuned (volumes x.1.moment)
  journal : x.2.journal = (x.1.notices.filter (·.admitted volumes)).map (·.shownLine volumes)

namespace Running.Kept

variable {volumes : Volumes} {x : Running}

theorem retune {p : Progress} {s : Store}
    (hjournal : s.journal = (p.notices.filter (·.admitted volumes)).map (·.shownLine volumes)) :
    (Running.retune volumes (p, s)).Kept volumes :=
  ⟨Objects.tuned_tune _ _, hjournal⟩

/-- Messages that are noted and reported are kept. -/
theorem hear (h : x.Kept volumes) {messages : List Message} {s : Store}
    (hjournal : s.journal = x.2.journal ++ messages.filterMap x.2.objects.lineOf) :
    s.journal = ((x.1.hear x.2.objects messages).notices.filter (·.admitted volumes)).map
      (·.shownLine volumes) := by
  rw [hjournal, h.journal, Objects.filterMap_lineOf h.tuned]
  simp only [Progress.hear, List.filter_append, List.map_append]

end Running.Kept

/-- A computation after which the journal is kept if it was before. -/
def Faithful {α : Type} (volumes : Volumes) (F : Running → α × Running) : Prop :=
  ∀ x, x.Kept volumes → (F x).2.Kept volumes

namespace Faithful

variable {volumes : Volumes} {α β : Type} {F : Running → α × Running}
  {G : α → Running → β × Running}

theorem seq (hF : Faithful volumes F) (hG : ∀ a, Faithful volumes (G a)) :
    Faithful volumes fun x => G (F x).1 (F x).2 :=
  fun x hx => hG _ _ (hF x hx)

theorem perform (a : Action) : Faithful volumes (Running.perform volumes a) := by
  intro x hx
  unfold Running.perform
  by_cases ha : x.2.Admits a
  · simp only [ha, if_true]
    exact .retune (hx.hear (Store.journal_perform ha))
  · simpa only [ha, if_false] using hx

theorem start (checker : Checker) (task : Task) : Faithful volumes (task.start checker) := by
  intro x hx
  have hgreeted := checker.report_eq_deliver .info
    (Journal.stageMessage "Type-checking" (some task.name)) x.2
  exact ⟨hx.tuned, hx.hear (congrArg Store.journal hgreeted)⟩

theorem close (checker : Checker) (task : Task) (root : ContextId) (result : Except Failure Unit) :
    Faithful volumes (task.close checker root result) := by
  intro x hx
  obtain ⟨i, objects, hmoved, hstore⟩ :=
    checker.close_store (task.unit checker fun _ x => (.ok (), x)) ⟨root, result, x.2⟩
  have hclosed : (task.close checker root result x).2.2 =
      Store.deliver { x.2 with objects := objects }
        (checker.lastWords task.name task.filename ⟨root, result, x.2⟩) := hstore
  constructor
  · rw [hclosed]
    exact hx.tuned.moved hmoved
  · refine hx.hear ?_
    rw [hclosed, Store.deliver, hmoved.lineOf]

theorem check (checker : Checker) (task : Task) {engine : Engine Progress}
    (hengine : ∀ root, Faithful volumes (engine root)) :
    Faithful volumes (checker.check (task.unit checker engine)) := by
  have hparts := (start checker task).seq fun root =>
    (hengine root).seq fun result => close checker task root result
  simpa only [← Task.check_unit] using hparts

theorem checkAll (checker : Checker) {engine : Task → Engine Progress}
    (hengine : ∀ task root, Faithful volumes (engine task root)) (tasks : List Task) :
    Faithful volumes
      (checker.checkAll (tasks.map fun task => task.unit checker (engine task))) := by
  induction tasks with
  | nil => exact fun x hx => hx
  | cons task tasks ih =>
    rw [List.map_cons, funext (checker.checkAll_cons _ _)]
    refine (check checker task (hengine task)).seq fun checked => ?_
    cases checked with
    | error failure => exact fun x hx => hx
    | ok result => exact ih

end Faithful

/-- **The journal is what the volumes admit**, through every routine. -/
theorem Routine.faithful_run (volumes : Volumes) (r : Routine) :
    Faithful volumes (r.run volumes) := by
  induction r with
  | done result => exact fun x hx => hx
  | retune next ih => exact fun x hx => ih _ (.retune hx.journal)
  | look next ih => exact fun x hx => ih _ _ x hx
  | act a next ih => exact (Faithful.perform a).seq ih
  | inChild parent body next ihb ihn =>
    intro x hx
    simp only [run]
    split
    · next hparent =>
      exact ihn _ _ (ihb _ _ (.retune (hx.hear (Store.journal_spawn hparent))))
    · exact ihn _ x hx
  | check checker tasks engines next ihe ihn =>
    intro x hx
    have hchecked := Faithful.checkAll checker (fun task root => ihe task.engine root) tasks x hx
    -- the reply that is noted last touches neither the settings nor the journal
    exact ihn _ _ ⟨hchecked.tuned, hchecked.journal⟩

/-! ## Other volumes -/

/-- A line without the time and the level. -/
def Journal.Line.bare (line : Journal.Line) : Journal.Line := { line with stamped := false }

/-- What a line says, and how important it is. -/
def Journal.Line.said (line : Journal.Line) : LogLevel × String := (line.level, line.message)

/-- What a notice says, and how important it is. -/
def Notice.said (n : Notice) : LogLevel × String := (n.level, n.words)

/-- **The time and the level are all that the form adds.** -/
theorem Journal.Line.shown_eq (line : Journal.Line) (time : String) :
    line.shown time =
      (if line.stamped then time ++ " [" ++ line.level.name ++ "] " else "")
        ++ line.bare.shown time := by
  simp [shown, bare, String.append_assoc]

namespace Notice

variable {volumes volumes' : Volumes}

/-- What is reported at a lower volume is reported at a higher one. -/
theorem admitted_of_le (hle : ∀ t ref, (volumes' t ref).verbosity ≤ (volumes t ref).verbosity)
    {n : Notice} (h : n.admitted volumes' = true) : n.admitted volumes = true := by
  have hquieter : (n.volume volumes').verbosity ≤ (n.volume volumes).verbosity := by
    simp only [volume]
    split
    · exact hle n.moment n.settings
    · exact Int.le_refl 0
  have hrank : n.level.rank ≤ (n.volume volumes').verbosity := of_decide_eq_true h
  exact decide_eq_true (Int.le_trans hrank hquieter)

/-- **The quieter volume only filters.** -/
theorem filter_admitted (hle : ∀ t ref, (volumes' t ref).verbosity ≤ (volumes t ref).verbosity)
    (ns : List Notice) :
    ns.filter (·.admitted volumes') =
      (ns.filter (·.admitted volumes)).filter (·.admitted volumes') := by
  rw [List.filter_filter]
  refine List.filter_congr fun n _ => ?_
  cases hadmitted : n.admitted volumes' with
  | false => rfl
  | true => simp [admitted_of_le hle hadmitted]

/-- Volumes that differ in form only report the same lines, up to the form. -/
theorem map_shownLine_bare
    (hverbosity : ∀ t ref, (volumes' t ref).verbosity = (volumes t ref).verbosity)
    (hplain : ∀ t ref, (volumes' t ref).stamped = false) (ns : List Notice) :
    (ns.filter (·.admitted volumes')).map (·.shownLine volumes') =
      ((ns.filter (·.admitted volumes)).map (·.shownLine volumes)).map Journal.Line.bare := by
  have hsame : (fun n : Notice => n.admitted volumes') = fun n => n.admitted volumes := by
    funext n
    have hvolume : (n.volume volumes').verbosity = (n.volume volumes).verbosity := by
      simp only [volume, hverbosity]
    simp only [admitted, hvolume]
  rw [hsame, List.map_map]
  refine List.map_congr_left fun n _ => ?_
  simp [shownLine, volume, hplain, Journal.Line.bare]

end Notice

/-- **Nothing but the journal depends on how much is reported.** Under any two volumes a routine
ends alike, was told the same on the way, and leaves the same contexts, and the same objects up to
the volumes themselves; and there was the same to report. This holds as long as no text that was
made shows the settings.

Each run reports what its volumes admit. If one is quieter at every moment, it reports of what the
other reports exactly what it admits itself; if it differs only in that no line has the time, its
lines are those of the other without the time and the level. -/
theorem Routine.run_any_volume (volumes volumes' : Volumes) (objects : Objects) (r : Routine)
    (hclear : ∀ e ∈ (r.world volumes objects).2.1.exhibits, e.Clear) :
    let x := r.world volumes objects
    let x' := r.world volumes' objects
    (x.1 = x'.1 ∧ x.2.1.replies = x'.2.1.replies ∧ x.2.2.contexts = x'.2.2.contexts ∧
        x.2.2.objects.hide reportingNames = x'.2.2.objects.hide reportingNames ∧
        x.2.1.notices = x'.2.1.notices) ∧
      x.2.2.journal = (x.2.1.notices.filter (·.admitted volumes)).map (·.shownLine volumes) ∧
      x'.2.2.journal = (x.2.1.notices.filter (·.admitted volumes')).map (·.shownLine volumes') ∧
      ((∀ t ref, (volumes' t ref).verbosity ≤ (volumes t ref).verbosity) →
        x.2.2.journal.map Journal.Line.said =
            (x.2.1.notices.filter (·.admitted volumes)).map Notice.said ∧
          x'.2.2.journal.map Journal.Line.said =
            ((x.2.1.notices.filter (·.admitted volumes)).filter (·.admitted volumes')).map
              Notice.said) ∧
      ((∀ t ref, (volumes' t ref).verbosity = (volumes t ref).verbosity) →
        (∀ t ref, (volumes' t ref).stamped = false) →
        x'.2.2.journal = x.2.2.journal.map Journal.Line.bare ∧
          ∀ line ∈ x.2.2.journal, ∀ time, line.shown time =
            (if line.stamped then time ++ " [" ++ line.level.name ++ "] " else "")
              ++ line.bare.shown time) := by
  intro x x'
  have hstart : Running.Same ({}, { objects := objects.tune (volumes 0) })
      ({}, { objects := objects.tune (volumes' 0) }) :=
    ⟨rfl, rfl, rfl, by simp only [Objects.hide_tune], rfl⟩
  obtain ⟨hresult, hsame⟩ := (r.parallel_run volumes volumes').same hstart hclear
  have hkept (v : Volumes) :
      (r.world v objects).2.Kept v := r.faithful_run v _ ⟨Objects.tuned_tune _ _, rfl⟩
  have hjournal := (hkept volumes).journal
  have hjournal' : x'.2.2.journal =
      (x.2.1.notices.filter (·.admitted volumes')).map (·.shownLine volumes') := by
    rw [show x.2.1.notices = x'.2.1.notices from hsame.notices]
    exact (hkept volumes').journal
  have hsaid (v : Volumes) (ns : List Notice) :
      (ns.map (·.shownLine v)).map Journal.Line.said = ns.map Notice.said := by
    rw [List.map_map]
    rfl
  refine ⟨⟨hresult, hsame.replies, hsame.work.contexts, hsame.work.objects, hsame.notices⟩,
    hjournal, hjournal', fun hle => ⟨?_, ?_⟩, fun hverbosity hplain => ⟨?_, ?_⟩⟩
  · rw [hjournal, hsaid]
  · rw [hjournal', hsaid, Notice.filter_admitted hle]
  · rw [hjournal', hjournal, Notice.map_shownLine_bare hverbosity hplain]
  · exact fun line _ time => line.shown_eq time

namespace Routine

/-- A unit whose engine writes to the root while a branch is open, so that the branch is refused,
and shows the root at the end. -/
def staleBranch : Routine :=
  .check ⟨⟨0⟩, none⟩ [{ name := "app", filename := some "app.rb" }]
    (fun _ root =>
      .inChild root
        (fun child =>
          .act (.recordType root .absent (.nilType ⟨1⟩)) fun _ =>
          .act (.commit child) fun _ =>
          .done (.ok ()))
        fun _ =>
          .act (.dump root) fun _ =>
          .done (.ok ()))
    fun _ => .done (.ok ())

/-- Everything is reported, with the time. -/
def loud : Volumes := fun _ _ => ⟨LogLevel.debug.rank, true⟩

/-- Only the progress of units is reported, without the time. -/
def quiet : Volumes := fun _ _ => ⟨LogLevel.info.rank, false⟩

/-- What is shown of the unit is its dump: a node without a span, and its type. -/
theorem staleBranch_clear :
    ∀ e ∈ (staleBranch.world loud ({} : Objects).newSettings.2).2.1.exhibits, e.Clear := by
  obtain ⟨o, o', hshown⟩ : ∃ o o',
      (staleBranch.world loud ({} : Objects).newSettings.2).2.1.exhibits =
        [.summary o .standard .absent, .value o' (.nilType ⟨1⟩)] := ⟨_, _, rfl⟩
  intro e he
  rw [hshown, List.mem_cons, List.mem_singleton] at he
  rcases he with rfl | rfl
  · refine Objects.clear_standard fun e he => ?_
    have habsent : e = .value o .absent := by
      simpa [Objects.toldOfStart, Objects.saidOfStart, Objects.get, Objects.attribute?,
        Objects.said] using he
    rw [habsent]
    exact Objects.clear_of_no_parts rfl (by simp)
  · exact Objects.clear_of_no_parts rfl (by simp)

/-- The loud run tells of the branch that was refused, the quiet run does not, and both are told the
same. -/
theorem staleBranch_any_volume :
    let x := staleBranch.world loud ({} : Objects).newSettings.2
    let x' := staleBranch.world quiet ({} : Objects).newSettings.2
    (∀ e ∈ x.2.1.exhibits, e.Clear) ∧
      x.2.1.replies = x'.2.1.replies ∧ x.2.2.contexts = x'.2.2.contexts ∧
      x.2.2.journal.map Journal.Line.said =
        [(.info, "Type-checking unit 'app'"), (.debug, "typing: spawned child at version 0"),
          (.debug, "typing: rejected commit (snapshot 0, parent 1)"),
          (.debug, "Unit 'app': 1 typed node(s)"),
          (.info, "Type-checking complete for 'app': 0 diagnostic(s)")] ∧
      x'.2.2.journal.map Journal.Line.said =
        ((x.2.1.notices.filter (·.admitted loud)).filter (·.admitted quiet)).map Notice.said ∧
      x'.2.2.journal.map Journal.Line.said =
        [(.info, "Type-checking unit 'app'"),
          (.info, "Type-checking complete for 'app': 0 diagnostic(s)")] := by
  intro x x'
  obtain ⟨⟨-, hreplies, hcontexts, -⟩, -, -, hquieter, -⟩ :=
    run_any_volume loud quiet ({} : Objects).newSettings.2 staleBranch staleBranch_clear
  have hlower : LogLevel.info.rank ≤ LogLevel.debug.rank := by decide
  obtain ⟨-, hfiltered⟩ := hquieter fun _ _ => hlower
  exact ⟨staleBranch_clear, hreplies, hcontexts, by decide +kernel, hfiltered,
    by decide +kernel⟩

end Routine

end TypingStore
