import TypingStore.Proofs.Entries
import TypingStore.Proofs.FaultFiles
import TypingStore.Proofs.Texts
import TypingStore.Proofs.Run

/-!
# What there is to report

Whatever is done has its messages, whether they are reported or not: the creation of a child, a
commit and its refusal, the start and the end of a unit. The settings that are in force at that
moment decide which of them are reported, and in which form.

* `Store.messagesOf`, `Checker.greeting`, `Checker.lastWords`: the messages of an operation, and of
  the start and the end of a unit.
* `Store.deliver`, `Store.journal_perform`, `Checker.close_store`: the journal takes up those that
  the settings admit.
* `Volumes`, `Objects.tune`: how much every settings object has reported, as time goes by.
* `Notice`: a message, with the moment that it is from; its line depends on the volumes only.
-/

namespace TypingStore

/-- Something there is to report, and the settings that decide whether it is. -/
structure Message where
  settings : SettingsRef
  level : LogLevel
  words : String

/-- The line that a message is reported with, if it is. -/
def Objects.lineOf (objects : Objects) (m : Message) : Option Journal.Line :=
  if (objects.settingsOf m.settings).admits m.level then
    some ⟨m.level, (objects.settingsOf m.settings).stamped, m.words⟩
  else none

theorem Journal.report_eq_append (objects : Objects) (m : Message) (journal : Journal) :
    journal.report (objects.settingsOf m.settings) m.level m.words =
      journal ++ [m].filterMap objects.lineOf := by
  simp only [Journal.report, Objects.lineOf, List.filterMap_cons, List.filterMap_nil]
  cases (objects.settingsOf m.settings).admits m.level with
  | true => rfl
  | false => exact (List.append_nil journal).symm

/-- What changes no settings changes no line. -/
theorem Objects.Moved.lineOf {i : Nat} {objects objects' : Objects}
    (hmoved : Moved i objects objects') : objects'.lineOf = objects.lineOf := by
  funext m
  simp only [Objects.lineOf, hmoved.settingsOf]

namespace Store

/-- Reports messages, one after the other, as their settings allow. -/
def deliver (s : Store) (messages : List Message) : Store :=
  { s with journal := s.journal ++ messages.filterMap s.objects.lineOf }

@[simp] theorem deliver_nil (s : Store) : s.deliver [] = s := by
  simp only [deliver, List.filterMap_nil, List.append_nil]

theorem deliver_deliver (s : Store) (messages messages' : List Message) :
    (s.deliver messages).deliver messages' = s.deliver (messages ++ messages') := by
  simp only [deliver, List.filterMap_append, List.append_assoc]

end Store

/-! ## The messages of an operation -/

namespace Store

/-- What there is to report of an operation. -/
def messagesOf (s : Store) : Action → List Message
  | .spawn parent =>
    [⟨(s.context parent).settings, .debug,
      "typing: spawned child at version " ++ toString (s.context parent).version⟩]
  | .commit c =>
    match (s.context c).parent with
    | none => []
    | some parent =>
      [⟨(s.context c).settings, .debug,
        if (s.context parent).version ≠ (s.context c).snapshot then
          rejection (s.context c).snapshot (s.context parent).version
        else acceptance (s.context c)⟩]
  | _ => []

theorem journal_createChild (s : Store) (p : ContextId) (settings : Option SettingsRef)
    (summarizer : Option Summarizer) :
    (s.createChild p settings summarizer).2.journal = s.journal := rfl

theorem journal_spawn {s : Store} {p : ContextId} (hp : s.Has p) :
    (s.spawn p).2.journal = s.journal ++ (s.messagesOf (.spawn p)).filterMap s.objects.lineOf := by
  have hparent := context_createChild s p none none hp
  rw [if_pos rfl] at hparent
  have hsettings : ((s.createChild p none none).2.context p).settings = (s.context p).settings := by
    rw [hparent]
  have hversion : ((s.createChild p none none).2.context p).version = (s.context p).version := by
    rw [hparent]
  simp only [spawn, report, settingsOf, hsettings, hversion, journal_createChild]
  exact Journal.report_eq_append s.objects ⟨_, _, _⟩ s.journal

theorem journal_commit (s : Store) (c : ContextId) :
    (s.commit c).2.journal =
      s.journal ++ (s.messagesOf (.commit c)).filterMap s.objects.lineOf := by
  simp only [commit, messagesOf]
  cases (s.context c).parent with
  | none => simp [fail]
  | some p =>
    by_cases hv : (s.context p).version = (s.context c).snapshot
    · simp only [hv, ne_eq, not_true_eq_false, if_false]
      -- what the parent takes over leaves the settings of the context alone
      have hsettings :
          ((s.update p fun above => above.absorb (s.policy p) (s.context c)).context c).settings =
            (s.context c).settings := by
        rw [context_update]
        split
        · next hself =>
          rw [Context.absorb_eq_enterAll, hself.1]
          exact (Context.origin_enterAll _ _).2.1
        · rfl
      simp only [report, settingsOf, hsettings]
      exact Journal.report_eq_append s.objects ⟨_, _, _⟩ s.journal
    · simp only [hv, ne_eq, not_false_eq_true, if_true]
      exact Journal.report_eq_append s.objects ⟨_, _, _⟩ s.journal

/-- **The journal of an operation**: the lines of its messages follow those there are. -/
theorem journal_perform {s : Store} {a : Action} (ha : s.Admits a) :
    (s.perform a).2.journal = s.journal ++ (s.messagesOf a).filterMap s.objects.lineOf := by
  cases a with
  | spawn p => exact journal_spawn (ha p rfl)
  | commit c => exact s.journal_commit c
  | recordVariable c name type =>
    simp only [perform, recordVariable, messagesOf, List.filterMap_nil, List.append_nil]
    cases handleOf name <;> rfl
  | typeOf c node =>
    simp only [perform, typeOf, messagesOf, List.filterMap_nil, List.append_nil]
    cases s.findType c node <;> rfl
  | variableTypeOf c name =>
    simp only [perform, variableTypeOf, messagesOf, List.filterMap_nil, List.append_nil]
    cases handleOf name with
    | error failure => rfl
    | ok handle =>
      cases hfind : s.findVariable c handle with
      | none => simp only [hfind, fail]
      | some type => simp only [hfind]
  | assign target field new =>
    simp only [perform, messagesOf, List.filterMap_nil, List.append_nil]
    cases s.objects.assign target field new <;> rfl
  | _ => exact (List.append_nil _).symm

end Store

namespace Checker

/-! ## The messages of a unit -/

/-- What there is to report when a unit is started. -/
def greeting (checker : Checker) (unit : String) : Message :=
  ⟨checker.settings, .info, Journal.stageMessage "Type-checking" (some unit)⟩

/-- What there is to report when a unit has ended: how much was found, or the fault that ended it. A
unit that ends the whole run has no last words. -/
def lastWords (checker : Checker) (unit : String) (filename : Option String) (w : Walk) :
    List Message :=
  match w.result with
  | .ok () =>
    match w.store.diagnostics w.root (.ofText unit) (.ofText? filename) with
    | .error _ => []
    | .ok diagnostics =>
      [⟨checker.settings, .debug, "Unit '" ++ unit ++ "': "
          ++ toString (w.store.context w.root).nodeTypes.size ++ " typed node(s)"⟩,
        ⟨checker.settings, .info, "Type-checking complete for '" ++ unit ++ "': "
          ++ toString diagnostics.length ++ " diagnostic(s)"⟩]
  | .error (.fault fault) =>
    match w.store.objects.diagnosticOfFault (.ofText unit) (.ofText? filename) fault,
        located filename fault w.store.objects with
    | .ok _, .ok objects =>
      match objects.report fault with
      | .error _ => []
      | .ok words => [⟨checker.settings, .error, words⟩]
    | _, _ => []
  | .error _ => []

/-- A message that is reported is delivered. -/
theorem report_eq_deliver (checker : Checker) (level : LogLevel) (words : String) (s : Store) :
    checker.report level words s = s.deliver [⟨checker.settings, level, words⟩] := by
  have hjournal := Journal.report_eq_append s.objects ⟨checker.settings, level, words⟩ s.journal
  simp only [report, Store.deliver, hjournal]

/-- **The end of a unit**: its last words are delivered. Nothing else is done, except that a fault
is told its file. -/
theorem close_store {σ : Type} (checker : Checker) (unit : CheckUnit σ) (w : Walk) :
    ∃ i objects, Objects.Moved i w.store.objects objects ∧
      (checker.close unit w).2 =
        Store.deliver { w.store with objects := objects }
          (checker.lastWords unit.name unit.filename w) := by
  obtain ⟨root, result, s⟩ := w
  -- the end of a unit that has no last words
  have hnothing : ∃ i objects, Objects.Moved i s.objects objects ∧
      s = Store.deliver { s with objects := objects } [] :=
    ⟨0, s.objects, .refl _ _, s.deliver_nil.symm⟩
  cases result with
  | ok u =>
    simp only [close, finish, lastWords]
    cases s.diagnostics root (.ofText unit.name) (.ofText? unit.filename) with
    | error failure => exact hnothing
    | ok diagnostics =>
      refine ⟨0, s.objects, .refl _ _, ?_⟩
      simp only [report_eq_deliver, Store.deliver_deliver, List.singleton_append]
  | error failure =>
    cases failure with
    | fault fault =>
      simp only [close, abort, lastWords]
      cases s.objects.diagnosticOfFault (.ofText unit.name) (.ofText? unit.filename) fault with
      | error failure => exact hnothing
      | ok diagnostic =>
        cases hlocated : located unit.filename fault s.objects with
        | error failure => exact hnothing
        | ok objects =>
          refine ⟨fault.index, objects, Objects.moved_of_located hlocated, ?_⟩
          simp only []
          cases objects.report fault with
          | error failure => exact (Store.deliver_nil _).symm
          | ok words => exact checker.report_eq_deliver .error words _
    | _ => exact hnothing

end Checker

/-! ## Settings that are in force -/

/-- How much is reported, and whether with the time. -/
structure Volume where
  verbosity : Int
  stamped : Bool

/-- How much each settings object has reported, at each moment. -/
abbrev Volumes := Nat → SettingsRef → Volume

/-- What an attribute of settings is when they have this volume. -/
def Volume.put (volume : Volume) (name : String) (v : Value) : Value :=
  if name = "log_level" then .int ⟨0⟩ volume.verbosity
  else if name = "log_rich_format" then .bool volume.stamped
  else v

namespace Objects

variable {objects objects' : Objects}

/-- Sets the volumes of all settings objects. -/
def tune (volume : SettingsRef → Volume) (objects : Objects) : Objects :=
  { objects with
    attributes := objects.attributes.mapIdx fun i attributes =>
      ⟨attributes.entries.map fun e => (e.1, (volume ⟨i⟩).put e.1 e.2)⟩ }

theorem hide_tune (volume : SettingsRef → Volume) (objects : Objects) :
    (objects.tune volume).hide reportingNames = objects.hide reportingNames := by
  simp only [hide, tune, mk.injEq, and_true]
  refine Array.ext (by simp) fun i h1 h2 => ?_
  simp only [Array.getElem_map, Array.getElem_mapIdx, Bindings.hide, List.map_map,
    Bindings.mk.injEq]
  refine List.map_congr_left fun e _ => ?_
  by_cases he : e.1 = "log_level"
  · simp [veil, reportingNames, he]
  · by_cases he' : e.1 = "log_rich_format"
    · simp [veil, reportingNames, he']
    · simp [Volume.put, he, he']

theorem attribute?_tune (volume : SettingsRef → Volume) (objects : Objects) (ref : SettingsRef)
    (name : String) :
    (objects.tune volume).attribute? ref.value name =
      (objects.attribute? ref.value name).map ((volume ref).put name) := by
  simp only [SettingsRef.value, attribute?, attributesAt, tune, Array.getD_eq_getD_getElem?,
    Array.getElem?_mapIdx]
  cases objects.attributes[ref.index]? with
  | none => rfl
  | some b => exact b.get?_map (volume ref).put name

/-- The settings objects have these volumes, as far as they say how much is reported, and in which
form. What does not say is silent, and has no form. -/
structure Tuned (volume : SettingsRef → Volume) (objects : Objects) : Prop where
  verbosity : ∀ ref : SettingsRef, (objects.settingsOf ref).verbosity =
    if (objects.attribute? ref.value "log_level").isSome then (volume ref).verbosity else 0
  stamped : ∀ ref : SettingsRef, (objects.settingsOf ref).stamped =
    ((objects.attribute? ref.value "log_rich_format").isSome && (volume ref).stamped)

theorem tuned_tune (volume : SettingsRef → Volume) (objects : Objects) :
    (objects.tune volume).Tuned volume := by
  constructor
  · intro ref
    simp only [settingsOf, get, attribute?_tune]
    cases objects.attribute? ref.value "log_level" <;> rfl
  · intro ref
    simp only [settingsOf, get, attribute?_tune]
    cases objects.attribute? ref.value "log_rich_format" <;> rfl

/-- Telling a fault its file does not change a volume. -/
theorem Tuned.moved {volume : SettingsRef → Volume} (htuned : objects.Tuned volume) {i : Nat}
    (hmoved : Moved i objects objects') : objects'.Tuned volume := by
  constructor
  · intro ref
    rw [hmoved.settingsOf, htuned.verbosity, hmoved.attribute? _ _ (.inr (by decide))]
  · intro ref
    rw [hmoved.settingsOf, htuned.stamped, hmoved.attribute? _ _ (.inr (by decide))]

end Objects

/-! ## Notices -/

/-- A message from some moment. Whether it is reported is left open: that is a matter of the volume
that its settings have at that moment. -/
structure Notice extends Message where
  moment : Nat
  /-- Whether the settings say how much is reported. -/
  leveled : Bool
  /-- Whether the settings say in which form. -/
  formed : Bool

namespace Notice

variable (volumes : Volumes) (n : Notice)

/-- The volume in force for a notice. -/
def volume : Volume where
  verbosity := if n.leveled then (volumes n.moment n.settings).verbosity else 0
  stamped := n.formed && (volumes n.moment n.settings).stamped

/-- Whether a notice is reported. -/
def admitted : Bool := n.level.rank ≤ (n.volume volumes).verbosity

/-- The line of a notice that is reported. -/
def shownLine : Journal.Line := ⟨n.level, (n.volume volumes).stamped, n.words⟩

end Notice

/-- A message of this moment, as a notice. -/
def Objects.notice (objects : Objects) (moment : Nat) (m : Message) : Notice where
  toMessage := m
  moment := moment
  leveled := (objects.attribute? m.settings.value "log_level").isSome
  formed := (objects.attribute? m.settings.value "log_rich_format").isSome

namespace Objects

variable {objects objects' : Objects}

/-- Notices are the same, however much is reported. -/
theorem notice_of_hide (h : objects.hide reportingNames = objects'.hide reportingNames) :
    objects.notice = objects'.notice := by
  have hsome (v : Value) (name : String) :
      (objects.attribute? v name).isSome = (objects'.attribute? v name).isSome := by
    rw [← @isSome_attribute?_hide reportingNames objects, h, isSome_attribute?_hide]
  funext moment m
  simp only [notice, hsome]

/-- **What is reported of the messages of a moment** can be read off the notices of it. -/
theorem filterMap_lineOf {volumes : Volumes} {moment : Nat}
    (htuned : objects.Tuned (volumes moment)) (messages : List Message) :
    messages.filterMap objects.lineOf =
      ((messages.map (objects.notice moment)).filter (·.admitted volumes)).map
        (·.shownLine volumes) := by
  have hline (m : Message) : objects.lineOf m =
      if (objects.notice moment m).admitted volumes then
        some ((objects.notice moment m).shownLine volumes)
      else none := by
    simp only [lineOf, Settings.admits, htuned.verbosity, htuned.stamped]
    rfl
  induction messages with
  | nil => rfl
  | cons m messages ih =>
    rw [List.filterMap_cons, hline, List.map_cons, List.filter_cons, ih]
    cases (objects.notice moment m).admitted volumes <;> rfl

end Objects

end TypingStore
