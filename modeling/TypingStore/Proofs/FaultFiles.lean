import TypingStore.Proofs.Reports

/-!
# Which file a fault is reported in

A fault that names no file is told the file of the unit it ends, and keeps it. So a fault that is
met again is reported in the file it was first reported in, whatever unit it ends then
(`report_bare_iff`). Nothing else that is reported depends on it (`Objects.Moved`).

* `Objects.Moved`: objects that differ at most in where one fault is.
* `Objects.placeIn`: the place a report starts with.
* `Checker.fileOf`: the file that some units in order tell a fault.
-/

namespace TypingStore
namespace Objects

/-! ## Where a fault is -/

/-- Objects that differ at most in where the fault at a position is. -/
structure Moved (i : Nat) (objects objects' : Objects) : Prop where
  size : objects'.attributes.size = objects.attributes.size
  attribute? : ∀ v name, v.index? ≠ some i ∨ name ≠ "loc" →
    objects'.attribute? v name = objects.attribute? v name

variable {objects objects' : Objects} {ref other : FaultRef} {i : Nat}

theorem Moved.refl (i : Nat) (objects : Objects) : Moved i objects objects :=
  ⟨rfl, fun _ _ _ => rfl⟩

theorem Moved.set (hi : i < objects.attributes.size) (new : Value) :
    Moved i objects (objects.set i "loc" new) where
  size := by simp [Objects.set]
  attribute? v name h := by
    rw [attribute?_set objects hi, if_neg]
    rintro ⟨hv, rfl⟩
    exact h.elim (· hv) (· rfl)

namespace Moved

variable (h : Moved i objects objects')
include h

theorem get (v : Value) {name : String} (hname : name ≠ "loc") :
    objects'.get v name = objects.get v name := by
  simp only [Objects.get, h.attribute? v name (.inr hname)]

theorem need (v : Value) {name : String} (hname : name ≠ "loc") :
    objects'.need v name = objects.need v name := by
  simp only [Objects.need, h.attribute? v name (.inr hname)]

theorem fields (r : RecordRef) : objects'.fields r = objects.fields r := by
  refine List.map_congr_left fun name hmem => h.get _ ?_
  -- no record has a field of that name
  rintro rfl
  obtain ⟨index, kind⟩ := r
  cases kind with
  | node kind => cases kind <;> simp [RecordKind.fieldNames, NodeKind.fieldNames] at hmem
  | _ => simp [RecordKind.fieldNames] at hmem

theorem formsTo (depth : Nat) (path : List Nat) :
    objects'.formsTo depth path = objects.formsTo depth path := by
  induction depth generalizing path with
  | zero => rfl
  | succ depth ih =>
    simp only [Objects.formsTo, ih, h.fields, arguments, h.get _ (show "args" ≠ "loc" by decide),
      h.get _ (show "tag" ≠ "loc" by decide)]

theorem plain : objects'.plain = objects.plain := by
  funext v
  simp only [Objects.plain, forms, h.size, h.formsTo]

theorem start (v : Value) : objects'.start v = objects.start v := by
  simp only [Objects.start, h.plain, h.need v (show "start_line" ≠ "loc" by decide),
    h.need v (show "start_column" ≠ "loc" by decide)]

theorem asSpan (v : Value) : objects'.asSpan v = objects.asSpan v := by
  cases v with
  | absent => rfl
  | _ =>
    simp only [Objects.asSpan, h.need _ (show "start_line" ≠ "loc" by decide),
      h.need _ (show "start_column" ≠ "loc" by decide),
      h.need _ (show "end_line" ≠ "loc" by decide),
      h.need _ (show "end_column" ≠ "loc" by decide)]

theorem codedMessage (ref : FaultRef) : objects'.codedMessage ref = objects.codedMessage ref := by
  simp only [Objects.codedMessage, codeOf, h.plain, h.get _ (show "message" ≠ "loc" by decide),
    h.attribute? _ _ (.inr (show "code" ≠ "loc" by decide))]

theorem settingsOf (settings : SettingsRef) :
    objects'.settingsOf settings = objects.settingsOf settings := by
  simp only [Objects.settingsOf, h.get _ (show "log_level" ≠ "loc" by decide),
    h.get _ (show "log_rich_format" ≠ "loc" by decide),
    h.get _ (show "version_bump" ≠ "loc" by decide)]

/-- What is reported of an error does not change. -/
theorem diagnosticOf (unit filename error : Value) :
    objects'.diagnosticOf unit filename error = objects.diagnosticOf unit filename error := by
  simp only [Objects.diagnosticOf_eq, diagnosticAt, spanOf, nodeOf, h.plain, h.asSpan,
    h.get _ (show "span" ≠ "loc" by decide), h.get _ (show "node" ≠ "loc" by decide)]

/-- What is reported of any other fault does not change. -/
theorem diagnosticOfFault (hother : other.index ≠ i) (unit filename : Value) :
    objects'.diagnosticOfFault unit filename other =
      objects.diagnosticOfFault unit filename other := by
  have hloc : objects'.attribute? other.value "loc" = objects.attribute? other.value "loc" :=
    h.attribute? _ _ (.inl fun heq => hother (Option.some.inj heq))
  have hspan : objects'.locationSpan other.value = objects.locationSpan other.value := by
    simp only [locationSpan, Objects.need, hloc,
      h.attribute? _ _ (.inr (show "span" ≠ "loc" by decide))]
  have hplace : objects'.faultPlace other = objects.faultPlace other := by
    simp only [faultPlace, Objects.get, hloc, h.plain, h.start,
      h.need _ (show "filename" ≠ "loc" by decide), h.need _ (show "span" ≠ "loc" by decide)]
    rfl
  simp only [Objects.diagnosticOfFault, diagnosticOfReport, hspan, h.asSpan, report, operation,
    h.attribute? _ _ (.inr (show "format" ≠ "loc" by decide)), h.codedMessage, hplace]

theorem locationFile (hother : other.index ≠ i) :
    objects'.locationFile other = objects.locationFile other := by
  have hloc : objects'.attribute? other.value "loc" = objects.attribute? other.value "loc" :=
    h.attribute? _ _ (.inl fun heq => hother (Option.some.inj heq))
  simp only [Objects.locationFile, Objects.get, hloc, h.need _ (show "filename" ≠ "loc" by decide)]

end Moved

/-- The place a report starts with: the file, and after it the start of the span if there is one. A
file without a name counts as none. -/
def placeIn (objects : Objects) (file : Option String) (span : Option Span) : String :=
  if file.getD "" = "" then ""
  else file.getD "" ++ (match span with
    | none => ""
    | some span => ":" ++ span.start objects.plain) ++ ": "

theorem Moved.placeIn (h : Moved i objects objects') (file : Option String) (span : Option Span) :
    objects'.placeIn file span = objects.placeIn file span := by
  simp only [Objects.placeIn, h.plain]

theorem placeIn_eq_empty {file : Option String} {span : Option Span} :
    objects.placeIn file span = "" ↔ file = none ∨ file = some "" := by
  cases file with
  | none => simp [placeIn]
  | some file => by_cases h : file = "" <;> simp [placeIn, h]

/-- The place tells the file, unless it has no name. -/
theorem placeIn_inj {file : Option String} {name : String} {span : Option Span}
    (hname : name ≠ "") :
    objects.placeIn file span = objects.placeIn (some name) span ↔ file = some name := by
  refine ⟨fun h => ?_, fun h => by rw [h]⟩
  have hne : objects.placeIn file span ≠ "" := by
    rw [h, ne_eq, placeIn_eq_empty]
    simpa using hname
  cases file with
  | none => exact absurd (placeIn_eq_empty.2 (.inl rfl)) hne
  | some file =>
    have hfile : file ≠ "" := by
      rintro rfl
      exact hne (placeIn_eq_empty.2 (.inr rfl))
    simp only [placeIn, Option.getD_some, hfile, hname, if_false, String.append_left_inj] at h
    rw [h]

/-- A fault is reported in the file its location names. -/
theorem report_of_file {file : Option String} {place : Value} {span : Option Span} {coded : String}
    (hfile : objects.locationFile ref = .ok (.ofText? file))
    (hplace : objects.locationSpan ref.value = .ok place) (hspan : objects.asSpan place = .ok span)
    (hformat : objects.attribute? ref.value "format" = none)
    (hcoded : objects.codedMessage ref = .ok coded) :
    objects.report ref =
      .ok (objects.placeIn file span ++ "internal checker error: " ++ coded) := by
  have hfault : objects.faultPlace ref = .ok (objects.placeIn file span) := by
    obtain ⟨location, hget, ⟨rfl, rfl⟩ | ⟨htrue, hneed⟩⟩ := location_of_span hplace
    · -- without a location the fault is in no file
      simp only [locationFile, hget] at hfile
      cases file with
      | none => simp only [faultPlace, hget]; rfl
      | some file => cases hfile
    · rw [locationFile_of_isTrue hget htrue] at hfile
      simp only [faultPlace, hget, htrue, hfile, hneed, bind, Except.bind, pure, Except.pure]
      cases file with
      | none => rfl
      | some name =>
        by_cases hname : name = ""
        · subst hname; rfl
        · have hshown : (Value.ofText? (some name)).isTrue = true := by
            simp [Value.ofText?, Value.ofText, Value.isTrue, hname]
          simp only [hshown, placeIn, Option.getD_some, hname, if_false]
          by_cases ha : place = .absent
          · subst ha
            obtain rfl : span = none := (Except.ok.inj hspan).symm
            simp only [String.append_empty]
            rfl
          · obtain ⟨known, rfl, -⟩ := need_start_of_asSpan hspan ha
            simp only [start_of_asSpan hspan]
            cases place with
            | absent => exact absurd rfl ha
            | _ => simp only [String.append_assoc]; rfl
  simp only [report, operation, hformat, hcoded, hfault, bind, Except.bind, pure, Except.pure]

/-- A fault is told by its position. -/
theorem locationFile_congr (h : ref.index = other.index) :
    objects.locationFile ref = objects.locationFile other := by
  obtain ⟨i, kind⟩ := ref
  obtain ⟨j, kind'⟩ := other
  obtain rfl : i = j := h
  rfl

/-- Telling a fault its file moves at most that fault. -/
theorem moved_of_located {filename : Option String}
    (h : Checker.located filename ref objects = .ok objects') :
    Moved ref.index objects objects' := by
  cases filename with
  | none =>
    cases h
    exact .refl _ _
  | some filename =>
    simp only [Checker.located, nameFile, bind, Except.bind, pure, Except.pure] at h
    cases hfile : objects.locationFile ref with
    | error failure => simp [hfile] at h
    | ok named =>
      cases named with
      | absent =>
        cases hplace : objects.locationSpan ref.value with
        | error failure => simp [hfile, hplace] at h
        | ok place =>
          simp only [hfile, hplace, Except.ok.injEq] at h
          subst h
          exact .set (index_lt_of_locationSpan hplace) _
      | _ =>
        simp only [hfile, Except.ok.injEq] at h
        subst h
        exact .refl _ _

/-- **A fault keeps the file it names**, and else it is told the file of the unit. It keeps its span
in any case. -/
theorem exists_located {file : Option String} {place : Value}
    (hfile : objects.locationFile ref = .ok (.ofText? file))
    (hplace : objects.locationSpan ref.value = .ok place) (filename : Option String) :
    ∃ objects', Checker.located filename ref objects = .ok objects' ∧
      objects'.locationFile ref = .ok (.ofText? (file.or filename)) ∧
      objects'.locationSpan ref.value = .ok place := by
  cases filename with
  | none => exact ⟨objects, rfl, by rwa [Option.or_none], hplace⟩
  | some filename =>
    simp only [Checker.located, nameFile, hfile, hplace, bind, Except.bind, pure, Except.pure]
    cases file with
    | some file => exact ⟨objects, rfl, hfile, hplace⟩
    | none =>
      have hmade := index_lt_of_locationSpan hplace
      have hloc : (objects.set ref.index "loc" (.location ⟨0⟩ (.ofText filename) place)).attribute?
          ref.value "loc" = some (.location ⟨0⟩ (.ofText filename) place) := by
        rw [attribute?_set objects hmade, if_pos ⟨rfl, rfl⟩]
      refine ⟨_, rfl, ?_, ?_⟩
      · simp only [locationFile, get, hloc, Option.getD_some]
        rfl
      · simp only [locationSpan, need, hloc, bind, Except.bind]
        rfl

end Objects

namespace Checker

open Objects

variable {σ : Type}

/-! ## Units in order -/

/-- What is left behind when units were checked in order. -/
def after (checker : Checker) (units : List (CheckUnit σ)) (state : σ × Store) : σ × Store :=
  units.foldl (fun state unit => (checker.check unit state).2) state

/-- The file that a unit tells a fault, if the unit ends in a report of that fault. -/
def tells (checker : Checker) (fault : FaultRef) (unit : CheckUnit σ) (state : σ × Store) :
    Option String :=
  match (checker.check unit state).1.map UnitResult.fault with
  | .ok (some met) => if met.index = fault.index then unit.filename else none
  | _ => none

/-- The first file that units in order tell a fault. -/
def fileOf (checker : Checker) (fault : FaultRef) :
    List (CheckUnit σ) → σ × Store → Option String
  | [], _ => none
  | unit :: units, state =>
    (checker.tells fault unit state).or (checker.fileOf fault units (checker.check unit state).2)

/-- Every engine in turn leaves the file of a fault as it finds it. A fault that is yet to arise
names no file, so an engine may also make it, without a file. -/
def Leaves (checker : Checker) (fault : FaultRef) : List (CheckUnit σ) → σ × Store → Prop
  | [], _ => True
  | unit :: units, state =>
    (checker.walk unit state).store.objects.locationFile fault =
        state.2.objects.locationFile fault ∧
      checker.Leaves fault units (checker.check unit state).2

/-- Several units that all have results have those of the single checks. -/
theorem getElem?_checkAll (checker : Checker) (earlier later : List (CheckUnit σ))
    (unit : CheckUnit σ) {state : σ × Store} {results : List UnitResult}
    (h : (checker.checkAll (earlier ++ unit :: later) state).1 = .ok results) :
    (results[earlier.length]?).map Except.ok =
      some (checker.check unit (checker.after earlier state)).1 := by
  induction earlier generalizing state results with
  | nil =>
    simp only [List.nil_append, checkAll] at h
    cases hc : checker.check unit state with
    | mk result state' =>
      cases result with
      | error failure => simp [hc] at h
      | ok result =>
        simp only [hc] at h
        cases hr : (checker.checkAll later state').1 with
        | error failure => simp [hr, Except.map] at h
        | ok rest =>
          simp only [hr, Except.map, Except.ok.injEq] at h
          subst h
          simp [after, hc]
  | cons first earlier ih =>
    simp only [List.cons_append, checkAll] at h
    cases hc : checker.check first state with
    | mk result state' =>
      cases result with
      | error failure => simp [hc] at h
      | ok result =>
        simp only [hc] at h
        cases hr : (checker.checkAll (earlier ++ unit :: later) state').1 with
        | error failure => simp [hr, Except.map] at h
        | ok rest =>
          simp only [hr, Except.map, Except.ok.injEq] at h
          subst h
          simpa [after, hc] using ih hr

variable {checker : Checker} {unit : CheckUnit σ} {state : σ × Store} {fault met : FaultRef}

/-- A unit that a fault ends. -/
theorem check_of_fault (hend : (checker.walk unit state).result = .error (.fault met)) :
    (checker.check unit state).1 = (checker.abort unit.name unit.filename
        (checker.walk unit state).root met (checker.walk unit state).store).1 ∧
      (checker.check unit state).2.2 = (checker.abort unit.name unit.filename
        (checker.walk unit state).root met (checker.walk unit state).store).2 := by
  have hclose := checker.check_eq_close unit state
  simp only [close, hend] at hclose
  exact Prod.mk.inj hclose

/-- A unit that no fault ends tells no fault anything. -/
theorem check_of_not_fault (fault : FaultRef)
    (hend : ∀ met, (checker.walk unit state).result ≠ .error (.fault met)) :
    checker.tells fault unit state = none ∧
      (checker.check unit state).2.2.objects = (checker.walk unit state).store.objects := by
  obtain ⟨hresult, hstore⟩ := Prod.mk.inj (checker.check_eq_close unit state)
  unfold tells
  rw [hresult, hstore]
  revert hend
  obtain ⟨root, result, s⟩ := checker.walk unit state
  intro hend
  cases result with
  | ok u =>
    simp only [finish]
    cases s.diagnostics root (.ofText unit.name) (.ofText? unit.filename) <;> exact ⟨rfl, rfl⟩
  | error failure =>
    cases failure with
    | fault met => exact absurd rfl (hend met)
    | _ => exact ⟨rfl, rfl⟩

/-- The end of a unit that met a fault, when it can be worded. -/
theorem exists_abort (checker : Checker) (root : ContextId) {name : String}
    {filename : Option String} {s : Store} {d : Diagnostic}
    (h : s.objects.diagnosticOfFault (.ofText name) (.ofText? filename) met = .ok d) :
    ∃ objects logged result, located filename met s.objects = .ok objects ∧
      objects.report met = .ok logged ∧ result.fault = some met ∧ result.diagnostics = [d] ∧
      checker.abort name filename root met s =
        (.ok result, checker.report .error logged { s with objects := objects }) := by
  obtain ⟨objects, logged, hlocated, hreport⟩ := Objects.exists_report_located h filename
  exact ⟨objects, logged,
    { unit := name, settings := checker.settings, root := some root, fault := some met
      diagnostics := [d] }, hlocated, hreport, rfl, rfl,
    by simp only [abort, h, hlocated, hreport]⟩

/-- **What one unit does to the file of a fault.** -/
theorem locationFile_check {file : Option String}
    (hleft : (checker.walk unit state).store.objects.locationFile fault = .ok (.ofText? file)) :
    (checker.check unit state).2.2.objects.locationFile fault =
      .ok (.ofText? (file.or (checker.tells fault unit state))) := by
  by_cases hfault : ∃ met, (checker.walk unit state).result = .error (.fault met)
  · obtain ⟨met, hend⟩ := hfault
    obtain ⟨hresult, hstore⟩ := check_of_fault hend
    rw [hstore]
    cases hd : (checker.walk unit state).store.objects.diagnosticOfFault (.ofText unit.name)
        (.ofText? unit.filename) met with
    | error failure =>
      have hnone : checker.tells fault unit state = none := by
        simp only [tells, hresult, abort, hd]; rfl
      simp only [hnone, Option.or_none, abort, hd, hleft]
    | ok d =>
      obtain ⟨objects, logged, result, hlocated, -, hmet, -, habort⟩ :=
        exists_abort checker (checker.walk unit state).root hd
      have htells : checker.tells fault unit state =
          if met.index = fault.index then unit.filename else none := by
        simp only [tells, hresult, habort, Except.map, hmet]
      rw [habort, htells]
      show objects.locationFile fault = _
      by_cases hsame : met.index = fault.index
      · obtain ⟨place, -, -, hplace, -⟩ := diagnosticOfReport_eq_ok.1 hd
        rw [← locationFile_congr hsame] at hleft
        obtain ⟨objects', hlocated', hnamed, -⟩ := exists_located hleft hplace unit.filename
        obtain rfl : objects = objects' := Except.ok.inj (hlocated.symm.trans hlocated')
        rw [if_pos hsame, ← locationFile_congr hsame, hnamed]
      · rw [if_neg hsame, Option.or_none, (moved_of_located hlocated).locationFile (Ne.symm hsame),
          hleft]
  · obtain ⟨hnone, hobjects⟩ := check_of_not_fault fault fun met h => hfault ⟨met, h⟩
    rw [hnone, hobjects, Option.or_none, hleft]

/-- **What units in order do to the file of a fault**: it keeps the first one it is told. -/
theorem locationFile_after {units : List (CheckUnit σ)} (file : Option String)
    (hleaves : checker.Leaves fault units state)
    (hfile : state.2.objects.locationFile fault = .ok (.ofText? file)) :
    (checker.after units state).2.objects.locationFile fault =
      .ok (.ofText? (file.or (checker.fileOf fault units state))) := by
  induction units generalizing state file with
  | nil => simpa only [after, fileOf, Option.or_none, List.foldl_nil] using hfile
  | cons unit units ih =>
    obtain ⟨hleft, hrest⟩ := hleaves
    have hnext := ih _ hrest (locationFile_check (hleft.trans hfile))
    rw [Option.or_assoc] at hnext
    exact hnext

theorem leaves_append {earlier later : List (CheckUnit σ)} :
    checker.Leaves fault (earlier ++ later) state ↔ checker.Leaves fault earlier state ∧
      checker.Leaves fault later (checker.after earlier state) := by
  induction earlier generalizing state with
  | nil => simp [Leaves, after]
  | cons unit earlier ih =>
    have h := @ih (checker.check unit state).2
    simp only [List.cons_append, Leaves, h, and_assoc]
    rfl

/-- **What a unit reports of the fault that ends it.** The diagnostic is worded with the file that
the fault names, the logged line after the unit has told the fault its own. -/
theorem exists_check_of_fault {file : Option String} {place : Value} {span : Option Span}
    {coded : String} (hend : (checker.walk unit state).result = .error (.fault fault))
    (hfile : (checker.walk unit state).store.objects.locationFile fault = .ok (.ofText? file))
    (hplace : (checker.walk unit state).store.objects.locationSpan fault.value = .ok place)
    (hspan : (checker.walk unit state).store.objects.asSpan place = .ok span)
    (hformat : (checker.walk unit state).store.objects.attribute? fault.value "format" = none)
    (hcoded : (checker.walk unit state).store.objects.codedMessage fault = .ok coded) :
    let s := (checker.walk unit state).store
    let bare := "internal checker error: " ++ coded
    ∃ result objects', (checker.check unit state).1 = .ok result ∧ result.fault = some fault ∧
      result.diagnostics = [.of (.ofText "internal") (.ofText (s.objects.placeIn file span ++ bare))
        (.ofText unit.name) (.ofText? unit.filename) span] ∧
      Moved fault.index s.objects objects' ∧
      (checker.check unit state).2.2 = checker.report .error
        (s.objects.placeIn (file.or unit.filename) span ++ bare) { s with objects := objects' } := by
  intro s bare
  have hreport := report_of_file hfile hplace hspan hformat hcoded
  have hd : s.objects.diagnosticOfFault (.ofText unit.name) (.ofText? unit.filename) fault = .ok
      (.of (.ofText "internal") (.ofText (s.objects.placeIn file span ++ bare)) (.ofText unit.name)
        (.ofText? unit.filename) span) :=
    diagnosticOfReport_eq_ok.2 ⟨place, span, _, hplace, hspan, hreport, by rw [String.append_assoc]⟩
  obtain ⟨objects', logged, result, hlocated, hlogged, hmet, hdiagnostics, habort⟩ :=
    exists_abort checker (checker.walk unit state).root hd
  -- the line is worded from the file that the fault names then
  obtain ⟨located, hlocated', hfile', hplace'⟩ := exists_located hfile hplace unit.filename
  obtain rfl : objects' = located := Except.ok.inj (hlocated.symm.trans hlocated')
  have hmoved := moved_of_located hlocated
  have hline : objects'.report fault =
      .ok (objects'.placeIn (file.or unit.filename) span ++ "internal checker error: " ++ coded) :=
    report_of_file hfile' hplace' ((hmoved.asSpan _).trans hspan)
      ((hmoved.attribute? _ _ (.inr (by decide))).trans hformat)
      ((hmoved.codedMessage _).trans hcoded)
  rw [hlogged, hmoved.placeIn, Except.ok.injEq, String.append_assoc] at hline
  obtain ⟨hresult, hstore⟩ := check_of_fault hend
  refine ⟨result, objects', by rw [hresult, habort], hmet, hdiagnostics, hmoved, ?_⟩
  rw [hstore, habort, hline]

/-- **When the report of a fault speaks of its own unit.** A fault that names no file ends a unit
after others. The unit reports it at the span of the fault, under the name and the file of the unit.
The message starts with the file that an earlier unit told the fault, and the logged line with that
file or else the one of the unit. So the message is bare exactly if no earlier unit with a named
file reported the same fault, and the line speaks of the unit exactly if no other file was told.
Of anything else what is reported stays the same. -/
theorem report_bare_iff (checker : Checker) (fault : FaultRef) (earlier : List (CheckUnit σ))
    (unit : CheckUnit σ) (state : σ × Store) (coded : String) (place : Value) (span : Option Span) :
    let before := checker.after earlier state
    let w := checker.walk unit before
    let told := checker.fileOf fault earlier state
    let objects := w.store.objects
    let bare := "internal checker error: " ++ coded
    let final := (checker.check unit before).2.2
    state.2.objects.locationFile fault = .ok .absent →
    checker.Leaves fault (earlier ++ [unit]) state →
    w.result = .error (.fault fault) →
    objects.attribute? fault.value "format" = none →
    objects.codedMessage fault = .ok coded →
    objects.locationSpan fault.value = .ok place → objects.asSpan place = .ok span →
    ∃ result message logged,
      (checker.check unit before).1 = .ok result ∧ result.fault = some fault ∧
      result.diagnostics = [.of (.ofText "internal") (.ofText message) (.ofText unit.name)
        (.ofText? unit.filename) span] ∧
      (∀ later results, (checker.checkAll (earlier ++ unit :: later) state).1 = .ok results →
        results[earlier.length]? = some result) ∧
      final.journal = w.store.journal.report (objects.settingsOf checker.settings) .error logged ∧
      message = objects.placeIn told span ++ bare ∧
      logged = objects.placeIn (told.or unit.filename) span ++ bare ∧
      (message = bare ↔ told = none ∨ told = some "") ∧
      (∀ file, unit.filename = some file → file ≠ "" →
        (logged = objects.placeIn (some file) span ++ bare ↔ told = none ∨ told = some file)) ∧
      final.contexts = w.store.contexts ∧
      (∀ c unit filename, final.diagnostics c unit filename =
        w.store.diagnostics c unit filename) ∧
      ∀ other unit filename, other.index ≠ fault.index →
        final.objects.diagnosticOfFault unit filename other =
          objects.diagnosticOfFault unit filename other := by
  intro before w told objects bare final hnew hleaves hend hformat hcoded hplace hspan
  -- what the location of the fault names when it ends the unit
  obtain ⟨hearlier, hleft, -⟩ := leaves_append.1 hleaves
  have hfile : objects.locationFile fault = .ok (.ofText? told) :=
    hleft.trans (locationFile_after none hearlier hnew)
  obtain ⟨result, objects', hok, hmet, hdiagnostics, hmoved, hfinal⟩ :=
    exists_check_of_fault hend hfile hplace hspan hformat hcoded
  refine ⟨result, _, _, hok, hmet, hdiagnostics, ?_, ?_, rfl, rfl, ?_, ?_, ?_, ?_, ?_⟩
  · intro later results hall
    have hget := getElem?_checkAll checker earlier later unit hall
    rw [hok] at hget
    obtain ⟨r, hr, heq⟩ := Option.map_eq_some_iff.1 hget
    rw [hr, Except.ok.inj heq]
  · simp only [final, hfinal, Checker.report, hmoved.settingsOf]
    rfl
  · rw [String.append_eq_right_iff, placeIn_eq_empty]
  · intro file hunit hname
    rw [hunit, String.append_left_inj, placeIn_inj hname]
    cases told <;> simp
  · simp only [final, hfinal]
    rfl
  · intro c unit filename
    have hsame : objects'.diagnosticOf unit filename = objects.diagnosticOf unit filename :=
      funext fun error => hmoved.diagnosticOf unit filename error
    simp only [final, hfinal, Store.diagnostics, Checker.report, hsame]
    rfl
  · intro other unit filename hother
    simp only [final, hfinal]
    exact hmoved.diagnosticOfFault hother unit filename

/-- An engine that meets a fault at once. -/
def meeting (fault : FaultRef) : Engine Unit := fun _ state => (.error (.fault fault), state)

/-- Settings, and after them a fault in words of its own. -/
def settingsAndFault : Store where
  objects := (({} : Objects).newSettings.2.newFault (.other (.ofText "boom"))).2

/-- Two units in two files meet the same fault, and both report it in the first file. -/
theorem report_in_first_file :
    let checker : Checker := { settings := ⟨0⟩ }
    let fault : FaultRef := ⟨1, .other⟩
    let first : CheckUnit Unit := ⟨"a", meeting fault, some "a.rb"⟩
    let second : CheckUnit Unit := ⟨"b", meeting fault, some "b.rb"⟩
    let state := ((), settingsAndFault)
    let bare := "internal checker error: [ICE-9999] boom"
    ∃ result message logged,
      (checker.check second (checker.after [first] state)).1 = .ok result ∧
      result.diagnostics = [.of (.ofText "internal") (.ofText message) (.ofText "b")
        (.ofText "b.rb") none] ∧
      message = "a.rb: " ++ bare ∧ logged = "a.rb: " ++ bare ∧
      message ≠ bare ∧ logged ≠ "b.rb: " ++ bare := by
  intro checker fault first second state bare
  have htold : checker.fileOf fault [first] state = some "a.rb" := rfl
  obtain
    ⟨result, message, logged, hok, -, hdiagnostics, -, -, hmessage, hlogged, hbare, hfile, -⟩ :=
    report_bare_iff checker fault [first] second state "[ICE-9999] boom" .absent none rfl
      ⟨rfl, rfl, trivial⟩ rfl rfl rfl rfl rfl
  rw [htold] at hmessage hlogged hbare hfile
  refine ⟨result, message, logged, hok, hdiagnostics, hmessage.trans rfl,
    hlogged.trans rfl, fun h => ?_, fun h => ?_⟩
  · have hnone := hbare.1 h
    simp at hnone
  · have hsame := (hfile "b.rb" rfl (by decide)).1 (h.trans rfl)
    simp at hsame

end Checker

end TypingStore
