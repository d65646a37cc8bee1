import TypingStore.Checker

/-!
# What a check reports

A check promises a diagnostic for each error in the root, and one more if a fault ended the unit
(`Walk.promised`). When a fault ends the unit it reports only that one: the errors found before are
lost (`map_check`). So the promise is kept when no fault ends the unit, and else only if there was
nothing to lose (`check_eq_promised_iff`).

A check has a result whenever the diagnostics it reports can be made
(`Objects.exists_report_located`): filling the file into the location of a fault never
gets in the way.
-/

namespace TypingStore
namespace Objects

variable {objects : Objects} {ref : FaultRef}

/-- What a diagnostic of a report takes: the span and the report. -/
theorem diagnosticOfReport_eq_ok {unit filename v : Value} {report : Except Failure String}
    {d : Diagnostic} :
    objects.diagnosticOfReport unit filename v report = .ok d ↔
      ∃ place span message, objects.locationSpan v = .ok place ∧ objects.asSpan place = .ok span ∧
        report = .ok message ∧
        d = .of (.ofText "internal") (.ofText message) unit filename span := by
  simp only [diagnosticOfReport, bind, Except.bind, pure, Except.pure]
  cases objects.locationSpan v with
  | error failure => simp
  | ok place =>
    cases hs : objects.asSpan place with
    | error failure => simp [hs]
    | ok span =>
      cases report with
      | error failure => simp [hs]
      | ok message => simp [hs, eq_comm]

/-- What the one-line form of a fault takes: its message and its place, if the form is not
hidden. -/
theorem exists_report_eq_ok :
    (∃ m, objects.report ref = .ok m) ↔ objects.attribute? ref.value "format" = none ∧
      (∃ m, objects.codedMessage ref = .ok m) ∧ ∃ place, objects.faultPlace ref = .ok place := by
  simp only [report, operation]
  cases objects.attribute? ref.value "format" with
  | some v => simp
  | none =>
    simp only [bind, Except.bind, pure, Except.pure, true_and]
    cases objects.codedMessage ref with
    | error failure => simp
    | ok m => cases objects.faultPlace ref <;> simp

/-- Whether a fault can be worded has nothing to do with where it is. -/
theorem exists_codedMessage_set_loc {i : Nat} (hi : i < objects.attributes.size) (new : Value) :
    (∃ m, (objects.set i "loc" new).codedMessage ref = .ok m) ↔
      ∃ m, objects.codedMessage ref = .ok m := by
  have hm : (objects.set i "loc" new).get ref.value "message" =
      objects.get ref.value "message" := by
    simp [get, attribute?_set objects hi]
  simp only [codedMessage, hm, bind, Except.bind, pure, Except.pure]
  cases (objects.get ref.value "message").isCoded with
  | error failure => simp
  | ok b => cases b <;> simp

/-- What counts as a span has the lines and columns of its start. -/
theorem need_start_of_asSpan {v : Value} {span : Option Span} (h : objects.asSpan v = .ok span)
    (hv : v ≠ .absent) : ∃ known, span = some known ∧
      objects.need v "start_line" = .ok known.startLine ∧
      objects.need v "start_column" = .ok known.startColumn := by
  have h' : (do
      return some { startLine := ← objects.need v "start_line"
                    startColumn := ← objects.need v "start_column"
                    endLine := ← objects.need v "end_line"
                    endColumn := ← objects.need v "end_column" } : Except Failure (Option Span)) =
      .ok span := by
    rw [← h]; cases v <;> first | rfl | exact absurd rfl hv
  simp only [bind, Except.bind, pure, Except.pure] at h'
  cases hl : objects.need v "start_line" with
  | error failure => simp [hl] at h'
  | ok line =>
    cases hc : objects.need v "start_column" with
    | error failure => simp [hl, hc] at h'
    | ok column =>
      cases hel : objects.need v "end_line" with
      | error failure => simp [hl, hc, hel] at h'
      | ok endLine =>
        cases hec : objects.need v "end_column" with
        | error failure => simp [hl, hc, hel, hec] at h'
        | ok endColumn =>
          simp only [hl, hc, hel, hec, Except.ok.injEq] at h'
          exact ⟨_, h'.symm, rfl, rfl⟩

/-- What counts as a span has a start, and it is that of the span. -/
theorem start_of_asSpan {v : Value} {span : Span} (h : objects.asSpan v = .ok (some span)) :
    objects.start v = .ok (span.start objects.plain) := by
  have hv : v ≠ .absent := by rintro rfl; cases h
  obtain ⟨known, heq, hl, hc⟩ := need_start_of_asSpan h hv
  obtain rfl : span = known := Option.some.inj heq
  simp only [start, hl, hc, bind, Except.bind]
  rfl

/-- Filling a file into a location changes nothing that a span is read from. -/
theorem need_set_loc {i : Nat} (hi : i < objects.attributes.size) (new v : Value) {name : String}
    (hname : "loc" ≠ name) : (objects.set i "loc" new).need v name = objects.need v name := by
  simp only [need, attribute?_set objects hi, hname, and_false, if_false]

/-- What counts as false has no attributes. -/
theorem attribute?_of_not_isTrue {v : Value} (h : v.isTrue = false) (name : String) :
    objects.attribute? v name = none := by
  cases v <;> first | rfl | cases h

/-- A fault whose span can be told has no location, or one that counts as true. -/
theorem location_of_span {place : Value} (hplace : objects.locationSpan ref.value = .ok place) :
    ∃ location, objects.get ref.value "loc" = location ∧
      (location = .absent ∧ place = .absent ∨
        location.isTrue = true ∧ objects.need location "span" = .ok place) := by
  simp only [locationSpan, need, bind, Except.bind] at hplace
  cases hloc : objects.attribute? ref.value "loc" with
  | none => simp [hloc] at hplace
  | some location =>
    refine ⟨location, by simp only [get, hloc, Option.getD_some], ?_⟩
    rw [hloc] at hplace
    by_cases ha : location = .absent
    · subst ha
      exact .inl ⟨rfl, (Except.ok.inj hplace).symm⟩
    · have hspan : objects.need location "span" = .ok place := by
        rw [← hplace]
        cases location <;> first | rfl | exact absurd rfl ha
      refine .inr ⟨?_, hspan⟩
      cases ht : location.isTrue with
      | true => rfl
      | false => simp [need, attribute?_of_not_isTrue ht] at hspan

/-- The file of a location that counts as true is the one it has to have. -/
theorem locationFile_of_isTrue {location : Value} (hget : objects.get ref.value "loc" = location)
    (htrue : location.isTrue = true) :
    objects.locationFile ref = objects.need location "filename" := by
  simp only [locationFile, hget]
  cases location with
  | absent => cases htrue
  | _ => rfl

/-- Whether a fault names a file can be told when its span and its place can. -/
theorem exists_locationFile {place : Value} {text : String}
    (hplace : objects.locationSpan ref.value = .ok place)
    (htext : objects.faultPlace ref = .ok text) :
    ∃ file, objects.locationFile ref = .ok file := by
  -- without a location there is no file, and a location that has a span has a file
  obtain ⟨location, hget, ⟨rfl, -⟩ | ⟨htrue, -⟩⟩ := location_of_span hplace
  · exact ⟨.absent, by simp only [locationFile, hget]⟩
  · simp only [faultPlace, hget, htrue, bind, Except.bind] at htext
    cases hneed : objects.need location "filename" with
    | error failure => simp [hneed] at htext
    | ok file => exact ⟨file, (locationFile_of_isTrue hget htrue).trans hneed⟩

/-- A fault that has a location was made. -/
theorem index_lt_of_locationSpan {place : Value} (h : objects.locationSpan ref.value = .ok place) :
    ref.index < objects.attributes.size := by
  refine Decidable.byContradiction fun hlt => ?_
  have hnone : objects.attribute? ref.value "loc" = none := by
    simp only [FaultRef.value, attribute?, attributesAt, Array.getD_eq_getD_getElem?,
      Array.getElem?_eq_none (Nat.le_of_not_lt hlt)]
    rfl
  simp [locationSpan, need, hnone, bind, Except.bind] at h

/-- A fault that is put into a file, at a span with a start, is at a place. -/
theorem exists_faultPlace_set (hmade : ref.index < objects.attributes.size) {place : Value}
    {span : Option Span} (hspan : objects.asSpan place = .ok span) (filename : String) :
    ∃ text, (objects.set ref.index "loc" (.location ⟨0⟩ (.ofText filename) place)).faultPlace ref =
      .ok text := by
  have hget : (objects.set ref.index "loc" (.location ⟨0⟩ (.ofText filename) place)).get ref.value
      "loc" = .location ⟨0⟩ (.ofText filename) place := by
    simp [get, attribute?_set objects hmade, FaultRef.value, Value.index?]
  simp only [faultPlace, hget, bind, Except.bind, pure, Except.pure]
  have hfile : ∀ o : Objects, o.need (.location ⟨0⟩ (.ofText filename) place) "filename" =
      .ok (.ofText filename) := fun _ => rfl
  have hplace : ∀ o : Objects, o.need (.location ⟨0⟩ (.ofText filename) place) "span" = .ok place :=
    fun _ => rfl
  simp only [hfile, hplace]
  cases hname : (Value.ofText filename).isTrue with
  | false => exact ⟨"", rfl⟩
  | true =>
    by_cases ha : place = .absent
    · subst ha; exact ⟨_, rfl⟩
    · obtain ⟨known, -, hl, hc⟩ := need_start_of_asSpan hspan ha
      have hstart : ∃ text, (objects.set ref.index "loc"
          (.location ⟨0⟩ (.ofText filename) place)).start place = .ok text := by
        simp only [start, need_set_loc hmade _ _ (show "loc" ≠ "start_line" by decide),
          need_set_loc hmade _ _ (show "loc" ≠ "start_column" by decide), hl, hc, bind, Except.bind]
        exact ⟨_, rfl⟩
      obtain ⟨text, ht⟩ := hstart
      cases place <;> first | exact absurd rfl ha | (simp only [ht]; exact ⟨_, rfl⟩)

/-- **A fault whose diagnostic can be made can be reported in any file.** -/
theorem exists_report_located {unit file : Value} {d : Diagnostic}
    (h : objects.diagnosticOfFault unit file ref = .ok d) (filename : Option String) :
    ∃ objects' message, Checker.located filename ref objects = .ok objects' ∧
      objects'.report ref = .ok message := by
  obtain ⟨place, span, message, hplace, hspan, hreport, -⟩ := diagnosticOfReport_eq_ok.1 h
  cases filename with
  | none => exact ⟨objects, message, rfl, hreport⟩
  | some filename =>
    obtain ⟨hformat, hcoded, text, htext⟩ := exists_report_eq_ok.1 ⟨message, hreport⟩
    obtain ⟨named, hnamed⟩ := exists_locationFile hplace htext
    -- a location that names a file stays as it is
    have hkeep : named ≠ .absent → objects.nameFile filename ref = .ok objects := by
      intro hne
      simp only [nameFile, hnamed, bind, Except.bind]
      cases named with
      | absent => exact absurd rfl hne
      | _ => rfl
    by_cases ha : named = .absent
    · -- the new location has the span of the old one, which has a start as it counts as a span
      subst ha
      have hmade := index_lt_of_locationSpan hplace
      refine ⟨objects.set ref.index "loc" (.location ⟨0⟩ (.ofText filename) place), ?_⟩
      have hrep : ∃ m, (objects.set ref.index "loc"
          (.location ⟨0⟩ (.ofText filename) place)).report ref = .ok m := by
        refine exists_report_eq_ok.2 ⟨?_, (exists_codedMessage_set_loc hmade _).2 hcoded, ?_⟩
        · rw [attribute?_set objects hmade]; simpa using hformat
        · exact exists_faultPlace_set hmade hspan filename
      obtain ⟨m, hm⟩ := hrep
      refine ⟨m, ?_, hm⟩
      simp only [Checker.located, nameFile, hnamed, hplace, bind, Except.bind, pure, Except.pure]
    · exact ⟨objects, message, hkeep ha, hreport⟩

end Objects

/-- Nothing is reported of a context exactly when there are no errors in it. -/
theorem Store.diagnostics_eq_nil {s : Store} {c : ContextId} {unit filename : Value} :
    s.diagnostics c unit filename = .ok [] ↔ (s.context c).errors = [] := by
  simp only [diagnostics]
  cases (s.context c).errors with
  | nil => simp [pure, Except.pure]
  | cons e es =>
    simp only [List.mapM_cons, bind, Except.bind, pure, Except.pure]
    cases s.objects.diagnosticOf unit filename e with
    | error failure => simp
    | ok d => cases es.mapM (s.objects.diagnosticOf unit filename) <;> simp

namespace Checker

/-- How the engine of a unit ended: on which root, with which result, and what it left behind. -/
structure Walk where
  root : ContextId
  result : Except Failure Unit
  store : Store

variable {σ : Type}

/-- Runs the engine of a unit on a root of its own. -/
def walk (checker : Checker) (unit : CheckUnit σ) (state : σ × Store) : Walk :=
  let s := checker.report .info (Journal.stageMessage "Type-checking" (some unit.name)) state.2
  let (root, s) := s.createRoot (some checker.settings) checker.summarizer
  let (result, _, s) := unit.engine root (state.1, s)
  ⟨root, result, s⟩

/-- The end of a unit, by how its engine ended. -/
def close (checker : Checker) (unit : CheckUnit σ) (w : Walk) :
    Except Failure UnitResult × Store :=
  match w.result with
  | .ok () => checker.finish unit.name unit.filename w.root w.store
  | .error (.fault fault) => checker.abort unit.name unit.filename w.root fault w.store
  | .error failure => (.error failure, w.store)

/-- **A check is the walk of an engine, and what comes of its end.** -/
theorem check_eq_close (checker : Checker) (unit : CheckUnit σ) (state : σ × Store) :
    ((checker.check unit state).1, (checker.check unit state).2.2) =
      checker.close unit (checker.walk unit state) := by
  obtain ⟨name, engine, filename⟩ := unit
  simp only [check, walk]
  generalize (checker.report .info _ state.2).createRoot _ _ = made
  obtain ⟨root, s⟩ := made
  dsimp only
  generalize engine root (state.1, s) = ended
  obtain ⟨result, own, s'⟩ := ended
  cases result with
  | ok u => rfl
  | error failure => cases failure <;> rfl

namespace Walk

/-- The diagnostics of the errors in the root, in order. -/
def errors (w : Walk) (unit : CheckUnit σ) : Except Failure (List Diagnostic) :=
  w.store.diagnostics w.root (.ofText unit.name) (.ofText? unit.filename)

/-- The diagnostic of a fault. -/
def internal (w : Walk) (unit : CheckUnit σ) (fault : FaultRef) : Except Failure Diagnostic :=
  w.store.objects.diagnosticOfFault (.ofText unit.name) (.ofText? unit.filename) fault

/-- What a check promises to report: the errors in the root, and after them the fault that ended the
unit, if one did. -/
def promised (w : Walk) (unit : CheckUnit σ) : Except Failure (List Diagnostic) :=
  match w.result with
  | .ok () => w.errors unit
  | .error (.fault fault) => do
    let internal ← w.internal unit fault
    return (← w.errors unit) ++ [internal]
  | .error failure => .error failure

/-- What a check reports: the errors in the root, or else the fault that ended the unit. -/
def reported (w : Walk) (unit : CheckUnit σ) : Except Failure (Option FaultRef × List Diagnostic) :=
  match w.result with
  | .ok () => (w.errors unit).map fun errors => (none, errors)
  | .error (.fault fault) => (w.internal unit fault).map fun internal => (some fault, [internal])
  | .error failure => .error failure

end Walk

theorem map_finish (checker : Checker) (unit : String) (filename : Option String)
    (root : ContextId) (s : Store) :
    (checker.finish unit filename root s).1.map (fun r => (r.fault, r.diagnostics)) =
      (s.diagnostics root (.ofText unit) (.ofText? filename)).map fun errors => (none, errors) := by
  simp only [finish]
  cases s.diagnostics root (.ofText unit) (.ofText? filename) <;> rfl

theorem map_abort (checker : Checker) (unit : String) (filename : Option String)
    (root : ContextId) (fault : FaultRef) (s : Store) :
    (checker.abort unit filename root fault s).1.map (fun r => (r.fault, r.diagnostics)) =
      (s.objects.diagnosticOfFault (.ofText unit) (.ofText? filename) fault).map
        fun internal => (some fault, [internal]) := by
  cases h : s.objects.diagnosticOfFault (.ofText unit) (.ofText? filename) fault with
  | error failure => simp only [abort, h]; rfl
  | ok internal =>
    obtain ⟨objects, message, hlocated, hreport⟩ := Objects.exists_report_located h filename
    simp only [abort, h, hlocated, hreport]; rfl

/-- **What a check reports.** -/
theorem map_check (checker : Checker) (unit : CheckUnit σ) (state : σ × Store) :
    (checker.check unit state).1.map (fun r => (r.fault, r.diagnostics)) =
      (checker.walk unit state).reported unit := by
  have hclose := congrArg Prod.fst (checker.check_eq_close unit state)
  dsimp only at hclose
  rw [hclose]
  obtain ⟨root, result, s⟩ := checker.walk unit state
  cases result with
  | ok u => exact checker.map_finish unit.name unit.filename root s
  | error failure =>
    cases failure with
    | fault fault => exact checker.map_abort unit.name unit.filename root fault s
    | _ => rfl

/-- **When a check keeps its promise.** It reports the errors in the root if the engine ran to its
end, and only the fault if one ended the unit. What it promises is what it reports exactly if no
fault that can be reported ended the unit while there were errors in the root. -/
theorem check_eq_promised_iff (checker : Checker) (unit : CheckUnit σ) (state : σ × Store) :
    let w := checker.walk unit state
    (checker.check unit state).1.map (fun r => (r.fault, r.diagnostics)) = w.reported unit ∧
      ((checker.check unit state).1.map UnitResult.diagnostics = w.promised unit ↔
        ∀ fault internal, w.result = .error (.fault fault) → w.internal unit fault = .ok internal →
          (w.store.context w.root).errors = []) := by
  intro w
  have hmap := checker.map_check unit state
  refine ⟨hmap, ?_⟩
  have hlist : (checker.check unit state).1.map UnitResult.diagnostics =
      (w.reported unit).map Prod.snd := by
    rw [← hmap]
    cases (checker.check unit state).1 <;> rfl
  rw [hlist]
  simp only [Walk.reported, Walk.promised]
  cases hend : w.result with
  | ok _ =>
    cases w.errors unit <;> simp [Except.map]
  | error failure =>
    cases failure with
    | fault fault =>
      have hone : (∀ fault' internal, Except.error (Failure.fault fault) =
            (.error (.fault fault') : Except Failure Unit) → w.internal unit fault' = .ok internal →
            (w.store.context w.root).errors = []) ↔
          ∀ internal, w.internal unit fault = .ok internal → w.errors unit = .ok [] := by
        rw [← show _ ↔ w.errors unit = .ok [] from Store.diagnostics_eq_nil.symm]
        exact ⟨fun h internal hint => h fault internal rfl hint,
          fun h fault' internal hf hint => by cases hf; exact h internal hint⟩
      rw [hone]
      dsimp only
      cases w.internal unit fault with
      | error failure => simp [Except.map, bind, Except.bind]
      | ok internal =>
        -- one diagnostic is all there is, so there must have been no other
        simp only [Except.map, bind, Except.bind, pure, Except.pure]
        cases w.errors unit with
        | error failure => simp
        | ok errors => cases errors <;> simp
    | _ => simp [Except.map]

end Checker

end TypingStore
