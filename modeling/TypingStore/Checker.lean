import TypingStore.Reporting
import TypingStore.Store.Block
import TypingStore.Store.Dump

/-!
# Checking units

A checker runs engines over units. Each unit gets a root of its own; when the engine is done, the
errors in the root become the diagnostics of the unit. A fault ends the unit that meets it, and
only that one: it becomes the unit's only diagnostic. Any other failure ends the whole run.

* `Engine`: the block that walks over a unit.
* `Checker.check`, `Checker.checkAll`: one unit, and several in order.
* `UnitResult`: what a check leaves behind.
-/

namespace TypingStore

/-- What walks over a unit, writing into the root it is given. Its own state outlives the unit. -/
abbrev Engine (σ : Type) := Block σ Unit

/-- A unit to check: its name, what walks over it, and the file it is in. -/
structure CheckUnit (σ : Type) where
  name : String
  engine : Engine σ
  filename : Option String := none

/-- What a check leaves behind. -/
structure UnitResult where
  unit : String
  settings : SettingsRef
  root : Option ContextId := none
  /-- The fault that ended the unit. -/
  fault : Option FaultRef := none
  diagnostics : List Diagnostic := []

namespace UnitResult

/-- Whether the unit has failed. -/
def hasErrors (r : UnitResult) : Bool := r.diagnostics.any Diagnostic.isError

/-- Whether a fault ended the unit. -/
def hasFault (r : UnitResult) : Bool := r.fault.isSome

/-- The typings in the root of the unit, as it is now. -/
def typings (r : UnitResult) (s : Store) : List (Value × Value) :=
  match r.root with
  | none => []
  | some root => s.typings root

/-- The root of the unit as text, as it is now. -/
def dump (r : UnitResult) (s : Store) : Except Failure String :=
  match r.root with
  | none => .ok ""
  | some root => s.dump root

end UnitResult

/-- What runs engines over units: the settings and the summaries for every root. -/
structure Checker where
  settings : SettingsRef
  summarizer : Option Summarizer := none

namespace Checker

/-- Reports a message, as the settings of the checker allow. -/
def report (checker : Checker) (level : LogLevel) (message : String) (s : Store) : Store :=
  { s with journal := s.journal.report (s.objects.settingsOf checker.settings) level message }

/-- The end of a unit whose engine ran to its end. -/
def finish (checker : Checker) (unit : String) (filename : Option String) (root : ContextId)
    (s : Store) : Except Failure UnitResult × Store :=
  match s.diagnostics root (.ofText unit) (.ofText? filename) with
  | .error failure => (.error failure, s)
  | .ok diagnostics =>
    let s := checker.report .debug
      ("Unit '" ++ unit ++ "': " ++ toString (s.context root).nodeTypes.size ++ " typed node(s)") s
    let s := checker.report .info
      ("Type-checking complete for '" ++ unit ++ "': " ++ toString diagnostics.length
        ++ " diagnostic(s)") s
    (.ok { unit := unit, settings := checker.settings, root := some root
           diagnostics := diagnostics }, s)

/-- The objects after the file of a unit, if it has one, was filled into the location of a fault. -/
def located (filename : Option String) (fault : FaultRef) (objects : Objects) :
    Except Failure Objects :=
  match filename with
  | none => .ok objects
  | some filename => objects.nameFile filename fault

/-- The end of a unit that met a fault. The diagnostic is worded before the fault is told which
file it is in, so the file is not named twice. -/
def abort (checker : Checker) (unit : String) (filename : Option String) (root : ContextId)
    (fault : FaultRef) (s : Store) : Except Failure UnitResult × Store :=
  let worded := s.objects.diagnosticOfFault (.ofText unit) (.ofText? filename) fault
  match worded, located filename fault s.objects with
  | .error failure, _ => (.error failure, s)
  | .ok _, .error failure => (.error failure, s)
  | .ok diagnostic, .ok objects =>
    let s := { s with objects := objects }
    match objects.report fault with
    | .error failure => (.error failure, s)
    | .ok message =>
      (.ok { unit := unit, settings := checker.settings, root := some root, fault := some fault
             diagnostics := [diagnostic] }, checker.report .error message s)

/-- Checks one unit. -/
def check {σ : Type} (checker : Checker) (unit : CheckUnit σ) (state : σ × Store) :
    Except Failure UnitResult × (σ × Store) :=
  let s := checker.report .info (Journal.stageMessage "Type-checking" (some unit.name)) state.2
  let (root, s) := s.createRoot (some checker.settings) checker.summarizer
  match unit.engine root (state.1, s) with
  | (.ok (), own, s) =>
    let (result, s) := checker.finish unit.name unit.filename root s
    (result, own, s)
  | (.error (.fault fault), own, s) =>
    let (result, s) := checker.abort unit.name unit.filename root fault s
    (result, own, s)
  | (.error failure, own, s) => (.error failure, own, s)

/-- Checks several units in order. A failure that is no fault ends the run, and then there are no
results at all. -/
def checkAll {σ : Type} (checker : Checker) :
    List (CheckUnit σ) → σ × Store → Except Failure (List UnitResult) × (σ × Store)
  | [], state => (.ok [], state)
  | unit :: units, state =>
    match checker.check unit state with
    | (.error failure, state) => (.error failure, state)
    | (.ok result, state) =>
      let (results, state) := checker.checkAll units state
      (results.map (result :: ·), state)

end Checker

end TypingStore
