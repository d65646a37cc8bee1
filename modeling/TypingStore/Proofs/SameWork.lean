import TypingStore.Proofs.Lookups
import TypingStore.Proofs.Reports
import TypingStore.Proofs.Run
import TypingStore.Proofs.Texts

/-!
# Stores that differ only in what is reported

Two stores in which the same work was done (`Store.SameWork`) have the same contexts, and the same
objects up to how much they say is reported, and in which form. Their journals may differ.

Whatever is done to two such stores leaves them such, and answers the same, as long as no text that
is made shows the settings (`SameWork.perform`, `SameWork.close`).

* `Store.exhibitsOf`: what an operation puts into texts.
* `Checker.Walk.exhibits`: what the end of a unit puts into texts.
-/

namespace TypingStore

/-! ## What is put into texts -/

namespace Store

/-- What a dump shows: the summary of each node, its type, and each error. -/
def exhibitsOfDump (s : Store) (c : ContextId) : List Exhibit :=
  let summarizer := (s.context c).summarizer
  (s.typings c).flatMap (fun typing =>
      [.summary s.objects summarizer typing.1, .value s.objects typing.2])
    ++ (s.context c).errors.flatMap fun error =>
      (match s.objects.nodeOf error with
        | .absent => []
        | node => [.summary s.objects summarizer node])
        ++ s.objects.told error

/-- What an operation puts into texts. A fault tells what was asked for in vain. -/
def exhibitsOf (s : Store) : Action → List Exhibit
  | .typeOf c node =>
    match s.findType c node with
    | some _ => []
    | none => [.value s.objects node]
  | .variableTypeOf c name =>
    match handleOf name with
    | .error _ => []
    | .ok handle =>
      match s.findVariable c handle with
      | some _ => []
      | none => [.value s.objects name]
  | .dump c => s.exhibitsOfDump c
  | _ => []

end Store

/-- What the end of a unit puts into texts: the errors in its root, or the fault that ended it,
before and after it is told its file. -/
def Checker.Walk.exhibits (w : Walk) (filename : Option String) : List Exhibit :=
  match w.result with
  | .ok () => (w.store.context w.root).errors.flatMap w.store.objects.told
  | .error (.fault fault) =>
    w.store.objects.toldOfFault fault
      ++ match Checker.located filename fault w.store.objects with
        | .ok objects => objects.toldOfFault fault
        | .error _ => []
  | .error _ => []

namespace Objects

variable {objects objects' : Objects}

/-- **A fault is the same fault** if it says the same. -/
theorem newFault_of_message (h : objects.hide reportingNames = objects'.hide reportingNames)
    {cause : Cause} (hmessage : cause.message objects.written objects.plain =
      cause.message objects'.written objects'.plain) :
    (objects.newFault cause).1 = (objects'.newFault cause).1 ∧
      (objects.newFault cause).2.hide reportingNames =
        (objects'.newFault cause).2.hide reportingNames := by
  have hloc := locationOf_of_hide h (by decide) cause
  simp only [newFault, newIndividual, hmessage, hloc, size_of_hide h]
  exact ⟨trivial, add_of_hide h _⟩

/-- Numbers get the same stamps. -/
theorem number_same (h : objects.hide reportingNames = objects'.hide reportingNames) (n : Int) :
    (objects.number n).1 = (objects'.number n).1 ∧
      (objects.number n).2.hide reportingNames = (objects'.number n).2.hide reportingNames := by
  have hstamp : objects.nextStamp = objects'.nextStamp := (congrArg Objects.nextStamp h :)
  exact ⟨by simp only [number, make, hstamp], number_of_hide h n n⟩

/-- A fault is told its file in both, or in neither. -/
theorem located_of_hide (h : objects.hide reportingNames = objects'.hide reportingNames)
    (filename : Option String) (fault : FaultRef) :
    (∃ failure, Checker.located filename fault objects = .error failure ∧
        Checker.located filename fault objects' = .error failure) ∨
      ∃ after after', Checker.located filename fault objects = .ok after ∧
        Checker.located filename fault objects' = .ok after' ∧
        after.hide reportingNames = after'.hide reportingNames := by
  cases filename with
  | none => exact .inr ⟨objects, objects', rfl, rfl, h⟩
  | some filename =>
    have hfile : objects.locationFile fault = objects'.locationFile fault := by
      simp only [locationFile, get_of_hide h (show "loc" ∉ reportingNames by decide),
        need_of_hide h (show "filename" ∉ reportingNames by decide)]
    simp only [Checker.located, nameFile, hfile, locationSpan_of_hide h]
    cases objects'.locationFile fault with
    | error failure => exact .inl ⟨failure, rfl, rfl⟩
    | ok named =>
      cases named with
      | absent =>
        cases objects'.locationSpan fault.value with
        | error failure => exact .inl ⟨failure, rfl, rfl⟩
        | ok place => exact .inr ⟨_, _, rfl, rfl, set_of_hide h _ _ _⟩
      | _ => exact .inr ⟨objects, objects', rfl, rfl, h⟩

end Objects

namespace Store

/-- The stores differ only in how much is reported, and in what was. -/
structure SameWork (s s' : Store) : Prop where
  objects : s.objects.hide reportingNames = s'.objects.hide reportingNames
  contexts : s.contexts = s'.contexts

namespace SameWork

variable {s s' : Store} {c p : ContextId}

/-! ## What is read -/

section

variable (h : s.SameWork s')
include h

theorem context (c : ContextId) : s.context c = s'.context c := by
  simp only [Store.context, h.contexts]

theorem admits (a : Action) : s.Admits a ↔ s'.Admits a := by
  simp only [Store.Admits, Has, h.contexts]

theorem policy (c : ContextId) : s.policy c = s'.policy c := by
  simp only [Store.policy, settingsOf, Objects.settingsOf, h.context,
    Objects.get_of_hide h.objects (show "version_bump" ∉ reportingNames by decide)]

theorem chain (c : ContextId) : s.chain c = s'.chain c :=
  chain_congr fun d _ => by rw [h.context]

theorem findType (c : ContextId) (node : Value) : s.findType c node = s'.findType c node := by
  simp only [Store.findType, h.chain, h.context]

theorem findVariable (c : ContextId) (handle : Handle) :
    s.findVariable c handle = s'.findVariable c handle := by
  simp only [Store.findVariable, h.chain, h.context]

theorem typings (c : ContextId) : s.typings c = s'.typings c := by
  simp only [Store.typings, h.context]

theorem caption (c : ContextId) : s.caption c = s'.caption c := by
  have hdepth : s.depth c = s'.depth c := by simp only [depth, h.chain]
  unfold Store.caption
  rw [hdepth, h.context]

/-- **A dump is the same text.** -/
theorem dump (hclear : ∀ e ∈ s.exhibitsOfDump c, e.Clear) : s.dump c = s'.dump c := by
  have hcontext : s.context c = s'.context c := h.context c
  refine dump_congr (h.typings c) (by rw [hcontext]) (by rw [hcontext])
    (fun typing hmem => ?_) fun error hmem => ?_
  · have hshown : ∀ e ∈ [Exhibit.summary s.objects (s.context c).summarizer typing.1,
        .value s.objects typing.2], e.Clear :=
      fun e he => hclear e (List.mem_append_left _ (List.mem_flatMap.2 ⟨typing, hmem, he⟩))
    exact ⟨hshown _ List.mem_cons_self _ h.objects,
      Objects.display_of_clear h.objects (hshown (.value s.objects typing.2) (by simp))⟩
  · have hshown := fun e he =>
      hclear e (List.mem_append_right _ (List.mem_flatMap.2 ⟨error, hmem, he⟩))
    refine ⟨Objects.get_of_hide h.objects (by decide) error, fun hnode => ?_,
      Objects.plain_of_told h.objects fun e he => hshown e (List.mem_append_right _ he)⟩
    generalize s.objects.nodeOf error = node at hshown hnode
    cases node with
    | absent => exact absurd rfl hnode
    | _ => exact hshown _ (List.mem_append_left _ List.mem_cons_self) _ h.objects

/-- **The diagnostics of a context** are the same. -/
theorem diagnostics (unit filename : Value)
    (hclear : ∀ e ∈ (s.context c).errors.flatMap s.objects.told, e.Clear) :
    s.diagnostics c unit filename = s'.diagnostics c unit filename := by
  simp only [Store.diagnostics, ← h.context]
  exact mapM_congr fun error hmem => Objects.diagnosticOf_of_told h.objects unit filename
    fun e he => hclear e (List.mem_flatMap.2 ⟨error, hmem, he⟩)

/-! ## What is done -/

theorem withObjects {objects objects' : Objects}
    (ho : objects.hide reportingNames = objects'.hide reportingNames) :
    SameWork { s with objects := objects } { s' with objects := objects' } :=
  ⟨ho, h.contexts⟩

theorem update (f : Context → Context) : (s.update c f).SameWork (s'.update c f) :=
  ⟨h.objects, congrArg (·.modify c.index f) h.contexts⟩

theorem add (new : Context) :
    (s.add new).1 = (s'.add new).1 ∧ (s.add new).2.SameWork (s'.add new).2 := by
  refine ⟨?_, h.objects, ?_⟩
  · simp only [Store.add, h.contexts]
  · simp only [Store.add, h.contexts]

theorem createRoot (settings : Option SettingsRef) (summarizer : Option Summarizer) :
    (s.createRoot settings summarizer).1 = (s'.createRoot settings summarizer).1 ∧
      (s.createRoot settings summarizer).2.SameWork (s'.createRoot settings summarizer).2 := by
  obtain ⟨href, hobjects⟩ := Objects.settingsOr_of_hide h.objects settings
  simp only [Store.createRoot, href]
  exact (h.withObjects hobjects).add _

theorem createChild (settings : Option SettingsRef) (summarizer : Option Summarizer) :
    (s.createChild p settings summarizer).1 = (s'.createChild p settings summarizer).1 ∧
      (s.createChild p settings summarizer).2.SameWork
        (s'.createChild p settings summarizer).2 := by
  simp only [Store.createChild, h.context]
  exact (h.update _).add _

/-- What is reported makes no difference. -/
theorem report (c d : ContextId) (level level' : LogLevel) (message message' : String) :
    (s.report c level message).SameWork (s'.report d level' message') :=
  ⟨h.objects, h.contexts⟩

theorem checkerReport (checker checker' : Checker) (level level' : LogLevel)
    (message message' : String) :
    (checker.report level message s).SameWork (checker'.report level' message' s') :=
  ⟨h.objects, h.contexts⟩

/-- A fault that arises is the same fault. -/
theorem fail (α : Type) {cause : Cause}
    (hmessage : cause.message s.objects.written s.objects.plain =
      cause.message s'.objects.written s'.objects.plain) :
    let x : Except Failure α × Store := s.fail cause
    let x' : Except Failure α × Store := s'.fail cause
    x.1 = x'.1 ∧ x.2.SameWork x'.2 := by
  obtain ⟨href, hobjects⟩ := Objects.newFault_of_message h.objects hmessage
  exact ⟨congrArg (fun ref => Except.error (Failure.fault ref)) href, h.withObjects hobjects⟩

/-- **Commits end alike**: what is reported does not decide whether one is stale. -/
theorem commit : (s.commit c).1 = (s'.commit c).1 ∧ (s.commit c).2.SameWork (s'.commit c).2 := by
  simp only [Store.commit, h.context]
  cases (s'.context c).parent with
  | none => exact h.fail Unit (by simp only [Cause.message])
  | some p =>
    by_cases hv : (s'.context p).version = (s'.context c).snapshot
    · simp only [hv, ne_eq, not_true_eq_false, if_false, h.policy]
      exact ⟨trivial, (h.update _).report _ _ _ _ _ _⟩
    · simp only [hv, ne_eq, not_false_eq_true, if_true]
      -- the refusal names the same versions, and these get the same stamps
      obtain ⟨hwas, hobjects⟩ := Objects.number_same h.objects (s'.context c).snapshot
      obtain ⟨hnow, hobjects⟩ := Objects.number_same hobjects (s'.context p).version
      have hreported := (h.withObjects hobjects).report c c .debug .debug
        (rejection (s'.context c).snapshot (s'.context p).version)
        (rejection (s'.context c).snapshot (s'.context p).version)
      simp only [hwas, hnow]
      refine hreported.fail Unit ?_
      simp only [Cause.message, Objects.number, Objects.make, Objects.plain, Value.plain,
        Value.written]

/-- A look-up that finds nothing ends in the same fault. -/
theorem typeOf {node : Value} (hclear : ∀ e ∈ s.exhibitsOf (.typeOf c node), e.Clear) :
    (s.typeOf c node).1 = (s'.typeOf c node).1 ∧
      (s.typeOf c node).2.SameWork (s'.typeOf c node).2 := by
  simp only [Store.typeOf, ← h.findType]
  cases hfind : s.findType c node with
  | some type => exact ⟨rfl, h⟩
  | none =>
    have hnode := hclear (.value s.objects node) (by simp [exhibitsOf, hfind])
    refine h.fail Value ?_
    simp only [Cause.message, Objects.written_of_clear h.objects hnode]

theorem variableTypeOf {name : Value}
    (hclear : ∀ e ∈ s.exhibitsOf (.variableTypeOf c name), e.Clear) :
    (s.variableTypeOf c name).1 = (s'.variableTypeOf c name).1 ∧
      (s.variableTypeOf c name).2.SameWork (s'.variableTypeOf c name).2 := by
  simp only [Store.variableTypeOf, ← h.findVariable]
  cases hhandle : handleOf name with
  | error failure => exact ⟨rfl, h⟩
  | ok handle =>
    cases hfind : s.findVariable c handle with
    | some type => simp only [hfind]; exact ⟨trivial, h⟩
    | none =>
      have hname := hclear (.value s.objects name) (by simp [exhibitsOf, hhandle, hfind])
      simp only [hfind]
      refine h.fail Value ?_
      simp only [Cause.message, Objects.written_of_clear h.objects hname]

/-- **Every operation does and answers the same**, as long as no text that it makes shows the
settings. -/
theorem perform {a : Action} (hclear : ∀ e ∈ s.exhibitsOf a, e.Clear) :
    (s.perform a).1 = (s'.perform a).1 ∧ (s.perform a).2.SameWork (s'.perform a).2 := by
  cases a with
  | createRoot settings summarizer =>
    obtain ⟨hid, hsame⟩ := h.createRoot settings summarizer
    exact ⟨congrArg (fun c => Except.ok (Answer.context c)) hid, hsame⟩
  | createChild p settings summarizer =>
    obtain ⟨hid, hsame⟩ := h.createChild (p := p) settings summarizer
    exact ⟨congrArg (fun c => Except.ok (Answer.context c)) hid, hsame⟩
  | spawn p =>
    obtain ⟨hid, hsame⟩ := h.createChild (p := p) none none
    exact ⟨congrArg (fun c => Except.ok (Answer.context c)) hid, hsame.report _ _ _ _ _ _⟩
  | recordType c node type =>
    simp only [Store.perform, Store.recordType, h.policy]
    exact ⟨trivial, h.update _⟩
  | recordVariable c name type =>
    simp only [Store.perform, Store.recordVariable, h.policy]
    cases handleOf name with
    | error failure => exact ⟨rfl, h⟩
    | ok handle => exact ⟨rfl, h.update _⟩
  | addError c error => exact ⟨rfl, h.update _⟩
  | commit c =>
    obtain ⟨hresult, hsame⟩ := h.commit (c := c)
    exact ⟨congrArg (Except.map fun _ => Answer.done) hresult, hsame⟩
  | hasType c node => simp only [Store.perform, Store.hasType, h.context]; exact ⟨trivial, h⟩
  | hasVariable c name =>
    simp only [Store.perform, Store.hasVariable, h.context]; exact ⟨trivial, h⟩
  | typeOf c node =>
    obtain ⟨hresult, hsame⟩ := h.typeOf hclear
    exact ⟨congrArg (Except.map Answer.value) hresult, hsame⟩
  | variableTypeOf c name =>
    obtain ⟨hresult, hsame⟩ := h.variableTypeOf hclear
    exact ⟨congrArg (Except.map Answer.value) hresult, hsame⟩
  | typings c => simp only [Store.perform, h.typings]; exact ⟨trivial, h⟩
  | variableTypes c => simp only [Store.perform, h.context]; exact ⟨trivial, h⟩
  | errors c => simp only [Store.perform, h.context]; exact ⟨trivial, h⟩
  | dump c => exact ⟨congrArg (Except.map Answer.text) (h.dump hclear), h⟩
  | caption c =>
    exact ⟨congrArg (fun text => Except.ok (Answer.text text)) (h.caption c), h⟩
  | assign target field new =>
    simp only [Store.perform]
    rcases Objects.assign_of_hide h.objects target field new with
      ⟨failure, ho, ho'⟩ | ⟨after, after', ho, ho', hafter⟩
    · rw [ho, ho']; exact ⟨rfl, h⟩
    · rw [ho, ho']; exact ⟨rfl, h.withObjects hafter⟩
  | newRecord kind fields others =>
    -- as many objects were made before, so the new one has the same number
    refine ⟨?_, h.withObjects (Objects.add_of_hide h.objects _)⟩
    simp only [Store.perform, Objects.newRecord, Objects.size_of_hide h.objects]
  | newIndividual kind attributes =>
    refine ⟨?_, h.withObjects (Objects.add_of_hide h.objects _)⟩
    simp only [Store.perform, Objects.newIndividual, Objects.size_of_hide h.objects]

/-! ## The end of a unit -/

theorem finish (checker : Checker) (unit : String) (filename : Option String) {root : ContextId}
    (hclear : ∀ e ∈ (s.context root).errors.flatMap s.objects.told, e.Clear) :
    (checker.finish unit filename root s).1 = (checker.finish unit filename root s').1 ∧
      (checker.finish unit filename root s).2.SameWork
        (checker.finish unit filename root s').2 := by
  simp only [Checker.finish, ← h.diagnostics (.ofText unit) (.ofText? filename) hclear]
  cases s.diagnostics root (.ofText unit) (.ofText? filename) with
  | error failure => exact ⟨rfl, h⟩
  | ok diagnostics =>
    exact ⟨rfl, (h.checkerReport checker checker .debug .debug _ _).checkerReport _ _ _ _ _ _⟩

/-- A fault that ends a unit is worded alike. It is told its file in both, and is then reported
alike, or in neither. -/
theorem faultEnd (unit : Value) (filename : Option String) {root : ContextId} {fault : FaultRef}
    (hclear : ∀ e ∈ Checker.Walk.exhibits ⟨root, .error (.fault fault), s⟩ filename, e.Clear) :
    s.objects.diagnosticOfFault unit (.ofText? filename) fault =
        s'.objects.diagnosticOfFault unit (.ofText? filename) fault ∧
      ((∃ failure, Checker.located filename fault s.objects = .error failure ∧
          Checker.located filename fault s'.objects = .error failure) ∨
        ∃ after after', Checker.located filename fault s.objects = .ok after ∧
          Checker.located filename fault s'.objects = .ok after' ∧
          after.hide reportingNames = after'.hide reportingNames ∧
          after.report fault = after'.report fault) := by
  refine ⟨Objects.diagnosticOfFault_of_told h.objects unit (.ofText? filename)
    fun e he => hclear e (List.mem_append_left _ he), ?_⟩
  rcases Objects.located_of_hide h.objects filename fault with
    hrefused | ⟨after, after', ho, ho', hafter⟩
  · exact .inl hrefused
  · have hreport : after.report fault = after'.report fault :=
      Objects.report_of_told hafter fun e he =>
        hclear e (List.mem_append_right _ (by simpa only [ho] using he))
    exact .inr ⟨after, after', ho, ho', hafter, hreport⟩

theorem abort (checker : Checker) (unit : String) (filename : Option String) {root : ContextId}
    {fault : FaultRef}
    (hclear : ∀ e ∈ Checker.Walk.exhibits ⟨root, .error (.fault fault), s⟩ filename, e.Clear) :
    (checker.abort unit filename root fault s).1 = (checker.abort unit filename root fault s').1 ∧
      (checker.abort unit filename root fault s).2.SameWork
        (checker.abort unit filename root fault s').2 := by
  obtain ⟨hworded, hlocated⟩ := h.faultEnd (.ofText unit) filename hclear
  simp only [Checker.abort, ← hworded]
  cases s.objects.diagnosticOfFault (.ofText unit) (.ofText? filename) fault with
  | error failure => exact ⟨rfl, h⟩
  | ok diagnostic =>
    rcases hlocated with ⟨failure, ho, ho'⟩ | ⟨after, after', ho, ho', hafter, hreport⟩
    · simp only [ho, ho']; exact ⟨trivial, h⟩
    · simp only [ho, ho', ← hreport]
      cases after.report fault with
      | error failure => exact ⟨rfl, h.withObjects hafter⟩
      | ok message =>
        exact ⟨rfl, (h.withObjects hafter).checkerReport _ _ _ _ _ _⟩

/-- **Units end alike** if their engines did, as long as no text that is made of the end shows the
settings. -/
theorem close {σ : Type} (checker : Checker) (unit : CheckUnit σ) {root : ContextId}
    {result : Except Failure Unit}
    (hclear : ∀ e ∈ Checker.Walk.exhibits ⟨root, result, s⟩ unit.filename, e.Clear) :
    (checker.close unit ⟨root, result, s⟩).1 = (checker.close unit ⟨root, result, s'⟩).1 ∧
      (checker.close unit ⟨root, result, s⟩).2.SameWork
        (checker.close unit ⟨root, result, s'⟩).2 := by
  cases result with
  | ok u => exact h.finish checker unit.name unit.filename hclear
  | error failure =>
    cases failure with
    | fault fault => exact h.abort checker unit.name unit.filename hclear
    | _ => exact ⟨rfl, h⟩

end

end SameWork

end Store

end TypingStore
