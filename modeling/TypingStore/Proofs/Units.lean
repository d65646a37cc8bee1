import TypingStore.Proofs.FaultFiles
import TypingStore.Proofs.Guests

/-!
# Units are independent

Every unit of a checker gets a root of its own, in a store in which the units before it have left
their contexts, their objects and the types of the classes that they asked for, finished or not. A
unit whose engine keeps to itself is a guest there, so its check ends as it ends alone in a fresh
store, under other ids (`Checker.check_hosted`), and what the units after it do leaves it intact.

So several units have the results that each of them has alone, whichever units there are besides it,
in whichever order, and whether or not they end in a fault (`Checker.units_independent`).

* `UnitResult.Alike`: two results that read the same.
* `Hosted.finish`, `Hosted.abort`: the two ways in which a unit can end.
* `CheckUnit.KeepsToItself`: what is asked of an engine.
-/

namespace TypingStore

/-! ## Results that read the same -/

namespace UnitResult

/-- A result under other ids. -/
def rename (ρ : Renaming) (r : UnitResult) : UnitResult where
  unit := r.unit
  settings := r.settings.rename ρ
  root := r.root.map (ContextId.rename ρ)
  fault := r.fault.map (FaultRef.rename ρ)
  diagnostics := r.diagnostics.map (Diagnostic.rename ρ)

/-- A result speaks of what is in a store. -/
structure Within (s : Store) (r : UnitResult) : Prop where
  root : ∀ c ∈ r.root, s.Has c
  fault : ∀ ref ∈ r.fault, ref.index < s.objects.attributes.size
  diagnostics : ∀ d ∈ r.diagnostics, d.Within s.objects.attributes.size

/-- The result `r'`, in the store `s'`, reads as `r` does in `s`. Ids differ, as two runs make
different objects; everything else is the same: the findings, field by field and as text, the fault
and its report, and the root with its typings, its variables, its errors, its version and its mark,
and its dump. -/
structure Alike (ρ : Renaming) (r : UnitResult) (s : Store) (r' : UnitResult) (s' : Store) :
    Prop where
  unit : r'.unit = r.unit
  settings : r'.settings = r.settings
  hasErrors : r'.hasErrors = r.hasErrors
  hasFault : r'.hasFault = r.hasFault
  diagnostics : r'.diagnostics = r.diagnostics.map (Diagnostic.rename ρ)
  texts : ∀ cwd, r'.diagnostics.map (Diagnostic.format s'.objects.plain cwd) =
    r.diagnostics.map (Diagnostic.format s.objects.plain cwd)
  ranges : r'.diagnostics.map Diagnostic.editorRange = r.diagnostics.map Diagnostic.editorRange
  fault : r'.fault = r.fault.map (FaultRef.rename ρ)
  report : r'.fault.map s'.objects.report = r.fault.map s.objects.report
  root : r'.root = r.root.map (ContextId.rename ρ)
  /-- Bindings, variables, errors, version, mark, snapshot and parent of the root. -/
  context : ∀ root ∈ r.root, s'.context (root.rename ρ) = (s.context root).rename ρ
  typings : r'.typings s' = (r.typings s).map fun e => (e.1.rename ρ, e.2.rename ρ)
  dump : r'.dump s' = Failure.renameIn ρ (r.dump s)
  /-- Every context and every object of the unit reads the same, not only those of the result. -/
  store : s.Embeds ρ s'
  /-- The types of the classes that the unit asked for are those that everybody is handed. -/
  types : s.objects.SharesTypes ρ s'.objects

variable {ρ : Renaming} {r : UnitResult} {s s' : Store}

/-- **A result under other ids reads the same** where its store stands among others. -/
theorem alike_rename (h : s.Embeds ρ s') (htypes : s.objects.SharesTypes ρ s'.objects)
    (hr : r.Within s) (hsettings : r.settings.rename ρ = r.settings) :
    r.Alike ρ s (r.rename ρ) s' := by
  have herror : Diagnostic.isError ∘ Diagnostic.rename ρ = Diagnostic.isError :=
    funext Diagnostic.isError_rename
  have hrange : Diagnostic.editorRange ∘ Diagnostic.rename ρ = Diagnostic.editorRange :=
    funext Diagnostic.editorRange_rename
  refine { unit := rfl, settings := hsettings, hasErrors := ?_, hasFault := ?_, diagnostics := rfl
           texts := fun cwd => ?_, ranges := ?_, fault := rfl, report := ?_, root := rfl
           context := fun root hroot => h.context root (hr.root root hroot), typings := ?_
           dump := ?_, store := h, types := htypes }
  · simp only [UnitResult.hasErrors, rename, List.any_map, herror]
  · simp only [UnitResult.hasFault, rename, Option.isSome_map]
  · simp only [rename, List.map_map]
    refine List.map_congr_left fun d hd => ?_
    simp only [Function.comp_apply]
    exact Diagnostic.format_rename (fun v hv => h.objects.plain hv) cwd (hr.diagnostics d hd)
  · simp only [rename, List.map_map, hrange]
  · simp only [rename, Option.map_map]
    cases hfault : r.fault with
    | none => simp only [Option.map_none]
    | some ref =>
      simp only [Option.map_some, Function.comp_apply, h.objects.report (hr.fault ref hfault)]
  · unfold UnitResult.typings
    simp only [rename]
    cases hroot : r.root with
    | none => simp only [Option.map_none, List.map_nil]
    | some root => simp only [Option.map_some, h.typings (hr.root root hroot)]
  · unfold UnitResult.dump
    simp only [rename]
    cases hroot : r.root with
    | none => rfl
    | some root => simp only [Option.map_some, h.dump (hr.root root hroot)]

end UnitResult

/-! ## What comes later -/

/-- A store that stands among others still does when these are left intact. -/
theorem Store.Embeds.of_intactIn {ρ : Renaming} {t s s' : Store} (h : t.Embeds ρ s)
    (hs : s.IntactIn s') : t.Embeds ρ s' where
  objects := by
    refine ⟨h.oneToOne, Nat.le_trans h.objects.size hs.grown.size, fun i hi => ?_,
      fun i hi name => ?_, h.objects.closed⟩
    · exact Nat.lt_of_lt_of_le (h.objects.made i hi) hs.grown.size
    · rw [hs.attributesAt _ (h.objects.made i hi)]
      exact h.objects.get? i hi name
  made c hc := hs.has _ (h.made c hc)
  context c hc := (hs.context _ (h.made c hc)).trans (h.context c hc)
  within := h.within

/-! ## The end of a unit -/

namespace Objects.Embeds

variable {ρ : Renaming} {objects objects' : Objects} {ref : FaultRef}

/-- The file of a unit is filled into a fault in both, or in none. -/
theorem located (h : objects.Embeds ρ objects') (href : ref.index < objects.attributes.size)
    (filename : Option String) {after : Objects}
    (hok : Checker.located filename ref objects = .ok after) :
    (after = objects ∧ Checker.located filename (ref.rename ρ) objects' = .ok objects') ∨
      ∃ place : Value, place.Within objects.attributes.size ∧
        after = objects.set ref.index "loc" place ∧
        Checker.located filename (ref.rename ρ) objects' =
          .ok (objects'.set (ρ.object ref.index) "loc" (place.rename ρ)) := by
  cases filename with
  | none =>
    cases hok
    exact .inl ⟨rfl, rfl⟩
  | some filename =>
    have hself : ref.value.Within objects.attributes.size := href
    have hvalue : (ref.rename ρ).value = ref.value.rename ρ := rfl
    have hfile := h.locationFile href
    obtain ⟨hspan, hwithin⟩ := h.locationSpan hself
    simp only [Checker.located, Objects.nameFile] at hok ⊢
    rw [hvalue, hfile, hspan]
    obtain ⟨file, hnamed, hok⟩ := exists_of_bind_eq_ok hok
    rw [hnamed]
    -- a fault that has a file already is left as it is
    cases file with
    | absent =>
      obtain ⟨span, hplace, hok⟩ := exists_of_bind_eq_ok hok
      rw [hplace]
      cases hok
      have hplaceWithin : (Value.location ⟨0⟩ (.ofText filename) span).Within
          objects.attributes.size := ⟨trivial, trivial, hwithin span hplace⟩
      refine .inr ⟨_, hplaceWithin, rfl, ?_⟩
      simp only [Except.map, bind, Except.bind, pure, Except.pure, Value.rename, Stamp.rename_zero,
        FaultRef.rename, Value.rename_ofText]
    | _ =>
      cases hok
      exact .inl ⟨rfl, rfl⟩

end Objects.Embeds

namespace Store

variable {known : Objects} {ρ : Renaming} {host s s' : Store}

namespace Hosted

variable (checker : Checker) {name : String} {filename : Option String} {root : ContextId}
  {r : UnitResult} {ref : FaultRef} (h : Hosted ρ host s s')
include h

/-- What is reported does not matter to a guest. -/
theorem report (level level' : LogLevel) (message message' : String) :
    Hosted ρ host (checker.report level message s) (checker.report level' message' s') where
  toRelocated := h.toRelocated.congr rfl rfl rfl rfl
  ordered := h.ordered
  ordered' := h.ordered'
  named := h.named
  named' := h.named'
  types := h.types
  intact := ⟨h.intact.has, h.intact.context, h.intact.grown, h.intact.attributesAt⟩

/-- **A unit that runs to its end has the diagnostics that it has alone.** -/
theorem finish (hroot : s.Has root) (hsettings : checker.settings.rename ρ = checker.settings)
    (hok : (checker.finish name filename root s).1 = .ok r) :
    (checker.finish name filename (root.rename ρ) s').1 = .ok (r.rename ρ) ∧
      Hosted ρ host (checker.finish name filename root s).2
        (checker.finish name filename (root.rename ρ) s').2 ∧
      r.Within (checker.finish name filename root s).2 ∧ r.settings = checker.settings ∧
      r.root = some root := by
  have hdiagnostics := h.diagnostics hroot (.ofText name) (.ofText? filename)
  rw [Value.rename_ofText, Value.rename_ofText?] at hdiagnostics
  unfold Checker.finish at hok ⊢
  rw [hdiagnostics]
  cases hds : s.diagnostics root (.ofText name) (.ofText? filename) with
  | error failure =>
    rw [hds] at hok
    cases hok
  | ok ds =>
    rw [hds] at hok
    cases hok
    have hfilename : (Value.ofText? filename).Within s.objects.attributes.size := by
      cases filename <;> trivial
    have hname : (Value.ofText name).Within s.objects.attributes.size := trivial
    have hwithin := h.within_diagnostics hroot hname hfilename hds
    refine ⟨?_, ?_, ?_, rfl, rfl⟩
    · simp only [Except.map, UnitResult.rename, hsettings, Option.map_some, Option.map_none]
    · exact (h.report checker ..).report checker ..
    · refine ⟨fun c hc => ?_, nofun, hwithin⟩
      obtain rfl : root = c := Option.some.inj hc
      exact hroot

/-- A guest that fills its file into a fault of its own leaves its host intact. -/
theorem located (hρ : ρ.Apart known host) (hown : known.attributes.size ≤ ref.index)
    (href : ref.index < s.objects.attributes.size) {after : Objects}
    (hok : Checker.located filename ref s.objects = .ok after) :
    ∃ after', Checker.located filename (ref.rename ρ) s'.objects = .ok after' ∧
      Hosted ρ host (s.withObjects after) (s'.withObjects after') ∧
      after.attributes.size = s.objects.attributes.size := by
  rcases h.objects.located href filename hok with
    ⟨rfl, hok'⟩ | ⟨place, hplace, rfl, hok'⟩
  · exact ⟨s'.objects, hok', h, rfl⟩
  · have hsize := s.objects.size_set ref.index "loc" place
    have hset := h.relocated_objects.set href "loc" hplace
    refine ⟨_, hok', ?_, hsize⟩
    exact {
      toRelocated := h.toRelocated.withObjects hset (Nat.le_of_eq hsize.symm)
      ordered := h.ordered
      ordered' := h.ordered'
      named := h.named.of_canonical_eq (Nat.le_refl _) rfl
      named' := h.named'.of_canonical_eq (Nat.le_refl _) rfl
      types := h.types.advance h.named' (Nat.add_zero _).symm (Nat.add_zero _).symm
        (fun n hn => absurd hn (Nat.not_lt_zero n)) rfl rfl
      intact := h.intact.set (hρ.object ref.index hown) "loc" (place.rename ρ) }

/-- **A unit that ends in a fault of its own reports the fault that it reports alone.** -/
theorem abort (hρ : ρ.Apart known host) (hroot : s.Has root)
    (hsettings : checker.settings.rename ρ = checker.settings)
    (hown : known.attributes.size ≤ ref.index) (href : ref.index < s.objects.attributes.size)
    (hok : (checker.abort name filename root ref s).1 = .ok r) :
    (checker.abort name filename (root.rename ρ) (ref.rename ρ) s').1 = .ok (r.rename ρ) ∧
      Hosted ρ host (checker.abort name filename root ref s).2
        (checker.abort name filename (root.rename ρ) (ref.rename ρ) s').2 ∧
      r.Within (checker.abort name filename root ref s).2 ∧ r.settings = checker.settings ∧
      r.root = some root := by
  have hworded := h.objects.diagnosticOfFault href (.ofText name) (.ofText? filename)
  rw [Value.rename_ofText, Value.rename_ofText?] at hworded
  cases hd : s.objects.diagnosticOfFault (.ofText name) (.ofText? filename) ref with
  | error failure =>
    simp only [Checker.abort, hd] at hok
    cases hok
  | ok d =>
    rw [hd] at hworded
    have hfilename : (Value.ofText? filename).Within s.objects.attributes.size := by
      cases filename <;> trivial
    have hname : (Value.ofText name).Within s.objects.attributes.size := trivial
    have hwithin := h.objects.within_diagnosticOfFault href hname hfilename hd
    obtain ⟨after, logged, -, hlocated, hlogged, -⟩ := checker.exists_abort root hd
    obtain ⟨after', hlocated', hstores, hsize⟩ := h.located hρ hown href hlocated
    have hafter : ref.index < after.attributes.size := by omega
    have hlogged' : after'.report (ref.rename ρ) = .ok logged :=
      (hstores.objects.report hafter).trans hlogged
    simp only [Checker.abort, hd, hlocated, hlogged] at hok ⊢
    cases hok
    simp only [hworded, Except.map, hlocated', hlogged']
    refine ⟨?_, hstores.report checker .., ?_, trivial, trivial⟩
    · simp only [UnitResult.rename, hsettings, Option.map_some, List.map_cons, List.map_nil]
    · refine ⟨fun c hc => ?_, fun met hmet => ?_, fun found hfound => ?_⟩
      · obtain rfl : root = c := Option.some.inj hc
        exact hroot
      · obtain rfl : ref = met := Option.some.inj hmet
        exact hafter
      · rw [List.mem_singleton.1 hfound]
        exact hsize ▸ hwithin

end Hosted

end Store

/-! ## One unit -/

variable {σ : Type}

/-- A checker whose settings are known to everybody, and whose summaries go by the node alone. -/
structure Checker.Standing (checker : Checker) (known : Objects) : Prop where
  settings : checker.settings.index < known.attributes.size
  summarizer : ∀ f ∈ checker.summarizer, f.Pure

/-- The start of a unit: its root is made. -/
def Checker.start (checker : Checker) (name : String) (s : Store) : ContextId × Store :=
  (checker.report .info (Journal.stageMessage "Type-checking" (some name)) s).createRoot
    (some checker.settings) checker.summarizer

/-- The engine of a unit does what `work` says, on whichever root and in whichever store it is run,
as long as what is known to everybody is there; and to its own state it may do anything. What it
does goes by the values that it is handed and by what is known to everybody, and not by their ids.
It keeps to itself: it acts on contexts that it comes to from its root, it changes only what it has
made, and a fault that leaves it is one that it has made or met. -/
structure CheckUnit.Follows (checker : Checker) (known : Objects) (unit : CheckUnit σ)
    (work : ContextId → Work) : Prop where
  does : ∀ root state, (Store.fresh known).IntactIn state.2 →
    ((unit.engine root state).1, (unit.engine root state).2.2) = (work root).run state.2
  alike : ∀ ρ : Renaming, ρ.OneToOne → ρ.Fixes known → ∀ root,
    (work root).Alike ρ (work (root.rename ρ))
  keeps : (work ⟨0⟩).Keeps known (checker.start unit.name (.fresh known)).2

/-- A unit whose engine only acts on contexts that it reaches from its root, and on values that it
has made. -/
def CheckUnit.KeepsToItself (checker : Checker) (known : Objects) (unit : CheckUnit σ) : Prop :=
  ∃ work, unit.Follows checker known work

namespace Checker

open Store

variable {checker : Checker} {known : Objects} {unit : CheckUnit σ} {script : Script} {own : σ}
  {s : Store} {r : UnitResult}

/-- The check of a unit in a store in which no other unit was checked. -/
def alone (checker : Checker) (known : Objects) (own : σ) (unit : CheckUnit σ) :
    Except Failure UnitResult × (σ × Store) :=
  checker.check unit (own, .fresh known)

/-- A unit that its engine brings to an end. -/
theorem check_of_ok {state : σ × Store} (hend : (checker.walk unit state).result = .ok ()) :
    (checker.check unit state).1 = (checker.finish unit.name unit.filename
        (checker.walk unit state).root (checker.walk unit state).store).1 ∧
      (checker.check unit state).2.2 = (checker.finish unit.name unit.filename
        (checker.walk unit state).root (checker.walk unit state).store).2 := by
  have hclose := checker.check_eq_close unit state
  simp only [close, hend] at hclose
  exact Prod.mk.inj hclose

/-- A unit that has a result ended, or met a fault. -/
theorem result_of_check_eq_ok {state : σ × Store} (hok : (checker.check unit state).1 = .ok r) :
    (checker.walk unit state).result = .ok () ∨
      ∃ ref, (checker.walk unit state).result = .error (.fault ref) := by
  have hclose := congrArg Prod.fst (checker.check_eq_close unit state)
  dsimp only at hclose
  rw [hok] at hclose
  cases hresult : (checker.walk unit state).result with
  | ok _ => exact .inl rfl
  | error failure =>
    cases failure with
    | fault ref => exact .inr ⟨ref, rfl⟩
    | _ =>
      simp only [close, hresult] at hclose
      cases hclose

section

variable (hchecker : checker.Standing known) (hknown : known.Closed)
include hchecker hknown

/-- The root of a unit is made for a guest as it is in a fresh store. -/
theorem start_atWork (hs : s.Ordered) (hnamed : s.objects.WellNamed)
    (hintact : (fresh known).IntactIn s) (name : String) :
    AtWork known (.past known s.objects s.contexts.size) s (checker.start name (.fresh known)).2
      (checker.start name s).2 := by
  have harrived := AtWork.arrive hknown hintact hs hnamed
  have hsettings : ∀ ρ : Renaming, ρ.Fixes known →
      checker.settings.rename ρ = checker.settings := fun ρ hρ =>
    congrArg SettingsRef.mk (hρ.object _ hchecker.settings)
  -- the start is reported, and then the root is made
  let told : Deed := .log checker.settings .info (Journal.stageMessage "Type-checking" (some name))
  let made : Deed := .act (.createRoot (some checker.settings) checker.summarizer)
  have htold : ∀ ρ : Renaming, ρ.Fixes known → told = told.rename ρ := fun ρ hρ => by
    simp only [told, Deed.rename, hsettings ρ hρ]
  have hmade : ∀ ρ : Renaming, ρ.Fixes known → made = made.rename ρ := fun ρ hρ => by
    simp only [made, Deed.rename, Action.rename, Option.map_some, hsettings ρ hρ]
  have hreported := (harrived.carryOut (d := told) (by simp [told]) hchecker.settings
    fun ρ' hρ' => htold ρ' (hρ'.fixes (Nat.le_refl _) harrived.fixes)).1
  have hown : made.Own known ((fresh known).carryOut told).2 := by
    refine Action.own_of_new rfl ⟨by simp [Action.values], fun ref href => ?_, hchecker.summarizer⟩
      (by simp)
    obtain rfl : checker.settings = ref := Option.some.inj href
    exact hchecker.settings
  exact (hreported.carryOut (d := made) (by simp [made]) hown fun ρ' hρ' =>
    hmade ρ' (hρ'.fixes hreported.known_le hreported.fixes)).1

/-- **An engine that keeps to itself ends as it ends alone.** -/
theorem walk_atWork (hs : s.Ordered) (hnamed : s.objects.WellNamed)
    (hintact : (fresh known).IntactIn s) (own own' : σ) {work : ContextId → Work}
    (hunit : unit.Follows checker known work) :
    let apart := checker.walk unit (own, .fresh known)
    let among := checker.walk unit (own', s)
    ∃ ρ : Renaming, AtWork known ρ s apart.store among.store ∧
      among.root = apart.root.rename ρ ∧ among.result = Failure.renameIn ρ apart.result ∧
      apart.store.Has apart.root ∧ ∀ ref, apart.result = .error (.fault ref) →
        known.attributes.size ≤ ref.index ∧ ref.index < apart.store.objects.attributes.size := by
  intro apart among
  have halone := start_atWork hchecker hknown (ordered_fresh known) hknown.named (.refl _) unit.name
  have hstart := start_atWork hchecker hknown hs hnamed hintact unit.name
  have hroot : ∀ ρ' : Renaming,
      ρ'.context = (Renaming.past known s.objects s.contexts.size).context →
        among.root = apart.root.rename ρ' := by
    intro ρ' hρ'
    rw [ContextId.rename, hρ']
    exact congrArg ContextId.mk (Nat.add_zero _).symm
  have hapart : (apart.result, apart.store) =
      (work apart.root).run (checker.start unit.name (.fresh known)).2 :=
    hunit.does apart.root (own, (checker.start unit.name (.fresh known)).2) halone.self.intact
  have hamong : (among.result, among.store) =
      (work among.root).run (checker.start unit.name s).2 :=
    hunit.does among.root (own', (checker.start unit.name s).2)
      (hintact.trans hstart.self.intact)
  obtain ⟨hresult, hstore⟩ := Prod.mk.inj hapart
  obtain ⟨hresult', hstore'⟩ := Prod.mk.inj hamong
  have halike : ∀ ρ' : Renaming, ρ'.Continues (.past known s.objects s.contexts.size)
      (checker.start unit.name (.fresh known)).2.objects.nextStamp →
        (work apart.root).Alike ρ' (work among.root) := by
    intro ρ' hρ'
    rw [hroot ρ' hρ'.context]
    exact hunit.alike ρ' hρ'.oneToOne (hρ'.fixes hstart.known_le hstart.fixes) apart.root
  obtain ⟨ρ, hρ, hwork, hend⟩ := hstart.run hunit.keeps halike
  refine ⟨ρ, ?_, hroot ρ hρ.context, ?_, ?_, fun ref href => ?_⟩
  · rw [hstore, hstore']
    exact hwork
  · rw [hresult, hresult']
    exact hend
  · rw [hstore]
    exact hunit.keeps.has hstart.self.ordered (Nat.lt_succ_self 0 : 0 < 1)
  · rw [hstore]
    exact hunit.keeps.ends (hresult.symm.trans href)

/-- **The check of a unit that keeps to itself ends as it ends alone**, and leaves intact what was
there before. -/
theorem check_hosted (hs : s.Ordered) (hnamed : s.objects.WellNamed)
    (hintact : (fresh known).IntactIn s) (own' : σ) (hunit : unit.KeepsToItself checker known)
    (hok : (checker.alone known own unit).1 = .ok r) :
    ∃ ρ : Renaming, ρ.Fixes known ∧ (checker.check unit (own', s)).1 = .ok (r.rename ρ) ∧
      Hosted ρ s (checker.alone known own unit).2.2 (checker.check unit (own', s)).2.2 ∧
      r.Within (checker.alone known own unit).2.2 ∧ r.settings = checker.settings ∧
      r.root = some ⟨0⟩ := by
  obtain ⟨work, hfollows⟩ := hunit
  obtain ⟨ρ, hwork, hroot, hresult, hhas, hends⟩ :=
    walk_atWork hchecker hknown hs hnamed hintact own own' hfollows
  refine ⟨ρ, hwork.fixes, ?_⟩
  have hsettings : checker.settings.rename ρ = checker.settings :=
    congrArg SettingsRef.mk (hwork.fixes.object _ hchecker.settings)
  -- a unit that has a result has run to its end, or into a fault
  rcases result_of_check_eq_ok hok with hend | ⟨ref, hend⟩
  · obtain ⟨hone, hone'⟩ := check_of_ok hend
    rw [hend] at hresult
    obtain ⟨htwo, htwo'⟩ := check_of_ok hresult
    rw [htwo, htwo', hroot]
    have hfinish := hwork.self.finish checker hhas hsettings (hone.symm.trans hok)
    rw [← hone'] at hfinish
    exact hfinish
  · obtain ⟨hone, hone'⟩ := check_of_fault hend
    obtain ⟨hown, hmet⟩ := hends ref hend
    rw [hend] at hresult
    have hmet' : (checker.walk unit (own', s)).result = .error (.fault (ref.rename ρ)) := hresult
    obtain ⟨htwo, htwo'⟩ := check_of_fault hmet'
    rw [htwo, htwo', hroot]
    have habort := hwork.self.abort checker hwork.apart hhas hsettings hown hmet
      (hone.symm.trans hok)
    rw [← hone'] at habort
    exact habort

end

/-! ## Several units -/

/-- **Units are independent.** Several units that keep to themselves, each of which has a result
when it is checked alone in a fresh store, are checked after whatever was checked before. Then there
is one result for each unit, in order, and it reads as the one that the unit has alone, with the
same settings and summaries: whichever units there are besides it, in whichever order, and wherever
they end in a fault. What was there before is left intact. -/
theorem units_independent (checker : Checker) (known : Objects) (units : List (CheckUnit σ))
    (s : Store) (own own' : σ) (hchecker : checker.Standing known) (hknown : known.Closed)
    (hs : s.Ordered) (hnamed : s.objects.WellNamed) (hintact : (fresh known).IntactIn s)
    (hunits : ∀ unit ∈ units, unit.KeepsToItself checker known)
    (hend : ∀ unit ∈ units, ∃ r, (checker.alone known own unit).1 = .ok r) :
    let together := checker.checkAll units (own', s)
    ∃ results, together.1 = .ok results ∧ results.length = units.length ∧
      s.IntactIn together.2.2 ∧
      ∀ (i : Nat) unit, units[i]? = some unit → ∃ r r' ρ,
        (checker.alone known own unit).1 = .ok r ∧ r.root = some ⟨0⟩ ∧ results[i]? = some r' ∧
          ρ.OneToOne ∧ ρ.Fixes known ∧
          r.Alike ρ (checker.alone known own unit).2.2 r' together.2.2 := by
  intro together
  -- each unit leaves a store behind in which the next one can arrive
  induction units generalizing s own' with
  | nil => exact ⟨[], rfl, rfl, .refl s, fun i unit hi => by simp at hi⟩
  | cons unit units ih =>
    obtain ⟨hunit, hunits⟩ := List.forall_mem_cons.1 hunits
    obtain ⟨⟨r, hr⟩, hend⟩ := List.forall_mem_cons.1 hend
    obtain ⟨ρ, hfixes, hchecked, hhosted, hwithin, hsettings, hroot⟩ :=
      check_hosted hchecker hknown hs hnamed hintact own' hunit hr
    have hsame : r.settings.rename ρ = r.settings := by
      rw [hsettings]
      exact congrArg SettingsRef.mk (hfixes.object _ hchecker.settings)
    obtain ⟨results, hresults, hlength, hlater, hall⟩ := ih (checker.check unit (own', s)).2.2
      (checker.check unit (own', s)).2.1 hhosted.ordered' hhosted.named'
      (hintact.trans hhosted.intact) hunits hend
    have htogether : together = ((checker.checkAll units (checker.check unit (own', s)).2).1.map
        (r.rename ρ :: ·), (checker.checkAll units (checker.check unit (own', s)).2).2) := by
      simp only [together, checkAll]
      generalize checker.check unit (own', s) = checked at hchecked
      obtain ⟨result, state⟩ := checked
      cases hchecked
      rfl
    rw [htogether]
    refine ⟨r.rename ρ :: results, ?_, ?_, ?_, ?_⟩
    · exact congrArg (Except.map _) hresults
    · rw [List.length_cons, List.length_cons, hlength]
    · exact hhosted.intact.trans hlater
    · intro i u hi
      cases i with
      | zero =>
        obtain rfl : unit = u := Option.some.inj hi
        -- what the units after it do leaves the result as it is
        have hembeds := hhosted.toEmbeds.of_intactIn hlater
        have htypes := hhosted.types.of_grown hlater.grown
        exact ⟨r, _, _, hr, hroot, rfl, hhosted.oneToOne, hfixes,
          UnitResult.alike_rename hembeds htypes hwithin hsame⟩
      | succ i => exact hall i u hi

/-- Default settings, which everybody knows. -/
def defaults : Objects := ({} : Objects).newSettings.2

theorem defaults_closed : defaults.Closed := by
  refine ⟨by decide, fun i hi name v hv => ?_, nofun, nofun⟩
  obtain rfl : i = 0 := Nat.lt_one_iff.1 hi
  obtain ⟨entry, hentry, rfl⟩ := Bindings.exists_mem_of_get? hv
  have hentries : (defaults.attributesAt 0).entries = [("log_level", .level .warning),
    ("log_rich_format", .bool false), ("version_bump", .policy .firstWriteAfterSpawn)] := rfl
  rw [hentries] at hentry
  simp only [List.mem_cons, List.not_mem_nil, or_false] at hentry
  rcases hentry with rfl | rfl | rfl <;> trivial

/-- A node is typed in a branch, which is left open when a commit of the root fails. -/
def breaking : Engine Unit := fun root (own, s) =>
  let (integer, objects) := s.objects.instanceOf "Integer"
  let (node, objects) := objects.newRecord (.node .integerLiteral) []
  let (child, s) := (s.withObjects objects).spawn root
  let (result, s) := (s.recordType child (.record node) integer).commit root
  (result, own, s)

/-- A node is given a union of two types, and an error is found at it. -/
def finding : Engine Unit := fun root (own, s) =>
  let (integer, objects) := s.objects.instanceOf "Integer"
  let (nil, objects) := objects.make .nilType
  match objects.join [integer, nil] with
  | (.error failure, objects) => (.error failure, own, s.withObjects objects)
  | (.ok either, objects) =>
    let (node, objects) := objects.newRecord (.node .variableUse) []
    let (error, objects) := objects.make fun stamp =>
      .typeError stamp (.record node) "unexpected" "error"
    let s := (s.withObjects objects).recordType root (.record node) either
    (.ok (), own, s.addError root error)

/-- What `breaking` does, deed by deed. -/
def breakingWork (root : ContextId) : Work :=
  .ask (.instanceOf "Integer") fun integer =>
  .ask (.act (.newRecord (.node .integerLiteral) [] [])) fun node =>
  .deed (.act (.spawn root)) fun
    | .ok (.context child) =>
      .deed (.act (.recordType child node integer)) fun _ =>
      .deed (.act (.commit root)) fun outcome => .done (outcome.map fun _ => ())
    | _ => .done (.ok ())

/-- What `finding` does, deed by deed. -/
def findingWork (root : ContextId) : Work :=
  .ask (.instanceOf "Integer") fun integer =>
  .ask (.make (.nilType ⟨0⟩)) fun nil =>
  .ask (.join [integer, nil]) fun either =>
  .ask (.act (.newRecord (.node .variableUse) [] [])) fun node =>
  .ask (.make (.typeError ⟨0⟩ node "unexpected" "error")) fun error =>
  .deed (.act (.recordType root node either)) fun _ =>
  .deed (.act (.addError root error)) fun _ => .done (.ok ())

theorem breaking_follows (name : String) (filename : Option String) :
    CheckUnit.Follows { settings := ⟨0⟩ } defaults ⟨name, breaking, filename⟩ breakingWork where
  does root state _ := by
    simp only [breaking, breakingWork, Work.ask, Work.run, carryOut, withObjects, Store.perform]
    generalize Store.commit _ _ = committed
    obtain ⟨result, s⟩ := committed
    cases result <;> rfl
  alike ρ _ _ root := by
    refine .ask rfl fun integer => .ask rfl fun node => .deed rfl fun outcome => ?_
    cases outcome with
    | error failure => exact .done (.ok ())
    | ok answer =>
      cases answer with
      | context child =>
        refine .deed rfl fun _ => .deed rfl fun outcome => ?_
        cases outcome <;> exact .done _
      | _ => exact .done (.ok ())
  keeps := by
    have hroot : 0 < 1 := Nat.zero_lt_one
    have hchild : 1 < 2 := Nat.lt_succ_self 1
    refine ⟨trivial, Action.own_newRecord _,
      Action.own_of_context rfl hroot (by simp [Action.values]) rfl rfl,
      Action.own_recordType hchild hchild ⟨trivial, trivial⟩,
      Action.own_of_context rfl Nat.zero_lt_two (by simp [Action.values]) rfl rfl,
      fun ref href => ?_⟩
    -- the fault is made after the settings and the node
    cases href
    exact ⟨Nat.le_succ 1, Nat.lt_succ_self 2⟩

theorem finding_follows (name : String) (filename : Option String) :
    CheckUnit.Follows { settings := ⟨0⟩ } defaults ⟨name, finding, filename⟩ findingWork where
  does root state _ := by
    simp only [finding, findingWork, Work.ask, Work.run, carryOut, withObjects, Value.stamped]
    generalize Objects.join _ _ = joined
    obtain ⟨result, objects⟩ := joined
    cases result <;> rfl
  alike ρ _ _ root := by
    refine .ask rfl fun integer => .ask ?_ fun nil => .ask rfl fun either => .ask rfl fun node =>
      .ask ?_ fun error => .deed rfl fun _ => .deed rfl fun _ => .done (.ok ())
    all_goals simp [Deed.rename, Value.rename]
  keeps := by
    have hroot : 0 < 1 := Nat.zero_lt_one
    have hnode : 1 < 2 := Nat.lt_succ_self 1
    refine ⟨trivial, trivial, fun t ht => ?_, Action.own_newRecord _, ?_,
      Action.own_recordType hroot hnode ⟨trivial, ⟨trivial, trivial⟩, trivial, trivial⟩,
      Action.own_addError hroot ⟨trivial, hnode⟩, fun ref href => ?_⟩
    · simp only [List.mem_cons, List.not_mem_nil, or_false] at ht
      rcases ht with rfl | rfl
      · exact ⟨⟨trivial, trivial⟩, Objects.settled_of_hashable _ rfl⟩
      · exact ⟨trivial, Objects.settled_of_hashable _ rfl⟩
    · exact ⟨trivial, hnode⟩
    · cases href

/-- A unit breaks with a branch left open, and the next one, which asks for the same class, has its
finding all the same. -/
theorem broken_unit_independent :
    let checker : Checker := { settings := ⟨0⟩ }
    let units : List (CheckUnit Unit) := [⟨"a", breaking, some "a.rb"⟩, ⟨"b", finding, none⟩]
    let together := checker.checkAll units ((), fresh defaults)
    ∃ results broke found, together.1 = .ok results ∧ results.length = 2 ∧
      results[0]? = some broke ∧ broke.hasFault = true ∧
      results[1]? = some found ∧ found.hasFault = false ∧ found.hasErrors = true := by
  dsimp only
  have hbreaking := breaking_follows "a" (some "a.rb")
  have hfinding := finding_follows "b" none
  obtain ⟨results, hok, hlength, -, hall⟩ := units_independent { settings := ⟨0⟩ } defaults
    [⟨"a", breaking, some "a.rb"⟩, ⟨"b", finding, none⟩] (fresh defaults) () ()
    ⟨by decide, nofun⟩ defaults_closed (ordered_fresh defaults) defaults_closed.named (.refl _)
    (List.forall_mem_cons.2 ⟨⟨_, hbreaking⟩, List.forall_mem_singleton.2 ⟨_, hfinding⟩⟩)
    (List.forall_mem_cons.2 ⟨⟨_, rfl⟩, List.forall_mem_singleton.2 ⟨_, rfl⟩⟩)
  obtain ⟨r, broke, ρ, hr, -, hbroke, -, -, halike⟩ := hall 0 _ rfl
  obtain ⟨q, found, ρ', hq, -, hfound, -, -, halike'⟩ := hall 1 _ rfl
  have hfault : r.hasFault = true := by
    cases hr
    rfl
  have herror : q.hasFault = false ∧ q.hasErrors = true := by
    cases hq
    exact ⟨rfl, rfl⟩
  exact ⟨results, broke, found, hok, hlength, hbroke, halike.hasFault.trans hfault, hfound,
    halike'.hasFault.trans herror.1, halike'.hasErrors.trans herror.2⟩

end Checker

end TypingStore
