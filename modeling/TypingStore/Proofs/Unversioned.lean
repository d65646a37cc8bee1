import TypingStore.Proofs.Hiding
import TypingStore.Proofs.Lookups
import TypingStore.Proofs.Run

/-!
# Stores that differ only in versions

Two stores are alike (`Store.Alike`) when they have the same contexts up to versions and snapshots,
the same objects up to the policies and what is worded or noted of versions, and the same journal
up to its words.

Whatever is done to two such stores leaves them alike, under whatever policies, and answers the
same up to words (`Alike.perform`). Only a commit goes by versions; two commits end alike if
versions refuse both or neither (`Alike.commit`).
-/

namespace TypingStore

/-- The attributes that hold policies and versions, or words, which may name versions. -/
def versionNames : List String :=
  ["version_bump", "expected_version", "actual_version", "args", "message"]

namespace Context

/-- A context without its versions. -/
def unversioned (c : Context) : Context := { c with snapshot := 0, version := 0 }

/-- What two contexts agree on that differ only in versions. -/
theorem unversioned_eq_iff {c d : Context} :
    c.unversioned = d.unversioned ↔ c.parent = d.parent ∧ c.settings = d.settings ∧
      c.summarizer = d.summarizer ∧ c.pending = d.pending ∧ c.nodeTypes = d.nodeTypes ∧
      c.varTypes = d.varTypes ∧ c.errors = d.errors := by
  simp only [unversioned, mk.injEq, true_and]

theorem unversioned_noteWrite (policy : VersionPolicy) (c : Context) :
    (c.noteWrite policy).unversioned = { c.unversioned with pending := false } := by
  unfold noteWrite
  split
  · rfl
  · rename_i h
    have hp : c.pending = false := by simpa using (not_or.1 h).2
    simp [unversioned, hp]

/-- **Apart from versions, an entry does the same under every policy.** -/
theorem unversioned_enter (policy policy' : VersionPolicy) (e : Entry) {c d : Context}
    (h : c.unversioned = d.unversioned) :
    (c.enter policy e).unversioned = (d.enter policy' e).unversioned := by
  obtain ⟨p, st, sm, sn, v, pe, nt, vt, er⟩ := c
  obtain ⟨p', st', sm', sn', v', pe', nt', vt', er'⟩ := d
  simp only [unversioned, mk.injEq, true_and] at h
  obtain ⟨rfl, rfl, rfl, rfl, rfl, rfl, rfl⟩ := h
  cases e with
  | nodeType node type => simp only [enter, recordType, unversioned_noteWrite]; rfl
  | varType handle type => simp only [enter, recordVariable, unversioned_noteWrite]; rfl
  | error error => rfl

theorem unversioned_enterAll (policy policy' : VersionPolicy) (es : List Entry) {c d : Context}
    (h : c.unversioned = d.unversioned) :
    (c.enterAll policy es).unversioned = (d.enterAll policy' es).unversioned := by
  induction es generalizing c d with
  | nil => exact h
  | cons e es ih => exact ih (unversioned_enter policy policy' e h)

end Context

namespace Store

/-- The stores differ only in versions, policies, and words. -/
structure Alike (s s' : Store) : Prop where
  objects : s.objects.hide versionNames = s'.objects.hide versionNames
  size : s.contexts.size = s'.contexts.size
  context : ∀ c, (s.context c).unversioned = (s'.context c).unversioned
  journal : s.journal.map (fun line => (line.level, line.stamped)) =
    s'.journal.map fun line => (line.level, line.stamped)

/-- A store without versions, policies, words and journal. -/
def unversioned (s : Store) : Store where
  objects := s.objects.hide versionNames
  contexts := s.contexts.map Context.unversioned

/-- What two such stores show differs only by what is hidden here. -/
theorem Alike.unversioned_eq {s s' : Store} (h : s.Alike s') : s.unversioned = s'.unversioned := by
  have hcontexts : s.contexts.map Context.unversioned = s'.contexts.map Context.unversioned := by
    refine Array.ext (by simp [h.size]) fun i h1 h2 => ?_
    have hc := h.context ⟨i⟩
    rw [Array.size_map] at h1 h2
    simpa [Store.context, Array.getD_eq_getD_getElem?, h1, h2] using hc
  simp only [unversioned, h.objects, hcontexts]

theorem context_add (s : Store) (new : Context) (d : ContextId) :
    (s.add new).2.context d = if d = ⟨s.contexts.size⟩ then new else s.context d := by
  obtain ⟨i⟩ := d
  simp only [add, context, Array.getD_eq_getD_getElem?, Array.getElem?_push, ContextId.mk.injEq]
  split <;> rfl

namespace Alike

variable {s s' : Store} {c p : ContextId}

theorem has (h : s.Alike s') : s.Has c ↔ s'.Has c := by
  simp only [Has, h.size]

/-! ## What is read -/

/-- What the contexts of the two stores agree on. -/
theorem same (h : s.Alike s') (c : ContextId) :
    (s.context c).parent = (s'.context c).parent ∧
      (s.context c).settings = (s'.context c).settings ∧
      (s.context c).summarizer = (s'.context c).summarizer ∧
      (s.context c).pending = (s'.context c).pending ∧
      (s.context c).nodeTypes = (s'.context c).nodeTypes ∧
      (s.context c).varTypes = (s'.context c).varTypes ∧
      (s.context c).errors = (s'.context c).errors :=
  Context.unversioned_eq_iff.1 (h.context c)

theorem typings (h : s.Alike s') (c : ContextId) : s.typings c = s'.typings c := by
  obtain ⟨-, -, -, -, hn, -, -⟩ := h.same c
  simp only [Store.typings, hn]

theorem above (h : s.Alike s') (c : ContextId) :
    (s.above c).map Context.unversioned = (s'.above c).map Context.unversioned := by
  have hchain : s.chain c = s'.chain c := chain_congr fun d _ => (h.same d).1
  simp only [Store.above, hchain, List.map_map]
  exact List.map_congr_left fun a _ => h.context a

theorem findType (h : s.Alike s') (c : ContextId) (node : Value) :
    s.findType c node = s'.findType c node := by
  obtain ⟨-, -, -, -, hself, -, -⟩ := h.same c
  have habove := congrArg (List.findSome? fun a : Context => a.nodeTypes.get? ⟨node⟩) (h.above c)
  rw [List.findSome?_map, List.findSome?_map] at habove
  rw [findType_eq_or, findType_eq_or s', hself]
  exact congrArg _ habove

theorem findVariable (h : s.Alike s') (c : ContextId) (handle : Handle) :
    s.findVariable c handle = s'.findVariable c handle := by
  obtain ⟨-, -, -, -, -, hself, -⟩ := h.same c
  have habove := congrArg (List.findSome? fun a : Context => a.varTypes.get? handle) (h.above c)
  rw [List.findSome?_map, List.findSome?_map] at habove
  rw [findVariable_eq_or, findVariable_eq_or s', hself]
  exact congrArg _ habove

/-! ## What is done -/

theorem withObjects (h : s.Alike s') {objects objects' : Objects}
    (ho : objects.hide versionNames = objects'.hide versionNames) :
    Alike { s with objects := objects } { s' with objects := objects' } :=
  ⟨ho, h.size, h.context, h.journal⟩

theorem update (h : s.Alike s') {f g : Context → Context}
    (hfg : (f (s.context c)).unversioned = (g (s'.context c)).unversioned) :
    (s.update c f).Alike (s'.update c g) := by
  refine ⟨h.objects, by simp [Store.update, h.size], fun d => ?_, h.journal⟩
  rw [context_update, context_update]
  simp only [h.has]
  split
  · exact hfg
  · exact h.context d

/-- Entries are put down alike under every policy. -/
theorem enterAll (h : s.Alike s') (policy policy' : VersionPolicy) (es : List Entry) :
    (s.update c (Context.enterAll policy es)).Alike (s'.update c (Context.enterAll policy' es)) :=
  h.update (Context.unversioned_enterAll policy policy' es (h.context c))

theorem add (h : s.Alike s') {new new' : Context} (hnew : new.unversioned = new'.unversioned) :
    (s.add new).1 = (s'.add new').1 ∧ (s.add new).2.Alike (s'.add new').2 := by
  refine ⟨congrArg ContextId.mk h.size, h.objects, by simp [Store.add, h.size], fun d => ?_,
    h.journal⟩
  rw [context_add, context_add, h.size]
  split
  · exact hnew
  · exact h.context d

theorem createRoot (h : s.Alike s') (settings : Option SettingsRef)
    (summarizer : Option Summarizer) :
    (s.createRoot settings summarizer).1 = (s'.createRoot settings summarizer).1 ∧
      (s.createRoot settings summarizer).2.Alike (s'.createRoot settings summarizer).2 := by
  obtain ⟨href, hobjects⟩ := Objects.settingsOr_of_hide h.objects settings
  refine (h.withObjects hobjects).add ?_
  exact congrArg (fun ref =>
    Context.unversioned { parent := none, settings := ref, summarizer := _ }) href

theorem createChild (h : s.Alike s') (p : ContextId) (settings : Option SettingsRef)
    (summarizer : Option Summarizer) :
    (s.createChild p settings summarizer).1 = (s'.createChild p settings summarizer).1 ∧
      (s.createChild p settings summarizer).2.Alike (s'.createChild p settings summarizer).2 := by
  have hmark : (s.update p fun c => { c with pending := true }).Alike
      (s'.update p fun c => { c with pending := true }) :=
    h.update (congrArg (fun c : Context => { c with pending := true }) (h.context p) :)
  refine hmark.add ?_
  obtain ⟨-, hsettings, hsummarizer, -⟩ := h.same p
  simp only [Context.unversioned, Context.childOf, hsettings, hsummarizer]

/-- A report is the same report, up to its words. -/
theorem report (h : s.Alike s') (c : ContextId) (level : LogLevel) (message message' : String) :
    (s.report c level message).Alike (s'.report c level message') := by
  obtain ⟨-, href, -⟩ := h.same c
  have hverbosity : (s.settingsOf c).verbosity = (s'.settingsOf c).verbosity := by
    simp only [settingsOf, Objects.settingsOf, href, Objects.get_of_hide h.objects
      (show "log_level" ∉ versionNames by decide)]
  have hstamped : (s.settingsOf c).stamped = (s'.settingsOf c).stamped := by
    simp only [settingsOf, Objects.settingsOf, href, Objects.get_of_hide h.objects
      (show "log_rich_format" ∉ versionNames by decide)]
  refine ⟨h.objects, h.size, h.context, ?_⟩
  simp only [Store.report, Journal.report, Settings.admits, hverbosity, hstamped]
  by_cases hlevel : level.rank ≤ (s'.settingsOf c).verbosity <;> simp [hlevel, h.journal]

/-- A fault that arises is the same fault, if its causes differ at most in versions. -/
theorem failAs (α : Type) (h : s.Alike s') {cause cause' : Cause} (hkind : cause.kind = cause'.kind)
    (hloc : s.objects.locationOf cause = s'.objects.locationOf cause')
    (hnotes : cause.notes.map (fun e => (e.1, veil versionNames e.1 e.2)) =
      cause'.notes.map fun e => (e.1, veil versionNames e.1 e.2)) :
    let x : Except Failure α × Store := s.fail cause
    let x' : Except Failure α × Store := s'.fail cause'
    x.1 = x'.1 ∧ x.2.Alike x'.2 := by
  obtain ⟨href, hobjects⟩ := Objects.newFault_of_hide h.objects (by decide) (by decide) cause
    cause' hkind hloc hnotes
  exact ⟨congrArg (fun ref => Except.error (Failure.fault ref)) href, h.withObjects hobjects⟩

theorem fail (α : Type) (h : s.Alike s') (cause : Cause) :
    let x : Except Failure α × Store := s.fail cause
    let x' : Except Failure α × Store := s'.fail cause
    x.1 = x'.1 ∧ x.2.Alike x'.2 :=
  h.failAs α rfl (Objects.locationOf_of_hide h.objects (by decide) cause) rfl

/-- **Two commits end alike** if versions refuse both or neither. -/
theorem commit (h : s.Alike s') (hfresh : ∀ p, (s'.context c).parent = some p →
      ((s.context p).version = (s.context c).snapshot ↔
        (s'.context p).version = (s'.context c).snapshot)) :
    (s.commit c).1 = (s'.commit c).1 ∧ (s.commit c).2.Alike (s'.commit c).2 := by
  obtain ⟨hparent, -⟩ := h.same c
  simp only [Store.commit, hparent]
  cases hp : (s'.context c).parent with
  | none => exact h.fail Unit _
  | some p =>
    have hiff := hfresh p hp
    by_cases hv : (s'.context p).version = (s'.context c).snapshot
    · have hv' := hiff.2 hv
      have hentries : (s.context c).entries = (s'.context c).entries :=
        (congrArg Context.entries (h.context c) :)
      simp only [hv, hv', ne_eq, not_true_eq_false, if_false, Context.absorb_eq_enterAll, hentries]
      exact ⟨trivial, (h.enterAll _ _ _).report _ _ _ _⟩
    · have hv' := mt hiff.1 hv
      simp only [hv, hv', ne_eq, not_false_eq_true, if_true]
      -- the refusals name versions that need not be the same, but these are hidden
      have hobjects := Objects.number_of_hide
        (Objects.number_of_hide h.objects (s.context c).snapshot (s'.context c).snapshot)
        (s.context p).version (s'.context p).version
      exact ((h.withObjects hobjects).report c .debug _ _).failAs Unit rfl rfl rfl

end Alike

end Store

/-- An outcome up to words. -/
def Outcome.wordless : Outcome → Outcome
  | .ok (.text _) => .ok (.text "")
  | .ok answer => .ok answer
  | .error failure => .error failure.wordless

theorem Outcome.wordless_ok_text (text text' : String) :
    Outcome.wordless (.ok (.text text)) = Outcome.wordless (.ok (.text text')) := rfl

theorem Outcome.wordless_text {x y : Except Failure String} (h : ending x = ending y) :
    Outcome.wordless (x.map .text) = Outcome.wordless (y.map .text) := by
  cases x with
  | error failure =>
    cases y with
    | error failure' =>
      have hf : failure.wordless = failure'.wordless := Except.error.inj h
      exact congrArg Except.error hf
    | ok text => cases h
  | ok text =>
    cases y with
    | error failure => cases h
    | ok text' => exact Outcome.wordless_ok_text text text'

/-- **Every operation does and answers the same** in stores that differ only in versions; a dump and
a caption do so up to words. A commit does so if versions refuse it in both or in neither. -/
theorem Store.Alike.perform {s s' : Store} (h : s.Alike s') (a : Action)
    (hfresh : ∀ c p, a = .commit c → (s'.context c).parent = some p →
      ((s.context p).version = (s.context c).snapshot ↔
        (s'.context p).version = (s'.context c).snapshot)) :
    ((∀ c, a ≠ .dump c ∧ a ≠ .caption c) → (s.perform a).1 = (s'.perform a).1) ∧
      ((∀ c, (s'.context c).summarizer.Steady versionNames) →
        (s.perform a).1.wordless = (s'.perform a).1.wordless) ∧
      (s.perform a).2.Alike (s'.perform a).2 := by
  suffices hends : ((s.perform a).1 = (s'.perform a).1 ∨ ((∃ c, a = .dump c ∨ a = .caption c) ∧
      ((∀ c, (s'.context c).summarizer.Steady versionNames) →
        (s.perform a).1.wordless = (s'.perform a).1.wordless))) ∧
      (s.perform a).2.Alike (s'.perform a).2 by
    obtain ⟨hsame | ⟨⟨c, htext⟩, hwordless⟩, halike⟩ := hends
    · exact ⟨fun _ => hsame, fun _ => congrArg Outcome.wordless hsame, halike⟩
    · exact ⟨fun hno => absurd htext (not_or.2 (hno c)), hwordless, halike⟩
  -- only a commit goes by versions, and only a dump by the summaries that are given
  cases a with
  | createRoot settings summarizer =>
    obtain ⟨hid, halike⟩ := h.createRoot settings summarizer
    exact ⟨.inl (congrArg (fun c => Except.ok (Answer.context c)) hid), halike⟩
  | createChild p settings summarizer =>
    obtain ⟨hid, halike⟩ := h.createChild p settings summarizer
    exact ⟨.inl (congrArg (fun c => Except.ok (Answer.context c)) hid), halike⟩
  | spawn p =>
    obtain ⟨hid, halike⟩ := h.createChild p none none
    exact ⟨.inl (congrArg (fun c => Except.ok (Answer.context c)) hid), halike.report _ _ _ _⟩
  | recordType c node type => exact ⟨.inl rfl, h.enterAll _ _ [.nodeType node type]⟩
  | recordVariable c name type =>
    simp only [Store.perform, Store.recordVariable]
    cases handleOf name with
    | error failure => exact ⟨.inl rfl, h⟩
    | ok handle => exact ⟨.inl rfl, h.enterAll _ _ [.varType handle type]⟩
  | addError c error => exact ⟨.inl rfl, h.enterAll .everyWrite .everyWrite [.error error]⟩
  | commit c =>
    obtain ⟨hresult, halike⟩ := h.commit fun p => hfresh c p rfl
    exact ⟨.inl (congrArg (Except.map fun _ => Answer.done) hresult), halike⟩
  | hasType c node =>
    obtain ⟨-, -, -, -, hn, -⟩ := h.same c
    have hresult : s.hasType c node = s'.hasType c node := by simp only [Store.hasType, hn]
    exact ⟨.inl (congrArg (fun b => Except.ok (Answer.truth b)) hresult), h⟩
  | hasVariable c name =>
    obtain ⟨-, -, -, -, -, hv, -⟩ := h.same c
    have hresult : s.hasVariable c name = s'.hasVariable c name := by
      simp only [Store.hasVariable, hv]
    exact ⟨.inl (congrArg (Except.map Answer.truth) hresult), h⟩
  | typeOf c node =>
    simp only [Store.perform, Store.typeOf, h.findType]
    cases s'.findType c node with
    | some type => exact ⟨.inl rfl, h⟩
    | none =>
      obtain ⟨hf, halike⟩ := h.fail Value (.nodeNotTyped node)
      exact ⟨.inl (congrArg (Except.map Answer.value) hf), halike⟩
  | variableTypeOf c name =>
    simp only [Store.perform, Store.variableTypeOf]
    cases handleOf name with
    | error failure => exact ⟨.inl rfl, h⟩
    | ok handle =>
      simp only [h.findVariable]
      cases s'.findVariable c handle with
      | some type => exact ⟨.inl rfl, h⟩
      | none =>
        obtain ⟨hf, halike⟩ := h.fail Value (.variableNotTyped name)
        exact ⟨.inl (congrArg (Except.map Answer.value) hf), halike⟩
  | typings c =>
    exact ⟨.inl (congrArg (fun l => Except.ok (Answer.typings l)) (h.typings c)), h⟩
  | variableTypes c =>
    obtain ⟨-, -, -, -, -, hv, -⟩ := h.same c
    have hresult : (s.context c).varTypes.entries = (s'.context c).varTypes.entries := by rw [hv]
    exact ⟨.inl (congrArg (fun l => Except.ok (Answer.variableTypes l)) hresult), h⟩
  | errors c =>
    obtain ⟨-, -, -, -, -, -, he⟩ := h.same c
    exact ⟨.inl (congrArg (fun l => Except.ok (Answer.errors l)) he), h⟩
  | dump c =>
    obtain ⟨-, -, hsum, -, -, -, he⟩ := h.same c
    exact ⟨.inr ⟨⟨c, .inl rfl⟩, fun hsteady => Outcome.wordless_text
      (Store.ending_dump h.objects (by decide) (h.typings c) he hsum (hsteady c))⟩, h⟩
  | caption c => exact ⟨.inr ⟨⟨c, .inr rfl⟩, fun _ => Outcome.wordless_ok_text _ _⟩, h⟩
  | assign target field new =>
    simp only [Store.perform]
    rcases Objects.assign_of_hide h.objects target field new with
      ⟨failure, ho, ho'⟩ | ⟨after, after', ho, ho', hafter⟩
    · rw [ho, ho']
      exact ⟨.inl rfl, h⟩
    · rw [ho, ho']
      exact ⟨.inl rfl, h.withObjects hafter⟩
  | newRecord kind fields others =>
    have href := Objects.size_of_hide h.objects
    refine ⟨.inl ?_, h.withObjects (Objects.add_of_hide h.objects _)⟩
    simp only [Store.perform, Objects.newRecord, href]
  | newIndividual kind attributes =>
    have href := Objects.size_of_hide h.objects
    refine ⟨.inl ?_, h.withObjects (Objects.add_of_hide h.objects _)⟩
    simp only [Store.perform, Objects.newIndividual, href]

/-- Operations that end alike are told by the same events. -/
theorem Store.Alike.eventsOf {s s' : Store} (h : s.Alike s') (a : Action)
    (hcommit : ∀ c, a = .commit c → (s.commit c).1 = (s'.commit c).1) :
    s.eventsOf a = s'.eventsOf a := by
  cases a with
  | commit c =>
    obtain ⟨hparent, -⟩ := h.same c
    have hentries : (s.context c).entries = (s'.context c).entries :=
      (congrArg Context.entries (h.context c) :)
    simp only [Store.eventsOf, hcommit c rfl, hparent, hentries]
  | _ => simp only [Store.eventsOf, h.size]

end TypingStore
