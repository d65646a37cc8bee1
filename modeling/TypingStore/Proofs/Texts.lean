import TypingStore.Proofs.Hiding
import TypingStore.Reporting

/-!
# Which objects a text shows

A text made of a value shows what the value is made of, and what the objects in it hold. So a text
cannot tell of what it does not show. Settings are shown like any other object, and a text may tell
how much is reported; one that shows no settings is the same text however much is reported.

* `reportingNames`: the attributes that say how much is reported, and in which form.
* `Objects.Shows`, `Objects.ShowsNo`: what the texts of a value show, and that nothing hidden is
  among it.
* `Objects.LookAlike`: objects that hold the same, apart from hidden ones; what shows nothing hidden
  looks the same in both.
* `Exhibit`: something that was put into a text, with the objects as they were.
* `Objects.written_of_clear`, `display_of_clear`, `report_of_told`: texts that show no settings are
  the same on objects that differ only in what is reported.
-/

namespace TypingStore

/-- The attributes that say how much is reported, and in which form. -/
def reportingNames : List String := ["log_level", "log_rich_format"]

/-- Two computations that go on alike after the answer of their first part are alike. -/
theorem bind_congr_of_ok {α β : Type} {x : Except Failure α} {f g : α → Except Failure β}
    (h : ∀ a, x = .ok a → f a = g a) : (x >>= f) = (x >>= g) := by
  cases x with
  | error failure => rfl
  | ok a => exact h a rfl

/-- Computations that agree on every item of a list agree on the list. -/
theorem mapM_congr {α β : Type} {f g : α → Except Failure β} {l : List α}
    (h : ∀ a ∈ l, f a = g a) : l.mapM f = l.mapM g := by
  induction l with
  | nil => rfl
  | cons a l ih =>
    rw [List.mapM_cons, List.mapM_cons, h a List.mem_cons_self,
      ih fun b hb => h b (List.mem_cons_of_mem a hb)]

/-- **A dump is the same text** if all that is put into it is. -/
theorem Store.dump_congr {s s' : Store} {c : ContextId} (htypings : s.typings c = s'.typings c)
    (herrors : (s.context c).errors = (s'.context c).errors)
    (hsummarizer : (s.context c).summarizer = (s'.context c).summarizer)
    (htyping : ∀ typing ∈ s.typings c,
      (s.context c).summarizer.summary s.objects typing.1 =
          (s.context c).summarizer.summary s'.objects typing.1 ∧
        s.objects.display typing.2 = s'.objects.display typing.2)
    (herror : ∀ error ∈ (s.context c).errors,
      s.objects.nodeOf error = s'.objects.nodeOf error ∧
        (s.objects.nodeOf error ≠ .absent →
          (s.context c).summarizer.summary s.objects (s.objects.nodeOf error) =
            (s.context c).summarizer.summary s'.objects (s.objects.nodeOf error)) ∧
        s.objects.plain error = s'.objects.plain error) :
    s.dump c = s'.dump c := by
  have hentry : ∀ typing ∈ s.typings c, s.typingEntry (s.context c).summarizer typing =
      s'.typingEntry (s.context c).summarizer typing := by
    intro typing hmem
    obtain ⟨hsummary, htype⟩ := htyping typing hmem
    simp only [typingEntry, hsummary, htype]
  have hentry' : ∀ error ∈ (s.context c).errors, s.errorEntry (s.context c).summarizer error =
      s'.errorEntry (s.context c).summarizer error := by
    intro error hmem
    obtain ⟨hnode, hsummary, hplain⟩ := herror error hmem
    by_cases hnone : s.objects.nodeOf error = .absent
    · simp only [errorEntry, ← hnode, hplain, hnone]
    · simp only [errorEntry, ← hnode, hplain, hsummary hnone]
  simp only [dump, ← hsummarizer, ← htypings, ← herrors, mapM_congr hentry, mapM_congr hentry']

/-- Settings are the only records with fields that settings have. -/
theorem RecordKind.eq_settings_of_field {kind : RecordKind} {name : String}
    (hname : name ∈ kind.fieldNames) (hsettings : name ∈ RecordKind.settings.fieldNames) :
    kind = .settings := by
  cases kind with
  | settings => rfl
  | node kind =>
    revert hname hsettings
    cases kind <;> simp only [fieldNames, NodeKind.fieldNames] <;> grind
  | _ =>
    revert hname hsettings
    simp only [fieldNames]
    grind

namespace Objects

/-! ## What is shown -/

/-- What the texts of a value are put together from. -/
def shownParts (objects : Objects) : Value → List Value
  | .list _ items | .tuple _ items | .instanceType _ _ items | .unionType _ items => items
  | .procType _ params result => params ++ [result]
  | .typeError _ node _ _ => [node]
  | .location _ filename span => [filename, span]
  | .record ref => objects.fields ref
  | .individual ref =>
    match ref.kind with
    | .foreign _ => [objects.get (.individual ref) "tag"]
    | _ => objects.arguments ref
  | .absent | .bool _ | .int _ _ | .text _ _ | .level _ | .policy _ | .anyType _ | .nilType _ => []

/-- The texts of `v` show `w`: the value itself, or something it is put together from. -/
inductive Shows (objects : Objects) : (v w : Value) → Prop
  | self (v : Value) : Shows objects v v
  | part {v u w : Value} (hpart : u ∈ objects.shownParts v) (hshows : Shows objects u w) :
    Shows objects v w

/-- The texts of a value show nothing that is hidden. -/
def ShowsNo (objects : Objects) (hidden : Value → Prop) (v : Value) : Prop :=
  ∀ w, objects.Shows v w → ¬ hidden w

variable {objects objects' : Objects} {hidden : Value → Prop}

namespace ShowsNo

theorem self {v : Value} (h : objects.ShowsNo hidden v) : ¬ hidden v := h v (.self v)

theorem part {v w : Value} (h : objects.ShowsNo hidden v) (hw : w ∈ objects.shownParts v) :
    objects.ShowsNo hidden w :=
  fun u hshows => h u (.part hw hshows)

theorem fields {ref : RecordRef} (h : objects.ShowsNo hidden (.record ref)) :
    ∀ v ∈ objects.fields ref, objects.ShowsNo hidden v :=
  fun _ hv => h.part hv

theorem arguments {ref : IndividualRef} (h : objects.ShowsNo hidden (.individual ref))
    (hkind : ∀ kind, ref.kind ≠ .foreign kind) :
    ∀ v ∈ objects.arguments ref, objects.ShowsNo hidden v := by
  obtain ⟨index, kind⟩ := ref
  cases kind with
  | foreign kind => exact absurd rfl (hkind kind)
  | _ => exact fun v hv => h.part hv

theorem tag {index : Nat} {kind : ForeignKind}
    (h : objects.ShowsNo hidden (.individual ⟨index, .foreign kind⟩)) :
    objects.ShowsNo hidden (objects.get (.individual ⟨index, .foreign kind⟩) "tag") :=
  h.part List.mem_cons_self

end ShowsNo

/-- What is not put together from anything shows only itself. -/
theorem showsNo_of_no_parts {v : Value} (hparts : objects.shownParts v = []) (hv : ¬ hidden v) :
    objects.ShowsNo hidden v := by
  intro w hshows
  cases hshows with
  | self => exact hv
  | part hpart _ => simp [hparts] at hpart

/-- The texts of a value show no settings. -/
def Clear (objects : Objects) (v : Value) : Prop :=
  objects.ShowsNo (fun w => ∃ ref : RecordRef, w = .record ref ∧ ref.kind = .settings) v

theorem clear_of_no_parts {v : Value} (hparts : objects.shownParts v = [])
    (hrecord : ∀ ref, v ≠ .record ref) : objects.Clear v :=
  showsNo_of_no_parts hparts fun ⟨ref, hv, _⟩ => hrecord ref hv

/-! ## Forms that agree on what is not hidden -/

/-- Forms that show alike what shows nothing hidden. -/
structure ShowAlike (objects : Objects) (hidden : Value → Prop) (forms forms' : Value.Forms) :
    Prop where
  record : ∀ ref, objects.ShowsNo hidden (.record ref) → forms.record ref = forms'.record ref
  individual : ∀ ref, objects.ShowsNo hidden (.individual ref) →
    forms.individual ref = forms'.individual ref
  said : ∀ ref, objects.ShowsNo hidden (.individual ref) → forms.said ref = forms'.said ref

namespace ShowAlike

variable {forms forms' : Value.Forms}

mutual

theorem written (h : objects.ShowAlike hidden forms forms') :
    ∀ v : Value, objects.ShowsNo hidden v → v.written forms = v.written forms'
  | .list _ items, hv | .tuple _ items, hv | .instanceType _ _ items, hv
  | .unionType _ items, hv => by
    have hitems := writtenAll h items fun w hw => hv.part (by simpa [shownParts] using hw)
    simp only [Value.written, hitems]
  | .procType _ params result, hv => by
    have hparams := writtenAll h params fun w hw => hv.part (by simp [shownParts, hw])
    have hresult := written h result (hv.part (by simp [shownParts]))
    simp only [Value.written, hparams, hresult]
  | .typeError _ node _ _, hv => by
    have hnode := written h node (hv.part (by simp [shownParts]))
    simp only [Value.written, hnode]
  | .location _ filename span, hv => by
    have hfilename := written h filename (hv.part (by simp [shownParts]))
    have hspan := written h span (hv.part (by simp [shownParts]))
    simp only [Value.written, hfilename, hspan]
  | .record ref, hv => h.record ref hv
  | .individual ref, hv => h.individual ref hv
  | .absent, _ | .bool _, _ | .int _ _, _ | .text _ _, _ | .level _, _ | .policy _, _
  | .anyType _, _ | .nilType _, _ => rfl

theorem writtenAll (h : objects.ShowAlike hidden forms forms') :
    ∀ vs : List Value, (∀ v ∈ vs, objects.ShowsNo hidden v) →
      Value.writtenAll forms vs = Value.writtenAll forms' vs
  | [], _ => rfl
  | v :: vs, hvs => by
    have hfirst := written h v (hvs v List.mem_cons_self)
    have hrest := writtenAll h vs fun w hw => hvs w (List.mem_cons_of_mem v hw)
    simp only [Value.writtenAll, hfirst, hrest]

end

variable (h : objects.ShowAlike hidden forms forms')
include h

theorem plain {v : Value} (hv : objects.ShowsNo hidden v) : v.plain forms = v.plain forms' := by
  cases v with
  | text stamp s => rfl
  | level level => rfl
  | policy policy => rfl
  | typeError stamp node message kind => rfl
  | individual ref => exact h.said ref hv
  | _ => exact h.written _ hv

theorem ofArguments {vs : List Value} (hvs : ∀ v ∈ vs, objects.ShowsNo hidden v) :
    forms.ofArguments vs = forms'.ofArguments vs := by
  match vs with
  | [] => rfl
  | [v] => exact h.plain (hvs v List.mem_cons_self)
  | _ :: _ :: _ => simp only [Value.Forms.ofArguments, h.writtenAll _ hvs]

theorem ofRaisable (name : String) {vs : List Value} (hvs : ∀ v ∈ vs, objects.ShowsNo hidden v) :
    forms.ofRaisable name vs = forms'.ofRaisable name vs := by
  match vs with
  | [] => rfl
  | [v] => simp only [Value.Forms.ofRaisable, h.written v (hvs v List.mem_cons_self)]
  | _ :: _ :: _ => simp only [Value.Forms.ofRaisable, h.writtenAll _ hvs]

theorem ofPieces {tag : Value} (htag : objects.ShowsNo hidden tag) (pieces : List Piece) :
    forms.ofPieces tag pieces = forms'.ofPieces tag pieces := by
  induction pieces with
  | nil => rfl
  | cons piece pieces ih =>
    cases piece <;> simp only [Value.Forms.ofPieces, ih, h.plain htag, h.written tag htag]

end ShowAlike

mutual

/-- A type is displayed alike if the other values in it are written alike. -/
theorem display_of_alike {other other' : Value → String}
    (hother : ∀ v, objects.ShowsNo hidden v → other v = other' v) :
    ∀ v : Value, objects.ShowsNo hidden v → v.display other = v.display other'
  | .instanceType _ _ [], _ => rfl
  | .instanceType _ _ (arg :: args), hv => by
    have hfirst := display_of_alike hother arg (hv.part (by simp [shownParts]))
    have hrest := displayAll_of_alike hother args fun w hw => hv.part (by simp [shownParts, hw])
    simp only [Value.display, hfirst, hrest]
  | .unionType _ members, hv => by
    have hmembers := displayAll_of_alike hother members fun w hw => hv.part hw
    simp only [Value.display, hmembers]
  | .procType _ params result, hv => by
    have hparams := displayAll_of_alike hother params fun w hw => hv.part (by simp [shownParts, hw])
    have hresult := display_of_alike hother result (hv.part (by simp [shownParts]))
    simp only [Value.display, hparams, hresult]
  | .absent, _ | .anyType _, _ | .nilType _, _ => rfl
  | .bool _, hv | .int _ _, hv | .text _ _, hv | .level _, hv | .policy _, hv | .list _ _, hv
  | .tuple _ _, hv | .typeError _ _ _ _, hv | .location _ _ _, hv | .record _, hv
  | .individual _, hv => by
    simp only [Value.display, hother _ hv]

theorem displayAll_of_alike {other other' : Value → String}
    (hother : ∀ v, objects.ShowsNo hidden v → other v = other' v) :
    ∀ vs : List Value, (∀ v ∈ vs, objects.ShowsNo hidden v) →
      Value.displayAll other vs = Value.displayAll other' vs
  | [], _ => rfl
  | v :: vs, hvs => by
    have hfirst := display_of_alike hother v (hvs v List.mem_cons_self)
    have hrest := displayAll_of_alike hother vs fun w hw => hvs w (List.mem_cons_of_mem v hw)
    simp only [Value.displayAll, hfirst, hrest]

end

/-- What the plain text of a value shows. A type error says only its message. -/
def said : Value → List Value
  | .typeError _ _ _ _ => []
  | v => [v]

/-- What the start of a span shows. -/
def saidOfStart (objects : Objects) (span : Value) : List Value :=
  said (objects.get span "start_line") ++ said (objects.get span "start_column")

theorem get_of_need {v found : Value} {name : String} (hneed : objects.need v name = .ok found) :
    objects.get v name = found := by
  simp only [need] at hneed
  split at hneed
  · next hfound => simpa [get, hfound] using hneed
  · cases hneed

/-! ## Objects that look alike -/

/-- What is not hidden holds the same in both, as far as texts go. -/
structure LookAlike (hidden : Value → Prop) (objects objects' : Objects) : Prop where
  size : objects.attributes.size = objects'.attributes.size
  fields : ∀ ref, ¬ hidden (.record ref) → objects.fields ref = objects'.fields ref
  arguments : ∀ ref, ¬ hidden (.individual ref) → objects.arguments ref = objects'.arguments ref
  tag : ∀ ref, ¬ hidden (.individual ref) →
    objects.get (.individual ref) "tag" = objects'.get (.individual ref) "tag"

namespace LookAlike

variable (h : LookAlike hidden objects objects')
include h

/-- **What shows nothing hidden looks the same**, followed through however many objects. -/
theorem formsTo (depth : Nat) (path : List Nat) :
    objects.ShowAlike hidden (objects.formsTo depth path) (objects'.formsTo depth path) := by
  induction depth generalizing path with
  | zero => exact ⟨fun _ _ => rfl, fun _ _ => rfl, fun _ _ => rfl⟩
  | succ depth ih =>
    -- one object further on: it is not hidden itself, and what it shows is shown alike by `ih`
    refine ⟨fun ref href => ?_, fun ref href => ?_, fun ref href => ?_⟩
    · have hfields := (ih (ref.index :: path)).writtenAll (objects.fields ref) href.fields
      simp only [Objects.formsTo, ← h.fields ref href.self, hfields]
    · obtain ⟨index, kind⟩ := ref
      cases kind with
      | foreign kind =>
        have htext := (ih (index :: path)).ofPieces href.tag kind.written
        simp only [Objects.formsTo, ← h.tag _ href.self, htext]
      | _ =>
        have htext := fun name =>
          (ih (index :: path)).ofRaisable name (href.arguments (by simp))
        simp only [Objects.formsTo, ← h.arguments _ href.self, htext]
    · obtain ⟨index, kind⟩ := ref
      cases kind with
      | foreign kind =>
        have htext := (ih (index :: path)).ofPieces href.tag kind.plain
        simp only [Objects.formsTo, ← h.tag _ href.self, htext]
      | _ =>
        have htext := (ih (index :: path)).ofArguments (href.arguments (by simp))
        simp only [Objects.formsTo, ← h.arguments _ href.self, htext]

theorem forms : objects.ShowAlike hidden objects.forms objects'.forms := by
  rw [Objects.forms, Objects.forms, ← h.size]
  exact h.formsTo _ _

variable {v : Value} (hv : objects.ShowsNo hidden v)
include hv

theorem written : objects.written v = objects'.written v := h.forms.written v hv

theorem plain : objects.plain v = objects'.plain v := h.forms.plain hv

theorem display : objects.display v = objects'.display v :=
  display_of_alike (fun _ => h.forms.written _) v hv

omit hv

theorem plain_of_said (hsaid : ∀ w ∈ said v, objects.ShowsNo hidden w) :
    objects.plain v = objects'.plain v := by
  cases v with
  | typeError stamp node message kind => simp only [Objects.plain, Value.plain]
  | _ => exact h.plain (hsaid _ List.mem_cons_self)

variable {names : List String} (hhide : objects.hide names = objects'.hide names)
include hhide

theorem start_of_said (hn : ∀ name ∈ ["start_line", "start_column"], name ∉ names) {span : Value}
    (hsaid : ∀ w ∈ objects.saidOfStart span, objects.ShowsNo hidden w) :
    objects.start span = objects'.start span := by
  have hline := h.plain_of_said fun w hw => hsaid w (List.mem_append_left _ hw)
  have hcolumn := h.plain_of_said fun w hw => hsaid w (List.mem_append_right _ hw)
  simp only [start, ← need_of_hide hhide (hn "start_line" (by simp)),
    ← need_of_hide hhide (hn "start_column" (by simp))]
  refine bind_congr_of_ok fun line hfound => ?_
  refine bind_congr_of_ok fun column hfound' => ?_
  rw [get_of_need hfound] at hline
  rw [get_of_need hfound'] at hcolumn
  simp only [Span.start, hline, hcolumn]

/-- **A summary is the same**, if the start of the span shows nothing hidden. -/
theorem summary_of_said
    (hn : ∀ name ∈ ["span", "start_line", "start_column", "source", "split"], name ∉ names)
    {node : Value}
    (hsaid : ∀ w ∈ objects.saidOfStart (objects.get node "span"), objects.ShowsNo hidden w) :
    objects.summary node = objects'.summary node := by
  have hspan := get_of_hide hhide (hn "span" (by simp)) node
  have hexcerpt : objects.excerptOf node = objects'.excerptOf node := by
    simp only [excerptOf, get_of_hide hhide (hn "source" (by simp)), operation,
      attribute?_of_hide hhide (hn "split" (by simp))]
  have hstarts : ∀ name ∈ ["start_line", "start_column"], name ∉ names :=
    List.forall_mem_cons.2 ⟨hn _ (by simp), List.forall_mem_singleton.2 (hn _ (by simp))⟩
  have hstart : objects.startOf node = objects'.startOf node := by
    simp only [startOf, ← hspan]
    split
    · rfl
    · exact h.start_of_said hhide hstarts hsaid
  simp only [summary, hstart, hexcerpt]

end LookAlike

/-! ## Objects that differ in what is reported -/

section

variable (h : objects.hide reportingNames = objects'.hide reportingNames)
include h

/-- Only settings say how much is reported. -/
theorem fields_of_hide {ref : RecordRef} (hkind : ref.kind ≠ .settings) :
    objects.fields ref = objects'.fields ref := by
  refine List.map_congr_left fun name hname => get_of_hide h (fun hreporting => hkind ?_) _
  have hsettings : ∀ name ∈ reportingNames, name ∈ RecordKind.settings.fieldNames := by decide
  exact RecordKind.eq_settings_of_field hname (hsettings name hreporting)

/-- Objects that differ in what is reported look alike, settings aside. -/
theorem lookAlike_of_hide :
    LookAlike (fun w => ∃ ref : RecordRef, w = .record ref ∧ ref.kind = .settings) objects
      objects' where
  size := size_of_hide h
  fields ref href := fields_of_hide h fun hkind => href ⟨ref, rfl, hkind⟩
  arguments ref _ := by
    simp only [Objects.arguments, get_of_hide h (show "args" ∉ reportingNames by decide)]
  tag ref _ := get_of_hide h (show "tag" ∉ reportingNames by decide) _

theorem written_of_clear {v : Value} (hv : objects.Clear v) :
    objects.written v = objects'.written v :=
  (lookAlike_of_hide h).written hv

theorem display_of_clear {v : Value} (hv : objects.Clear v) :
    objects.display v = objects'.display v :=
  (lookAlike_of_hide h).display hv

end

end Objects

/-! ## What is put into texts -/

/-- Something that is put into a text, with the objects as they are. -/
inductive Exhibit where
  | value (objects : Objects) (v : Value)
  /-- A node that is shown in one line. -/
  | summary (objects : Objects) (summarizer : Summarizer) (node : Value)

/-- What is put into a text does not tell how much is reported: a value shows no settings, and a
summary, which may look at anything, comes out the same. -/
def Exhibit.Clear : Exhibit → Prop
  | value objects v => objects.Clear v
  | summary objects summarizer node =>
    ∀ objects', objects.hide reportingNames = objects'.hide reportingNames →
      summarizer.summary objects node = summarizer.summary objects' node

namespace Objects

variable {objects objects' : Objects}

/-- What the plain text of a value shows. -/
def told (objects : Objects) (v : Value) : List Exhibit := (said v).map (.value objects)

/-- What the start of a span shows. -/
def toldOfStart (objects : Objects) (span : Value) : List Exhibit :=
  (objects.saidOfStart span).map (.value objects)

/-- What the report of a fault shows: its message with the code, and its place if it names a
file. -/
def toldOfFault (objects : Objects) (ref : FaultRef) : List Exhibit :=
  let location := objects.get ref.value "loc"
  let filename := objects.get location "filename"
  objects.told (objects.get ref.value "message") ++ objects.told (objects.codeOf ref)
    ++ if filename.isTrue then
        objects.told filename ++ objects.toldOfStart (objects.get location "span")
      else []

section

variable (h : objects.hide reportingNames = objects'.hide reportingNames)
include h

theorem plain_of_told {v : Value} (hclear : ∀ e ∈ objects.told v, e.Clear) :
    objects.plain v = objects'.plain v :=
  (lookAlike_of_hide h).plain_of_said fun _ hw => hclear _ (List.mem_map_of_mem hw)

theorem start_of_told {span : Value} (hclear : ∀ e ∈ objects.toldOfStart span, e.Clear) :
    objects.start span = objects'.start span :=
  (lookAlike_of_hide h).start_of_said h (by decide) fun _ hw => hclear _ (List.mem_map_of_mem hw)

theorem asSpan_of_hide (v : Value) : objects.asSpan v = objects'.asSpan v := by
  cases v with
  | absent => rfl
  | _ =>
    simp only [asSpan, need_of_hide h (show "start_line" ∉ reportingNames by decide),
      need_of_hide h (show "start_column" ∉ reportingNames by decide),
      need_of_hide h (show "end_line" ∉ reportingNames by decide),
      need_of_hide h (show "end_column" ∉ reportingNames by decide)]

/-- **The diagnostic of an error** is the same. -/
theorem diagnosticOf_of_told (unit filename : Value) {error : Value}
    (hclear : ∀ e ∈ objects.told error, e.Clear) :
    objects.diagnosticOf unit filename error = objects'.diagnosticOf unit filename error := by
  simp only [diagnosticOf_eq, diagnosticAt, spanOf, nodeOf, plain_of_told h hclear,
    get_of_hide h (show "span" ∉ reportingNames by decide),
    get_of_hide h (show "node" ∉ reportingNames by decide), asSpan_of_hide h]

theorem faultPlace_of_told {ref : FaultRef} (hclear : ∀ e ∈ objects.toldOfFault ref, e.Clear) :
    objects.faultPlace ref = objects'.faultPlace ref := by
  simp only [faultPlace, ← get_of_hide h (show "loc" ∉ reportingNames by decide),
    ← need_of_hide h (show "filename" ∉ reportingNames by decide),
    ← need_of_hide h (show "span" ∉ reportingNames by decide)]
  split
  · rfl
  refine bind_congr_of_ok fun filename hfilename => ?_
  split
  · rfl
  rename_i hnamed
  have hshown : filename.isTrue = true := by simpa using hnamed
  refine bind_congr_of_ok fun span hspan => ?_
  -- only a file that has a name is shown, and the start of the span after it
  have hname : ∀ e ∈ objects.told filename ++ objects.toldOfStart span, e.Clear := by
    intro e he
    refine hclear e (List.mem_append_right _ ?_)
    simpa [get_of_need hfilename, get_of_need hspan, hshown] using he
  have hplain := plain_of_told h fun e he => hname e (List.mem_append_left _ he)
  have hstart := start_of_told h fun e he => hname e (List.mem_append_right _ he)
  simp only [hplain]
  split
  · rfl
  · rw [hstart]

/-- **The report of a fault** is the same. -/
theorem report_of_told {ref : FaultRef} (hclear : ∀ e ∈ objects.toldOfFault ref, e.Clear) :
    objects.report ref = objects'.report ref := by
  have hmessage := plain_of_told h fun e he =>
    hclear e (List.mem_append_left _ (List.mem_append_left _ he))
  have hcode := plain_of_told h fun e he =>
    hclear e (List.mem_append_left _ (List.mem_append_right _ he))
  have hcodeOf : objects.codeOf ref = objects'.codeOf ref := by
    simp only [codeOf, attribute?_of_hide h (show "code" ∉ reportingNames by decide)]
  have hcoded : objects.codedMessage ref = objects'.codedMessage ref := by
    simp only [codedMessage, ← get_of_hide h (show "message" ∉ reportingNames by decide),
      ← hcodeOf, hmessage, hcode]
  simp only [report, operation, attribute?_of_hide h (show "format" ∉ reportingNames by decide),
    hcoded, faultPlace_of_told h hclear]

/-- Where a fault is does not depend on what is reported. -/
theorem locationSpan_of_hide (v : Value) : objects.locationSpan v = objects'.locationSpan v := by
  simp only [locationSpan, need_of_hide h (show "loc" ∉ reportingNames by decide),
    need_of_hide h (show "span" ∉ reportingNames by decide)]

/-- **The diagnostic of a fault** is the same. -/
theorem diagnosticOfFault_of_told (unit filename : Value) {ref : FaultRef}
    (hclear : ∀ e ∈ objects.toldOfFault ref, e.Clear) :
    objects.diagnosticOfFault unit filename ref = objects'.diagnosticOfFault unit filename ref := by
  simp only [diagnosticOfFault, diagnosticOfReport, locationSpan_of_hide h, asSpan_of_hide h,
    report_of_told h hclear]

end

/-- The standard summary is clear if the start of the node's span is. -/
theorem clear_standard {node : Value}
    (hclear : ∀ e ∈ objects.toldOfStart (objects.get node "span"), e.Clear) :
    (Exhibit.summary objects .standard node).Clear := fun _ h =>
  (lookAlike_of_hide h).summary_of_said h (by decide) fun _ hw =>
    hclear _ (List.mem_map_of_mem hw)

end Objects

end TypingStore
