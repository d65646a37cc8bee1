import TypingStore.Proofs.Embedding
import TypingStore.Reporting

/-!
# Reports among other objects

What is reported of errors and faults does not look at ids either: a diagnostic has the same text
and the same range (`Diagnostic.format_rename`, `Diagnostic.editorRange_rename`), and a value among
other objects gives the same diagnostic, up to ids.

* `Embeds.diagnosticOf`: the diagnostic of an error.
* `Embeds.report`, `Embeds.diagnosticOfFault`: a fault on one line, and its diagnostic.
-/

namespace TypingStore

/-! ## Spans and diagnostics -/

/-- A span under other ids. -/
def Span.rename (ρ : Renaming) (span : Span) : Span where
  startLine := span.startLine.rename ρ
  startColumn := span.startColumn.rename ρ
  endLine := span.endLine.rename ρ
  endColumn := span.endColumn.rename ρ

/-- The coordinates of a span mention only the first `n` objects. -/
structure Span.Within (n : Nat) (span : Span) : Prop where
  startLine : span.startLine.Within n
  startColumn : span.startColumn.Within n
  endLine : span.endLine.Within n
  endColumn : span.endColumn.Within n

/-- What is shown of a value that may be absent. -/
def Value.whenPresent (f : Value → String) : Value → String
  | .absent => ""
  | v => f v

theorem Value.whenPresent_rename {ρ : Renaming} {n : Nat} {f g : Value → String}
    (h : ∀ v : Value, v.Within n → g (v.rename ρ) = f v) {v : Value} (hv : v.Within n) :
    (v.rename ρ).whenPresent g = v.whenPresent f := by
  cases v with
  | absent => rfl
  | _ => exact h _ hv

namespace Diagnostic

/-- A finding under other ids. -/
def rename (ρ : Renaming) (d : Diagnostic) : Diagnostic where
  kind := d.kind.rename ρ
  message := d.message.rename ρ
  unit := d.unit.rename ρ
  filename := d.filename.rename ρ
  line := d.line.rename ρ
  column := d.column.rename ρ
  endLine := d.endLine.rename ρ
  endColumn := d.endColumn.rename ρ

/-- What a finding holds mentions only the first `n` objects. -/
structure Within (n : Nat) (d : Diagnostic) : Prop where
  kind : d.kind.Within n
  message : d.message.Within n
  unit : d.unit.Within n
  filename : d.filename.Within n
  line : d.line.Within n
  column : d.column.Within n
  endLine : d.endLine.Within n
  endColumn : d.endColumn.Within n

variable {ρ : Renaming} {n : Nat}

theorem rename_of (kind message unit filename : Value) (span : Option Span) :
    (of kind message unit filename span).rename ρ =
      of (kind.rename ρ) (message.rename ρ) (unit.rename ρ) (filename.rename ρ)
        (span.map (Span.rename ρ)) := by
  cases span <;> rfl

theorem within_of {kind message unit filename : Value} {span : Option Span}
    (hkind : kind.Within n) (hmessage : message.Within n) (hunit : unit.Within n)
    (hfilename : filename.Within n) (hspan : ∀ s, span = some s → s.Within n) :
    (of kind message unit filename span).Within n := by
  cases span with
  | none => exact ⟨hkind, hmessage, hunit, hfilename, trivial, trivial, trivial, trivial⟩
  | some s =>
    have hs := hspan s rfl
    exact ⟨hkind, hmessage, hunit, hfilename, hs.startLine, hs.startColumn, hs.endLine,
      hs.endColumn⟩

/-- The position of a finding is put together from the parts that are present. -/
theorem position_eq (plain : Value → String) (d : Diagnostic) :
    d.position plain = d.line.whenPresent fun line =>
      ":" ++ plain line ++ d.column.whenPresent (fun column => ":" ++ plain column)
        ++ d.unit.whenPresent (fun unit => "(" ++ plain unit ++ ")") := rfl

theorem place_eq (plain : Value → String) (cwd : String) (d : Diagnostic) :
    d.place plain cwd = d.filename.whenPresent (fun filename =>
      Text.Path.absolute cwd (plain filename)) ++ d.position plain := rfl

/-- **A finding is one line of the same text** under other ids. -/
theorem format_rename {plain plain' : Value → String}
    (h : ∀ v : Value, v.Within n → plain' (v.rename ρ) = plain v) (cwd : String) {d : Diagnostic}
    (hd : d.Within n) : (d.rename ρ).format plain' cwd = d.format plain cwd := by
  have hcolumn := Value.whenPresent_rename (f := fun column => ":" ++ plain column)
    (g := fun column => ":" ++ plain' column) (fun v hv => by rw [h v hv]) hd.column
  have hunit := Value.whenPresent_rename (f := fun unit => "(" ++ plain unit ++ ")")
    (g := fun unit => "(" ++ plain' unit ++ ")") (fun v hv => by rw [h v hv]) hd.unit
  have hposition : (d.rename ρ).position plain' = d.position plain := by
    rw [position_eq, position_eq]
    refine Value.whenPresent_rename (fun v hv => ?_) hd.line
    rw [h v hv, show (d.rename ρ).column = d.column.rename ρ from rfl, hcolumn,
      show (d.rename ρ).unit = d.unit.rename ρ from rfl, hunit]
  have hplace : (d.rename ρ).place plain' cwd = d.place plain cwd := by
    rw [place_eq, place_eq, hposition]
    congr 1
    exact Value.whenPresent_rename (fun v hv => by rw [h v hv]) hd.filename
  have hkind : plain' (d.rename ρ).kind = plain d.kind := h d.kind hd.kind
  have hmessage : plain' (d.rename ρ).message = plain d.message := h d.message hd.message
  simp only [format, hplace, hkind, hmessage]

/-- Without a full position there is no range. -/
theorem editorRange_of_absent {d : Diagnostic} (h : d.line = .absent ∨ d.column = .absent ∨
    d.endLine = .absent ∨ d.endColumn = .absent) : d.editorRange = .ok none := by
  unfold editorRange
  split
  · rfl
  · rfl
  · rfl
  · rfl
  · rename_i hline hcolumn hendLine hendColumn
    exact (h.elim hline (Or.elim · hcolumn (Or.elim · hendLine hendColumn))).elim

/-- The range of a full position. -/
theorem editorRange_of_present {d : Diagnostic} (h : ¬ (d.line = .absent ∨ d.column = .absent ∨
    d.endLine = .absent ∨ d.endColumn = .absent)) :
    d.editorRange = do
      let start := (← d.line.zeroBased, ← d.column.zeroBased)
      let stop := (← d.endLine.zeroBased, ← d.endColumn.zeroBased)
      return some (start, stop) := by
  unfold editorRange
  split
  · rename_i hline
    exact absurd (.inl hline) h
  · rename_i hcolumn _
    exact absurd (.inr (.inl hcolumn)) h
  · rename_i hendLine _ _
    exact absurd (.inr (.inr (.inl hendLine))) h
  · rename_i hendColumn _ _ _
    exact absurd (.inr (.inr (.inr hendColumn))) h
  · rfl

/-- **A finding has the same range** under other ids. -/
theorem editorRange_rename (d : Diagnostic) : (d.rename ρ).editorRange = d.editorRange := by
  have hzero : ∀ v : Value, (v.rename ρ).zeroBased = v.zeroBased := by
    intro v
    simp only [Value.zeroBased, Value.number?_rename, Value.kindName_rename]
  have hpart : ∀ v : Value, v.rename ρ = .absent ↔ v = .absent := Value.rename_eq_absent ρ
  by_cases hposition : d.line = .absent ∨ d.column = .absent ∨ d.endLine = .absent ∨
      d.endColumn = .absent
  · have hposition' : (d.rename ρ).line = .absent ∨ (d.rename ρ).column = .absent ∨
        (d.rename ρ).endLine = .absent ∨ (d.rename ρ).endColumn = .absent := by
      simpa only [rename, hpart] using hposition
    rw [editorRange_of_absent hposition, editorRange_of_absent hposition']
  · have hposition' : ¬ ((d.rename ρ).line = .absent ∨ (d.rename ρ).column = .absent ∨
        (d.rename ρ).endLine = .absent ∨ (d.rename ρ).endColumn = .absent) := by
      simpa only [rename, hpart] using hposition
    rw [editorRange_of_present hposition, editorRange_of_present hposition']
    simp only [rename, hzero]

/-- A finding makes its unit fail under other ids as well. -/
theorem isError_rename (d : Diagnostic) : (d.rename ρ).isError = d.isError := by
  obtain ⟨kind, _⟩ := d
  cases kind <;> rfl

end Diagnostic

/-- Whether a message speaks of a code does not depend on ids. -/
theorem Value.isCoded_rename (ρ : Renaming) (v : Value) : (v.rename ρ).isCoded = v.isCoded := by
  cases v with
  | list stamp items | tuple stamp items =>
    simp only [rename, isCoded, renameAll_eq_map, List.any_map]
    refine congrArg (fun look => Except.ok (items.any look)) (funext fun item => ?_)
    cases item <;> rfl
  | _ => rfl

/-- A computation in two steps that answers has answered in both. -/
theorem exists_of_bind_eq_ok {ε α β : Type} {x : Except ε α} {f : α → Except ε β} {b : β}
    (h : x >>= f = .ok b) : ∃ a, x = .ok a ∧ f a = .ok b := by
  cases x with
  | error e => cases h
  | ok a => exact ⟨a, rfl, h⟩

/-- A computation that answers after a map has answered before it. -/
theorem exists_of_map_eq_ok {ε α β : Type} {x : Except ε α} {f : α → β} {b : β}
    (h : x.map f = .ok b) : ∃ a, x = .ok a ∧ b = f a := by
  cases x with
  | error e => cases h
  | ok a => exact ⟨a, rfl, (Except.ok.inj h).symm⟩

namespace Objects

/-- What is present counts as a span when it has the four coordinates. -/
theorem asSpan_of_ne_absent (objects : Objects) {v : Value} (hv : v ≠ .absent) :
    objects.asSpan v = do
      return some { startLine := ← objects.need v "start_line"
                    startColumn := ← objects.need v "start_column"
                    endLine := ← objects.need v "end_line"
                    endColumn := ← objects.need v "end_column" } := by
  cases v with
  | absent => exact absurd rfl hv
  | _ => rfl

namespace Embeds

variable {ρ : Renaming} {objects objects' : Objects} (h : objects.Embeds ρ objects')
  {v : Value}
include h

/-! ## Errors -/

/-- What counts as a span counts as one under other ids. -/
theorem asSpan (hv : v.Within objects.attributes.size) :
    objects'.asSpan (v.rename ρ) = (objects.asSpan v).map (Option.map (Span.rename ρ)) := by
  by_cases habsent : v = .absent
  · subst habsent
    rfl
  · rw [asSpan_of_ne_absent objects habsent,
      asSpan_of_ne_absent objects' (mt (Value.rename_eq_absent ρ v).1 habsent),
      h.need hv, h.need hv, h.need hv, h.need hv]
    cases objects.need v "start_line" with
    | error failure => simp only [Except.map, bind, Except.bind]
    | ok line =>
      cases objects.need v "start_column" with
      | error failure => simp only [Except.map, bind, Except.bind]
      | ok column =>
        cases objects.need v "end_line" with
        | error failure => simp only [Except.map, bind, Except.bind]
        | ok endLine => cases objects.need v "end_column" <;> rfl

theorem within_asSpan (hv : v.Within objects.attributes.size) {span : Span}
    (hspan : objects.asSpan v = .ok (some span)) : span.Within objects.attributes.size := by
  by_cases habsent : v = .absent
  · subst habsent
    cases hspan
  · rw [asSpan_of_ne_absent objects habsent] at hspan
    obtain ⟨line, hline, hspan⟩ := exists_of_bind_eq_ok hspan
    obtain ⟨column, hcolumn, hspan⟩ := exists_of_bind_eq_ok hspan
    obtain ⟨endLine, hendLine, hspan⟩ := exists_of_bind_eq_ok hspan
    obtain ⟨endColumn, hendColumn, hspan⟩ := exists_of_bind_eq_ok hspan
    cases hspan
    exact ⟨h.within_need hv hline, h.within_need hv hcolumn, h.within_need hv hendLine,
      h.within_need hv hendColumn⟩

/-- **An error is reported alike**, at the same place. -/
theorem diagnosticOf (hv : v.Within objects.attributes.size) (unit filename : Value) :
    objects'.diagnosticOf (unit.rename ρ) (filename.rename ρ) (v.rename ρ) =
      (objects.diagnosticOf unit filename v).map (Diagnostic.rename ρ) := by
  have hnode := h.get hv "node"
  have hspan := h.get (h.within_get hv "node") "span"
  have hasSpan := h.asSpan (h.within_get (h.within_get hv "node") "span")
  simp only [Objects.diagnosticOf_eq, Objects.diagnosticAt, Objects.spanOf, Objects.nodeOf]
  rw [h.plain hv, Value.errorKind_rename, hnode, hspan, hasSpan]
  cases objects.asSpan (objects.get (objects.get v "node") "span") with
  | error failure => simp only [Except.map]
  | ok span => simp only [Except.map, Diagnostic.rename_of, Value.rename_ofText]

theorem within_diagnosticOf (hv : v.Within objects.attributes.size) {unit filename : Value}
    (hunit : unit.Within objects.attributes.size)
    (hfilename : filename.Within objects.attributes.size) {d : Diagnostic}
    (hd : objects.diagnosticOf unit filename v = .ok d) : d.Within objects.attributes.size := by
  simp only [Objects.diagnosticOf_eq, Objects.diagnosticAt, Objects.spanOf, Objects.nodeOf] at hd
  cases hspan : objects.asSpan (objects.get (objects.get v "node") "span") with
  | error failure =>
    rw [hspan] at hd
    cases hd
  | ok span =>
    rw [hspan] at hd
    cases hd
    refine Diagnostic.within_of trivial trivial hunit hfilename ?_
    rintro span rfl
    exact h.within_asSpan (h.within_get (h.within_get hv "node") "span") hspan

/-! ## Faults -/

variable {ref : FaultRef}

theorem codedMessage (href : ref.index < objects.attributes.size) :
    objects'.codedMessage (ref.rename ρ) = objects.codedMessage ref := by
  have hvalue : (ref.rename ρ).value = ref.value.rename ρ := rfl
  have hself : ref.value.Within objects.attributes.size := href
  have hcode : (objects'.codeOf (ref.rename ρ)) = (objects.codeOf ref).rename ρ := by
    unfold Objects.codeOf
    rw [hvalue, h.attribute? hself]
    cases objects.attribute? ref.value "code" with
    | none => exact (Value.rename_ofText ρ _).symm
    | some code => rfl
  have hcodeWithin : (objects.codeOf ref).Within objects.attributes.size := by
    unfold Objects.codeOf
    cases hfound : objects.attribute? ref.value "code" with
    | none => trivial
    | some code => exact h.within_attribute? hself hfound
  unfold Objects.codedMessage
  rw [hvalue, h.get hself, hcode]
  simp only [Value.isCoded_rename, h.plain (h.within_get hself "message"), h.plain hcodeWithin]

theorem faultPlace (href : ref.index < objects.attributes.size) :
    objects'.faultPlace (ref.rename ρ) = objects.faultPlace ref := by
  have hvalue : (ref.rename ρ).value = ref.value.rename ρ := rfl
  have hself : ref.value.Within objects.attributes.size := href
  have hlocation := h.within_get hself "loc"
  unfold Objects.faultPlace
  rw [hvalue, h.get hself]
  generalize objects.get ref.value "loc" = location at hlocation
  simp only [Value.isTrue_rename]
  split
  · rfl
  · rw [h.need hlocation, h.need hlocation]
    cases hfilename : objects.need location "filename" with
    | error failure => simp only [Except.map, bind, Except.bind]
    | ok filename =>
      have hplain := h.plain (h.within_need hlocation hfilename)
      cases hspan : objects.need location "span" with
      | error failure =>
        simp only [Except.map, bind, Except.bind, Value.isTrue_rename]
      | ok span =>
        have hstart := h.start (h.within_need hlocation hspan)
        simp only [Except.map, bind, Except.bind, Value.isTrue_rename, hplain]
        split
        · rfl
        · cases span with
          | absent => simp only [Value.rename]
          | _ =>
            simp only [Value.rename] at hstart ⊢
            rw [hstart]

/-- **A fault is reported alike.** -/
theorem report (href : ref.index < objects.attributes.size) :
    objects'.report (ref.rename ρ) = objects.report ref := by
  have hself : ref.value.Within objects.attributes.size := href
  unfold Objects.report
  exact h.operation hself "format" (by rw [h.codedMessage href, h.faultPlace href])

theorem locationSpan (hv : v.Within objects.attributes.size) :
    objects'.locationSpan (v.rename ρ) = (objects.locationSpan v).map (Value.rename ρ) ∧
      ∀ w, objects.locationSpan v = .ok w → w.Within objects.attributes.size := by
  unfold Objects.locationSpan
  rw [h.need hv]
  cases hlocation : objects.need v "loc" with
  | error failure =>
    refine ⟨by simp only [Except.map, bind, Except.bind], fun w hw => ?_⟩
    cases hw
  | ok location =>
    have hwithin := h.within_need hv hlocation
    have hspan := h.need hwithin "span"
    have hspanWithin : ∀ w, objects.need location "span" = .ok w →
        w.Within objects.attributes.size := fun w hw => h.within_need hwithin hw
    cases location with
    | absent => exact ⟨rfl, fun w hw => by cases hw; trivial⟩
    | _ => exact ⟨hspan, hspanWithin⟩

theorem locationFile (href : ref.index < objects.attributes.size) :
    objects'.locationFile (ref.rename ρ) = (objects.locationFile ref).map (Value.rename ρ) := by
  have hvalue : (ref.rename ρ).value = ref.value.rename ρ := rfl
  have hself : ref.value.Within objects.attributes.size := href
  have hlocation := h.within_get hself "loc"
  unfold Objects.locationFile
  rw [hvalue, h.get hself]
  generalize objects.get ref.value "loc" = location at hlocation
  cases location with
  | absent => rfl
  | _ => exact h.need hlocation "filename"

/-- **The diagnostic of a fault is the same**, at the same place. -/
theorem diagnosticOfFault (href : ref.index < objects.attributes.size) (unit filename : Value) :
    objects'.diagnosticOfFault (unit.rename ρ) (filename.rename ρ) (ref.rename ρ) =
      (objects.diagnosticOfFault unit filename ref).map (Diagnostic.rename ρ) := by
  have hself : ref.value.Within objects.attributes.size := href
  obtain ⟨hspan, hwithin⟩ := h.locationSpan hself
  have hvalue : (ref.rename ρ).value = ref.value.rename ρ := rfl
  unfold Objects.diagnosticOfFault Objects.diagnosticOfReport
  rw [hvalue, hspan, h.report href]
  cases hlocation : objects.locationSpan ref.value with
  | error failure => simp only [Except.map, bind, Except.bind]
  | ok location =>
    have hasSpan := h.asSpan (hwithin location hlocation)
    simp only [Except.map, bind, Except.bind, hasSpan]
    cases objects.asSpan location with
    | error failure => rfl
    | ok span =>
      cases objects.report ref with
      | error failure => rfl
      | ok message =>
        simp only [pure, Except.pure, Diagnostic.rename_of, Value.rename_ofText]

theorem within_diagnosticOfFault (href : ref.index < objects.attributes.size)
    {unit filename : Value} (hunit : unit.Within objects.attributes.size)
    (hfilename : filename.Within objects.attributes.size) {d : Diagnostic}
    (hd : objects.diagnosticOfFault unit filename ref = .ok d) :
    d.Within objects.attributes.size := by
  have hself : ref.value.Within objects.attributes.size := href
  unfold Objects.diagnosticOfFault Objects.diagnosticOfReport at hd
  obtain ⟨location, hlocation, hd⟩ := exists_of_bind_eq_ok hd
  obtain ⟨span, hspan, hd⟩ := exists_of_bind_eq_ok hd
  obtain ⟨message, -, hd⟩ := exists_of_bind_eq_ok hd
  cases hd
  refine Diagnostic.within_of trivial trivial hunit hfilename ?_
  rintro span rfl
  exact h.within_asSpan ((h.locationSpan hself).2 location hlocation) hspan

end Embeds

end Objects

end TypingStore
