import TypingStore.Proofs.EmbeddedStores
import TypingStore.Proofs.Reports

/-!
# Which unit a diagnostic speaks of

Every diagnostic of a check knows the unit that was checked. Its one-line form tells the unit only
after a line number, so **a diagnostic without a line does not name its unit**, unless the path of
the file happens to (`Diagnostic.names_lead_iff`): such findings in two units look the same
(`Diagnostic.format_unit_iff`). A diagnostic has no line when the error is at no node, or at a node
without a span, and when the fault that ended the unit has no span.

* `Text.Names`: the unit stands in a text, in parentheses.
* `Diagnostic.lead`: what stands in front of the kind and the message.
* `Checker.Walk.Finds`: the errors in the root and the fault that ended the unit, with their spans.
* `Checker.check_attributed`: what every diagnostic of a check tells of its unit.
-/

namespace TypingStore

/-- The unit stands in the text, in parentheses. -/
def Text.Names (unit text : String) : Prop := ("(" ++ unit ++ ")").toList <:+: text.toList

/-- What ends in a letter does not reach into a text without this letter. -/
theorem infix_append_iff_of_not_mem {α : Type} {l a b : List α} {x : α} (hx : x ∉ b) :
    l ++ [x] <:+: a ++ b ↔ l ++ [x] <:+: a := by
  constructor
  · rintro ⟨front, back, hsplit⟩
    rcases List.append_eq_append_iff.1 hsplit with ⟨rest, ha, -⟩ | ⟨rest, hends, hb⟩
    · exact ⟨front, rest, ha.symm⟩
    · -- what reaches into `b` ends in `x`, so it reaches nowhere
      rcases List.eq_nil_or_concat rest with rfl | ⟨init, last, rfl⟩
      · rw [List.append_nil] at hends
        exact ⟨front, [], by rw [hends, List.append_nil]⟩
      · rw [← List.append_assoc, List.concat_eq_append, ← List.append_assoc] at hends
        obtain ⟨-, hlast⟩ := List.append_inj' hends rfl
        obtain rfl : x = last := List.head_eq_of_cons_eq hlast
        exact absurd (by rw [hb]; simp) hx
  · exact fun h => h.trans (List.prefix_append a b).isInfix

theorem Text.names_append_iff {unit text rest : String} (hrest : ')' ∉ rest.toList) :
    Names unit (text ++ rest) ↔ Names unit text := by
  have hlast : ("(" ++ unit ++ ")").toList = ("(" ++ unit).toList ++ [')'] := String.toList_append
  have htext : (text ++ rest).toList = text.toList ++ rest.toList := String.toList_append
  rw [Names, Names, hlast, htext]
  exact infix_append_iff_of_not_mem hrest

/-- The empty text names no unit. -/
theorem Text.not_names_empty (unit : String) : ¬ Names unit "" := by
  intro h
  have hnil : ("(" ++ unit ++ ")").toList = [] := List.infix_nil.1 h
  simp at hnil

@[simp]
theorem Objects.plain_ofText (objects : Objects) (s : String) : objects.plain (.ofText s) = s := rfl

theorem Value.whenPresent_of_ne_absent (f : Value → String) {v : Value} (hv : v ≠ .absent) :
    v.whenPresent f = f v := by
  cases v with
  | absent => exact absurd rfl hv
  | _ => rfl

namespace Diagnostic

variable {plain : Value → String} {cwd : String} {d : Diagnostic}

/-- What stands in front of the kind and the message. -/
def lead (plain : Value → String) (cwd : String) (d : Diagnostic) : String :=
  if d.place plain cwd = "" then "" else d.place plain cwd ++ ": "

/-- The file of a finding, as it is shown. -/
def shownFile (plain : Value → String) (cwd : String) (d : Diagnostic) : String :=
  d.filename.whenPresent fun filename => Text.Path.absolute cwd (plain filename)

theorem format_eq_lead (plain : Value → String) (cwd : String) (d : Diagnostic) :
    d.format plain cwd = d.lead plain cwd ++ plain d.kind ++ ": " ++ plain d.message := rfl

/-- Without a line the file is all that is shown of the place. -/
theorem place_of_no_line (hline : d.line = .absent) :
    d.place plain cwd = d.shownFile plain cwd := by
  rw [place_eq, position_eq, hline]
  exact String.append_empty

/-- After a line the unit ends the place. -/
theorem exists_place_of_line (plain : Value → String) (cwd : String) (hline : d.line ≠ .absent) :
    ∃ front, ∀ unit : Value, unit ≠ .absent →
      ({ d with unit := unit } : Diagnostic).place plain cwd =
        front ++ "(" ++ plain unit ++ ")" := by
  refine ⟨d.shownFile plain cwd ++ (":" ++ plain d.line ++
    d.column.whenPresent fun column => ":" ++ plain column), fun unit hunit => ?_⟩
  rw [place_eq, position_eq]
  simp only [Value.whenPresent_of_ne_absent _ hline, Value.whenPresent_of_ne_absent _ hunit,
    String.append_assoc, shownFile]

/-- **When a finding names its unit** in front of its kind and message: when it has a line, or when
its file happens to have the name in its path. -/
theorem names_lead_iff (plain : Value → String) (cwd : String) (hunit : d.unit ≠ .absent) :
    Text.Names (plain d.unit) (d.lead plain cwd) ↔
      d.line ≠ .absent ∨ Text.Names (plain d.unit) (d.shownFile plain cwd) := by
  have hcolon : ')' ∉ (": ").toList := by decide
  -- what follows the place has no parenthesis to end the name with
  have hlead : Text.Names (plain d.unit) (d.lead plain cwd) ↔
      Text.Names (plain d.unit) (d.place plain cwd) := by
    rw [lead]
    split
    · rename_i hempty
      rw [hempty]
    · exact Text.names_append_iff hcolon
  rw [hlead]
  by_cases hline : d.line = .absent
  · rw [place_of_no_line hline]
    simp [hline]
  · obtain ⟨front, hfront⟩ := exists_place_of_line plain cwd hline
    have hplace : d.place plain cwd = front ++ ("(" ++ plain d.unit ++ ")") := by
      rw [← String.append_assoc, ← String.append_assoc]
      exact hfront d.unit hunit
    have hnames : Text.Names (plain d.unit) (d.place plain cwd) := by
      rw [Text.Names, hplace, String.toList_append (s := front)]
      exact (List.suffix_append _ _).isInfix
    simp [hline, hnames]

/-- **When the one-line form tells two units apart**: when there is a line. -/
theorem format_unit_iff (plain : Value → String) (cwd : String) {unit : Value}
    (hunit : d.unit ≠ .absent) (hother : unit ≠ .absent)
    (hdiffer : plain unit ≠ plain d.unit) :
    ({ d with unit := unit } : Diagnostic).format plain cwd = d.format plain cwd ↔
      d.line = .absent := by
  constructor
  · intro hsame
    refine Classical.byContradiction fun hline => ?_
    obtain ⟨front, hfront⟩ := exists_place_of_line plain cwd hline
    have hlead : ∀ v : Value, v ≠ .absent → ({ d with unit := v } : Diagnostic).lead plain cwd =
        front ++ "(" ++ plain v ++ ")" ++ ": " := by
      intro v hv
      rw [lead, hfront v hv, if_neg (by simp)]
    rw [format_eq_lead, format_eq_lead, hlead unit hother] at hsame
    have hself : d.lead plain cwd = front ++ "(" ++ plain d.unit ++ ")" ++ ": " :=
      hlead d.unit hunit
    rw [hself] at hsame
    simp only [String.append_left_inj, String.append_right_inj] at hsame
    exact hdiffer hsame
  · intro hline
    have hplace : ({ d with unit := unit } : Diagnostic).place plain cwd = d.place plain cwd := by
      rw [place_of_no_line hline]
      exact place_of_no_line hline
    rw [format_eq_lead, format_eq_lead, lead, lead, hplace]

end Diagnostic

namespace Checker

variable {σ : Type}

/-- The findings of a walk, by kind, message and span: the errors in the root, and the fault that
ended the unit. -/
inductive Walk.Finds (w : Walk) : Value → Value → Option Span → Prop
  | error {error : Value} {span : Option Span} (hlogged : error ∈ (w.store.context w.root).errors)
      (hspan : w.store.objects.spanOf (w.store.objects.nodeOf error) = .ok span) :
      Finds w (.ofText error.errorKind) (.ofText (w.store.objects.plain error)) span
  | fault {fault : FaultRef} {place : Value} {span : Option Span} {message : String}
      (hend : w.result = .error (.fault fault))
      (hplace : w.store.objects.locationSpan fault.value = .ok place)
      (hspan : w.store.objects.asSpan place = .ok span)
      (hreport : w.store.objects.report fault = .ok message) :
      Finds w (.ofText "internal") (.ofText message) span

/-- What is reported of a walk are findings of it, in the unit and its file. -/
theorem Walk.finds_of_reported {w : Walk} {unit : CheckUnit σ} {fault : Option FaultRef}
    {diagnostics : List Diagnostic} (hreported : w.reported unit = .ok (fault, diagnostics)) :
    ∀ d ∈ diagnostics, ∃ kind message span, w.Finds kind message span ∧
      d = .of kind message (.ofText unit.name) (.ofText? unit.filename) span := by
  have herrors : ∀ ds, w.errors unit = .ok ds → ∀ d ∈ ds, ∃ kind message span,
      w.Finds kind message span ∧
        d = .of kind message (.ofText unit.name) (.ofText? unit.filename) span := by
    intro ds hds
    refine forall_of_mapM_eq_ok (fun error hlogged d hd => ?_) hds
    rw [Objects.diagnosticOf_eq] at hd
    obtain ⟨span, hspan, rfl⟩ := exists_of_map_eq_ok hd
    exact ⟨_, _, span, .error hlogged hspan, rfl⟩
  rw [Walk.reported] at hreported
  cases hend : w.result with
  | ok u =>
    rw [hend] at hreported
    obtain ⟨ds, hds, heq⟩ := exists_of_map_eq_ok hreported
    cases heq
    exact herrors _ hds
  | error failure =>
    cases failure with
    | fault met =>
      rw [hend] at hreported
      obtain ⟨internal, hinternal, heq⟩ := exists_of_map_eq_ok hreported
      cases heq
      obtain ⟨place, span, message, hplace, hspan, hreport, hd⟩ :=
        Objects.diagnosticOfReport_eq_ok.1 hinternal
      intro d hmem
      rw [List.mem_singleton.1 hmem]
      exact ⟨_, _, span, .fault hend hplace hspan hreport, hd⟩
    | _ => rw [hend] at hreported; cases hreported

/-- **What every diagnostic of a check tells of its unit.** It is a finding of the walk, and holds
the unit and its file. In front of kind and message its one-line form names the unit exactly when
the finding has a line, unless the path of the file has the name in it; and the form with another
unit in its place is the same exactly when there is no line. -/
theorem check_attributed (checker : Checker) (unit : CheckUnit σ) (state : σ × Store)
    {result : UnitResult} (hresult : (checker.check unit state).1 = .ok result) :
    ∀ d ∈ result.diagnostics, ∃ kind message span,
      (checker.walk unit state).Finds kind message span ∧
      d = .of kind message (.ofText unit.name) (.ofText? unit.filename) span ∧
      ∀ (objects : Objects) (cwd : String),
        d.format objects.plain cwd =
          d.lead objects.plain cwd ++ objects.plain kind ++ ": " ++ objects.plain message ∧
        (Text.Names unit.name (d.lead objects.plain cwd) ↔
          (span.getD {}).startLine ≠ .absent ∨
            ∃ file, unit.filename = some file ∧
              Text.Names unit.name (Text.Path.absolute cwd file)) ∧
        ∀ other, other ≠ unit.name →
          (({ d with unit := .ofText other } : Diagnostic).format objects.plain cwd =
              d.format objects.plain cwd ↔
            (span.getD {}).startLine = .absent) := by
  have hreported : (checker.walk unit state).reported unit =
      .ok (result.fault, result.diagnostics) := by
    rw [← checker.map_check unit state, hresult]
    rfl
  intro d hd
  obtain ⟨kind, message, span, hfinds, hof⟩ := Walk.finds_of_reported hreported d hd
  have hkind : d.kind = kind := by rw [hof]; rfl
  have hmessage : d.message = message := by rw [hof]; rfl
  have hunit : d.unit = .ofText unit.name := by rw [hof]; rfl
  have hfilename : d.filename = .ofText? unit.filename := by rw [hof]; rfl
  have hline : d.line = (span.getD {}).startLine := by rw [hof]; rfl
  have hpresent : d.unit ≠ .absent := by rw [hunit]; nofun
  refine ⟨kind, message, span, hfinds, hof, fun objects cwd => ⟨?_, ?_, ?_⟩⟩
  · rw [Diagnostic.format_eq_lead, hkind, hmessage]
  · have hnamed := Diagnostic.names_lead_iff objects.plain cwd hpresent
    rw [hunit, Objects.plain_ofText] at hnamed
    rw [hnamed, hline, Diagnostic.shownFile, hfilename]
    -- without a file nothing is shown of it, and nothing names no unit
    cases unit.filename with
    | none => simp [Value.ofText?, Value.whenPresent, Text.not_names_empty]
    | some file =>
      have hfile : Value.ofText? (some file) ≠ .absent := nofun
      rw [Value.whenPresent_of_ne_absent _ hfile, Value.ofText?, Objects.plain_ofText]
      simp
  · intro other hother
    have hdiffer : objects.plain (.ofText other) ≠ objects.plain d.unit := by
      rw [hunit, Objects.plain_ofText, Objects.plain_ofText]
      exact hother
    have hother' : Value.ofText other ≠ .absent := nofun
    rw [Diagnostic.format_unit_iff objects.plain cwd hpresent hother' hdiffer, hline]

/-- An engine that blames no node for an error. -/
def blaming : Engine Unit := fun root (own, s) =>
  (.ok (), own, s.addError root (.typeError ⟨2⟩ .absent "bad" "error"))

/-- What is shown of an error at no node does not name its unit, and is the same in another unit. -/
theorem check_of_errorAtNoNode :
    let checker : Checker := { settings := ⟨0⟩ }
    let state := ((), { objects := ({} : Objects).newSettings.2 : Store })
    ∃ result d, (checker.check ⟨"u", blaming, none⟩ state).1 = .ok result ∧
      d ∈ result.diagnostics ∧ ∀ (objects : Objects) (cwd : String),
        d.format objects.plain cwd = "error: bad" ∧
        ¬ Text.Names "u" (d.lead objects.plain cwd) ∧
        ({ d with unit := .ofText "v" } : Diagnostic).format objects.plain cwd = "error: bad" := by
  intro checker state
  let d : Diagnostic := .of (.ofText "error") (.ofText "bad") (.ofText "u") .absent none
  have hresult : (checker.check ⟨"u", blaming, none⟩ state).1 =
      .ok { unit := "u", settings := ⟨0⟩, root := some ⟨0⟩, diagnostics := [d] } := rfl
  obtain ⟨kind, message, span, -, hof, hforms⟩ :=
    check_attributed checker ⟨"u", blaming, none⟩ state hresult d (List.mem_singleton_self d)
  have hline : (span.getD {}).startLine = .absent := (congrArg Diagnostic.line hof).symm
  refine ⟨_, d, hresult, List.mem_singleton_self d, fun objects cwd => ?_⟩
  obtain ⟨-, hnames, hunits⟩ := hforms objects cwd
  have hformat : d.format objects.plain cwd = "error: bad" := rfl
  refine ⟨hformat, fun hnamed => ?_, ((hunits "v" (by decide)).2 hline).trans hformat⟩
  rcases hnames.1 hnamed with hpresent | ⟨file, hfile, -⟩
  · exact hpresent hline
  · cases hfile

end Checker

end TypingStore
