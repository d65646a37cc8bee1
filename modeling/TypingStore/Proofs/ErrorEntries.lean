import TypingStore.Proofs.Reports

/-!
# Dumps and diagnostics tell the same of errors

Two readers go over the errors of a context: a dump, which summarizes the node of each error
(`Store.errorEntry`), and a report, which makes a diagnostic at the node
(`Objects.diagnosticOf`). They agree in number, order, text and place
(`Store.dump_tells_diagnostics`), whatever the errors are, as long as what is noted of their nodes
about the source can be read (`Objects.Placed`).

* `Placed.startOf`, `Placed.excerptOf`: how a node that can be read is summarized.
* `Store.tells_of_placed`: for one error, the entry and the diagnostic tell the same.
-/

namespace TypingStore

/-- Computations in a row that all answer, answer in a row. -/
theorem exists_mapM_eq_ok {ε α β : Type} {f : α → Except ε β} {l : List α}
    (h : ∀ a ∈ l, ∃ b, f a = .ok b) :
    ∃ bs, l.mapM f = .ok bs ∧ bs.length = l.length ∧
      ∀ (i : Nat) a, l[i]? = some a → ∃ b, bs[i]? = some b ∧ f a = .ok b := by
  induction l with
  | nil => exact ⟨[], rfl, rfl, fun i a ha => by simp at ha⟩
  | cons a l ih =>
    obtain ⟨b, hb⟩ := h a List.mem_cons_self
    obtain ⟨bs, hbs, hlen, hall⟩ := ih fun x hx => h x (List.mem_cons_of_mem _ hx)
    refine ⟨b :: bs, ?_, by rw [List.length_cons, List.length_cons, hlen], ?_⟩
    · rw [List.mapM_cons, hb, hbs]
      rfl
    · intro i x hx
      cases i with
      | zero =>
        obtain rfl : a = x := Option.some.inj hx
        exact ⟨b, rfl, hb⟩
      | succ i => exact hall i x hx

/-- A span whose coordinates are these numbers. -/
structure Span.Numbered (span : Span) (line column endLine endColumn : Int) : Prop where
  startLine : span.startLine.number? = some line
  startColumn : span.startColumn.number? = some column
  endLine : span.endLine.number? = some endLine
  endColumn : span.endColumn.number? = some endColumn

/-- A number is not absent. -/
theorem Value.ne_absent_of_number {v : Value} {n : Int} (h : v.number? = some n) :
    v ≠ .absent := by
  rintro rfl
  cases h

/-- **A finding at a span of numbers** has the range of these numbers, counted from zero. -/
theorem Diagnostic.editorRange_of_numbered {span : Span} {line column endLine endColumn : Int}
    (h : span.Numbered line column endLine endColumn) (kind message unit filename : Value) :
    (Diagnostic.of kind message unit filename (some span)).editorRange =
      .ok (some ((line - 1, column - 1), (endLine - 1, endColumn - 1))) := by
  obtain ⟨hl, hc, hel, hec⟩ := h
  have hzero : ∀ {v : Value} {n : Int}, v.number? = some n → v.zeroBased = .ok (n - 1) := by
    intro v n hv
    simp only [Value.zeroBased, hv]
  -- no coordinate is absent, so the range is worked out from all four
  have hl' := Value.ne_absent_of_number hl
  have hc' := Value.ne_absent_of_number hc
  have hel' := Value.ne_absent_of_number hel
  have hec' := Value.ne_absent_of_number hec
  simp only [Diagnostic.of, Option.getD_some, editorRange, hzero hl, hzero hc, hzero hel, hzero hec]
  rfl

namespace Objects

/-- What is noted of a value about the source can be read: it has no span or one of four numbers,
and no source or one that is a text. -/
structure Placed (objects : Objects) (v : Value) : Prop where
  span : objects.get v "span" = .absent ∨ ∃ span line column endLine endColumn,
    objects.asSpan (objects.get v "span") = .ok (some span) ∧
      span.Numbered line column endLine endColumn
  source : objects.get v "source" = .absent ∨
    ∃ stamp s, objects.get v "source" = .text stamp s

/-- The entry of a dump and the diagnostic tell the same of an error. The entry is a summary and the
message of the diagnostic. The summary starts where the diagnostic is, and the range of the
diagnostic is the span of the node, counted from zero; without a span, neither is anywhere. -/
def Tells (objects : Objects) (error : Value) (entry : String) (d : Diagnostic) : Prop :=
  ∃ start rest message, entry = "  " ++ (start ++ rest) ++ " => " ++ message ∧
    d.message = .ofText message ∧
    ((d.line = .absent ∧ objects.get (objects.nodeOf error) "span" = .absent ∧ start = "?:?" ∧
        d.editorRange = .ok none) ∨
      ∃ span line column endLine endColumn, d.line ≠ .absent ∧
        objects.asSpan (objects.get (objects.nodeOf error) "span") = .ok (some span) ∧
        span.Numbered line column endLine endColumn ∧
        start = objects.plain d.line ++ ":" ++ objects.plain d.column ∧
        d.editorRange = .ok (some ((line - 1, column - 1), (endLine - 1, endColumn - 1))))

namespace Placed

variable {objects : Objects} {v error : Value}

/-- The start of a node that can be read. -/
theorem startOf (h : objects.Placed v) :
    (objects.get v "span" = .absent ∧ objects.startOf v = .ok "?:?") ∨
      ∃ span line column endLine endColumn,
        objects.asSpan (objects.get v "span") = .ok (some span) ∧
        span.Numbered line column endLine endColumn ∧
        objects.startOf v = .ok (span.start objects.plain) := by
  rcases h.span with habsent | ⟨span, line, column, endLine, endColumn, hspan, hnumbers⟩
  · refine .inl ⟨habsent, ?_⟩
    simp only [Objects.startOf, habsent]
  · refine .inr ⟨span, line, column, endLine, endColumn, hspan, hnumbers, ?_⟩
    have hstart := start_of_asSpan hspan
    simp only [Objects.startOf]
    cases hv : objects.get v "span" with
    | absent =>
      rw [hv] at hspan
      cases hspan
    | _ =>
      rw [hv] at hstart
      exact hstart

/-- A source that is a text, or none, has a first line or is replaced. -/
theorem excerptOf (h : objects.Placed v) : ∃ excerpt, objects.excerptOf v = .ok excerpt := by
  rcases h.source with habsent | ⟨stamp, s, hs⟩
  · exact ⟨v.kindName, by simp [Objects.excerptOf, habsent, Value.isTrue]⟩
  · by_cases htrue : (Value.text stamp s).isTrue = true
    · refine ⟨String.ofList (s.toList.takeWhile (· ≠ '\n')), ?_⟩
      simp only [Objects.excerptOf, hs, htrue, if_true]
    · refine ⟨v.kindName, ?_⟩
      simp only [Objects.excerptOf, hs, htrue]
      rfl

/-- A node that can be read is summarized from its start on. -/
theorem summary (h : objects.Placed v) {start : String} (hstart : objects.startOf v = .ok start) :
    ∃ rest, objects.summary v = .ok (start ++ rest) := by
  obtain ⟨excerpt, hexcerpt⟩ := h.excerptOf
  refine ⟨":" ++ excerpt, ?_⟩
  simp only [Objects.summary, hstart, hexcerpt, bind, Except.bind, pure, Except.pure,
    String.append_assoc]

end Placed
end Objects

namespace Store

variable {s : Store} {error : Value}

/-- The entry of an error starts where its node does. Without a node it starts nowhere, as a node
without a span does. -/
theorem errorEntry_of_placed (h : s.objects.Placed (s.objects.nodeOf error)) {start : String}
    (hstart : s.objects.startOf (s.objects.nodeOf error) = .ok start) :
    ∃ rest, s.errorEntry .standard error =
      .ok ("  " ++ (start ++ rest) ++ " => " ++ s.objects.plain error) := by
  cases hnode : s.objects.nodeOf error with
  | absent =>
    rw [hnode] at hstart
    obtain rfl : "?:?" = start := Except.ok.inj hstart
    refine ⟨"", ?_⟩
    simp only [errorEntry, hnode, String.append_empty]
    rfl
  | _ =>
    obtain ⟨rest, hrest⟩ := h.summary hstart
    rw [hnode] at hrest
    refine ⟨rest, ?_⟩
    simp only [errorEntry, hnode, Summarizer.standard, hrest]
    rfl

/-- **Of one error**, the entry and the diagnostic tell the same. -/
theorem tells_of_placed (h : s.objects.Placed (s.objects.nodeOf error)) (unit filename : Value) :
    ∃ entry d, s.errorEntry .standard error = .ok entry ∧
      s.objects.diagnosticOf unit filename error = .ok d ∧ s.objects.Tells error entry d := by
  rcases h.startOf with ⟨habsent, hstart⟩ | ⟨span, l, c, el, ec, hspan, hnumbers, hstart⟩
  · obtain ⟨rest, hentry⟩ := errorEntry_of_placed h hstart
    have hd : s.objects.diagnosticOf unit filename error = .ok (.of (.ofText error.errorKind)
        (.ofText (s.objects.plain error)) unit filename none) := by
      simp only [Objects.diagnosticOf_eq, Objects.diagnosticAt, Objects.spanOf, habsent]
      rfl
    exact ⟨_, _, hentry, hd, "?:?", rest, _, rfl, rfl, .inl ⟨rfl, habsent, rfl, rfl⟩⟩
  · obtain ⟨rest, hentry⟩ := errorEntry_of_placed h hstart
    have hd : s.objects.diagnosticOf unit filename error = .ok (.of (.ofText error.errorKind)
        (.ofText (s.objects.plain error)) unit filename (some span)) := by
      simp only [Objects.diagnosticOf_eq, Objects.diagnosticAt, Objects.spanOf, hspan]
      rfl
    have hline : span.startLine ≠ .absent := Value.ne_absent_of_number hnumbers.startLine
    have hrange := Diagnostic.editorRange_of_numbered hnumbers (.ofText error.errorKind)
      (.ofText (s.objects.plain error)) unit filename
    exact ⟨_, _, hentry, hd, _, rest, _, rfl, rfl,
      .inr ⟨span, l, c, el, ec, hline, hspan, hnumbers, rfl, hrange⟩⟩

/-- A typing whose node can be read has an entry. -/
theorem exists_typingEntry {typing : Value × Value} (h : s.objects.Placed typing.1) :
    ∃ entry, s.typingEntry .standard typing = .ok entry := by
  obtain ⟨start, hstart⟩ : ∃ start, s.objects.startOf typing.1 = .ok start := by
    rcases h.startOf with ⟨-, hstart⟩ | ⟨_, _, _, _, _, -, -, hstart⟩
    · exact ⟨_, hstart⟩
    · exact ⟨_, hstart⟩
  obtain ⟨rest, hrest⟩ := h.summary hstart
  refine ⟨"  " ++ (start ++ rest) ++ " => " ++ s.objects.display typing.2, ?_⟩
  simp only [typingEntry, Summarizer.standard, hrest]
  rfl

/-- **Dumps and diagnostics tell the same of the errors in a context** that is summarized in the
standard way. Each error has one entry in the dump and one diagnostic, in the same order, and the
two tell the same. -/
theorem dump_tells_diagnostics (s : Store) (c : ContextId) (unit filename : Value)
    (hstandard : (s.context c).summarizer = .standard)
    (htypings : ∀ typing ∈ s.typings c, s.objects.Placed typing.1)
    (herrors : ∀ error ∈ (s.context c).errors, s.objects.Placed (s.objects.nodeOf error)) :
    ∃ typings entries diagnostics,
      s.dump c = .ok ("\n".intercalate ("Typing:" :: typings ++ "Errors:" :: entries) ++ "\n") ∧
      s.diagnostics c unit filename = .ok diagnostics ∧
      typings.length = (s.typings c).length ∧ entries.length = diagnostics.length ∧
      diagnostics.length = (s.context c).errors.length ∧
      ∀ (i : Nat) error, (s.context c).errors[i]? = some error →
        ∃ entry d, entries[i]? = some entry ∧ diagnostics[i]? = some d ∧
          s.objects.Tells error entry d := by
  have htold : ∀ error ∈ (s.context c).errors, ∃ entry d,
      s.errorEntry .standard error = .ok entry ∧
        s.objects.diagnosticOf unit filename error = .ok d ∧ s.objects.Tells error entry d :=
    fun error hmem => tells_of_placed (herrors error hmem) unit filename
  obtain ⟨typings, htyped, hntypings, -⟩ := exists_mapM_eq_ok fun typing hmem =>
    exists_typingEntry (htypings typing hmem)
  obtain ⟨entries, hentered, hnentries, hentry⟩ :=
    exists_mapM_eq_ok (f := s.errorEntry .standard) fun error hmem => by
      obtain ⟨entry, -, h, -⟩ := htold error hmem
      exact ⟨entry, h⟩
  obtain ⟨diagnostics, hreported, hndiagnostics, hdiagnostic⟩ :=
    exists_mapM_eq_ok (f := s.objects.diagnosticOf unit filename) fun error hmem => by
      obtain ⟨-, d, -, h, -⟩ := htold error hmem
      exact ⟨d, h⟩
  refine ⟨typings, entries, diagnostics, ?_, hreported, hntypings,
    hnentries.trans hndiagnostics.symm, hndiagnostics, ?_⟩
  · simp only [dump, hstandard, htyped, hentered]
    rfl
  · intro i error hi
    obtain ⟨entry, hgot, he⟩ := hentry i error hi
    obtain ⟨d, hgot', hd⟩ := hdiagnostic i error hi
    -- what was read in the two rows is what is told of the error
    obtain ⟨entry', d', he', hd', htells⟩ := htold error (List.mem_of_getElem? hi)
    obtain rfl : entry = entry' := Except.ok.inj (he.symm.trans he')
    obtain rfl : d = d' := Except.ok.inj (hd.symm.trans hd')
    exact ⟨entry, d, hgot, hgot', htells⟩

/-- A root with a typed node, an error at that node, and an object of another model for an error. -/
def twoErrors : Store :=
  let (settings, objects) := ({} : Objects).newSettings
  let (span, objects) := objects.newSpan ⟨.int ⟨1⟩ 3, .int ⟨2⟩ 4, .int ⟨3⟩ 3, .int ⟨4⟩ 9⟩
  let (node, objects) := objects.newNode .variableUse [.ofText "x"] (.record span) (.ofText "x\n")
  let (foreign, objects) := objects.newIndividual .foreign [("tag", .ofText "late")]
  { objects := objects
    contexts := #[{
      parent := none, settings := settings, summarizer := .standard
      nodeTypes := ⟨[(⟨.record node⟩, .nilType ⟨5⟩)]⟩
      errors := [.typeError ⟨6⟩ (.record node) "bad" "warning", .individual foreign] }] }

/-- Both errors are told alike: the first at its node, the second nowhere. -/
theorem twoErrors_told :
    let s := twoErrors
    (s.context ⟨0⟩).summarizer = .standard ∧
      (∀ typing ∈ s.typings ⟨0⟩, s.objects.Placed typing.1) ∧
      (∀ error ∈ (s.context ⟨0⟩).errors, s.objects.Placed (s.objects.nodeOf error)) ∧
      s.dump ⟨0⟩ = .ok
        "Typing:\n  3:4:x => nil\nErrors:\n  3:4:x => bad\n  ?:? => foreign: late\n" ∧
      ∃ (entries : List String) (diagnostics : List Diagnostic),
        s.diagnostics ⟨0⟩ .absent .absent = .ok diagnostics ∧
        entries.length = 2 ∧
        ∀ (i : Nat) error, (s.context ⟨0⟩).errors[i]? = some error →
          ∃ entry d, entries[i]? = some entry ∧ diagnostics[i]? = some d ∧
            s.objects.Tells error entry d := by
  intro s
  have hnode : s.objects.Placed (.record ⟨2, .node .variableUse⟩) := by
    refine ⟨.inr ⟨⟨.int ⟨1⟩ 3, .int ⟨2⟩ 4, .int ⟨3⟩ 3, .int ⟨4⟩ 9⟩, 3, 4, 3, 9, rfl, ?_⟩,
      .inr ⟨⟨0⟩, "x\n", rfl⟩⟩
    exact ⟨rfl, rfl, rfl, rfl⟩
  have htypings : ∀ typing ∈ s.typings ⟨0⟩, s.objects.Placed typing.1 := by
    intro typing hmem
    obtain rfl := List.mem_singleton.1 hmem
    exact hnode
  have herrors : ∀ error ∈ (s.context ⟨0⟩).errors, s.objects.Placed (s.objects.nodeOf error) := by
    intro error hmem
    rcases List.mem_cons.1 hmem with rfl | hmem
    · exact hnode
    · obtain rfl := List.mem_singleton.1 hmem
      exact ⟨.inl rfl, .inl rfl⟩
  obtain ⟨typings, entries, diagnostics, -, hreported, -, hn, hn', htold⟩ :=
    dump_tells_diagnostics s ⟨0⟩ .absent .absent rfl htypings herrors
  exact ⟨rfl, htypings, herrors, rfl, entries, diagnostics, hreported, hn.trans hn', htold⟩

end Store

end TypingStore
