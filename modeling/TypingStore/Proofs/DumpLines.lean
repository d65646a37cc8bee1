import Mathlib.Data.List.Forall2
import TypingStore.Proofs.EmbeddedReports
import TypingStore.Proofs.ErrorEntries
import TypingStore.Proofs.OneLine

/-!
# The lines of a dump

A dump is meant to show each typing and each error on a line of its own. The summaries see to it: of
a source text only the first line is shown. Nothing sees to it for the rest of an entry. So an entry
takes one line exactly when its rest does: the start of the node, the names of the classes in the
type, the written forms of what is no type, and what the error says (`Store.OneLineEach`). Of these,
numbers and written forms have no line breaks; a name or a message may.

* `Objects.oneLine_summary_iff`: a summary is on one line when its start is.
* `Store.oneLine_typingEntry_iff`, `Store.oneLine_errorEntry_iff`: when an entry is on one line.
* `Store.lines_of_dump`: a dump holds the lines of its entries, in order, between the headings.
* `Store.dump_lines`: when every entry is one line.
-/

namespace TypingStore

open Text

/-! ## Entries in a row -/

/-- Computations in a row that all answer, answer one for one. -/
theorem forall₂_of_mapM_eq_ok {ε α β : Type} {f : α → Except ε β} {as : List α} {bs : List β}
    (h : as.mapM f = .ok bs) : List.Forall₂ (fun a b => f a = .ok b) as bs := by
  induction as generalizing bs with
  | nil =>
    cases h
    exact .nil
  | cons a as ih =>
    rw [List.mapM_cons] at h
    obtain ⟨b, hb, h⟩ := exists_of_bind_eq_ok h
    obtain ⟨bs', hbs', h⟩ := exists_of_bind_eq_ok h
    cases h
    exact .cons hb (ih hbs')

/-- What is asked of each answer can be asked of what was computed from. -/
theorem forall_mem_iff_of_forall₂ {α β : Type} {R : α → β → Prop} {P : α → Prop} {Q : β → Prop}
    (hiff : ∀ a b, R a b → (Q b ↔ P a)) {as : List α} {bs : List β} (h : List.Forall₂ R as bs) :
    (∀ b ∈ bs, Q b) ↔ ∀ a ∈ as, P a := by
  induction h with
  | nil => exact iff_of_true nofun nofun
  | cons hab _ ih => rw [List.forall_mem_cons, List.forall_mem_cons, hiff _ _ hab, ih]

namespace Objects

variable {objects : Objects} {v : Value}

/-! ## Summaries on one line -/

/-- The start of a value, if it can be told, is told on one line. -/
def StartsOnOneLine (objects : Objects) (v : Value) : Prop :=
  ∀ start, objects.startOf v = .ok start → OneLine start

/-- A number is shown on one line. -/
theorem oneLine_plain_of_number {n : Int} (hv : v.number? = some n) :
    OneLine (objects.plain v) := by
  unfold plain
  cases v with
  | bool b => exact oneLine_bool b
  | int _ n => exact oneLine_int n
  | level l => exact oneLine_int l.rank
  | _ => cases hv

/-- A span of numbers starts on one line, and so does what has no span. -/
theorem Placed.startsOnOneLine (h : objects.Placed v) : objects.StartsOnOneLine v := by
  intro start hstart
  rcases h.startOf with ⟨-, hnone⟩ | ⟨span, _, _, _, _, -, hnumbers, hsome⟩
  · obtain rfl := Except.ok.inj (hnone.symm.trans hstart)
    decide
  · obtain rfl := Except.ok.inj (hsome.symm.trans hstart)
    rw [Span.start, oneLine_append, oneLine_append]
    exact ⟨⟨oneLine_plain_of_number hnumbers.startLine, by decide⟩,
      oneLine_plain_of_number hnumbers.startColumn⟩

/-- **Of a source only the first line is shown**, and nothing but its name of a kind. -/
theorem oneLine_of_excerptOf {excerpt : String} (hexcerpt : objects.excerptOf v = .ok excerpt) :
    OneLine excerpt := by
  simp only [excerptOf] at hexcerpt
  split at hexcerpt
  · split at hexcerpt
    · obtain rfl := Except.ok.inj hexcerpt
      intro hbreak
      rw [String.toList_ofList] at hbreak
      exact absurd (List.all_eq_true.mp List.all_takeWhile _ hbreak) (by decide)
    · unfold operation at hexcerpt
      split at hexcerpt <;> cases hexcerpt
  · obtain rfl := Except.ok.inj hexcerpt
    exact v.oneLine_kindName

/-- A summary is on one line exactly when its start is. -/
theorem oneLine_summary_iff {summary : String} (hsummary : objects.summary v = .ok summary) :
    OneLine summary ↔ objects.StartsOnOneLine v := by
  unfold Objects.summary at hsummary
  obtain ⟨start, hstart, hsummary⟩ := exists_of_bind_eq_ok hsummary
  obtain ⟨excerpt, hexcerpt, hsummary⟩ := exists_of_bind_eq_ok hsummary
  obtain rfl := Except.ok.inj hsummary
  have hmark : OneLine ":" := by decide
  rw [oneLine_append, oneLine_append]
  constructor
  · rintro ⟨⟨hone, -⟩, -⟩ start' hstart'
    obtain rfl := Except.ok.inj (hstart.symm.trans hstart')
    exact hone
  · intro hone
    exact ⟨⟨hone start hstart, hmark⟩, oneLine_of_excerptOf hexcerpt⟩

end Objects

namespace Store

variable {s : Store} {c : ContextId}

/-! ## Entries on one line -/

/-- The entry of a typing is on one line exactly when the start of the node is, and all that comes
from outside in the displayed type. -/
theorem oneLine_typingEntry_iff {typing : Value × Value} {entry : String}
    (hentry : s.typingEntry .standard typing = .ok entry) :
    OneLine entry ↔ s.objects.StartsOnOneLine typing.1 ∧
      ∀ part ∈ typing.2.displayedParts, OneLine (part.text s.objects.written) := by
  unfold typingEntry at hentry
  obtain ⟨summary, hsummary, hentry⟩ := exists_of_bind_eq_ok hentry
  obtain rfl := Except.ok.inj hentry
  have hindent : OneLine "  " := by decide
  have harrow : OneLine " => " := by decide
  rw [oneLine_append, oneLine_append, oneLine_append, Objects.oneLine_summary_iff hsummary,
    Objects.display, Value.oneLine_display_iff]
  simp only [hindent, harrow, true_and, and_true]

/-- The entry of an error is on one line exactly when the start of its node is, and what the error
says. -/
theorem oneLine_errorEntry_iff {error : Value} {entry : String}
    (hentry : s.errorEntry .standard error = .ok entry) :
    OneLine entry ↔ s.objects.StartsOnOneLine (s.objects.nodeOf error) ∧
      OneLine (s.objects.plain error) := by
  have hindent : OneLine "  " := by decide
  have harrow : OneLine " => " := by decide
  simp only [errorEntry] at hentry
  split at hentry
  · -- without a node the entry starts with question marks, as if at a node without a span
    rename_i habsent
    have hnone : OneLine "?:?" := by decide
    have hstarts : s.objects.StartsOnOneLine .absent := fun start hstart => by
      obtain rfl : "?:?" = start := Except.ok.inj hstart
      exact hnone
    obtain rfl := Except.ok.inj hentry
    rw [habsent, oneLine_append, oneLine_append, oneLine_append]
    simp only [hindent, hnone, harrow, hstarts, true_and]
  · obtain ⟨summary, hsummary, hentry⟩ := exists_of_bind_eq_ok hentry
    obtain rfl := Except.ok.inj hentry
    rw [oneLine_append, oneLine_append, oneLine_append, Objects.oneLine_summary_iff hsummary]
    simp only [hindent, harrow, true_and, and_true]

/-! ## The whole dump -/

/-- Nothing that a dump shows of its entries has a line break. -/
structure OneLineEach (s : Store) (c : ContextId) : Prop where
  typings : ∀ typing ∈ s.typings c, s.objects.StartsOnOneLine typing.1 ∧
    ∀ part ∈ typing.2.displayedParts, OneLine (part.text s.objects.written)
  errors : ∀ error ∈ (s.context c).errors,
    s.objects.StartsOnOneLine (s.objects.nodeOf error) ∧ OneLine (s.objects.plain error)

/-- **The lines of a dump** are the headings and, below each, the lines of its entries in order. -/
theorem lines_of_dump (hstandard : (s.context c).summarizer = .standard) {text : String}
    (hdump : s.dump c = .ok text) :
    ∃ typings errors : List String,
      List.Forall₂ (fun typing entry => s.typingEntry .standard typing = .ok entry) (s.typings c)
        typings ∧
      List.Forall₂ (fun error entry => s.errorEntry .standard error = .ok entry)
        (s.context c).errors errors ∧
      lines text =
        "Typing:" :: typings.flatMap lines ++ "Errors:" :: errors.flatMap lines ++ [""] := by
  unfold dump at hdump
  obtain ⟨typings, htypings, hdump⟩ := exists_of_bind_eq_ok hdump
  obtain ⟨errors, herrors, hdump⟩ := exists_of_bind_eq_ok hdump
  obtain rfl := Except.ok.inj hdump
  rw [hstandard] at htypings herrors
  refine ⟨typings, errors, forall₂_of_mapM_eq_ok htypings, forall₂_of_mapM_eq_ok herrors, ?_⟩
  have htyping : lines "Typing:" = ["Typing:"] := lines_of_oneLine (by decide)
  have herror : lines "Errors:" = ["Errors:"] := lines_of_oneLine (by decide)
  rw [List.cons_append, lines_of_entries, List.flatMap_cons, List.flatMap_append,
    List.flatMap_cons, htyping, herror]
  simp

/-- Nothing has a line break exactly when no entry has one. -/
theorem oneLineEach_iff {typings errors : List String}
    (htypings : List.Forall₂ (fun typing entry => s.typingEntry .standard typing = .ok entry)
      (s.typings c) typings)
    (herrors : List.Forall₂ (fun error entry => s.errorEntry .standard error = .ok entry)
      (s.context c).errors errors) :
    s.OneLineEach c ↔
      (∀ entry ∈ typings, OneLine entry) ∧ ∀ entry ∈ errors, OneLine entry := by
  have htyping := forall_mem_iff_of_forall₂ (Q := OneLine)
    (fun _ _ hentry => oneLine_typingEntry_iff hentry) htypings
  have herror := forall_mem_iff_of_forall₂ (Q := OneLine)
    (fun _ _ hentry => oneLine_errorEntry_iff hentry) herrors
  rw [htyping, herror]
  exact ⟨fun hone => ⟨hone.typings, hone.errors⟩, fun hone => ⟨hone.1, hone.2⟩⟩

/-- Where nodes can be read and objects of other models are written on one line, it is the class
names and the messages that may have line breaks, and nothing else. -/
theorem oneLineEach_iff_of_placed (htypings : ∀ typing ∈ s.typings c, s.objects.Placed typing.1)
    (herrors : ∀ error ∈ (s.context c).errors, s.objects.Placed (s.objects.nodeOf error))
    (hunbroken : ∀ typing ∈ s.typings c, s.objects.Unbroken typing.2) :
    s.OneLineEach c ↔
      (∀ typing ∈ s.typings c, ∀ name, .className name ∈ typing.2.displayedParts → OneLine name) ∧
        ∀ error ∈ (s.context c).errors, OneLine (s.objects.plain error) := by
  constructor
  · intro hone
    exact ⟨fun typing hmem name hname => (hone.typings typing hmem).2 _ hname,
      fun error hmem => (hone.errors error hmem).2⟩
  · rintro ⟨hnames, hmessages⟩
    refine ⟨fun typing hmem => ⟨(htypings typing hmem).startsOnOneLine, fun part hpart => ?_⟩,
      fun error hmem => ⟨(herrors error hmem).startsOnOneLine, hmessages error hmem⟩⟩
    cases part with
    | className name => exact hnames typing hmem name hpart
    | notType v =>
      exact Objects.oneLine_written ((hunbroken typing hmem).displayed hpart)

/-- A context in which all nodes can be read has a dump. -/
theorem exists_dump (hstandard : (s.context c).summarizer = .standard)
    (htypings : ∀ typing ∈ s.typings c, s.objects.Placed typing.1)
    (herrors : ∀ error ∈ (s.context c).errors, s.objects.Placed (s.objects.nodeOf error)) :
    ∃ text, s.dump c = .ok text := by
  obtain ⟨typings, htyped, -⟩ := exists_mapM_eq_ok fun typing hmem =>
    exists_typingEntry (htypings typing hmem)
  obtain ⟨entries, hentered, -⟩ :=
    exists_mapM_eq_ok (f := s.errorEntry .standard) fun error hmem => by
      obtain ⟨entry, -, h, -⟩ := tells_of_placed (herrors error hmem) .absent .absent
      exact ⟨entry, h⟩
  refine ⟨"\n".intercalate ("Typing:" :: typings ++ "Errors:" :: entries) ++ "\n", ?_⟩
  simp only [dump, hstandard, htyped, hentered]
  rfl

/-- **The lines of a dump.** What a dump in the standard way returns ends in a line break, and its
lines are the headings and the lines of all entries, the typings in the order of their nodes, then
the errors in the order in which they were found. There is at least a line for each entry. It is no
more than that, and each entry is its own line, exactly when nothing that is shown of an entry has a
line break. Where nodes can be read and objects of other models are written on one line, there is a
dump, and what may have line breaks are the names of classes and what errors say. -/
theorem dump_lines (s : Store) (c : ContextId)
    (hstandard : (s.context c).summarizer = .standard) :
    (∀ text, s.dump c = .ok text → ∃ typings errors : List String,
      List.Forall₂ (fun typing entry => s.typingEntry .standard typing = .ok entry) (s.typings c)
        typings ∧
      List.Forall₂ (fun error entry => s.errorEntry .standard error = .ok entry)
        (s.context c).errors errors ∧
      lines text =
        "Typing:" :: typings.flatMap lines ++ "Errors:" :: errors.flatMap lines ++ [""] ∧
      2 + (s.typings c).length + (s.context c).errors.length < (lines text).length ∧
      ((lines text).length = 2 + (s.typings c).length + (s.context c).errors.length + 1 ↔
        s.OneLineEach c) ∧
      (s.OneLineEach c → lines text = "Typing:" :: typings ++ "Errors:" :: errors ++ [""])) ∧
    ((∀ typing ∈ s.typings c, s.objects.Placed typing.1) →
      (∀ error ∈ (s.context c).errors, s.objects.Placed (s.objects.nodeOf error)) →
      (∀ typing ∈ s.typings c, s.objects.Unbroken typing.2) →
      (∃ text, s.dump c = .ok text) ∧
      (s.OneLineEach c ↔
        (∀ typing ∈ s.typings c, ∀ name, .className name ∈ typing.2.displayedParts → OneLine name) ∧
          ∀ error ∈ (s.context c).errors, OneLine (s.objects.plain error))) := by
  constructor
  · intro text hdump
    obtain ⟨typings, errors, htypings, herrors, hlines⟩ := lines_of_dump hstandard hdump
    have hone := oneLineEach_iff htypings herrors
    have hlength : (lines text).length =
        2 + (typings.flatMap lines).length + (errors.flatMap lines).length + 1 := by
      rw [hlines]
      simp only [List.length_append, List.length_cons, List.length_nil]
      omega
    obtain ⟨htle, htiff⟩ := length_flatMap_lines typings
    obtain ⟨hele, heiff⟩ := length_flatMap_lines errors
    rw [htypings.length_eq, herrors.length_eq]
    refine ⟨typings, errors, htypings, herrors, hlines, by omega, ?_, ?_⟩
    · rw [hone, ← htiff, ← heiff, hlength]
      constructor
      · intro h
        constructor <;> omega
      · rintro ⟨h, h'⟩
        omega
    · intro heach
      obtain ⟨htyping, herror⟩ := hone.mp heach
      rw [hlines, flatMap_lines_of_oneLine htyping, flatMap_lines_of_oneLine herror]
  · intro htypings herrors hunbroken
    exact ⟨exists_dump hstandard htypings herrors,
      oneLineEach_iff_of_placed htypings herrors hunbroken⟩

/-- A root with an error whose message has a line break. -/
def brokenMessage : Store :=
  let (settings, objects) := ({} : Objects).newSettings
  { objects := objects
    contexts := #[{
      parent := none, settings := settings, summarizer := .standard
      errors := [.typeError ⟨1⟩ .absent "a\nb" "error"] }] }

/-- The message takes two lines, so there is one line more than there should be. -/
theorem dump_brokenMessage :
    let s := brokenMessage
    let text := "Typing:\nErrors:\n  ?:? => a\nb\n"
    (s.context ⟨0⟩).summarizer = .standard ∧ s.dump ⟨0⟩ = .ok text ∧
      lines text = ["Typing:", "Errors:", "  ?:? => a", "b", ""] ∧
      (s.typings ⟨0⟩).length = 0 ∧ (s.context ⟨0⟩).errors.length = 1 ∧
      s.objects.Placed (s.objects.nodeOf (.typeError ⟨1⟩ .absent "a\nb" "error")) ∧
      ¬ s.OneLineEach ⟨0⟩ ∧
      (lines text).length ≠ 2 + (s.typings ⟨0⟩).length + (s.context ⟨0⟩).errors.length + 1 := by
  intro s text
  have hdump : s.dump ⟨0⟩ = .ok text := rfl
  have hplaced : s.objects.Placed (s.objects.nodeOf (.typeError ⟨1⟩ .absent "a\nb" "error")) :=
    ⟨.inl rfl, .inl rfl⟩
  obtain ⟨hlines, hnames⟩ := dump_lines s ⟨0⟩ rfl
  obtain ⟨-, -, -, -, -, -, hlength, -⟩ := hlines text hdump
  obtain ⟨-, hiff⟩ := hnames nofun
    (fun error hmem => List.mem_singleton.mp hmem ▸ hplaced) nofun
  have hbroken : ¬ s.OneLineEach ⟨0⟩ := by
    intro hone
    exact absurd ((hiff.mp hone).2 _ List.mem_cons_self) (by decide)
  exact ⟨rfl, hdump, by decide, rfl, rfl, hplaced, hbroken,
    fun hlines => hbroken (hlength.mp hlines)⟩

end Store

end TypingStore
