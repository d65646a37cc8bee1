import TypingStore.Proofs.Texts

/-!
# Texts of one line

A text has lines, and its line breaks stand between them. Forms that are put together from others
are on one line when those are, and when what is put between them is. So a written form, in which
every text is quoted, is on one line whatever it is the form of; and a type is displayed on one line
exactly when all that comes from outside is: the names of its classes and the parts that are no
types.

* `Text.lines`, `Text.OneLine`: the lines of a text, and texts of a single one.
* `Text.lines_of_entries`, `Text.length_flatMap_lines`: the lines of entries that each end in a line
  break, and when there are no more of them than entries.
* `Value.oneLine_display_iff`: when a type is displayed on one line.
* `Objects.oneLine_written`: written forms are on one line.
-/

namespace TypingStore

/-! ## Lines -/

namespace Text

/-- The lines of a text: what stands before, between and behind its line breaks. -/
def lines (s : String) : List String := (s.toList.splitOn '\n').map String.ofList

/-- A text without line breaks. -/
def OneLine (s : String) : Prop := '\n' ∉ s.toList

instance (s : String) : Decidable (OneLine s) := inferInstanceAs (Decidable (¬ _))

@[simp] theorem oneLine_append {s t : String} : OneLine (s ++ t) ↔ OneLine s ∧ OneLine t := by
  simp only [OneLine, String.toList_append, List.mem_append, not_or]

/-- A row is on one line when all its items are. -/
theorem oneLine_intercalate {mark : String} (hmark : OneLine mark) {items : List String} :
    OneLine (mark.intercalate items) ↔ ∀ item ∈ items, OneLine item := by
  induction items with
  | nil => simp [OneLine]
  | cons item items ih =>
    cases items with
    | nil => simp
    | cons next items =>
      rw [String.intercalate_cons_cons, oneLine_append, oneLine_append, ih]
      simp [hmark]

theorem lines_of_oneLine {s : String} (hs : OneLine s) : lines s = [s] := by
  rw [lines, List.splitOn_eq_singleton hs, List.map_singleton, String.ofList_toList]

/-- A line break parts the lines before it from those behind it. -/
theorem lines_append_break (s t : String) : lines (s ++ "\n" ++ t) = lines s ++ lines t := by
  have hbreak : (s ++ "\n" ++ t).toList = s.toList ++ '\n' :: t.toList := by simp
  rw [lines, hbreak, List.splitOn_append_cons_self, List.map_append, lines, lines]

theorem length_lines_pos (s : String) : 0 < (lines s).length := by
  rw [lines, List.length_map]
  exact List.length_pos_iff.mpr (List.splitOn_ne_nil _ _)

theorem length_lines_eq_one_iff {s : String} : (lines s).length = 1 ↔ OneLine s := by
  constructor
  · intro hone hbreak
    -- a text with a line break has lines on both sides of it
    obtain ⟨before, behind, hs⟩ := List.append_of_mem hbreak
    have hparts : s = String.ofList before ++ "\n" ++ String.ofList behind := by
      rw [← String.toList_inj, hs]
      simp
    rw [hparts, lines_append_break, List.length_append] at hone
    have hbefore := length_lines_pos (String.ofList before)
    have hbehind := length_lines_pos (String.ofList behind)
    omega
  · intro hs
    rw [lines_of_oneLine hs, List.length_singleton]

/-- **The lines of entries** that each end in a line break are those of each entry in turn. -/
theorem lines_of_entries (entry : String) (entries : List String) :
    lines ("\n".intercalate (entry :: entries) ++ "\n") =
      (entry :: entries).flatMap lines ++ [""] := by
  induction entries generalizing entry with
  | nil =>
    have hlast := lines_append_break entry ""
    rw [String.append_empty, lines_of_oneLine (s := "") (by decide)] at hlast
    rw [String.intercalate_singleton, hlast, List.flatMap_singleton]
  | cons next entries ih =>
    have hparts : "\n".intercalate (entry :: next :: entries) ++ "\n" =
        entry ++ "\n" ++ ("\n".intercalate (next :: entries) ++ "\n") := by
      rw [String.intercalate_cons_cons, String.append_assoc]
    rw [hparts, lines_append_break, ih next, List.flatMap_cons (x := entry), List.append_assoc]

/-- Entries take as many lines as there are exactly when each takes one. -/
theorem length_flatMap_lines (entries : List String) :
    entries.length ≤ (entries.flatMap lines).length ∧
      ((entries.flatMap lines).length = entries.length ↔ ∀ entry ∈ entries, OneLine entry) := by
  induction entries with
  | nil => simp
  | cons entry entries ih =>
    obtain ⟨hle, hiff⟩ := ih
    have hpos := length_lines_pos entry
    rw [List.flatMap_cons, List.length_append, List.length_cons, List.forall_mem_cons, ← hiff,
      ← length_lines_eq_one_iff]
    refine ⟨by omega, ?_⟩
    constructor
    · intro h
      constructor <;> omega
    · rintro ⟨h, h'⟩
      omega

theorem flatMap_lines_of_oneLine {entries : List String} (h : ∀ entry ∈ entries, OneLine entry) :
    entries.flatMap lines = entries := by
  induction entries with
  | nil => rfl
  | cons entry entries ih =>
    obtain ⟨hentry, hentries⟩ := List.forall_mem_cons.mp h
    rw [List.flatMap_cons, lines_of_oneLine hentry, ih hentries, List.singleton_append]

/-! ## Written forms on one line -/

theorem oneLine_int (n : Int) : OneLine (Written.int n) := by
  have hnat (m : Nat) : OneLine m.repr := by
    intro hbreak
    rw [Nat.toList_repr] at hbreak
    exact absurd (Nat.isDigit_of_mem_toDigits (by decide) (by decide) hbreak) (by decide)
  have hrepr : Written.int n = n.repr := rfl
  rw [hrepr, Int.repr_eq_if]
  split
  · exact hnat _
  · exact oneLine_append.mpr ⟨by decide, hnat _⟩

theorem oneLine_sequence {items : List String} (h : ∀ item ∈ items, OneLine item) :
    OneLine (Written.sequence items) := by
  unfold Written.sequence Written.items
  rw [oneLine_append, oneLine_append, oneLine_intercalate (by decide)]
  exact ⟨⟨by decide, h⟩, by decide⟩

theorem oneLine_tuple {items : List String} (h : ∀ item ∈ items, OneLine item) :
    OneLine (Written.tuple items) := by
  unfold Written.tuple
  split
  · rw [oneLine_append, oneLine_append]
    exact ⟨⟨by decide, h _ List.mem_cons_self⟩, by decide⟩
  · rw [Written.items, oneLine_append, oneLine_append, oneLine_intercalate (by decide)]
    exact ⟨⟨by decide, h⟩, by decide⟩

theorem oneLine_record {name : String} (hname : OneLine name) {fields : List (String × String)}
    (h : ∀ field ∈ fields, OneLine field.1 ∧ OneLine field.2) :
    OneLine (Written.record name fields) := by
  unfold Written.record Written.items
  rw [oneLine_append, oneLine_append, oneLine_append, oneLine_intercalate (by decide)]
  refine ⟨⟨⟨hname, by decide⟩, fun item hitem => ?_⟩, by decide⟩
  obtain ⟨field, hfield, rfl⟩ := List.mem_map.mp hitem
  rw [oneLine_append, oneLine_append]
  exact ⟨⟨(h field hfield).1, by decide⟩, (h field hfield).2⟩

theorem oneLine_bool (b : Bool) : OneLine (Written.bool b) := by
  cases b <;> decide

theorem oneLine_level (level : LogLevel) : OneLine level.written := by
  cases level <;> decide

theorem oneLine_policy (policy : VersionPolicy) : OneLine policy.written := by
  cases policy <;> decide

theorem oneLine_plain_policy (policy : VersionPolicy) : OneLine policy.plain := by
  cases policy <;> decide

theorem oneLine_quoted (s : String) : OneLine (quoted s) := newline_not_mem_quoted s

end Text

open Text

namespace Value

/-! ## Displayed types on one line -/

/-- A part of a displayed type that comes from outside: the name of a class, or a value that is no
type. -/
inductive DisplayedPart where
  | className (name : String)
  | notType (v : Value)

/-- The text that stands for a part. -/
def DisplayedPart.text (other : Value → String) : DisplayedPart → String
  | .className name => name
  | .notType v => other v

mutual

/-- The parts of a displayed type that come from outside, from left to right. -/
def displayedParts : Value → List DisplayedPart
  | .absent | .anyType _ | .nilType _ => []
  | .instanceType _ name args => .className name :: displayedPartsAll args
  | .unionType _ members => displayedPartsAll members
  | .procType _ params result => displayedPartsAll params ++ displayedParts result
  | v => [.notType v]

/-- The parts of a list of displayed types. -/
def displayedPartsAll : List Value → List DisplayedPart
  | [] => []
  | v :: vs => displayedParts v ++ displayedPartsAll vs

end

mutual

/-- **A type is displayed on one line** exactly when all that comes from outside is on one line. -/
theorem oneLine_display_iff (other : Value → String) : (v : Value) →
    (OneLine (v.display other) ↔ ∀ part ∈ v.displayedParts, OneLine (part.text other))
  | .absent | .anyType _ | .nilType _ => by
    rw [display, displayedParts]
    exact iff_of_true (by decide) nofun
  | .instanceType _ name [] => by
    rw [display, displayedParts, displayedPartsAll]
    simp [DisplayedPart.text]
  | .instanceType _ name (arg :: args) => by
    have hargs := oneLine_displayAll_iff other (arg :: args)
    rw [display, ← displayAll, displayedParts, List.forall_mem_cons, ← hargs, oneLine_append,
      oneLine_append, oneLine_append, Written.items, oneLine_intercalate (by decide)]
    have hopen : OneLine "[" := by decide
    have hclose : OneLine "]" := by decide
    simp only [hopen, hclose, and_true, DisplayedPart.text]
  | .unionType _ members => by
    rw [display, displayedParts, ← oneLine_displayAll_iff other members,
      oneLine_intercalate (by decide)]
  | .procType _ params result => by
    have hparams := oneLine_displayAll_iff other params
    have hresult := oneLine_display_iff other result
    rw [display, displayedParts, List.forall_mem_append, ← hparams, ← hresult, oneLine_append,
      oneLine_append, oneLine_append, Written.items, oneLine_intercalate (by decide)]
    have hopen : OneLine "^(" := by decide
    have harrow : OneLine ") -> " := by decide
    simp only [hopen, harrow, true_and, and_true]
  | .bool _ | .int _ _ | .text _ _ | .level _ | .policy _ | .list _ _ | .tuple _ _
  | .typeError _ _ _ _ | .location _ _ _ | .record _ | .individual _ => by
    simp [display, displayedParts, DisplayedPart.text]

/-- The same of a list of types. -/
theorem oneLine_displayAll_iff (other : Value → String) : (vs : List Value) →
    ((∀ form ∈ displayAll other vs, OneLine form) ↔
      ∀ part ∈ displayedPartsAll vs, OneLine (part.text other))
  | [] => by
    rw [displayAll, displayedPartsAll]
    exact iff_of_true nofun nofun
  | v :: vs => by
    rw [displayAll, displayedPartsAll, List.forall_mem_cons, List.forall_mem_append,
      oneLine_display_iff other v, oneLine_displayAll_iff other vs]

end

end Value

mutual

/-- What is no type in a displayed type is one of its parts. -/
theorem Objects.ShowsNo.displayed {objects : Objects} {hidden : Value → Prop} :
    {v : Value} → objects.ShowsNo hidden v → {w : Value} → .notType w ∈ v.displayedParts →
      objects.ShowsNo hidden w
  | .instanceType _ name args, hv, w, hw => by
    rw [Value.displayedParts, List.mem_cons] at hw
    exact displayedAll (fun u hu => hv.part hu) (hw.resolve_left nofun)
  | .unionType _ members, hv, w, hw => displayedAll (fun u hu => hv.part hu) hw
  | .procType _ params result, hv, w, hw => by
    rw [Value.displayedParts, List.mem_append] at hw
    rcases hw with hw | hw
    · exact displayedAll (fun u hu => hv.part (by simp [Objects.shownParts, hu])) hw
    · exact displayed (hv.part (by simp [Objects.shownParts])) hw
  | .absent, _, _, hw | .anyType _, _, _, hw | .nilType _, _, _, hw => absurd hw List.not_mem_nil
  | .bool _, hv, w, hw | .int _ _, hv, w, hw | .text _ _, hv, w, hw | .level _, hv, w, hw
  | .policy _, hv, w, hw | .list _ _, hv, w, hw | .tuple _ _, hv, w, hw
  | .typeError _ _ _ _, hv, w, hw | .location _ _ _, hv, w, hw | .record _, hv, w, hw
  | .individual _, hv, w, hw => by
    obtain rfl := Value.DisplayedPart.notType.inj (List.mem_singleton.mp hw)
    exact hv

theorem Objects.ShowsNo.displayedAll {objects : Objects} {hidden : Value → Prop} :
    {vs : List Value} → (∀ v ∈ vs, objects.ShowsNo hidden v) → {w : Value} →
      .notType w ∈ Value.displayedPartsAll vs → objects.ShowsNo hidden w
  | [], _, _, hw => absurd hw List.not_mem_nil
  | v :: vs, hvs, w, hw => by
    obtain ⟨hfirst, hrest⟩ := List.forall_mem_cons.mp hvs
    rw [Value.displayedPartsAll, List.mem_append] at hw
    rcases hw with hw | hw
    · exact displayed hfirst hw
    · exact displayedAll hrest hw

end

/-- What can be raised is written on one line when its arguments are. -/
theorem Value.oneLine_ofRaisable {forms : Value.Forms} {name : String} (hname : OneLine name)
    {vs : List Value} (hvs : ∀ form ∈ Value.writtenAll forms vs, OneLine form) :
    OneLine (forms.ofRaisable name vs) := by
  have hopen : OneLine "(" := by decide
  have hclose : OneLine ")" := by decide
  have htuple : OneLine (name ++ Written.tuple (Value.writtenAll forms vs)) := by
    rw [oneLine_append]
    exact ⟨hname, oneLine_tuple hvs⟩
  match vs with
  | [] => exact htuple
  | [v] =>
    have hv := hvs (v.written forms) List.mem_cons_self
    simp only [Value.Forms.ofRaisable, oneLine_append, hname, hopen, hv, hclose, and_self]
  | v :: w :: vs => exact htuple

theorem RecordKind.oneLine_names (kind : RecordKind) :
    OneLine kind.name ∧ ∀ name ∈ kind.fieldNames, OneLine name := by
  cases kind with
  | node kind => cases kind <;> decide
  | _ => decide

theorem IndividualKind.oneLine_name (kind : IndividualKind) : OneLine kind.name := by
  cases kind with
  | foreign kind => exact kind.oneLine_name
  | exception kind => cases kind <;> decide
  | fault kind => cases kind <;> decide

theorem Value.oneLine_kindName (v : Value) : OneLine v.kindName := by
  cases v with
  | record ref => exact ref.kind.oneLine_names.1
  | individual ref => exact ref.kind.oneLine_name
  | _ =>
    rw [Value.kindName]
    decide

/-! ## Objects written on one line -/

/-- The plain text of a value is on one line if its written form is: what it says has no line
break. -/
def Value.SaidOnOneLine : Value → Prop
  | .text _ s | .typeError _ _ s _ => OneLine s
  | .individual _ => False
  | _ => True

/-- A piece of the text of an object with this tag is on one line if the tag is written on one. -/
def Piece.OnOneLine (tag : Value) : Piece → Prop
  | .words s => OneLine s
  | .tag => tag.SaidOnOneLine
  | .writtenTag => True

theorem Value.oneLine_plain {forms : Value.Forms} {v : Value} (hwritten : OneLine (v.written forms))
    (hsaid : v.SaidOnOneLine) : OneLine (v.plain forms) := by
  cases v with
  | text stamp s => exact hsaid
  | typeError stamp node message kind => exact hsaid
  | level level => exact oneLine_int level.rank
  | policy policy => exact oneLine_plain_policy policy
  | individual ref => exact hsaid.elim
  | _ => exact hwritten

theorem Value.oneLine_ofPieces {forms : Value.Forms} {tag : Value}
    (htag : OneLine (tag.written forms)) {pieces : List Piece}
    (hpieces : ∀ piece ∈ pieces, piece.OnOneLine tag) : OneLine (forms.ofPieces tag pieces) := by
  induction pieces with
  | nil => exact List.not_mem_nil
  | cons piece pieces ih =>
    obtain ⟨hpiece, hrest⟩ := List.forall_mem_cons.mp hpieces
    have hbehind := ih hrest
    cases piece with
    | words s => exact oneLine_append.mpr ⟨hpiece, hbehind⟩
    | tag => exact oneLine_append.mpr ⟨Value.oneLine_plain htag hpiece, hbehind⟩
    | writtenTag => exact oneLine_append.mpr ⟨htag, hbehind⟩

namespace Objects

variable {objects : Objects}

/-- An object of another model whose class or tag puts a line break into its written form. -/
def BreaksLine (objects : Objects) (v : Value) : Prop :=
  ∃ index kind, v = .individual ⟨index, .foreign kind⟩ ∧
    ¬ ∀ piece ∈ kind.written, piece.OnOneLine (objects.get v "tag")

/-- No object of another model puts a line break into the texts of the value. -/
def Unbroken (objects : Objects) (v : Value) : Prop := objects.ShowsNo objects.BreaksLine v

/-- Forms that show on one line what no other model breaks. -/
structure OneLineForms (objects : Objects) (forms : Value.Forms) : Prop where
  record : ∀ ref, objects.Unbroken (.record ref) → OneLine (forms.record ref)
  individual : ∀ ref, objects.Unbroken (.individual ref) → OneLine (forms.individual ref)

namespace OneLineForms

variable {forms : Value.Forms}

mutual

/-- **Written forms are on one line** when those of the objects they refer to are: whatever is a
text is quoted. -/
theorem written (h : objects.OneLineForms forms) :
    (v : Value) → objects.Unbroken v → OneLine (v.written forms)
  | .absent, _ => by rw [Value.written]; decide
  | .bool b, _ => by rw [Value.written]; exact oneLine_bool b
  | .int _ n, _ => by rw [Value.written]; exact oneLine_int n
  | .text _ s, _ => by rw [Value.written]; exact oneLine_quoted s
  | .level l, _ => by rw [Value.written]; exact oneLine_level l
  | .policy p, _ => by rw [Value.written]; exact oneLine_policy p
  | .list _ items, hv => by
    rw [Value.written]
    exact oneLine_sequence (writtenAll h items fun w hw => hv.part hw)
  | .tuple _ items, hv => by
    rw [Value.written]
    exact oneLine_tuple (writtenAll h items fun w hw => hv.part hw)
  | .instanceType _ name args, hv => by
    have hargs := oneLine_tuple (writtenAll h args fun w hw => hv.part hw)
    rw [Value.written]
    refine oneLine_record (by decide) ?_
    simp only [List.forall_mem_cons]
    exact ⟨⟨by decide, oneLine_quoted name⟩, ⟨by decide, hargs⟩, nofun⟩
  | .unionType _ members, hv => by
    have hmembers := oneLine_tuple (writtenAll h members fun w hw => hv.part hw)
    rw [Value.written]
    refine oneLine_record (by decide) ?_
    simp only [List.forall_mem_cons]
    exact ⟨⟨by decide, hmembers⟩, nofun⟩
  | .procType _ params result, hv => by
    have hparams := oneLine_tuple
      (writtenAll h params fun w hw => hv.part (by simp [shownParts, hw]))
    have hresult := written h result (hv.part (by simp [shownParts]))
    rw [Value.written]
    refine oneLine_record (by decide) ?_
    simp only [List.forall_mem_cons]
    exact ⟨⟨by decide, hparams⟩, ⟨by decide, hresult⟩, nofun⟩
  | .anyType _, _ => by rw [Value.written]; decide
  | .nilType _, _ => by rw [Value.written]; decide
  | .typeError _ site message kind, hv => by
    have hsite := written h site (hv.part (by simp [shownParts]))
    rw [Value.written]
    refine oneLine_record (by decide) ?_
    simp only [List.forall_mem_cons]
    exact ⟨⟨by decide, hsite⟩, ⟨by decide, oneLine_quoted message⟩,
      ⟨by decide, oneLine_quoted kind⟩, nofun⟩
  | .location _ filename span, hv => by
    have hfilename := written h filename (hv.part (by simp [shownParts]))
    have hspan := written h span (hv.part (by simp [shownParts]))
    rw [Value.written]
    refine oneLine_record (by decide) ?_
    simp only [List.forall_mem_cons]
    exact ⟨⟨by decide, hfilename⟩, ⟨by decide, hspan⟩, nofun⟩
  | .record ref, hv => by rw [Value.written]; exact h.record ref hv
  | .individual ref, hv => by rw [Value.written]; exact h.individual ref hv

/-- The same of a list of values. -/
theorem writtenAll (h : objects.OneLineForms forms) :
    (vs : List Value) → (∀ v ∈ vs, objects.Unbroken v) →
      ∀ form ∈ Value.writtenAll forms vs, OneLine form
  | [], _ => nofun
  | v :: vs, hvs => by
    obtain ⟨hfirst, hrest⟩ := List.forall_mem_cons.mp hvs
    rw [Value.writtenAll, List.forall_mem_cons]
    exact ⟨written h v hfirst, writtenAll h vs hrest⟩

end

end OneLineForms

/-- Objects are written on one line, however deep they are followed. -/
theorem oneLineForms_formsTo (objects : Objects) (depth : Nat) (path : List Nat) :
    objects.OneLineForms (objects.formsTo depth path) := by
  have hdots : OneLine "..." := by decide
  induction depth generalizing path with
  | zero => exact ⟨fun _ _ => hdots, fun _ _ => hdots⟩
  | succ depth ih =>
    refine ⟨fun ref href => ?_, fun ref href => ?_⟩
    · by_cases hpath : ref.index ∈ path
      · simp only [formsTo, if_pos hpath, hdots]
      · simp only [formsTo, if_neg hpath]
        refine oneLine_record (ref.kind.oneLine_names).1 fun field hfield => ?_
        obtain ⟨hname, hform⟩ := List.of_mem_zip hfield
        have hfields := (ih (ref.index :: path)).writtenAll _ href.fields
        exact ⟨(ref.kind.oneLine_names).2 _ hname, hfields _ hform⟩
    · obtain ⟨index, kind⟩ := ref
      by_cases hpath : index ∈ path
      · simp only [formsTo, if_pos hpath, hdots]
      · simp only [formsTo, if_neg hpath]
        cases kind with
        | foreign kind =>
          -- the words of a class that breaks the line are among what is hidden
          have htag := (ih (index :: path)).written _ href.tag
          exact Value.oneLine_ofPieces htag <| Classical.byContradiction fun hbreak =>
            href.self ⟨index, kind, rfl, hbreak⟩
        | exception kind =>
          exact Value.oneLine_ofRaisable (IndividualKind.exception kind).oneLine_name
            ((ih (index :: path)).writtenAll _ (href.arguments (by simp)))
        | fault kind =>
          exact Value.oneLine_ofRaisable (IndividualKind.fault kind).oneLine_name
            ((ih (index :: path)).writtenAll _ (href.arguments (by simp)))

/-- **Written forms are on one line**, whatever texts they hold. -/
theorem oneLine_written {v : Value} (hv : objects.Unbroken v) : OneLine (objects.written v) :=
  (objects.oneLineForms_formsTo _ []).written v hv

end Objects

end TypingStore
