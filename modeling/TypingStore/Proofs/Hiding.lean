import TypingStore.Fault
import TypingStore.Objects.Assignment
import TypingStore.Store.Dump

/-!
# Hiding attributes

Two stores may differ in some attributes of their objects and be alike otherwise. To say
so, the attributes are hidden in both (`Objects.hide`), and what is left is compared.

* `attribute?_hide`: every other attribute is read as before.
* `set_of_hide`, `add_of_hide`, `newFault_of_hide`: what looks alike when it is hidden goes on to
  look alike when both are changed in the same way.
* `ending`: how a computation ends, apart from words.
* `Summarizer.Steady`: a way to summarize that ends alike whatever is hidden; `ending_dump`: so
  does a dump that summarizes this way.
-/

namespace TypingStore

/-- An attribute of this name, hidden if the name is among `names`. -/
def veil (names : List String) (name : String) (v : Value) : Value :=
  if name ∈ names then .absent else v

/-- The bindings with the values under `names` hidden. -/
def Bindings.hide (names : List String) (b : Bindings String Value) : Bindings String Value :=
  ⟨b.entries.map fun e => (e.1, veil names e.1 e.2)⟩

/-- The objects with the attributes of these names hidden. -/
def Objects.hide (names : List String) (objects : Objects) : Objects :=
  { objects with attributes := objects.attributes.map (Bindings.hide names) }

section

variable {names : List String}

/-- Values that are changed under their names are read back changed. -/
theorem Bindings.get?_map (f : String → Value → Value) (b : Bindings String Value) (name : String) :
    Bindings.get? ⟨b.entries.map fun e => (e.1, f e.1 e.2)⟩ name = (b.get? name).map (f name) := by
  obtain ⟨l⟩ := b
  simp only [get?]
  induction l with
  | nil => rfl
  | cons e l ih =>
    rw [List.map_cons, List.find?_cons, List.find?_cons]
    by_cases he : e.1 = name
    · simp [he]
    · have he' : (e.1 == name) = false := by simpa using he
      simp only [he']; exact ih

theorem Bindings.get?_hide (b : Bindings String Value) (name : String) :
    (b.hide names).get? name = (b.get? name).map (veil names name) :=
  b.get?_map (veil names) name

theorem Bindings.hide_insert (b : Bindings String Value) (name : String) (v : Value) :
    (b.insert name v).hide names = (b.hide names).insert name (veil names name v) := by
  obtain ⟨l⟩ := b
  simp only [hide, insert, mk.injEq]
  induction l with
  | nil => rfl
  | cons e l ih =>
    by_cases he : e.1 = name
    · simp [put, he]
    · simp [put, he, ih]

namespace Objects

variable {objects : Objects}

theorem size_hide : (objects.hide names).attributes.size = objects.attributes.size := by
  simp [hide]

theorem attributesAt_hide (i : Nat) :
    (objects.hide names).attributesAt i = (objects.attributesAt i).hide names := by
  simp only [attributesAt, hide, Array.getD_eq_getD_getElem?, Array.getElem?_map]
  cases objects.attributes[i]? <;> rfl

/-- **What is not hidden is read as before.** -/
theorem attribute?_hide {name : String} (hn : name ∉ names) (v : Value) :
    (objects.hide names).attribute? v name = objects.attribute? v name := by
  have hveil : ∀ o : Option Value, o.map (veil names name) = o := by
    intro o; cases o <;> simp [veil, hn]
  cases v <;> simp only [attribute?, attributesAt_hide, Bindings.get?_hide, hveil]

/-- Hiding an attribute does not take it away. -/
theorem isSome_attribute?_hide (v : Value) (name : String) :
    ((objects.hide names).attribute? v name).isSome = (objects.attribute? v name).isSome := by
  cases v <;> simp only [attribute?, attributesAt_hide, Bindings.get?_hide, Option.isSome_map]

theorem hide_set (i : Nat) (name : String) (v : Value) :
    (objects.set i name v).hide names = (objects.hide names).set i name (veil names name v) := by
  simp only [hide, set, mk.injEq, and_true]
  refine Array.ext (by simp) fun j h1 h2 => ?_
  simp only [Array.getElem_map, Array.getElem_modify]
  split
  · rw [Bindings.hide_insert]
  · rfl

theorem hide_add (attributes : List (String × Value)) :
    (objects.add attributes).hide names =
      (objects.hide names).add (attributes.map fun e => (e.1, veil names e.1 e.2)) := by
  simp [hide, add, Bindings.hide]

variable {objects' : Objects}

theorem size_of_hide (h : objects.hide names = objects'.hide names) :
    objects.attributes.size = objects'.attributes.size := by
  have hsize := congrArg (fun o : Objects => o.attributes.size) h
  simpa only [size_hide] using hsize

theorem attribute?_of_hide (h : objects.hide names = objects'.hide names) {name : String}
    (hn : name ∉ names) (v : Value) : objects.attribute? v name = objects'.attribute? v name := by
  rw [← attribute?_hide hn, h, attribute?_hide hn]

theorem get_of_hide (h : objects.hide names = objects'.hide names) {name : String}
    (hn : name ∉ names) (v : Value) : objects.get v name = objects'.get v name := by
  simp only [get, attribute?_of_hide h hn]

theorem need_of_hide (h : objects.hide names = objects'.hide names) {name : String}
    (hn : name ∉ names) (v : Value) : objects.need v name = objects'.need v name := by
  simp only [need, attribute?_of_hide h hn]

theorem set_of_hide (h : objects.hide names = objects'.hide names) (i : Nat) (name : String)
    (v : Value) : (objects.set i name v).hide names = (objects'.set i name v).hide names := by
  rw [hide_set, hide_set, h]

theorem add_of_hide (h : objects.hide names = objects'.hide names)
    (attributes : List (String × Value)) :
    (objects.add attributes).hide names = (objects'.add attributes).hide names := by
  rw [hide_add, hide_add, h]

/-- An assignment is refused in both for the same reason, or made in both. -/
theorem assign_of_hide (h : objects.hide names = objects'.hide names) (target : Value)
    (field : String) (new : Value) :
    (∃ failure, objects.assign target field new = .error failure ∧
        objects'.assign target field new = .error failure) ∨
      ∃ after after', objects.assign target field new = .ok after ∧
        objects'.assign target field new = .ok after' ∧ after.hide names = after'.hide names := by
  have hset : ∀ (i : Nat) (kept : Except Failure Value),
      (∃ failure, kept.map (objects.set i field) = .error failure ∧
          kept.map (objects'.set i field) = .error failure) ∨
        ∃ after after', kept.map (objects.set i field) = .ok after ∧
          kept.map (objects'.set i field) = .ok after' ∧ after.hide names = after'.hide names := by
    intro i kept
    cases kept with
    | error failure => exact .inl ⟨failure, rfl, rfl⟩
    | ok v => exact .inr ⟨_, _, rfl, rfl, set_of_hide h i field v⟩
  cases target with
  | record ref => exact hset _ _
  | individual ref => exact hset _ _
  | _ => exact .inl ⟨_, rfl, rfl⟩

/-- Settings are the same settings. -/
theorem settingsOr_of_hide (h : objects.hide names = objects'.hide names)
    (settings : Option SettingsRef) :
    (objects.settingsOr settings).1 = (objects'.settingsOr settings).1 ∧
      (objects.settingsOr settings).2.hide names = (objects'.settingsOr settings).2.hide names := by
  cases settings with
  | some ref => exact ⟨rfl, h⟩
  | none => exact ⟨congrArg SettingsRef.mk (size_of_hide h), add_of_hide h _⟩

theorem number_of_hide (h : objects.hide names = objects'.hide names) (n n' : Int) :
    (objects.number n).2.hide names = (objects'.number n').2.hide names :=
  congrArg (fun o : Objects => { o with nextStamp := o.nextStamp + 1 }) h

theorem locationOf_of_hide (h : objects.hide names = objects'.hide names) (hspan : "span" ∉ names)
    (cause : Cause) : objects.locationOf cause = objects'.locationOf cause := by
  cases cause <;> simp only [locationOf, get_of_hide h hspan]

/-- **A fault is the same fault**, in words that are hidden, if what is noted of it is the same or
hidden. -/
theorem newFault_of_hide (h : objects.hide names = objects'.hide names) (hargs : "args" ∈ names)
    (hmessage : "message" ∈ names) (cause cause' : Cause) (hkind : cause.kind = cause'.kind)
    (hloc : objects.locationOf cause = objects'.locationOf cause')
    (hnotes : cause.notes.map (fun e => (e.1, veil names e.1 e.2)) =
      cause'.notes.map fun e => (e.1, veil names e.1 e.2)) :
    (objects.newFault cause).1 = (objects'.newFault cause').1 ∧
      (objects.newFault cause).2.hide names = (objects'.newFault cause').2.hide names := by
  refine ⟨by simp [newFault, newIndividual, size_of_hide h, hkind], ?_⟩
  simp only [newFault, newIndividual, hide_add, h, hloc, List.map_append, hnotes]
  simp [veil, hargs, hmessage]

end Objects

end

/-- A failure without the words that a value was given or shown with. -/
def Failure.wordless : Failure → Failure
  | .exception kind _ => .exception kind ""
  | .noSuchLevel _ => .noSuchLevel ""
  | failure => failure

/-- How a computation ends, apart from its answer and from words. -/
def ending {α : Type} (x : Except Failure α) : Except Failure Unit :=
  (x.map fun _ => ()).mapError Failure.wordless

/-- Whatever the answer is, a computation that answers ends well. -/
theorem ending_pure {α : Type} (a b : α) :
    ending (pure a : Except Failure α) = ending (pure b) := rfl

theorem ending_bind {α β : Type} {x y : Except Failure α} {f g : α → Except Failure β}
    (hxy : ending x = ending y) (hfg : ∀ a b, ending (f a) = ending (g b)) :
    ending (x >>= f) = ending (y >>= g) := by
  cases x with
  | error failure =>
    cases y with
    | error failure' => exact hxy
    | ok b => cases hxy
  | ok a =>
    cases y with
    | error failure => cases hxy
    | ok b => exact hfg a b

theorem ending_mapM {α β : Type} {f g : α → Except Failure β} (l : List α)
    (h : ∀ a, ending (f a) = ending (g a)) : ending (l.mapM f) = ending (l.mapM g) := by
  induction l with
  | nil => rfl
  | cons a l ih =>
    rw [List.mapM_cons, List.mapM_cons]
    exact ending_bind (h a) fun _ _ => ending_bind ih fun _ _ => ending_pure _ _

/-- A way to summarize that ends alike on objects that differ only in attributes of these names. -/
def Summarizer.Steady (names : List String) (summarizer : Summarizer) : Prop :=
  ∀ objects objects' v, objects.hide names = objects'.hide names →
    ending (summarizer.summary objects v) = ending (summarizer.summary objects' v)

section

variable {names : List String}

/-- **The standard summary is steady** as long as what it looks at is not hidden. -/
theorem Summarizer.steady_standard
    (hn : ∀ name ∈ ["span", "start_line", "start_column", "source", "split"], name ∉ names) :
    Summarizer.standard.Steady names := by
  intro objects objects' v h
  have hstart : ∀ span, ending (objects.start span) = ending (objects'.start span) := by
    intro span
    simp only [Objects.start, Objects.need_of_hide h (hn "start_line" (by simp)),
      Objects.need_of_hide h (hn "start_column" (by simp))]
    exact ending_bind rfl fun _ _ => ending_bind rfl fun _ _ => ending_pure _ _
  have hstartOf : ending (objects.startOf v) = ending (objects'.startOf v) := by
    simp only [Objects.startOf, Objects.get_of_hide h (hn "span" (by simp))]
    split
    · rfl
    · exact hstart _
  have hexcerpt : objects.excerptOf v = objects'.excerptOf v := by
    simp only [Objects.excerptOf, Objects.get_of_hide h (hn "source" (by simp)), Objects.operation,
      Objects.attribute?_of_hide h (hn "split" (by simp))]
  show ending (objects.startOf v >>= _) = ending (objects'.startOf v >>= _)
  rw [hexcerpt]
  exact ending_bind hstartOf fun _ _ => ending_bind rfl fun _ _ => ending_pure _ _

/-- **A dump ends alike** in two stores, if what it shows is alike and the summaries are steady. -/
theorem Store.ending_dump {s s' : Store} {c : ContextId}
    (h : s.objects.hide names = s'.objects.hide names) (hnode : "node" ∉ names)
    (htypings : s.typings c = s'.typings c)
    (herrors : (s.context c).errors = (s'.context c).errors)
    (hsummarizer : (s.context c).summarizer = (s'.context c).summarizer)
    (hsteady : (s'.context c).summarizer.Steady names) :
    ending (s.dump c) = ending (s'.dump c) := by
  simp only [dump, htypings, herrors, hsummarizer]
  refine ending_bind (ending_mapM _ fun typing => ?_) fun _ _ =>
    ending_bind (ending_mapM _ fun error => ?_) fun _ _ => ending_pure _ _
  · simp only [typingEntry]
    exact ending_bind (hsteady _ _ _ h) fun _ _ => ending_pure _ _
  · simp only [errorEntry, Objects.nodeOf, Objects.get_of_hide h hnode]
    split
    · exact ending_pure _ _
    · exact ending_bind (hsteady _ _ _ h) fun _ _ => ending_pure _ _

end

end TypingStore
