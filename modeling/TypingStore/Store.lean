import TypingStore.Context
import TypingStore.Fault
import TypingStore.Journal

/-!
# The store

All contexts made so far, as a forest: each knows its parent, and ids are positions in the order
of creation, so a parent always comes before its children. Beside them the store keeps the objects
that values refer to and the journal of the run.

* `Store.createRoot`, `Store.createChild`, `Store.spawn`: making contexts.
* `Store.recordType`, `Store.recordVariable`, `Store.addError`: writing into a context.
* `Store.context_update`, `Store.context_createChild`: what writing and creating leave alone.
-/

namespace TypingStore

/-- All contexts, the objects they hold, and the journal. -/
structure Store where
  objects : Objects := {}
  contexts : Array Context := #[]
  journal : Journal := []

namespace Store

instance : Inhabited Store := ⟨{}⟩

/-- A context. -/
def context (s : Store) (c : ContextId) : Context := s.contexts.getD c.index default

/-- What the settings of a context say at this moment. -/
def settingsOf (s : Store) (c : ContextId) : Settings :=
  s.objects.settingsOf (s.context c).settings

/-- When a context advances its version. -/
def policy (s : Store) (c : ContextId) : VersionPolicy := (s.settingsOf c).versions

/-- Changes one context. -/
def update (s : Store) (c : ContextId) (change : Context → Context) : Store :=
  { s with contexts := s.contexts.modify c.index change }

/-- Reports a message, as the settings of a context allow. -/
def report (s : Store) (c : ContextId) (level : LogLevel) (message : String) : Store :=
  { s with journal := s.journal.report (s.settingsOf c) level message }

/-- Ends an operation with a new fault. -/
def fail {α : Type} (s : Store) (cause : Cause) : Except Failure α × Store :=
  let (ref, objects) := s.objects.newFault cause
  (.error (.fault ref), { s with objects := objects })

/-! ## Making contexts -/

/-- Adds a context. -/
def add (s : Store) (c : Context) : ContextId × Store :=
  (⟨s.contexts.size⟩, { s with contexts := s.contexts.push c })

/-- A new root, with default settings and the standard summaries unless others are given. -/
def createRoot (s : Store) (settings : Option SettingsRef := none)
    (summarizer : Option Summarizer := none) : ContextId × Store :=
  let (settings, objects) := s.objects.settingsOr settings
  { s with objects := objects }.add
    { parent := none, settings := settings, summarizer := summarizer.getD .standard }

/-- A new child, which takes settings and summaries from its parent unless others are given. The
parent remembers that it has a child to notice its next write. -/
def createChild (s : Store) (parent : ContextId) (settings : Option SettingsRef := none)
    (summarizer : Option Summarizer := none) : ContextId × Store :=
  let above := s.context parent
  (s.update parent fun c => { c with pending := true }).add
    (above.childOf parent (settings.getD above.settings) (summarizer.getD above.summarizer))

/-- Creates a child for a speculative branch and reports it. -/
def spawn (s : Store) (parent : ContextId) : ContextId × Store :=
  let (child, s) := s.createChild parent
  (child, s.report parent .debug
    ("typing: spawned child at version " ++ toString (s.context parent).version))

/-! ## Writing -/

/-- A value as a variable handle. -/
def handleOf (v : Value) : Except Failure Handle := (Handle.ofValue v).mapError .unhashable

/-- Records the type of a node in a context. -/
def recordType (s : Store) (c : ContextId) (node type : Value) : Store :=
  s.update c (Context.recordType (s.policy c) node type)

/-- Records the type of a variable in a context. -/
def recordVariable (s : Store) (c : ContextId) (name type : Value) :
    Except Failure Unit × Store :=
  match handleOf name with
  | .error failure => (.error failure, s)
  | .ok handle => (.ok (), s.update c (Context.recordVariable (s.policy c) handle type))

/-- Adds an error to a context. -/
def addError (s : Store) (c : ContextId) (error : Value) : Store :=
  s.update c (Context.addError error)

/-! ## What is read back -/

/-- Whether a context of this id has been made. -/
def Has (s : Store) (c : ContextId) : Prop := c.index < s.contexts.size

instance (s : Store) (c : ContextId) : Decidable (s.Has c) := Nat.decLt _ _

/-- **A change to one context leaves every other context as it was.** -/
theorem context_update (s : Store) (c d : ContextId) (change : Context → Context) :
    (s.update c change).context d =
      if d = c ∧ s.Has c then change (s.context c) else s.context d := by
  obtain ⟨i⟩ := c
  obtain ⟨j⟩ := d
  simp only [update, context, Has, Array.getD_eq_getD_getElem?, Array.getElem?_modify,
    ContextId.mk.injEq]
  by_cases same : i = j
  · subst same
    by_cases made : i < s.contexts.size
    · simp [made]
    · simp [made]
  · simp [same, Ne.symm same]

@[simp] theorem has_update (s : Store) (c d : ContextId) (change : Context → Context) :
    (s.update c change).Has d ↔ s.Has d := by
  simp [Has, update]

/-- A context made before is not changed by making another. -/
theorem context_add_of_has (s : Store) (new : Context) {c : ContextId} (made : s.Has c) :
    (s.add new).2.context c = s.context c := by
  simp only [Has] at made
  simp [add, context, Array.getD_eq_getD_getElem?, Array.getElem?_push, Nat.ne_of_lt made]

/-- A context reads back as it was made. -/
theorem context_add_self (s : Store) (new : Context) :
    (s.add new).2.context (s.add new).1 = new := by
  simp [add, context, Array.getD_eq_getD_getElem?]

/-- **Creating a child marks its parent and changes nothing else** of the contexts made before. -/
theorem context_createChild (s : Store) (parent : ContextId) (settings : Option SettingsRef)
    (summarizer : Option Summarizer) {c : ContextId} (made : s.Has c) :
    (s.createChild parent settings summarizer).2.context c =
      if c = parent then { s.context c with pending := true } else s.context c := by
  simp only [createChild]
  rw [context_add_of_has _ _ (by simpa using made), context_update]
  by_cases same : c = parent
  · subst same
    simp [made]
  · simp [same]

end Store

end TypingStore
