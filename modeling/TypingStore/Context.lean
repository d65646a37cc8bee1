import TypingStore.Bindings
import TypingStore.Objects.Summary
import TypingStore.Value.Handle

/-!
# Contexts

A context holds what has been found in one branch of the analysis: a type for each node and each
variable, and the errors, all in the order in which they were first recorded. The root holds what
is confirmed; a child holds what is only being tried.

A context counts its **versions**, and a child remembers the version its parent had when the child
was created. The version advances on every write, or only on the first write after a child was
created, which is all that children can notice.

* `Context.noteWrite`: what a write does to the version.
* `Context.recordType`, `Context.recordVariable`, `Context.addError`: the three ways to add.
* `Context.absorb`: a parent takes over what a child holds, as if it had been recorded in the
  parent.
* `errors_absorb`: the errors that the parent holds afterwards.
-/

namespace TypingStore

/-- A way to show a node on one line, with a number that tells it from other ways. -/
structure Summarizer where
  number : Nat
  summary : Objects → Value → Except Failure String

/-- The way that is used when none is given: place and first source line. -/
def Summarizer.standard : Summarizer := ⟨0, Objects.summary⟩

instance : Inhabited Summarizer := ⟨.standard⟩

/-- A context is known by its position in the order of creation. -/
structure ContextId where
  index : Nat
  deriving DecidableEq, Inhabited

/-- What has been found in one branch of the analysis. -/
structure Context where
  parent : Option ContextId
  settings : SettingsRef
  summarizer : Summarizer
  /-- The version the parent had when this context was created. -/
  snapshot : Nat := 0
  version : Nat := 0
  /-- Whether a child was created since the last write that advanced the version. -/
  pending : Bool := false
  /-- The types of the nodes, each node kept beside its type. One map does for both: nothing but
  `recordType` adds to it, and it puts down the node together with the type. So a node is met where
  its type is, and in the order in which the types were first recorded. -/
  nodeTypes : Bindings NodeKey Value := {}
  varTypes : Bindings Handle Value := {}
  errors : List Value := []
  deriving Inhabited

namespace Context

/-- A child of `parent`, which is known as `id`, before anything is recorded in it. -/
def childOf (parent : Context) (id : ContextId) (settings : SettingsRef)
    (summarizer : Summarizer) : Context where
  parent := some id
  settings := settings
  summarizer := summarizer
  snapshot := parent.version
  version := parent.version

/-- Counts a write. -/
def noteWrite (policy : VersionPolicy) (c : Context) : Context :=
  if policy = .everyWrite ∨ c.pending then { c with version := c.version + 1, pending := false }
  else c

/-- Records the type of a node. -/
def recordType (policy : VersionPolicy) (node type : Value) (c : Context) : Context :=
  noteWrite policy { c with nodeTypes := c.nodeTypes.insert ⟨node⟩ type }

/-- Records the type of a variable. -/
def recordVariable (policy : VersionPolicy) (handle : Handle) (type : Value) (c : Context) :
    Context :=
  noteWrite policy { c with varTypes := c.varTypes.insert handle type }

/-- Adds an error. This is not a write. -/
def addError (error : Value) (c : Context) : Context := { c with errors := c.errors ++ [error] }

/-- Takes over what `child` holds: its node types, then its variable types, each recorded anew in
the order the child has them, then its errors. -/
def absorb (policy : VersionPolicy) (c child : Context) : Context :=
  let c := child.nodeTypes.entries.foldl (fun c entry => c.recordType policy entry.1.node entry.2) c
  let c := child.varTypes.entries.foldl (fun c entry => c.recordVariable policy entry.1 entry.2) c
  { c with errors := c.errors ++ child.errors }

/-! ## What a write leaves alone -/

@[simp] theorem nodeTypes_noteWrite (policy : VersionPolicy) (c : Context) :
    (c.noteWrite policy).nodeTypes = c.nodeTypes := by
  unfold noteWrite; split <;> rfl

@[simp] theorem varTypes_noteWrite (policy : VersionPolicy) (c : Context) :
    (c.noteWrite policy).varTypes = c.varTypes := by
  unfold noteWrite; split <;> rfl

@[simp] theorem errors_noteWrite (policy : VersionPolicy) (c : Context) :
    (c.noteWrite policy).errors = c.errors := by
  unfold noteWrite; split <;> rfl

/-! ## The errors of a parent after it takes over a child -/

/-- Types that are recorded in a row leave the errors alone. -/
theorem errors_foldl_recordType (policy : VersionPolicy) (entries : List (NodeKey × Value))
    (c : Context) :
    (entries.foldl (fun c entry => c.recordType policy entry.1.node entry.2) c).errors =
      c.errors := by
  induction entries generalizing c with
  | nil => rfl
  | cons entry rest ih => rw [List.foldl_cons, ih, recordType, errors_noteWrite]

theorem errors_foldl_recordVariable (policy : VersionPolicy) (entries : List (Handle × Value))
    (c : Context) :
    (entries.foldl (fun c entry => c.recordVariable policy entry.1 entry.2) c).errors =
      c.errors := by
  induction entries generalizing c with
  | nil => rfl
  | cons entry rest ih => rw [List.foldl_cons, ih, recordVariable, errors_noteWrite]

/-- **No error is lost**: those of the child follow those of the parent. -/
theorem errors_absorb (policy : VersionPolicy) (child c : Context) :
    (c.absorb policy child).errors = c.errors ++ child.errors := by
  simp only [absorb, errors_foldl_recordVariable, errors_foldl_recordType]

end Context

end TypingStore
