import TypingStore.Objects.Assignment
import TypingStore.Proofs.Entries
import TypingStore.Store.Commit
import TypingStore.Store.Dump
import TypingStore.Store.Lookup

/-!
# Runs of operations

A run is a sequence of operations on contexts and on the objects around them, in any
order, each carried out on what the ones before it left behind. A failure is the
outcome of its operation; the run goes on. Between the operations anything may be
done to the objects, the settings among them (`Regime`).

A run remembers its **events**: which contexts were made, and which entries were put
down in which context, those that a commit puts down included (`World.events`). The
theorems on runs speak of them.
-/

namespace TypingStore

/-- One operation of an engine. What a callback does to the child it is given are
operations of their own, after the one that makes the child. -/
inductive Action where
  | createRoot (settings : Option SettingsRef) (summarizer : Option Summarizer)
  /-- Makes a child directly, with settings and summaries of its own if they are given. -/
  | createChild (parent : ContextId) (settings : Option SettingsRef)
      (summarizer : Option Summarizer)
  | spawn (parent : ContextId)
  | recordType (c : ContextId) (node type : Value)
  | recordVariable (c : ContextId) (name type : Value)
  | addError (c : ContextId) (error : Value)
  | commit (c : ContextId)
  | hasType (c : ContextId) (node : Value)
  | hasVariable (c : ContextId) (name : Value)
  | typeOf (c : ContextId) (node : Value)
  | variableTypeOf (c : ContextId) (name : Value)
  | typings (c : ContextId)
  | variableTypes (c : ContextId)
  | errors (c : ContextId)
  | dump (c : ContextId)
  | caption (c : ContextId)
  /-- Changes an attribute of an object. -/
  | assign (target : Value) (field : String) (new : Value)
  | newRecord (kind : RecordKind) (fields : List Value) (others : List (String × Value))
  | newIndividual (kind : IndividualKind) (attributes : List (String × Value))

/-- The context an operation is about. -/
def Action.context? : Action → Option ContextId
  | .createRoot _ _ | .assign _ _ _ | .newRecord _ _ _ | .newIndividual _ _ => none
  | .createChild c _ _ | .spawn c | .recordType c _ _ | .recordVariable c _ _ | .addError c _
  | .commit c | .hasType c _ | .hasVariable c _ | .typeOf c _ | .variableTypeOf c _ | .typings c
  | .variableTypes c | .errors c | .dump c | .caption c => some c

/-- What an operation answers. -/
inductive Answer where
  | done
  | context (c : ContextId)
  | truth (b : Bool)
  | value (v : Value)
  | typings (typings : List (Value × Value))
  | variableTypes (types : List (Handle × Value))
  | errors (errors : List Value)
  | text (text : String)

/-- How an operation ends. -/
abbrev Outcome := Except Failure Answer

/-- Something that happened to the contexts. -/
inductive Event where
  | created (c : ContextId) (parent : Option ContextId)
  | entered (c : ContextId) (entry : Entry)

namespace Event

/-- Whether this is the creation of `c`. -/
def creates (c : ContextId) : Event → Bool
  | created d _ => d = c
  | entered _ _ => false

/-- Whether this is a write to `c`. -/
def writes (c : ContextId) : Event → Bool
  | created _ _ => false
  | entered d entry => d = c && entry.isWrite

/-- What happened after `c` was created. -/
def since (c : ContextId) : List Event → List Event
  | [] => []
  | event :: events => if event.creates c then events else since c events

end Event

namespace Store

/-- An operation can be carried out when the context it is about has been made. -/
def Admits (s : Store) (a : Action) : Prop := ∀ c ∈ a.context?, s.Has c

instance (s : Store) (a : Action) : Decidable (s.Admits a) :=
  inferInstanceAs (Decidable (∀ c ∈ a.context?, s.Has c))

/-- Carries out an operation. -/
def perform (s : Store) : Action → Outcome × Store
  | .createRoot settings summarizer =>
    let (c, s) := s.createRoot settings summarizer
    (.ok (.context c), s)
  | .createChild parent settings summarizer =>
    let (c, s) := s.createChild parent settings summarizer
    (.ok (.context c), s)
  | .spawn parent =>
    let (c, s) := s.spawn parent
    (.ok (.context c), s)
  | .recordType c node type => (.ok (.value type), s.recordType c node type)
  | .recordVariable c name type =>
    let (result, s) := s.recordVariable c name type
    (result.map fun _ => .value type, s)
  | .addError c error => (.ok .done, s.addError c error)
  | .commit c =>
    let (result, s) := s.commit c
    (result.map fun _ => .done, s)
  | .hasType c node => (.ok (.truth (s.hasType c node)), s)
  | .hasVariable c name => ((s.hasVariable c name).map .truth, s)
  | .typeOf c node =>
    let (result, s) := s.typeOf c node
    (result.map .value, s)
  | .variableTypeOf c name =>
    let (result, s) := s.variableTypeOf c name
    (result.map .value, s)
  | .typings c => (.ok (.typings (s.typings c)), s)
  | .variableTypes c => (.ok (.variableTypes (s.context c).varTypes.entries), s)
  | .errors c => (.ok (.errors (s.context c).errors), s)
  | .dump c => ((s.dump c).map .text, s)
  | .caption c => (.ok (.text (s.caption c)), s)
  | .assign target field new =>
    match s.objects.assign target field new with
    | .error failure => (.error failure, s)
    | .ok objects => (.ok .done, { s with objects := objects })
  | .newRecord kind fields others =>
    let (ref, objects) := s.objects.newRecord kind fields others
    (.ok (.value (.record ref)), { s with objects := objects })
  | .newIndividual kind attributes =>
    let (ref, objects) := s.objects.newIndividual kind attributes
    (.ok (.value (.individual ref)), { s with objects := objects })

/-- What an operation does to the contexts, as events. A commit that is accepted puts the entries of
the context down in its parent. -/
def eventsOf (s : Store) : Action → List Event
  | .createRoot _ _ => [.created ⟨s.contexts.size⟩ none]
  | .createChild parent _ _ | .spawn parent => [.created ⟨s.contexts.size⟩ (some parent)]
  | .recordType c node type => [.entered c (.nodeType node type)]
  | .recordVariable c name type =>
    match handleOf name with
    | .error _ => []
    | .ok handle => [.entered c (.varType handle type)]
  | .addError c error => [.entered c (.error error)]
  | .commit c =>
    match (s.commit c).1, (s.context c).parent with
    | .ok (), some parent => (s.context c).entries.map (.entered parent)
    | _, _ => []
  | .hasType _ _ | .hasVariable _ _ | .typeOf _ _ | .variableTypeOf _ _ | .typings _
  | .variableTypes _ | .errors _ | .dump _ | .caption _ | .assign _ _ _ | .newRecord _ _ _
  | .newIndividual _ _ => []

end Store

/-- What is done to the objects before each operation, given how many operations there were before:
anything at all. -/
abbrev Regime := Nat → Objects → Objects

/-- A store, with what happened to it so far. -/
structure World where
  store : Store := {}
  /-- What happened to the contexts, the oldest first. -/
  events : List Event := []
  /-- How the operations ended, the first one first. -/
  outcomes : List Outcome := []

namespace World

/-- A world in which only objects have been made. -/
def init (objects : Objects) : World where
  store := { objects := objects }

/-- The store once the regime has done its part. -/
def prepared (regime : Regime) (w : World) : Store :=
  { w.store with objects := regime w.outcomes.length w.store.objects }

/-- Carries out an operation. One on a context that was never made is passed over: nobody can name
such a context. -/
def step (regime : Regime) (w : World) (a : Action) : World :=
  let s := w.prepared regime
  if s.Admits a then
    { store := (s.perform a).2
      events := w.events ++ s.eventsOf a
      outcomes := w.outcomes ++ [(s.perform a).1] }
  else w

theorem step_of_admits {regime : Regime} {w : World} {a : Action}
    (h : (w.prepared regime).Admits a) :
    w.step regime a =
      { store := ((w.prepared regime).perform a).2
        events := w.events ++ (w.prepared regime).eventsOf a
        outcomes := w.outcomes ++ [((w.prepared regime).perform a).1] } :=
  if_pos h

theorem step_of_not_admits {regime : Regime} {w : World} {a : Action}
    (h : ¬ (w.prepared regime).Admits a) : w.step regime a = w :=
  if_neg h

/-- Carries out several operations, from a world in which only objects have been made. -/
def run (regime : Regime) (objects : Objects) (actions : List Action) : World :=
  actions.foldl (step regime) (init objects)

end World

end TypingStore
