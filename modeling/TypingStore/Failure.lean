import TypingStore.Value

/-!
# Failures

Everything an operation can end with instead of an answer: a fault, an exception that an engine or
a summarizer raised, a value that is of no use where it stands, or a change that is not allowed.
-/

namespace TypingStore

/-- What an operation can end with instead of an answer. -/
inductive Failure where
  | fault (ref : FaultRef)
  /-- A plain exception, raised by an engine or by a summarizer. -/
  | exception (kind : ExceptionKind) (message : String)
  /-- A value was raised that is neither an exception nor a fault. -/
  | notRaisable
  /-- A value with a part of this kind was used as a variable handle. -/
  | unhashable (kind : String)
  /-- A join of no types. -/
  | emptyJoin
  /-- A value of this kind has no such attribute. -/
  | noSuchField (kind field : String)
  /-- A change to a field of an object that cannot change. -/
  | frozenField (field : String)
  /-- A change to an operation that plain data of this kind comes with. -/
  | readOnlyField (kind field : String)
  /-- A change to a part that belongs to every value of this kind. -/
  | unwritableField (kind field : String)
  /-- A value of this kind was given as the class of an object. -/
  | notClass (kind : String)
  /-- A value of this kind was given as all attributes of an object. -/
  | notDictionary (kind : String)
  /-- A value was given as the trace of an exception. -/
  | notTrace
  /-- A value that is neither an exception nor a fault was given as the one that led to another. -/
  | notChained (link : String)
  /-- A value was given as a switch that is either on or off. -/
  | notSwitch
  /-- A value of this kind was carried out like an operation. -/
  | notCallable (kind : String)
  /-- A value of this kind was used as a row of values. -/
  | notIterable (kind : String)
  /-- A value of this kind was asked whether a text occurs in it. -/
  | notContainer (kind : String)
  /-- A value of this kind was used as a number. -/
  | notNumber (kind : String)
  /-- A value, as written, that is no log level. -/
  | noSuchLevel (written : String)
  /-- A node was added to a context during an iteration over it. -/
  | changedDuringIteration

end TypingStore
