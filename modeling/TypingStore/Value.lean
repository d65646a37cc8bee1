import TypingStore.Settings
import TypingStore.Value.Kind

/-!
# Values

The values that pass through the store: types, nodes, variable handles and error payloads are all
of one kind, because the store keeps them without looking inside.

Every value is an **object**: two objects built alike are still two. Only the commonest ones (the
absent value, truth values, small integers, texts of at most one narrow character, the empty
tuple) are kept once, and are the same wherever they are equal. An object whose contents never
change carries them, and a stamp of its own; one whose attributes can change is a reference to
them.

* `Value`: the values.
* `Value.Identity`, `Value.identity`: which object a value is.
* `Value.isTrue`, `Value.number?`: what a value counts as.
* `NodeKey`: a value compared by identity.
-/

namespace TypingStore

/-- The mark that tells an object from every other object built alike. Stamp zero is never given
out. It stands on contents that come with the object they are in: the location of a fault, the row
of what it says, the words of messages and type errors. Two of these are not told apart; no
operation of an engine reads them out of the objects they are in, so they never become nodes. -/
structure Stamp where
  number : Nat
  deriving DecidableEq, Inhabited

/-- A reference to a record. The kind of an object never changes, so it goes with the reference. -/
structure RecordRef where
  index : Nat
  kind : RecordKind
  deriving DecidableEq, Inhabited

/-- A reference to an individual. -/
structure IndividualRef where
  index : Nat
  kind : IndividualKind
  deriving DecidableEq, Inhabited

/-- A value kept by the store. -/
inductive Value where
  | absent
  | bool (b : Bool)
  | int (stamp : Stamp) (n : Int)
  | text (stamp : Stamp) (s : String)
  | level (level : LogLevel)
  | policy (policy : VersionPolicy)
  | list (stamp : Stamp) (items : List Value)
  | tuple (stamp : Stamp) (items : List Value)
  /-- The type of the instances of a class, with type arguments. -/
  | instanceType (stamp : Stamp) (name : String) (args : List Value)
  /-- The type of the values of one of several types. -/
  | unionType (stamp : Stamp) (members : List Value)
  /-- The type of a procedure. -/
  | procType (stamp : Stamp) (params : List Value) (result : Value)
  /-- The type of all values. -/
  | anyType (stamp : Stamp)
  /-- The type of the absent value. -/
  | nilType (stamp : Stamp)
  /-- A type error found by an engine: where, what, and whether it is an error or a warning. -/
  | typeError (stamp : Stamp) (node : Value) (message kind : String)
  /-- Where a fault arose: the file and the span, as far as they are known. -/
  | location (stamp : Stamp) (filename span : Value)
  | record (ref : RecordRef)
  | individual (ref : IndividualRef)
  deriving Inhabited

namespace Value

/-- A text that is met only inside of other objects, and never asked which object it is. -/
def ofText (s : String) : Value := .text ⟨0⟩ s

/-- Such a text, if there is one. -/
def ofText? : Option String → Value
  | none => .absent
  | some s => ofText s

/-- The name of the kind of a value. -/
def kindName : Value → String
  | .absent => "NoneType"
  | .bool _ => "bool"
  | .int _ _ => "int"
  | .text _ _ => "str"
  | .level _ => "LogLevel"
  | .policy _ => "VersionBumpPolicy"
  | .list _ _ => "list"
  | .tuple _ _ => "tuple"
  | .instanceType _ _ _ => "InstanceType"
  | .unionType _ _ => "UnionType"
  | .procType _ _ _ => "ProcType"
  | .anyType _ => "AnyType"
  | .nilType _ => "NilType"
  | .typeError _ _ _ _ => "TypeErrorRecord"
  | .location _ _ _ => "ICELocation"
  | .record ref => ref.kind.name
  | .individual ref => ref.kind.name

/-- The number a value counts as: truth values count as zero and one, a level as its rank. -/
def number? : Value → Option Int
  | .int _ n => some n
  | .bool b => some (if b then 1 else 0)
  | .level l => some l.rank
  | _ => none

/-- Whether a value counts as true: what is absent, zero or empty does not. -/
def isTrue : Value → Bool
  | .absent => false
  | .bool b => b
  | .int _ n => n ≠ 0
  | .text _ s => s ≠ ""
  | .level l => l.rank ≠ 0
  | .list _ items | .tuple _ items => !items.isEmpty
  | _ => true

/-- Which object a value is. What is kept once stands for itself. -/
inductive Identity where
  | absent
  | bool (b : Bool)
  | int (n : Int)
  | text (s : String)
  | level (level : LogLevel)
  | policy (policy : VersionPolicy)
  | emptyTuple
  | stamped (stamp : Stamp)
  | object (index : Nat)
  deriving DecidableEq

/-- The integers that are kept once: those from -5 to 256. -/
def isSmall (n : Int) : Bool := -5 ≤ n && n ≤ 256

/-- The texts that are kept once: the empty one, and those of one character of a single byte. -/
def isShort (s : String) : Bool :=
  match s.toList with
  | [] => true
  | [c] => c.toNat < 256
  | _ => false

/-- The identity of a value. -/
def identity : Value → Identity
  | .absent => .absent
  | .bool b => .bool b
  | .int stamp n => if isSmall n then .int n else .stamped stamp
  | .text stamp s => if isShort s then .text s else .stamped stamp
  | .level l => .level l
  | .policy p => .policy p
  | .tuple stamp items => if items.isEmpty then .emptyTuple else .stamped stamp
  | .list stamp _ | .instanceType stamp _ _ | .unionType stamp _ | .procType stamp _ _
  | .anyType stamp | .nilType stamp | .typeError stamp _ _ _ | .location stamp _ _ =>
    .stamped stamp
  | .record ref => .object ref.index
  | .individual ref => .object ref.index

/-- Whether two values are the very same object. -/
def isSame (a b : Value) : Bool := a.identity = b.identity

end Value

/-- A reference to a fault. -/
structure FaultRef where
  index : Nat
  kind : FaultKind
  deriving DecidableEq, Inhabited

/-- A fault as a value. -/
def FaultRef.value (ref : FaultRef) : Value := .individual ⟨ref.index, .fault ref.kind⟩

/-- A reference to a settings object. -/
structure SettingsRef where
  index : Nat
  deriving DecidableEq, Inhabited

/-- A settings object as a value. -/
def SettingsRef.value (ref : SettingsRef) : Value := .record ⟨ref.index, .settings⟩

/-- A value under which a type is recorded: the very object counts, not what it holds. -/
structure NodeKey where
  node : Value
  deriving Inhabited

namespace NodeKey

instance : BEq NodeKey := ⟨fun a b => a.node.isSame b.node⟩

theorem beq_iff {a b : NodeKey} : (a == b) = true ↔ a.node.identity = b.node.identity := by
  simp [BEq.beq, Value.isSame]

instance : EquivBEq NodeKey where
  rfl := beq_iff.2 rfl
  symm h := beq_iff.2 (beq_iff.1 h).symm
  trans h h' := beq_iff.2 ((beq_iff.1 h).trans (beq_iff.1 h'))

end NodeKey

end TypingStore
