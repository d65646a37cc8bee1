import TypingStore.Text.Written
import TypingStore.Value

/-!
# Written values

The written form of a value, for messages and for handles that are shown, and its plain text, for
readers. A text is its own plain text, an error is what it says, a level its rank and a policy its
name; of everything else the plain text is the written form.

* `Value.Forms`: the forms of the objects a value refers to.
* `Value.written`, `Value.plain`: the written form and the plain text of a value, given those.
-/

namespace TypingStore

open Text

namespace Value

/-- How the objects that values refer to are shown. -/
structure Forms where
  /-- The written form of a record. -/
  record : RecordRef → String
  /-- The written form of an individual. -/
  individual : IndividualRef → String
  /-- The plain text of an individual. -/
  said : IndividualRef → String

mutual

/-- The written form of a value. -/
def written (forms : Forms) : Value → String
  | .absent => Written.absent
  | .bool b => Written.bool b
  | .int _ n => Written.int n
  | .text _ s => quoted s
  | .level l => l.written
  | .policy p => p.written
  | .list _ items => Written.sequence (writtenAll forms items)
  | .tuple _ items => Written.tuple (writtenAll forms items)
  | .instanceType _ name args =>
    Written.record "InstanceType"
      [("name", quoted name), ("args", Written.tuple (writtenAll forms args))]
  | .unionType _ members =>
    Written.record "UnionType" [("members", Written.tuple (writtenAll forms members))]
  | .procType _ params result =>
    Written.record "ProcType"
      [("params", Written.tuple (writtenAll forms params)), ("result", written forms result)]
  | .anyType _ => Written.record "AnyType" []
  | .nilType _ => Written.record "NilType" []
  | .typeError _ site message kind =>
    Written.record "TypeErrorRecord"
      [("node", written forms site), ("message", quoted message), ("kind", quoted kind)]
  | .location _ filename span =>
    Written.record "ICELocation"
      [("filename", written forms filename), ("span", written forms span)]
  | .record ref => forms.record ref
  | .individual ref => forms.individual ref

/-- The written forms of a list of values. -/
def writtenAll (forms : Forms) : List Value → List String
  | [] => []
  | v :: vs => written forms v :: writtenAll forms vs

end

/-- The plain text of a value. -/
def plain (forms : Forms) : Value → String
  | .text _ s => s
  | .level l => l.plain
  | .policy p => p.plain
  | .typeError _ _ message _ => message
  | .individual ref => forms.said ref
  | v => written forms v

end Value

end TypingStore
