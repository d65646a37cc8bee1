import TypingStore.Objects.Summary

/-!
# Internal faults

A fault is a mistake of the engine, not of the program it checks: it asks for something that was
never recorded, or breaks the rules of committing. A fault ends the unit that meets it. What it says
is worded when it arises; the message and the code it is reported with, and its location, start out
from there and can be changed later.

* `Cause`: what went wrong, and in which words.
* `Objects.newFault`: a fault, worded as things stand.
* `Objects.report`: its one-line form, `<file>:<line>:<column>: internal checker error: <message>`
  with the absent parts left out.
-/

namespace TypingStore

open Text

/-- What went wrong. -/
inductive Cause where
  /-- Any other fault, in words of its own. -/
  | other (message : Value)
  | nodeNotTyped (node : Value)
  | variableNotTyped (name : Value)
  | staleContext (expected actual : Value)
  | commitOnRoot

/-- The code of a fault as it stands in messages. -/
def faultTag (code : String) : String := "[" ++ code ++ "] "

namespace Cause

/-- The kind of fault that arises. -/
def kind : Cause → FaultKind
  | other _ => .other
  | nodeNotTyped _ => .nodeNotTyped
  | variableNotTyped _ => .variableNotTyped
  | staleContext _ _ => .staleContext
  | commitOnRoot => .commitOnRoot

/-- What a fault says, with the `written` form and the `plain` text of values. It starts with the
code, unless the words are the fault's own. -/
def message (written plain : Value → String) : Cause → Value
  | other message => message
  | cause@(nodeNotTyped node) => coded cause.kind ("unknown node for typing: " ++ written node)
  | cause@(variableNotTyped name) =>
    coded cause.kind ("unknown variable for typing: " ++ written name)
  | cause@(staleContext expected actual) =>
    coded cause.kind ("parent modified since child was spawned (snapshot version "
      ++ plain expected ++ ", parent now at " ++ plain actual ++ ")")
  | cause@commitOnRoot => coded cause.kind "cannot commit a root typing context"
where
  coded (kind : FaultKind) (words : String) : Value := .ofText (faultTag kind.code ++ words)

/-- What is noted about a fault of this cause, by name. -/
def notes : Cause → List (String × Value)
  | other _ | commitOnRoot => []
  | nodeNotTyped node => [("node", node)]
  | variableNotTyped name => [("var", name)]
  | staleContext expected actual => [("expected_version", expected), ("actual_version", actual)]

end Cause

/-- Whether `part` occurs in `whole`. -/
def occursIn (part : List Char) : (whole : List Char) → Bool
  | [] => part.isEmpty
  | c :: rest => part.isPrefixOf (c :: rest) || occursIn part rest

/-- The start of every code, by which a message is known to speak of one. -/
def codeMark : String := "[ICE-"

/-- Whether a message speaks of a code already: a text that has the mark in it, or a row of values
with the mark among them. -/
def Value.isCoded : Value → Except Failure Bool
  | .text _ s => .ok (occursIn codeMark.toList s.toList)
  | .list _ items | .tuple _ items => .ok <| items.any fun
    | .text _ s => s = codeMark
    | _ => false
  | v => .error (.notContainer v.kindName)

namespace Objects

/-- Where a fault of this cause arises: at the node asked for. -/
def locationOf (objects : Objects) : Cause → Value
  | .nodeNotTyped node => .location ⟨0⟩ .absent (objects.get node "span")
  | _ => .absent

/-- A new fault, worded as things stand. -/
def newFault (objects : Objects) (cause : Cause) : FaultRef × Objects :=
  let message := cause.message objects.written objects.plain
  let (ref, objects) := objects.newIndividual (.fault cause.kind)
    ([("args", .tuple ⟨0⟩ [message]), ("message", message), ("loc", objects.locationOf cause)]
      ++ cause.notes)
  (⟨ref.index, cause.kind⟩, objects)

/-- The code a fault is reported with. -/
def codeOf (objects : Objects) (ref : FaultRef) : Value :=
  (objects.attribute? ref.value "code").getD (.ofText ref.kind.code)

/-- The message of a fault with its code in front, unless it speaks of a code already. -/
def codedMessage (objects : Objects) (ref : FaultRef) : Except Failure String := do
  let message := objects.get ref.value "message"
  if ← message.isCoded then return objects.plain message
  else return faultTag (objects.plain (objects.codeOf ref)) ++ objects.plain message

/-- Where a fault is, up to the message. A position is only shown after a file, and a file
without a name counts as none. -/
def faultPlace (objects : Objects) (ref : FaultRef) : Except Failure String := do
  let location := objects.get ref.value "loc"
  if !location.isTrue then return ""
  let filename ← objects.need location "filename"
  if !filename.isTrue then return ""
  match ← objects.need location "span" with
  | .absent => return objects.plain filename ++ ": "
  | span => return objects.plain filename ++ ":" ++ (← objects.start span) ++ ": "

/-- The one-line form of a fault at this moment. -/
def report (objects : Objects) (ref : FaultRef) : Except Failure String :=
  objects.operation ref.value "format" do
    let message ← objects.codedMessage ref
    let place ← objects.faultPlace ref
    return place ++ "internal checker error: " ++ message

/-- The span of the location of a fault, or of whatever has a location. -/
def locationSpan (objects : Objects) (v : Value) : Except Failure Value := do
  match ← objects.need v "loc" with
  | .absent => return .absent
  | location => objects.need location "span"

/-- The file of a fault's location. -/
def locationFile (objects : Objects) (ref : FaultRef) : Except Failure Value :=
  match objects.get ref.value "loc" with
  | .absent => .ok .absent
  | location => objects.need location "filename"

/-- Puts a fault into the given file, at the span it had, if it names no file of its own. -/
def nameFile (objects : Objects) (filename : String) (ref : FaultRef) : Except Failure Objects := do
  match ← objects.locationFile ref with
  | .absent =>
    let span ← objects.locationSpan ref.value
    return objects.set ref.index "loc" (.location ⟨0⟩ (.ofText filename) span)
  | _ => return objects

end Objects

end TypingStore
