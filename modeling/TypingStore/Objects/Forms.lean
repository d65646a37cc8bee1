import TypingStore.Objects
import TypingStore.Types.Display
import TypingStore.Value.Written

/-!
# Forms of values at a moment

How values are shown to a reader. An object that can change is shown with what it holds at the
moment, so the same value can have another form later on. Objects may hold objects; where one holds
itself, directly or through others, dots stand for it, so a value is followed through at most as
many objects as there are.

* `Objects.written`, `Objects.plain`, `Objects.display`: the written form of a value, its plain
  text, and its form as a type.
* `Objects.raised`, `Failure.message`: the failure that a raised value ends in, and its message.
-/

namespace TypingStore

open Text

/-- The plain text of an exception or a fault: nothing, its only argument, or all of them. -/
def Value.Forms.ofArguments (forms : Value.Forms) : List Value → String
  | [] => ""
  | [v] => v.plain forms
  | vs => Written.tuple (Value.writtenAll forms vs)

/-- The text of an object of another model with this tag, put together from its pieces. -/
def Value.Forms.ofPieces (forms : Value.Forms) (tag : Value) : List Piece → String
  | [] => ""
  | .words s :: pieces => s ++ ofPieces forms tag pieces
  | .tag :: pieces => tag.plain forms ++ ofPieces forms tag pieces
  | .writtenTag :: pieces => tag.written forms ++ ofPieces forms tag pieces

/-- The written form of an exception or a fault. -/
def Value.Forms.ofRaisable (forms : Value.Forms) (name : String) : List Value → String
  | [v] => name ++ "(" ++ v.written forms ++ ")"
  | vs => name ++ Written.tuple (Value.writtenAll forms vs)

namespace Objects

/-- How objects are shown at this moment, followed through `depth` objects and never into one of
those at `path`, which are being shown already. -/
def formsTo (objects : Objects) : (depth : Nat) → (path : List Nat) → Value.Forms
  | 0, _ => { record := fun _ => "...", individual := fun _ => "...", said := fun _ => "..." }
  | depth + 1, path =>
    { record := fun ref =>
        if ref.index ∈ path then "..."
        else
          let forms := objects.formsTo depth (ref.index :: path)
          Written.record ref.kind.name
            (ref.kind.fieldNames.zip (Value.writtenAll forms (objects.fields ref)))
      individual := fun ref =>
        if ref.index ∈ path then "..."
        else
          let forms := objects.formsTo depth (ref.index :: path)
          match ref.kind with
          | .foreign kind => forms.ofPieces (objects.get (.individual ref) "tag") kind.written
          | kind => forms.ofRaisable kind.name (objects.arguments ref)
      said := fun ref =>
        if ref.index ∈ path then "..."
        else
          let forms := objects.formsTo depth (ref.index :: path)
          match ref.kind with
          | .foreign kind => forms.ofPieces (objects.get (.individual ref) "tag") kind.plain
          | _ => forms.ofArguments (objects.arguments ref) }

/-- How objects are shown at this moment. -/
def forms (objects : Objects) : Value.Forms := objects.formsTo objects.attributes.size []

/-- The written form of a value at this moment. -/
def written (objects : Objects) (v : Value) : String := v.written objects.forms

/-- The plain text of a value at this moment. -/
def plain (objects : Objects) (v : Value) : String := v.plain objects.forms

/-- The displayed form of a type at this moment. -/
def display (objects : Objects) (v : Value) : String := v.display objects.written

/-- What raising a value ends an operation with. -/
def raised (objects : Objects) : Value → Failure
  | .individual ⟨index, .fault kind⟩ => .fault ⟨index, kind⟩
  | v@(.individual ⟨_, .exception kind⟩) => .exception kind (objects.plain v)
  | _ => .notRaisable

end Objects

/-- The message of a failure. -/
def Failure.message (objects : Objects) : Failure → String
  | fault ref => objects.plain ref.value
  | exception _ message => message
  | notRaisable => "exceptions must derive from BaseException"
  | unhashable kind => "unhashable type: '" ++ kind ++ "'"
  | emptyJoin => "union_of() needs at least one type"
  | noSuchField kind field => "'" ++ kind ++ "' object has no attribute '" ++ field ++ "'"
  | frozenField field => "cannot assign to field " ++ quoted field
  | readOnlyField kind field => "'" ++ kind ++ "' object attribute '" ++ field ++ "' is read-only"
  | unwritableField kind field =>
    "attribute '" ++ field ++ "' of '" ++ kind ++ "' objects is not writable"
  | notClass kind => "__class__ must be set to a class, not '" ++ kind ++ "' object"
  | notDictionary kind => "__dict__ must be set to a dictionary, not a '" ++ kind ++ "'"
  | notTrace => "__traceback__ must be a traceback or None"
  | notChained link => "exception " ++ link ++ " must be None or derive from BaseException"
  | notSwitch => "attribute value type must be bool"
  | notCallable kind => "'" ++ kind ++ "' object is not callable"
  | notIterable kind => "'" ++ kind ++ "' object is not iterable"
  | notContainer kind => "argument of type '" ++ kind ++ "' is not iterable"
  | notNumber kind => "unsupported operand type(s) for -: '" ++ kind ++ "' and 'int'"
  | noSuchLevel written => written ++ " is not a valid LogLevel"
  | changedDuringIteration => "dictionary changed size during iteration"

end TypingStore
