import TypingStore.Settings

/-!
# The journal of a run

The lines a run reports while it works, in the order it reports them. Whether a line is kept is
decided when it is reported, by the settings in force at that moment; the time is filled in only
when a line is shown.

* `Journal.report`: adds a line if the settings admit its level.
* `Journal.Line.shown`: a line as it appears.
-/

namespace TypingStore

/-- A reported line. -/
structure Journal.Line where
  level : LogLevel
  /-- Whether the line is shown with the time and its level. -/
  stamped : Bool
  message : String
  deriving DecidableEq

/-- The lines reported so far, the oldest first. -/
abbrev Journal := List Journal.Line

namespace Journal

/-- A line as it appears at the given time, with its line break. -/
def Line.shown (time : String) (line : Line) : String :=
  (if line.stamped then time ++ " [" ++ line.level.name ++ "] " else "") ++ line.message ++ "\n"

/-- Reports a message, if the settings admit its level. -/
def report (settings : Settings) (level : LogLevel) (message : String) (journal : Journal) :
    Journal :=
  if settings.admits level then journal ++ [⟨level, settings.stamped, message⟩] else journal

/-- The message that announces a stage of work, for one unit if it has a name. -/
def stageMessage (stage : String) (unit : Option String) : String :=
  match unit with
  | none | some "" => stage ++ "..."
  | some unit => stage ++ " unit '" ++ unit ++ "'"

end Journal

end TypingStore
