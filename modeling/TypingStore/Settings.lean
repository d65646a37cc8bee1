import TypingStore.Text.Written

/-!
# Settings of a run

What a run of the checker can be told: how much it reports while it works, whether report lines
carry the time, and when a context advances its version.

* `LogLevel`: the five named levels and their ranks.
* `VersionPolicy`: which writes advance a context's version.
* `Settings.admits`: whether a line of a level is reported.
-/

namespace TypingStore

open Text

/-- The importance of a report line, from nothing at all to every step. -/
inductive LogLevel where
  | silent
  | error
  | warning
  | info
  | debug
  deriving DecidableEq

namespace LogLevel

/-- The rank of a level: a line is reported when its rank does not exceed the verbosity's. -/
def rank : LogLevel → Int
  | silent => 0
  | error => 3
  | warning => 6
  | info => 10
  | debug => 30

/-- The name a level is written with. -/
def name : LogLevel → String
  | silent => "SILENT"
  | error => "ERROR"
  | warning => "WARNING"
  | info => "INFO"
  | debug => "DEBUG"

/-- All levels, by rising rank. -/
def all : List LogLevel := [silent, error, warning, info, debug]

/-- The level of a rank. -/
def ofRank? (n : Int) : Option LogLevel := all.find? fun level => level.rank = n

/-- The level of a name. -/
def ofName? (name : String) : Option LogLevel := all.find? fun level => level.name = name

/-- The plain text of a level is its rank. -/
def plain (level : LogLevel) : String := Written.int level.rank

/-- The written form of a level. -/
def written (level : LogLevel) : String :=
  "<LogLevel." ++ level.name ++ ": " ++ level.plain ++ ">"

theorem ofRank?_eq_some_iff {n : Int} {level : LogLevel} :
    ofRank? n = some level ↔ level.rank = n := by
  constructor
  · intro found
    simpa using List.find?_some found
  · rintro rfl
    cases level <;> decide

end LogLevel

/-- Which writes advance the version of a context. -/
inductive VersionPolicy where
  /-- Only the first write after a child was created. -/
  | firstWriteAfterSpawn
  /-- Every write. -/
  | everyWrite
  deriving DecidableEq

namespace VersionPolicy

/-- The number a policy is known by. -/
def number : VersionPolicy → Int
  | firstWriteAfterSpawn => 1
  | everyWrite => 2

/-- The name a policy is written with. -/
def name : VersionPolicy → String
  | firstWriteAfterSpawn => "FIRST_WRITE_AFTER_SPAWN"
  | everyWrite => "EVERY_WRITE"

/-- The policy of a name. -/
def ofName? (name : String) : Option VersionPolicy :=
  [firstWriteAfterSpawn, everyWrite].find? fun policy => policy.name = name

/-- The plain text of a policy. -/
def plain (policy : VersionPolicy) : String := "VersionBumpPolicy." ++ policy.name

/-- The written form of a policy. -/
def written (policy : VersionPolicy) : String :=
  "<" ++ policy.plain ++ ": " ++ Written.int policy.number ++ ">"

end VersionPolicy

/-- The settings of a run. A run that is given none reports warnings, without the time, and
advances versions on the first write after a child was created. -/
structure Settings where
  /-- The highest rank that is reported; it need not be the rank of a level. -/
  verbosity : Int := LogLevel.warning.rank
  /-- Whether report lines start with the time and their level. -/
  stamped : Bool := false
  /-- When a context advances its version. -/
  versions : VersionPolicy := .firstWriteAfterSpawn
  deriving DecidableEq, Inhabited

/-- Whether a line of this level is reported. -/
def Settings.admits (settings : Settings) (level : LogLevel) : Bool :=
  level.rank ≤ settings.verbosity

end TypingStore
