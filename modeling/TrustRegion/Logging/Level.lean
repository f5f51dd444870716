/-
  Levels of importance in a log.

  A level is a whole number; six of them have names. A level may be asked for by name in any case.
-/
import TrustRegion.Fault

namespace TrustRegion

namespace Logging

/-- The importance of a message, or the least importance that is let through. -/
abbrev Level := Int

namespace Level

/-- No level of its own. -/
def unset : Level := 0

/-- Details for finding mistakes. -/
def debug : Level := 10

/-- What a run did. -/
def info : Level := 20

/-- Something unexpected. -/
def warning : Level := 30

/-- Something failed. -/
def error : Level := 40

/-- Nothing works. -/
def critical : Level := 50

/-- The name of a level; one without a name is written with its number. -/
def name (level : Level) : String :=
  if level = unset then "NOTSET"
  else if level = debug then "DEBUG"
  else if level = info then "INFO"
  else if level = warning then "WARNING"
  else if level = error then "ERROR"
  else if level = critical then "CRITICAL"
  else "Level " ++ level.repr

/--
A character in capital letters. Beyond ASCII only the dotless i, the long s and two ligatures have
capitals among the letters of the names below.
-/
def capitals (c : Char) : List Char :=
  if c = 'ı' then ['I'] else if c = 'ſ' then ['S']
  else if c = '\uFB05' ∨ c = '\uFB06' then ['S', 'T'] else [c.toUpper]

/--
The level of a name, in any case; an unknown name means `warning`. Two names belong to other
settings of a log, a layout and a table of styles; they are no levels.
-/
def ofName {φ : Type} (name : String) : Except (Fault φ) Level :=
  match String.ofList (name.toList.flatMap capitals) with
  | "NOTSET" => pure unset
  | "DEBUG" => pure debug
  | "INFO" => pure info
  | "WARN" | "WARNING" => pure warning
  | "ERROR" => pure error
  | "FATAL" | "CRITICAL" => pure critical
  | "BASIC_FORMAT" => throw .levelText
  | "_STYLES" => throw .levelKind
  | _ => pure warning

end Level

/-- A level, asked for by number or by name. -/
inductive LevelChoice
  /-- By number. -/
  | number (level : Level)
  /-- By name. -/
  | named (name : String)
deriving Repr, DecidableEq

/-- The level that is asked for. -/
def LevelChoice.toLevel {φ : Type} : LevelChoice → Except (Fault φ) Level
  | number level => pure level
  | named name => Level.ofName name

end Logging

end TrustRegion
