/-
  Loggers by name.

  The loggers of the library bear names under a common first part and are kept in a cache once they
  were asked for. A logger that nobody has set up gets one handler; one that somebody else has set
  up is left as it is. A message passes a logger, then each of its handlers, if it is important
  enough for them.
-/
import TrustRegion.Logging.Format

namespace TrustRegion

namespace Logging

/-- Where lines are written. -/
inductive Stream
  /-- The standard error stream. -/
  | standardError
  /-- A stream of the caller's; the number tells one from another. -/
  | caller (number : Nat)
deriving Repr, DecidableEq

/-- The first of the caller's streams. -/
def Stream.buffer : Stream := caller 0

/-- Writes the messages that are important enough to a stream. -/
structure Handler where
  /-- The least importance. -/
  level : Level
  /-- Where lines go. -/
  stream : Stream
  /-- The layout of a line. -/
  format : Format
deriving Repr, DecidableEq

/-- A place to give messages to. -/
structure Logger where
  /-- The least importance; `Level.unset` leaves it to the logger above. -/
  level : Level
  /-- Who writes the messages, in this order. -/
  handlers : List Handler
  /-- Whether messages also go to the loggers above. -/
  propagate : Bool
deriving Repr, DecidableEq

/-- The loggers there are, and which of them the library has in its cache. -/
structure Registry where
  /-- The level of loggers that are set up from now on. -/
  defaultLevel : Level
  /-- Every logger under its name. -/
  loggers : List (String × Logger)
  /-- The names of the loggers in the cache, the oldest first. -/
  cached : List String
deriving Repr, DecidableEq

/-- The first part of the names of all loggers of the library. -/
def rootName : String := "tronopt"

/-- The logger of the subproblem solver. -/
def solverName : String := "tronopt.optimize.subproblem"

/-- The logger of the controller, which runs the iterations. -/
def controllerName : String := "tronopt.optimize.trust_region"

/-- The full name of a logger: under the common first part unless it is there already. -/
def qualifiedName (name : Option String) : String :=
  match name with
  | none => rootName
  | some name =>
    if name = rootName ∨ (rootName ++ ".").toList.isPrefixOf name.toList then name
    else rootName ++ "." ++ name

/-- The layout of a line unless another one is asked for. -/
def defaultLayout : String := "[%(levelname)s] %(name)s: %(message)s"

/-- The format with the layout `defaultLayout`. -/
def defaultFormat : Format := ⟨Format.read .text defaultLayout.toList⟩

namespace Registry

/-- The logger of a name. -/
def find? (r : Registry) (name : String) : Option Logger := r.loggers.lookup name

/-- A logger put under a name; one that is there already is replaced in its place. -/
def put (r : Registry) (name : String) (logger : Logger) : Registry :=
  if (r.find? name).isSome then
    { r with loggers := r.loggers.map fun entry =>
        if entry.1 = name then (name, logger) else entry }
  else { r with loggers := r.loggers ++ [(name, logger)] }

/-- A logger with one handler on the standard error stream, both of the default level. -/
def fresh (r : Registry) : Logger where
  level := r.defaultLevel
  handlers := [⟨r.defaultLevel, .standardError, defaultFormat⟩]
  propagate := false

/-- Sets a logger up, if nobody has, and caches it under its full name. -/
def obtain (r : Registry) (name : String) : Registry :=
  if r.cached.contains name then r
  else
    let known := match r.find? name with
      | some logger => !logger.handlers.isEmpty
      | none => false
    let r := if known then r else r.put name r.fresh
    { r with cached := r.cached ++ [name] }

/-- The registry once the logger of a name was asked for. -/
def get (r : Registry) (name : Option String) : Registry := r.obtain (qualifiedName name)

/-- No logger but those of the solver and of the controller, set up for warnings. -/
def initial : Registry :=
  let empty : Registry := { defaultLevel := Level.warning, loggers := [], cached := [] }
  (empty.obtain solverName).obtain controllerName

/-- Every logger in the cache changed. -/
def mapCached (r : Registry) (change : Logger → Logger) : Registry :=
  { r with loggers := r.loggers.map fun entry =>
      if r.cached.contains entry.1 then (entry.1, change entry.2) else entry }

/-- The level of every cached logger, of its handlers, and of loggers set up later. -/
def setLevel {α : Type} (r : Registry) (choice : LevelChoice) : Except (Fault α) Registry := do
  let level ← choice.toLevel
  let changed := r.mapCached fun logger =>
    { logger with level, handlers := logger.handlers.map fun handler => { handler with level } }
  pure { changed with defaultLevel := level }

/--
One handler for every cached logger in place of those it had, with the given level, layout and
stream. An empty layout means the default one. Loggers set up later get the level only. The layout
is checked before the level.
-/
def configure {α : Type} (r : Registry) (choice : LevelChoice) (layout : Option String)
    (stream : Stream) : Except (Fault α) Registry := do
  let text := match layout with
    | some "" | none => defaultLayout
    | some text => text
  let format ← Format.parse text
  let level ← choice.toLevel
  let changed := r.mapCached fun logger =>
    { logger with level, handlers := [⟨level, stream, format⟩] }
  pure { changed with defaultLevel := level }

/-- The logger above all others, which has two names. -/
def topName : String := "root"

/--
A handler added, and the level set, by someone who does not use the cache. The empty name is that of
the logger above all others.
-/
def addForeign (r : Registry) (name : String) (level : Level) (handler : Handler) : Registry :=
  let name := if name = "" then topName else name
  let handlers := match r.find? name with
    | some logger => logger.handlers
    | none => []
  r.put name { level, handlers := handlers ++ [handler], propagate := false }

/--
The names above a name: what stands before its last dot, then before the last dot of the rest, and
so on. The character before a dot that was found is passed over.
-/
def ancestors (name : String) : List String :=
  go name.toList name.toList.length false
where
  /-- The ancestors that end before one of the first `bound` characters. -/
  go (cs : List Char) : (bound : Nat) → (passOver : Bool) → List String
    | 0, _ => []
    | bound + 1, passOver =>
      if !passOver && cs[bound]? == some '.' && 0 < bound then
        String.ofList (cs.take bound) :: go cs bound true
      else go cs bound false

/-- The level of the logger above all others; `warning` unless somebody has set it. -/
def topLevel (r : Registry) : Level := ((r.find? topName).map Logger.level).getD Level.warning

/-- The first level that is set, on the logger or above it, or else that of the top. -/
def effectiveLevel (r : Registry) (name : String) : Level :=
  let levels := (name :: ancestors name).filterMap fun n => (r.find? n).map Logger.level
  (levels.find? fun level => level != Level.unset).getD r.topLevel

/--
The lines that a message becomes, each with the stream it goes to. A message of level zero or below
is never let through.
-/
def write (r : Registry) (message : Message) : List (Stream × String) :=
  match r.find? message.logger with
  | none => []
  | some logger =>
    if 0 < message.level ∧ r.effectiveLevel message.logger ≤ message.level then
      logger.handlers.filterMap fun handler =>
        if handler.level ≤ message.level then
          (handler.format.line message).map fun line => (handler.stream, line)
        else none
    else []

end Registry

end Logging

end TrustRegion
