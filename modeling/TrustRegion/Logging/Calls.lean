/-
  What an application asks of the loggers, call by call.

  A call works on the registry where it is: the cached loggers are changed one after the other, and
  where handlers are replaced, all that are there are taken off one by one before the new one is put
  on. Where a call is refused, the registry stays as the call has left it by then.
-/
import TrustRegion.Logging.Registry

namespace TrustRegion

namespace Logging

namespace Logger

/-- The level of a logger and of its handlers set. -/
def withLevel (logger : Logger) (level : Level) : Logger :=
  { logger with level, handlers := logger.handlers.map fun handler => { handler with level } }

/-- The level set, every handler taken off, the first one first, and a new one put on. -/
def rewired (logger : Logger) (level : Level) (handler : Handler) : Logger :=
  let bare := logger.handlers.foldl List.erase logger.handlers
  { logger with level, handlers := bare ++ [handler] }

end Logger

/-- The text of a layout that is asked for; an empty one means the default. -/
def layoutText (layout : Option String) : String :=
  match layout with
  | some "" | none => defaultLayout
  | some text => text

namespace Registry

/-- The logger of a name changed. -/
def change (r : Registry) (name : String) (f : Logger → Logger) : Registry :=
  { r with loggers := r.loggers.map fun entry =>
      if entry.1 = name then (name, f entry.2) else entry }

end Registry

/-- A call of an application. -/
inductive Call
  /-- Asks for the logger of a name. -/
  | get (name : Option String)
  /-- Sets the level of all loggers. -/
  | setLevel (choice : LevelChoice)
  /-- Sets the level of all loggers, and the layout and the stream of those there are. -/
  | configure (choice : LevelChoice) (layout : Option String) (stream : Stream)
deriving Repr, DecidableEq

namespace Call

variable {φ : Type}

/-- Each cached logger changed where it is, the oldest first. -/
def changeEach (f : Logger → Logger) : EStateM (Fault φ) Registry Unit := do
  (← MonadState.get).cached.forM fun name => modify fun r => r.change name f

/-- The level of loggers that are set up from now on. -/
def setDefault (level : Level) : EStateM (Fault φ) Registry Unit :=
  modify fun r => { r with defaultLevel := level }

/-- Asks for the logger of a name; the answer is the name that it is kept under. -/
def request (name : Option String) : EStateM (Fault φ) Registry String := do
  modify fun r => r.get name
  pure (qualifiedName name)

/-- What a call does. -/
def perform : Call → EStateM (Fault φ) Registry Unit
  | get name => discard (request name)
  | setLevel choice => do
    let level ← MonadExcept.ofExcept choice.toLevel
    changeEach fun logger => logger.withLevel level
    setDefault level
  | configure choice layout stream => do
    let format ← MonadExcept.ofExcept (Format.parse (layoutText layout))
    let level ← MonadExcept.ofExcept choice.toLevel
    changeEach fun logger => logger.rewired level ⟨level, stream, format⟩
    setDefault level

/-- Calls one after the other, up to the first that is refused. -/
def performAll (calls : List Call) : EStateM (Fault φ) Registry Unit := calls.forM perform

end Call

end Logging

end TrustRegion
