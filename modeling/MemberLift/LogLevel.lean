import MemberLift.Fault

/-!
Log levels, each with a number.  A level is given by its name in any case or by its number, and each
request for more output lowers the level by one step.
-/
namespace MemberLift

inductive LogLevel where
  | trace
  | debug
  | info
  | warning
  | error
  | critical
  deriving DecidableEq, Repr

namespace LogLevel

def all : List LogLevel := [trace, debug, info, warning, error, critical]

def value : LogLevel → Nat
  | .trace => 5
  | .debug => 10
  | .info => 20
  | .warning => 30
  | .error => 40
  | .critical => 50

def name : LogLevel → Text
  | .trace => "TRACE".toList
  | .debug => "DEBUG".toList
  | .info => "INFO".toList
  | .warning => "WARNING".toList
  | .error => "ERROR".toList
  | .critical => "CRITICAL".toList

/-- The label of a log line; the two highest levels share theirs. -/
def label : LogLevel → Text
  | .warning => "WARN".toList
  | .critical => LogLevel.error.name
  | level => level.name

/-- The spellings of a level: its name, its number, and a short name for warnings. -/
def spellings (level : LogLevel) : List Text :=
  level.name.map Char.toLower :: Text.ofNat level.value ::
    (if level = .warning then ["warn".toList] else [])

def ofText (t : Text) : Except SettingsFault LogLevel :=
  let lowered := t.trim.map Char.toLower
  match all.find? fun level => level.spellings.contains lowered with
  | some level => .ok level
  | none => .error (.unknownLevel lowered)

def lower : LogLevel → LogLevel
  | .critical => .error
  | .error => .warning
  | .warning => .info
  | .info => .debug
  | .debug | .trace => .trace

def lowerBy : Nat → LogLevel → LogLevel
  | 0, level => level
  | n + 1, level => lowerBy n level.lower

end LogLevel

end MemberLift
