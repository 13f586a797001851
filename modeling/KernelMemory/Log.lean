/-!
# Log records

A log record has a level, the name of the component that wrote it and a message.  A filter admits
the records at one level and all graver ones.  The order of gravity is error, warn, info, debug,
trace.
-/

namespace KernelMemory.Log

/-- How grave a record is. -/
inductive Level where
  | error
  | warn
  | info
  | debug
  | trace
  deriving DecidableEq, Repr

namespace Level

/-- Position in the order of gravity; the gravest level comes first. -/
def rank : Level → Nat
  | error => 1
  | warn => 2
  | info => 3
  | debug => 4
  | trace => 5

/-- The level's name as it stands in a line. -/
def label : Level → String
  | error => "ERROR"
  | warn => "WARN"
  | info => "INFO"
  | debug => "DEBUG"
  | trace => "TRACE"

/-- All levels, the gravest first. -/
def all : List Level :=
  [error, warn, info, debug, trace]

/-- The level with the given name, in any letter case. -/
def ofLabel? (text : String) : Option Level :=
  all.find? fun level => level.label == text.toUpper

end Level

/-- Which records are let through. -/
inductive Filter where
  /-- No record. -/
  | off
  /-- The records of this level and of graver ones. -/
  | upTo (level : Level)
  deriving DecidableEq, Repr

namespace Filter

/-- Whether records of `level` are let through. -/
def admits : Filter → Level → Bool
  | off, _ => false
  | upTo most, level => level.rank ≤ most.rank

/-- The filter with the given name, in any letter case: a level's name, or `off`. -/
def ofLabel? (text : String) : Option Filter :=
  if text.toUpper == "OFF" then some off else (Level.ofLabel? text).map upTo

end Filter

/-- One line of diagnostics. -/
structure Record where
  /-- How grave it is. -/
  level : Level
  /-- The component that wrote it. -/
  target : String
  /-- What it says. -/
  message : String
  deriving DecidableEq, Repr

/-- The record as a line of text, with its line break. -/
def Record.line (r : Record) : String :=
  "[" ++ r.level.label ++ "] " ++ r.target ++ ": " ++ r.message ++ "\n"

/-- Why a log sink could not be installed. -/
inductive SinkError where
  /-- Another sink was installed before. -/
  | alreadyInstalled
  deriving DecidableEq, Repr

/-- The wording of the error. -/
def SinkError.message : SinkError → String
  | alreadyInstalled => "attempted to set a logger after the logging system was already initialized"

/-- Install a log sink; `installed` says whether there is one already. -/
def install (installed : Bool) : Except SinkError Unit :=
  if installed then .error .alreadyInstalled else .ok ()

end KernelMemory.Log
