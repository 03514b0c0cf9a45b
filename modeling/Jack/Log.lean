namespace Jack

/-!
# Log records

What the program tells about its work, apart from its result.  Records are collected in order; which
of them are shown depends on the least level that is asked for.
-/

/-- How important a record is, the most important level first. -/
inductive Level
  | error | warn | info | debug | trace
deriving DecidableEq

namespace Level

/-- The name of a level in records. -/
def name : Level → String
  | error => "ERROR"
  | warn => "WARN"
  | info => "INFO"
  | debug => "DEBUG"
  | trace => "TRACE"

/-- Every level, the most important first. -/
def all : List Level := [error, warn, info, debug, trace]

/-- The place of a level in the order of importance. -/
def rank : Level → Nat
  | error => 1
  | warn => 2
  | info => 3
  | debug => 4
  | trace => 5

end Level

/-- A log record. -/
structure Record where
  level : Level
  message : String
deriving DecidableEq

/-- Which records are shown: all down to a level, or none at all. -/
abbrev Verbosity := Option Level

namespace Verbosity

/-- The word for a verbosity: `off`, or the name of a level in lower case. -/
def ofWord? : String → Option Verbosity
  | "off" => some none
  | "error" => some (some .error)
  | "warn" => some (some .warn)
  | "info" => some (some .info)
  | "debug" => some (some .debug)
  | "trace" => some (some .trace)
  | _ => none

/-- The record is shown. -/
def shows (v : Verbosity) (r : Record) : Bool :=
  match v with
  | none => false
  | some least => r.level.rank ≤ least.rank

end Verbosity

end Jack
