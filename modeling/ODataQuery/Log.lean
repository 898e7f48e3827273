/-! Log levels and the selection of log lines by level. -/
namespace ODataQuery

/-- The severity of a log line, the gravest first. -/
inductive Level
  | error | warn | info | debug | trace
  deriving DecidableEq, Repr

namespace Level

def name : Level → String
  | error => "ERROR"
  | warn => "WARN"
  | info => "INFO"
  | debug => "DEBUG"
  | trace => "TRACE"

/-- The rank of a level; a graver level has a smaller rank. -/
def rank : Level → Nat
  | error => 0
  | warn => 1
  | info => 2
  | debug => 3
  | trace => 4

end Level

/-- The least grave level that is logged; with none, nothing is logged. -/
abbrev Verbosity := Option Level

def Verbosity.ofName? : String → Option Verbosity
  | "off" => some none
  | "error" => some (some .error)
  | "warn" => some (some .warn)
  | "info" => some (some .info)
  | "debug" => some (some .debug)
  | "trace" => some (some .trace)
  | _ => none

def Verbosity.admits (v : Verbosity) (level : Level) : Bool :=
  v.any fun least => level.rank ≤ least.rank

structure LogLine where
  level : Level
  message : String
  deriving DecidableEq, Repr

end ODataQuery
