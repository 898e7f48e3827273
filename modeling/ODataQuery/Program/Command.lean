import ODataQuery.Program.Report

/-! The command line: what the program is asked to do, read from its arguments. Options
may come in any order and each at most once; a value follows its option as the next
argument or after an equals sign. Arguments that are not understood, and those that ask for
help, are not carried out. -/
namespace ODataQuery

inductive Setting
  | tree (path : String)
  | bind
  | json
  | maxDepth (limit : UInt64)
  deriving DecidableEq, Repr

/-- Reads a 64-bit word: an optional plus sign, then decimal digits. -/
def readWord? (s : String) : Option UInt64 :=
  let digits := match s.toList with
    | '+' :: cs => cs
    | cs => cs
  let value := Nat.ofDigitChars 10 digits 0
  if digits ≠ [] ∧ digits.all Char.isDigit ∧ value < UInt64.size then some (UInt64.ofNat value)
  else none

/-- The name and the value of an argument that joins them with an equals sign. -/
def splitAssignment? (s : String) : Option (String × String) :=
  match s.toList.dropWhile (· ≠ '=') with
  | [] => none
  | _ :: value => some (String.ofList (s.toList.takeWhile (· ≠ '=')), String.ofList value)

/-- An argument that looks like an option cannot be the value of one. A single dash is a
value. -/
def looksLikeOption (s : String) : Bool :=
  match s.toList with
  | '-' :: _ :: _ => true
  | _ => false

namespace Setting

def option : Setting → String
  | tree _ => "--tree"
  | bind => "--bind"
  | json => "--json"
  | maxDepth _ => "--max-depth"

def ofFlag? (name : String) : Option Setting :=
  if name = "--bind" then some bind
  else if name = "--json" then some json
  else none

def ofValue? (name value : String) : Option Setting :=
  if name = "--tree" then some (tree value)
  else if name = "--max-depth" then (readWord? value).map maxDepth
  else none

/-- Reads all arguments as settings. Two dashes may end them. -/
def readAll : List String → Option (List Setting)
  | [] => some []
  | argument :: rest =>
    if argument = "--" ∧ rest = [] then some []
    else
      match ofFlag? argument, splitAssignment? argument with
      | some s, _ => (readAll rest).map (s :: ·)
      | none, some (name, value) => do
        let s ← ofValue? name value
        (readAll rest).map (s :: ·)
      | none, none =>
        match rest with
        | [] => none
        | value :: rest =>
          if looksLikeOption value then none
          else do
            let s ← ofValue? argument value
            (readAll rest).map (s :: ·)

def path? : Setting → Option String
  | tree path => some path
  | _ => none

def limit? : Setting → Option UInt64
  | maxDepth limit => some limit
  | _ => none

/-- Whether each option is given at most once. -/
def distinct (settings : List Setting) : Bool := decide (settings.map option).Nodup

def format (settings : List Setting) : Format :=
  if settings.contains json then .json else .plain

end Setting

/-- What the caller is told instead of a run. -/
inductive Advice
  | usageError
  | help
  deriving DecidableEq, Repr

namespace Advice

def exitCode : Advice → UInt32
  | usageError => 2
  | help => 0

def asksHelp (argument : String) : Bool :=
  argument = "--help" || ['-', 'h'].isPrefixOf argument.toList

/-- What is said about the options of a command that are not carried out. Help is given if it is
asked for before anything is wrong: what stands in front is read and accepted. -/
def onOptions (accepts : List Setting → Bool) (arguments : List String) : Advice :=
  let before := arguments.takeWhile fun argument => !asksHelp argument
  -- behind two dashes nothing is an option
  if before ≠ arguments ∧ !before.contains "--" ∧ (Setting.readAll before).any accepts then .help
  else .usageError

end Advice

structure CompileRequest where
  path : String
  options : Options
  format : Format
  deriving DecidableEq, Repr

inductive Command
  | version
  | operators (format : Format)
  | compile (request : CompileRequest)
  deriving DecidableEq, Repr

/-- The compile request that the settings make; they have to name a file. -/
def CompileRequest.ofSettings? (settings : List Setting) : Option CompileRequest := do
  let path ← settings.findSome? Setting.path?
  if Setting.distinct settings then
    return {
      path
      options := {
        literals := if settings.contains .bind then .bind else .inline
        maxDepth := settings.findSome? Setting.limit? }
      format := Setting.format settings }
  else none

namespace Command

/-- The listing that the settings ask for; only the output format can be chosen. -/
def listing? (settings : List Setting) : Option Command :=
  if Setting.distinct settings ∧ settings.all (· = .json) then
    some (.operators (Setting.format settings))
  else none

def asksVersion (argument : String) : Bool :=
  argument = "--version" || ['-', 'V'].isPrefixOf argument.toList

/-- Whether help is asked for by a command of its own, which may name another command. -/
def asksHelp (first : String) (rest : List String) : Bool :=
  Advice.asksHelp first ||
    (first = "help" && [[], ["compile"], ["operators"], ["help"]].contains rest)

/-- Reads the arguments of the program. Without a command they make no sense. -/
def ofArguments : List String → Except Advice Command
  | [] => .error .usageError
  | first :: rest =>
    -- no option asks for help, so only arguments that give no request can do so
    if first = "compile" then
      match (Setting.readAll rest).bind CompileRequest.ofSettings? with
      | some request => .ok (.compile request)
      | none => .error (.onOptions Setting.distinct rest)
    else if first = "operators" then
      match (Setting.readAll rest).bind listing? with
      | some command => .ok command
      | none => .error (.onOptions (fun settings => (listing? settings).isSome) rest)
    else if asksVersion first then .ok .version
    else if asksHelp first rest then .error .help
    else .error .usageError

end Command
end ODataQuery
