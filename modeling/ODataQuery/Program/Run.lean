import ODataQuery.Program.Command
import ODataQuery.Program.Folder
import ODataQuery.Json.Codec

/-! The program: from arguments and files to an exit code, standard output and a log. A run
either prints its whole output or fails with one error in the log. -/
namespace ODataQuery

inductive Failure
  | unreadable (error : FileError)
  | undecodable (problem : Json.Problem)
  | rejected (reason : Rejection)
  deriving DecidableEq, Repr

def Failure.message : Failure → String
  | unreadable error => "Failed to read the filter tree file: " ++ error.message
  | undecodable problem => "Failed to deserialize the filter tree as JSON: " ++ problem.message
  | rejected reason => "Unsupported filter expression: " ++ reason.message

/-- The options as the log shows them. -/
def Options.describe (o : Options) : String :=
  let literals := match o.literals with
    | .inline => "Inline"
    | .bind => "Bind"
  let maxDepth := match o.maxDepth with
    | none => "None"
    | some limit => "Some(" ++ toString limit.toNat ++ ")"
  "CompileOptions \x7b literals: " ++ literals ++ ", max_depth: " ++ maxDepth ++ " \x7d"

inductive RunEvent
  /-- The tree of the file is about to be compiled. -/
  | started (path : String) (options : Options)
  | compiler (event : Event)
  | failed (failure : Failure)
  deriving DecidableEq, Repr

def RunEvent.logLine : RunEvent → LogLine
  | started path options =>
    ⟨.info, "Compiling filter tree " ++ path ++ " with " ++ options.describe⟩
  | compiler event => event.logLine
  | failed failure => ⟨.error, failure.message⟩

structure Run where
  exitCode : UInt32
  stdout : String
  events : List RunEvent

/-- What the caller of the program gets to see of a run. -/
structure Outcome where
  exitCode : UInt32
  stdout : String
  log : List LogLine
  deriving DecidableEq

namespace Run

def printed (text : String) (events : List RunEvent) : Run := ⟨0, text ++ "\n", events⟩

def failed (events : List RunEvent) (failure : Failure) : Run :=
  ⟨1, "", events ++ [.failed failure]⟩

def log (r : Run) (v : Verbosity) : List LogLine :=
  (r.events.map RunEvent.logLine).filter fun line => v.admits line.level

/-- The outcome at a verbosity, which matters for the log only. -/
def outcome (r : Run) (v : Verbosity) : Outcome := ⟨r.exitCode, r.stdout, r.log v⟩

end Run

/-- How a run gets at the bytes of files. -/
abbrev FileReader := String → Except FileError ByteArray

def treeAt (read : FileReader) (path : String) : Except Failure FilterTree := do
  let bytes ← (read path).mapError .unreadable
  let text ← (decodeText bytes).mapError .unreadable
  (FilterTree.ofJson text).mapError .undecodable

def CompileRequest.run (read : FileReader) (request : CompileRequest) : Run :=
  match treeAt read request.path with
  | .error failure => .failed [] failure
  | .ok t =>
    let events := .started request.path request.options ::
      (compileEvents request.options t).map .compiler
    match compile request.options t with
    | .ok compiled => .printed (compiled.report request.format) events
    | .error reason => .failed events (.rejected reason)

def Command.run (read : FileReader) : Command → Run
  | .version => .printed "odata-mongo 0.1.0" []
  | .operators format => .printed (Operator.catalogue format) []
  | .compile request => request.run read

/-- Runs the program, or gives advice where the arguments are not carried out. -/
def respond (read : FileReader) (arguments : List String) : Except Advice Run :=
  (Command.ofArguments arguments).map (Command.run read)

/-- The run that the arguments lead to, if they are carried out. -/
def runProgram (read : FileReader) (arguments : List String) : Option Run :=
  (respond read arguments).toOption

end ODataQuery
