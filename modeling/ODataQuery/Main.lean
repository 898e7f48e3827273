import ODataQuery.Program.Run

/-! The executable: reads the tree file, prints the output of the run and its log. -/
namespace ODataQuery

/-- The file error that a system error stands for. System codes come with either sign. -/
def fileErrorOf : IO.Error → FileError
  | .noFileOrDirectory _ _ _ => .notFound
  | .inappropriateType _ code details =>
    if code = 21 ∨ code = -21 then .isDirectory
    else if code = 20 ∨ code = -20 then .notDirectory
    else .other details
  | .invalidArgument _ code details =>
    if code = 36 ∨ code = -36 then .nameTooLong else .other details
  | e => .other (toString e)

def readBytes (path : String) : IO (Except FileError ByteArray) :=
  try
    return .ok (← IO.FS.readBinFile path)
  catch e => return .error (fileErrorOf e)

def verbosity : IO Verbosity := do
  let asked := (← IO.getEnv "RUST_LOG").bind Verbosity.ofName?
  return asked.getD (some .info)

def perform (command : Command) : IO UInt32 := do
  let bytes ← match command with
    | .compile request => readBytes request.path
    | _ => pure (.error .notFound)
  let outcome := (command.run fun _ => bytes).outcome (← verbosity)
  for line in outcome.log do
    IO.eprintln (line.level.name ++ " " ++ line.message)
  IO.print outcome.stdout
  return outcome.exitCode

end ODataQuery

def main (arguments : List String) : IO UInt32 :=
  match ODataQuery.Command.ofArguments arguments with
  | .ok command => ODataQuery.perform command
  | .error advice => do
    IO.eprintln "usage: odata-mongo compile --tree <file> [--bind] [--max-depth <n>] [--json]"
    IO.eprintln "       odata-mongo operators [--json]"
    return advice.exitCode
