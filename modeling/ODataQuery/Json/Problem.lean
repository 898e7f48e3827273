import ODataQuery.Text.Characters
import ODataQuery.Text.ShortestDecimal

/-! What can be wrong with a JSON text that is read as a value of a given type. The first
problem in the text is the one reported. -/
namespace ODataQuery.Json

/-- What stands in a text where something else is expected. -/
inductive Seen
  | null
  | bool (b : Bool)
  | integer (i : Int)
  /-- A number that is no 64-bit integer, by the bits of its binary64 value. -/
  | float (bits : UInt64)
  | text (s : String)
  | array
  | object
  deriving DecidableEq, Repr

namespace Seen

def describe : Seen → String
  | null => "null"
  | bool b => "boolean `" ++ (if b then "true" else "false") ++ "`"
  | integer i => "integer `" ++ toString i ++ "`"
  | float bits => "floating point `" ++ messageLayout.write bits ++ "`"
  | text s => "string " ++ debugQuoted s
  | array => "sequence"
  | object => "map"

end Seen

inductive Problem
  | endOfText
  /-- The text is not JSON or is nested too deeply. -/
  | malformed
  | wrongType (seen : Seen) (expected : String)
  | wrongValue (i : Int) (expected : String)
  | wrongLength (length : Nat) (expected : String)
  | unknownName (name : String) (known : List String)
  | missingField (name : String)
  | duplicateField (name : String)
  deriving DecidableEq, Repr

namespace Problem

def choice (names : List String) : String :=
  let marked := names.map fun name => "`" ++ name ++ "`"
  match marked with
  | [a, b] => a ++ " or " ++ b
  | _ => "one of " ++ ", ".intercalate marked

/-- The wording of a problem with the data of a well-formed text. -/
def dataMessage? : Problem → Option String
  | endOfText | malformed => none
  | wrongType seen expected =>
    some ("invalid type: " ++ seen.describe ++ ", expected " ++ expected)
  | wrongValue i expected =>
    some ("invalid value: " ++ (Seen.integer i).describe ++ ", expected " ++ expected)
  | wrongLength length expected =>
    some ("invalid length " ++ toString length ++ ", expected " ++ expected)
  | unknownName name known =>
    some ("unknown variant `" ++ name ++ "`, expected " ++ choice known)
  | missingField name => some ("missing field `" ++ name ++ "`")
  | duplicateField name => some ("duplicate field `" ++ name ++ "`")

def message : Problem → String
  | endOfText => "unexpected end of the text"
  | malformed => "malformed text"
  | problem => problem.dataMessage?.getD ""

end Problem

/-- Reads a value at the start of a text and returns it with what follows. -/
abbrev Reader (α : Type) := List Char → Except Problem (α × List Char)

def isSpace (c : Char) : Bool := c = ' ' || c = '\t' || c = '\n' || c = '\r'

def skipSpace (cs : List Char) : List Char := cs.dropWhile isSpace

def passWord : List Char → List Char → Except Problem (List Char)
  | [], cs => .ok cs
  | _ :: _, [] => .error .endOfText
  | w :: ws, c :: cs => if c = w then passWord ws cs else .error .malformed

def passColon (cs : List Char) : Except Problem (List Char) :=
  match skipSpace cs with
  | [] => .error .endOfText
  | ':' :: cs => .ok cs
  | _ => .error .malformed

end ODataQuery.Json
