import ODataQuery.Json.Number
import ODataQuery.Json.Text

/-! Passing over a JSON value of any depth. The brackets that are open are kept in a list,
the innermost first, so the depth is not limited. -/
namespace ODataQuery.Json

inductive Bracket
  | array | object
  deriving DecidableEq, Repr

/-- What may come next inside a value. -/
inductive Awaiting
  | value
  /-- A value or the end of an array, after its opening bracket. -/
  | item
  /-- A key or the end of an object, after its opening brace. -/
  | member
  /-- A key, after a comma. -/
  | key
  /-- A comma or the end of the innermost array or object. -/
  | comma
  deriving DecidableEq, Repr

/-- Passes over a value that is neither an array nor an object. -/
def skipScalar : List Char → Except Problem (List Char)
  | 'n' :: cs => passWord ['u', 'l', 'l'] cs
  | 't' :: cs => passWord ['r', 'u', 'e'] cs
  | 'f' :: cs => passWord ['a', 'l', 's', 'e'] cs
  | '"' :: cs => skipText cs
  | c :: cs => if c = '-' ∨ c.isDigit then skipNumber (c :: cs) else .error .malformed
  | [] => .error .endOfText

def skipKey : List Char → Except Problem (List Char)
  | [] => .error .endOfText
  | '"' :: cs => do passColon (← skipText cs)
  | _ => .error .malformed

def Bracket.next : Bracket → Awaiting
  | array => .value
  | object => .key

/-- Passes over the rest of a value. Every step takes a character, so a number of steps
above the length of the text is never used up. -/
def skipFrom : Nat → Awaiting → List Bracket → List Char → Except Problem (List Char)
  | 0, _, _, _ => .error .malformed
  | n + 1, awaiting, brackets, cs =>
    let closed := fun (outer : List Bracket) (cs : List Char) =>
      if outer = [] then .ok cs else skipFrom n .comma outer cs
    match awaiting, brackets, skipSpace cs with
    | _, _, [] => .error .endOfText
    | .item, .array :: outer, ']' :: cs => closed outer cs
    | .member, .object :: outer, '}' :: cs => closed outer cs
    | .comma, .array :: outer, ']' :: cs => closed outer cs
    | .comma, .object :: outer, '}' :: cs => closed outer cs
    | .comma, bracket :: outer, ',' :: cs => skipFrom n bracket.next (bracket :: outer) cs
    | .comma, _, _ => .error .malformed
    | .member, _, cs | .key, _, cs => do skipFrom n .value brackets (← skipKey cs)
    | _, _, '[' :: cs => skipFrom n .item (.array :: brackets) cs
    | _, _, '{' :: cs => skipFrom n .member (.object :: brackets) cs
    | _, _, cs => do closed brackets (← skipScalar cs)

def skipValue (cs : List Char) : Except Problem (List Char) :=
  skipFrom (cs.length + 1) .value [] cs

end ODataQuery.Json
