/-! JSON values and their two written forms: compact, without any white space, and
pretty, with one item on a line and two spaces of indentation for each level. -/
namespace ODataQuery

/-- A JSON value, as far as it is written: numbers are natural. -/
inductive Json
  | null
  | bool (b : Bool)
  | number (n : Nat)
  | text (s : String)
  | array (items : List Json)
  | object (entries : List (String × Json))

namespace Json

/-- The written form of a character inside a string. Quotes, backslashes and the
characters below U+0020 are escaped, all others stand for themselves. -/
def escape (c : Char) : List Char :=
  match c with
  | '"' => ['\\', '"']
  | '\\' => ['\\', '\\']
  | '\x08' => ['\\', 'b']
  | '\t' => ['\\', 't']
  | '\n' => ['\\', 'n']
  | '\x0c' => ['\\', 'f']
  | '\r' => ['\\', 'r']
  | c =>
    if c.toNat < 0x20 then
      ['\\', 'u', '0', '0', Nat.digitChar (c.toNat / 16), Nat.digitChar (c.toNat % 16)]
    else [c]

def quoted (s : String) : String := String.ofList ('"' :: s.toList.flatMap escape ++ ['"'])

mutual

def compact : Json → String
  | null => "null"
  | bool b => if b then "true" else "false"
  | number n => toString n
  | text s => quoted s
  | array items => "[" ++ ",".intercalate (compactItems items) ++ "]"
  | object entries => "\x7b" ++ ",".intercalate (compactEntries entries) ++ "\x7d"

def compactItems : List Json → List String
  | [] => []
  | item :: rest => item.compact :: compactItems rest

def compactEntries : List (String × Json) → List String
  | [] => []
  | (key, value) :: rest => (quoted key ++ ":" ++ value.compact) :: compactEntries rest

end

/-- Lines between two brackets, each after the margin and two spaces more; without any
line the brackets stand together. -/
def block (opening closing margin : String) (lines : List String) : String :=
  if lines = [] then opening ++ closing
  else
    opening ++ "\n" ++ ",\n".intercalate (lines.map (margin ++ "  " ++ ·)) ++
      "\n" ++ margin ++ closing

mutual

/-- The written form on several lines, each but the first after the given margin. -/
def prettyAt (margin : String) : Json → String
  | null => "null"
  | bool b => if b then "true" else "false"
  | number n => toString n
  | text s => quoted s
  | array items => block "[" "]" margin (prettyItems (margin ++ "  ") items)
  | object entries => block "\x7b" "\x7d" margin (prettyEntries (margin ++ "  ") entries)

def prettyItems (margin : String) : List Json → List String
  | [] => []
  | item :: rest => item.prettyAt margin :: prettyItems margin rest

def prettyEntries (margin : String) : List (String × Json) → List String
  | [] => []
  | (key, value) :: rest =>
    (quoted key ++ ": " ++ value.prettyAt margin) :: prettyEntries margin rest

end

def pretty (j : Json) : String := j.prettyAt ""

end Json
end ODataQuery
