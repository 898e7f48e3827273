/-! Templates: text with numbered slots. In a pattern a slot is written as an index in
braces, and every other brace is plain text. A template takes exactly as many arguments as
its highest index asks for and never looks into an argument. -/
namespace ODataQuery

/-- A stretch of plain text or a numbered slot. -/
inductive Piece
  | text (s : String)
  | slot (index : Nat)
  deriving DecidableEq, Repr

def Piece.pattern : Piece → String
  | text s => s
  | slot index => "\x7b" ++ toString index ++ "\x7d"

def Piece.resolve (arguments : List String) : Piece → String
  | text s => s
  | slot index => arguments.getD index ""

abbrev Template := List Piece

namespace Template

/-- The index of a slot and the number of its digits, read behind an opening brace. A closing
brace has to follow, and the index is a 64-bit word. -/
def slotIndex? (cs : List Char) : Option (Nat × Nat) :=
  let digits := cs.takeWhile Char.isDigit
  let index := Nat.ofDigitChars 10 digits 0
  if digits ≠ [] ∧ cs[digits.length]? = some '}' ∧ index < UInt64.size then
    some (index, digits.length)
  else none

/-- A stretch of text as a template; nothing if it is empty. -/
def ofText (cs : List Char) : Template := if cs = [] then [] else [.text (String.ofList cs)]

/-- Splits a pattern from left to right. What has been read since the last slot is held back
until the next slot or the end of the pattern. -/
def split (text : List Char) : List Char → Template
  | [] => ofText text
  | c :: cs =>
    match if c = '{' then slotIndex? cs else none with
    | some (index, digits) =>
      -- go on behind the closing brace
      ofText text ++ .slot index :: split [] (cs.drop (digits + 1))
    | none => split (text ++ [c]) cs
termination_by cs => cs.length

def ofPattern (pattern : String) : Template := split [] pattern.toList

def pattern (t : Template) : String := String.join (t.map Piece.pattern)

/-- The number of arguments a template takes: its highest slot index plus one. -/
def arity : Template → Nat
  | [] => 0
  | .text _ :: rest => arity rest
  | .slot index :: rest => max (index + 1) (arity rest)

/-- The text with each slot replaced by the argument of its index, or nothing if the
template takes another number of arguments. -/
def instantiate? (t : Template) (arguments : List String) : Option String :=
  if arguments.length = arity t then some (String.join (t.map (Piece.resolve arguments)))
  else none

end Template
end ODataQuery
