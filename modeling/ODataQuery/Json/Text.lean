import ODataQuery.Json.Problem

/-! Strings in a JSON text. The readers start after the opening quote. -/
namespace ODataQuery.Json

def hexValue? (c : Char) : Option Nat :=
  if '0' ≤ c ∧ c ≤ '9' then some (c.toNat - '0'.toNat)
  else if 'a' ≤ c ∧ c ≤ 'f' then some (c.toNat - 'a'.toNat + 10)
  else if 'A' ≤ c ∧ c ≤ 'F' then some (c.toNat - 'A'.toNat + 10)
  else none

def codeUnit? (a b c d : Char) : Option Nat := do
  return (((← hexValue? a) * 16 + (← hexValue? b)) * 16 + (← hexValue? c)) * 16 + (← hexValue? d)

/-- The problem of an escape that needs four more digits and has fewer characters left. The
text ends too early if fewer than four bytes are left. -/
def cutEscape (cs : List Char) : Problem :=
  if (String.ofList cs).utf8ByteSize < 4 then .endOfText else .malformed

def unescape? : Char → Option Char
  | '"' => some '"'
  | '\\' => some '\\'
  | '/' => some '/'
  | 'b' => some '\x08'
  | 'f' => some '\x0c'
  | 'n' => some '\n'
  | 'r' => some '\r'
  | 't' => some '\t'
  | _ => none

/-- The first half of a character outside the basic plane. -/
def isLeading (u : Nat) : Bool := 0xD800 ≤ u && u ≤ 0xDBFF

/-- The second half of a character outside the basic plane. -/
def isTrailing (u : Nat) : Bool := 0xDC00 ≤ u && u ≤ 0xDFFF

def joinHalves (u v : Nat) : Char :=
  Char.ofNat (0x10000 + (u - 0xD800) * 0x400 + (v - 0xDC00))

/-- Puts a character before the text that is read next. -/
def consChar (c : Char) : Except Problem (List Char × List Char) →
    Except Problem (List Char × List Char)
  | .ok (s, cs) => .ok (c :: s, cs)
  | .error p => .error p

/-- The characters of a string up to its closing quote. Both halves of a character outside
the basic plane have to be there. -/
def readChars : List Char → Except Problem (List Char × List Char)
  | [] => .error .endOfText
  | ['\\'] => .error .endOfText
  | '\\' :: 'u' :: a :: b :: c :: d :: cs =>
    match codeUnit? a b c d with
    | none => .error .malformed
    | some u =>
      if isTrailing u then .error .malformed
      else if isLeading u then
        match cs with
        | '\\' :: 'u' :: a :: b :: c :: d :: cs =>
          match codeUnit? a b c d with
          | none => .error .malformed
          | some v =>
            if isTrailing v then consChar (joinHalves u v) (readChars cs)
            else .error .malformed
        | '\\' :: 'u' :: cs => .error (cutEscape cs)
        | [] | ['\\'] => .error .endOfText
        | _ => .error .malformed
      else consChar (Char.ofNat u) (readChars cs)
  | '\\' :: 'u' :: cs => .error (cutEscape cs)
  | '\\' :: e :: cs =>
    match unescape? e with
    | some c => consChar c (readChars cs)
    | none => .error .malformed
  | c :: cs =>
    if c = '"' then .ok ([], cs)
    else if c.toNat < 0x20 then .error .malformed
    else consChar c (readChars cs)

def readText : Reader String := fun cs => do
  let (s, cs) ← readChars cs
  return (String.ofList s, cs)

/-- Passes over a string whose value is not wanted. Its escapes are well formed, and the
halves of a character need not meet. -/
def skipText : List Char → Except Problem (List Char)
  | [] => .error .endOfText
  | ['\\'] => .error .endOfText
  | '\\' :: 'u' :: a :: b :: c :: d :: cs =>
    if (codeUnit? a b c d).isSome then skipText cs else .error .malformed
  | '\\' :: 'u' :: cs => .error (cutEscape cs)
  | '\\' :: e :: cs => if (unescape? e).isSome then skipText cs else .error .malformed
  | c :: cs =>
    if c = '"' then .ok cs
    else if c.toNat < 0x20 then .error .malformed
    else skipText cs

end ODataQuery.Json
