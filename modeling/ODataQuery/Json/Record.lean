import ODataQuery.Json.Skip

/-! Readers for the shapes of typed data: strings, names from a fixed list, sequences and
records. Each bracket that a typed reader opens takes one of a limited number of levels.
A record is written as an object with its fields in any order, or as an array with its
fields by position. -/
namespace ODataQuery.Json

/-- What stands at the start of a text that begins with a character other than white space.
Arrays and objects are known by their opening bracket. -/
def look : List Char → Except Problem Seen
  | [] => .error .endOfText
  | 'n' :: cs => do
    let _ ← passWord ['u', 'l', 'l'] cs
    return .null
  | 't' :: cs => do
    let _ ← passWord ['r', 'u', 'e'] cs
    return .bool true
  | 'f' :: cs => do
    let _ ← passWord ['a', 'l', 's', 'e'] cs
    return .bool false
  | '"' :: cs => do
    let (s, _) ← readText cs
    return .text s
  | '[' :: _ => .ok .array
  | '{' :: _ => .ok .object
  | c :: cs =>
    if c = '-' ∨ c.isDigit then
      match readNumber (c :: cs) with
      | .ok (.integer i, _) => .ok (.integer i)
      | .ok (.float bits, _) => .ok (.float bits)
      | .error p => .error p
    else .error .malformed

def mismatch (expected : String) (cs : List Char) : Problem :=
  match look cs with
  | .ok seen => .wrongType seen expected
  | .error p => p

def readString (expected : String) : Reader String := fun cs =>
  match skipSpace cs with
  | '"' :: cs => readText cs
  | cs => .error (mismatch expected cs)

def readNull (expected : String) (cs : List Char) : Except Problem (List Char) :=
  match skipSpace cs with
  | 'n' :: cs => passWord ['u', 'l', 'l'] cs
  | cs => .error (mismatch expected cs)

/-- Whether a value follows in an array, and the text from there on. After the last value
the text is returned from the closing bracket on. -/
def nextItem (first : Bool) : Reader Bool := fun cs =>
  match skipSpace cs with
  | [] => .error .endOfText
  | ']' :: cs => .ok (false, cs)
  | ',' :: cs =>
    if first then .ok (true, ',' :: cs)
    else
      match skipSpace cs with
      | [] => .error .endOfText
      | ']' :: _ => .error .malformed
      | cs => .ok (true, cs)
  | cs => if first then .ok (true, cs) else .error .malformed

/-- Reads a key. Nothing but a string can stand in its place. -/
def readKey : Reader String := fun cs =>
  match skipSpace cs with
  | [] => .error .endOfText
  | '"' :: cs => readText cs
  | _ => .error .malformed

/-- Reads the next key of an object, or its closing brace. -/
def nextKey (first : Bool) : Reader (Option String) := fun cs =>
  match skipSpace cs with
  | [] => .error .endOfText
  | '}' :: cs => .ok (none, cs)
  | ',' :: cs =>
    if first then .error .malformed
    else do
      let (name, cs) ← readKey cs
      return (some name, cs)
  | cs =>
    if first then do
      let (name, cs) ← readKey cs
      return (some name, cs)
    else .error .malformed

/-- Reads the values of an array after its opening bracket. Each takes a character, so a
number of steps above the length of the text is never used up. -/
def readItems {α : Type} (item : Reader α) : Nat → Bool → Reader (List α)
  | 0, _, _ => .error .malformed
  | n + 1, first, cs => do
    let (more, cs) ← nextItem first cs
    if more then
      let (a, cs) ← item cs
      let (as, cs) ← readItems item n false cs
      return (a :: as, cs)
    else return ([], cs)

def readSequence {α : Type} (levels : Nat) (item : Reader α) : Reader (List α) := fun cs =>
  match skipSpace cs with
  | '[' :: cs =>
    if levels = 0 then .error .malformed else readItems item (cs.length + 1) true cs
  | cs => .error (mismatch "a sequence" cs)

def findName {α : Type} (known : List (String × α)) (name : String) : Except Problem α :=
  match known.lookup name with
  | some a => .ok a
  | none => .error (.unknownName name (known.map Prod.fst))

/-- Reads one of several names, as a string or as an object that maps it to `null`. In the
object anything but a string in the place of the name is malformed, not of a wrong type. -/
def readName {α : Type} (levels : Nat) (known : List (String × α)) : Reader α := fun cs =>
  match skipSpace cs with
  | [] => .error .endOfText
  | '"' :: cs => do
    let (name, cs) ← readText cs
    return (← findName known name, cs)
  | '{' :: cs =>
    if levels = 0 then .error .malformed
    else do
      let (name, cs) ← readKey cs
      let a ← findName known name
      let cs ← readNull "unit" (← passColon cs)
      match skipSpace cs with
      | [] => .error .endOfText
      | '}' :: cs => .ok (a, cs)
      | _ => .error .malformed
  | _ => .error .malformed

/-- A field of a record that is being put together in a draft of type `σ`. -/
structure Field (σ : Type) where
  name : String
  isSet : σ → Bool
  read : σ → Reader σ

/-- A record type: its fields by position, and how a draft is completed. A draft that lacks
a required field names it. -/
structure Record (σ α : Type) where
  title : String
  fields : List (Field σ)
  empty : σ
  finish : σ → Except String α

/-- Reads the members of an object after its opening brace. A known field may be set once,
and the values of unknown keys are passed over. -/
def readMembers {σ : Type} (fields : List (Field σ)) : Nat → Bool → σ → Reader σ
  | 0, _, _, _ => .error .malformed
  | n + 1, first, draft, cs => do
    match ← nextKey first cs with
    | (none, cs) => return (draft, cs)
    | (some key, cs) =>
      match fields.find? (·.name == key) with
      | some field =>
        if field.isSet draft then .error (.duplicateField field.name)
        let (draft, cs) ← field.read draft (← passColon cs)
        readMembers fields n false draft cs
      | none => readMembers fields n false draft (← skipValue (← passColon cs))

/-- Reads the values of an array as fields, by position, and counts them. -/
def readPositions {σ : Type} : List (Field σ) → Bool → Nat → σ → Reader (σ × Nat)
  | [], _, count, draft, cs =>
    match skipSpace cs with
    | [] => .error .endOfText
    | ']' :: cs => .ok ((draft, count), cs)
    | _ => .error .malformed
  | field :: fields, first, count, draft, cs => do
    let (more, cs) ← nextItem first cs
    if more then
      let (draft, cs) ← field.read draft cs
      readPositions fields false (count + 1) draft cs
    else return ((draft, count), cs)

def readRecord {σ α : Type} (levels : Nat) (r : Record σ α) : Reader α := fun cs =>
  match skipSpace cs with
  | '{' :: cs =>
    if levels = 0 then .error .malformed
    else do
      let (draft, cs) ← readMembers r.fields (cs.length + 1) true r.empty cs
      match r.finish draft with
      | .ok a => return (a, cs)
      | .error name => .error (.missingField name)
  | '[' :: cs =>
    if levels = 0 then .error .malformed
    else do
      let ((draft, count), cs) ← readPositions r.fields true 0 r.empty cs
      match r.finish draft with
      | .ok a => return (a, cs)
      | .error _ =>
        let size := toString r.fields.length
        .error (.wrongLength count (r.title ++ " with " ++ size ++ " elements"))
  | cs => .error (mismatch r.title cs)

def parse {α : Type} (reader : Reader α) (text : String) : Except Problem α := do
  let (a, cs) ← reader text.toList
  if skipSpace cs = [] then return a else .error .malformed

end ODataQuery.Json
