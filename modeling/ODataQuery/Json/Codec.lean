import ODataQuery.Compile.Render
import ODataQuery.Json.Record
import ODataQuery.Json.Value

/-! Kinds, filter trees, options and compiled filters as JSON values, and the first three of
them read from JSON text. -/
namespace ODataQuery

def Kind.toJson (k : Kind) : Json := .text k.name

namespace FilterTree

mutual

/-- A node is an object; its children are left out when there are none. -/
def toJson : FilterTree → Json
  | node kind text children =>
    let head := [("kind", kind.toJson), ("value", .text text)]
    match children with
    | [] => .object head
    | t :: ts => .object (head ++ [("children", .array (toJson t :: toJsonAll ts))])

def toJsonAll : List FilterTree → List Json
  | [] => []
  | t :: ts => toJson t :: toJsonAll ts

end

end FilterTree

def Options.toJson (o : Options) : Json :=
  .object [("literals", .text o.literals.name),
    ("max_depth", match o.maxDepth with
      | none => .null
      | some limit => .number limit.toNat)]

def Param.toJson (p : Param) : Json :=
  .object [("kind", p.kind.toJson), ("value", .text p.value)]

def Compiled.toJson (c : Compiled) : Json :=
  .object [("fragment", .text c.fragment), ("params", .array (c.params.map Param.toJson))]

namespace Json

/-- The number of brackets that may be open at once in typed data. -/
def maxLevels : Nat := 127

def kindNames : List (String × Kind) := Kind.known.map fun k => (k.name, k)

def styleNames : List (String × LiteralStyle) := LiteralStyle.known.map fun s => (s.name, s)

structure NodeDraft where
  kind : Option Kind := none
  text : Option String := none
  children : Option (List FilterTree) := none

/-- The record of a node whose brackets may take the given number of levels. -/
def nodeRecord (levels : Nat) (child : Reader FilterTree) : Record NodeDraft FilterTree where
  title := "struct FilterNode"
  fields :=
    [{ name := "kind"
       isSet := fun d => d.kind.isSome
       read := fun d cs => do
         let (k, cs) ← readName levels kindNames cs
         return ({ d with kind := some k }, cs) },
     { name := "value"
       isSet := fun d => d.text.isSome
       read := fun d cs => do
         let (s, cs) ← readString "a string" cs
         return ({ d with text := some s }, cs) },
     { name := "children"
       isSet := fun d => d.children.isSome
       read := fun d cs => do
         let (ts, cs) ← readSequence levels child cs
         return ({ d with children := some ts }, cs) }]
  empty := {}
  finish := fun d =>
    match d.kind, d.text with
    | none, _ => .error "kind"
    | some _, none => .error "value"
    | some k, some s => .ok (.node k s (d.children.getD []))

/-- Reads a tree whose brackets may take the given number of levels. A node takes one level
and the list of its children another. -/
def readTree : Nat → Reader FilterTree
  | 0 => readRecord 0 (nodeRecord 0 fun _ => .error .malformed)
  | 1 => readRecord 1 (nodeRecord 0 fun _ => .error .malformed)
  | levels + 2 => readRecord (levels + 2) (nodeRecord (levels + 1) (readTree levels))

/-- Reads a depth limit: `null`, or an integer that fits a 64-bit word. -/
def readLimit : Reader (Option UInt64) := fun cs =>
  match skipSpace cs with
  | 'n' :: cs => do
    let cs ← passWord ['u', 'l', 'l'] cs
    return (none, cs)
  | c :: cs =>
    if c = '-' ∨ c.isDigit then do
      match ← readNumber (c :: cs) with
      | (.integer i, cs) =>
        if i < 0 then .error (.wrongValue i "usize")
        else return (some (UInt64.ofNat i.toNat), cs)
      | (.float bits, _) => .error (.wrongType (.float bits) "usize")
    else .error (mismatch "usize" (c :: cs))
  | [] => .error .endOfText

structure OptionsDraft where
  literals : Option LiteralStyle := none
  maxDepth : Option (Option UInt64) := none

/-- The record of options; a field that is left out has its default. -/
def optionsRecord (levels : Nat) : Record OptionsDraft Options where
  title := "struct CompileOptions"
  fields :=
    [{ name := "literals"
       isSet := fun d => d.literals.isSome
       read := fun d cs => do
         let (s, cs) ← readName levels styleNames cs
         return ({ d with literals := some s }, cs) },
     { name := "max_depth"
       isSet := fun d => d.maxDepth.isSome
       read := fun d cs => do
         let (limit, cs) ← readLimit cs
         return ({ d with maxDepth := some limit }, cs) }]
  empty := {}
  finish := fun d =>
    .ok { literals := d.literals.getD .inline, maxDepth := d.maxDepth.getD none }

end Json

def Kind.ofJson (text : String) : Except Json.Problem Kind :=
  Json.parse (Json.readName Json.maxLevels Json.kindNames) text

def FilterTree.ofJson (text : String) : Except Json.Problem FilterTree :=
  Json.parse (Json.readTree Json.maxLevels) text

def Options.ofJson (text : String) : Except Json.Problem Options :=
  Json.parse (Json.readRecord Json.maxLevels (Json.optionsRecord (Json.maxLevels - 1))) text

end ODataQuery
