import ODataQuery.Json.Codec

/-! What the program prints: a compiled filter or the catalogue of operators, as plain
text or as JSON. -/
namespace ODataQuery

inductive Format
  | plain | json
  deriving DecidableEq, Repr

/-- The lines that list parameters, the first of them with the given number. -/
def paramLines (number : Nat) : List Param → List String
  | [] => []
  | p :: rest =>
    (placeholder number ++ " = " ++ p.value ++ " (" ++ p.kind.name ++ ")") ::
      paramLines (number + 1) rest

/-- The fragment, then one line for each parameter. -/
def Compiled.plainText (c : Compiled) : String :=
  "\n".intercalate (c.fragment :: paramLines 1 c.params)

def Compiled.report (c : Compiled) : Format → String
  | .plain => c.plainText
  | .json => c.toJson.pretty

structure CatalogueEntry where
  name : String
  supported : Bool
  /-- The accepted numbers of operands, none if the operator is not supported. -/
  arities : List Nat
  deriving DecidableEq, Repr

namespace CatalogueEntry

/-- Whether the operator is supported and with how many operands. -/
def status (e : CatalogueEntry) : String :=
  if e.supported then
    "supported (" ++ " or ".intercalate (e.arities.map toString) ++ " args)"
  else "not implemented"

/-- The name of the operator in a column of 20 characters, then its status. -/
def plainText (e : CatalogueEntry) : String :=
  e.name ++ String.ofList (List.replicate (20 - e.name.length) ' ') ++ e.status

def toJson (e : CatalogueEntry) : Json :=
  .object [("name", .text e.name), ("supported", .bool e.supported),
    ("arities", .array (e.arities.map .number))]

end CatalogueEntry

namespace Operator

def entry (op : Operator) : CatalogueEntry := ⟨op.name, op.isSupported, op.arities⟩

def entries : List CatalogueEntry := known.map entry

def catalogue : Format → String
  | .plain => "\n".intercalate (entries.map CatalogueEntry.plainText)
  | .json => (Json.array (entries.map CatalogueEntry.toJson)).pretty

end Operator
end ODataQuery
