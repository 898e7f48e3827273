import ODataQuery.Filter.Operator
import ODataQuery.Fragment.Template

/-! The MongoDB text of each operator, as a template over the texts of its operands.
The templates are put together from documents with one entry and from arrays. -/
namespace ODataQuery
namespace Template

def lit (s : String) : Template := [.text s]

def arg (index : Nat) : Template := [.slot index]

/-- A document whose only entry maps a key to a value. -/
def entry (key value : Template) : Template :=
  lit "\x7b " ++ key ++ lit ": " ++ value ++ lit " \x7d"

def array (items : List Template) : Template :=
  lit "[ " ++ (items.intersperse (lit ", ")).flatten ++ lit " ]"

/-- The comparison of the first operand with the second by a query operator. -/
def comparison (query : String) : Template := entry (arg 0) (entry (lit query) (arg 1))

/-- The match of the first operand against a regular expression around the second. -/
def regex (before after : String) : Template :=
  entry (arg 0) (entry (lit "$regex") (lit before ++ arg 1 ++ lit after))

end Template

namespace Operator

open Template

/-- The template of an operator for a number of operands. Only `substring` has two, since
its length operand may be left out; most functions have none. -/
def template? (op : Operator) (operands : Nat) : Option Template :=
  match op with
  | eq => some (comparison "$eq")
  | ne => some (comparison "$ne")
  | gt => some (comparison "$gt")
  | ge => some (comparison "$gte")
  | lt => some (comparison "$lt")
  | le => some (comparison "$lte")
  | isIn => some (comparison "$in")
  | and => some (entry (lit "$and") (array [arg 0, arg 1]))
  | or => some (entry (lit "$or") (array [arg 0, arg 1]))
  | not => some (entry (lit "$nor") (array [arg 0]))
  | substring =>
    let size := if operands = 2 then entry (lit "$strLenCP") (arg 0) else arg 2
    some (entry (lit "$substrCP") (array [arg 0, arg 1, size]))
  | substringOf =>
    some (entry (lit "$gte") (array [entry (lit "$indexOfCP") (array [arg 1, arg 0]), lit "0"]))
  | contains => some (regex "/" "/")
  | startsWith => some (regex "/^" "/")
  | endsWith => some (regex "/" "$/")
  | length => some (entry (lit "$strLenCP") (arg 0))
  | indexOf => some (entry (lit "$indexOfCP") (array [arg 0, arg 1]))
  | trim => some (entry (lit "$trim") (entry (lit "input") (arg 0)))
  | concat => some (entry (lit "$concat") (array [arg 0, arg 1]))
  | _ => none

/-- The numbers of a list in ascending order, each of them once. -/
def ascending (ns : List Nat) : List Nat :=
  (List.range (ns.foldr max 0 + 1)).filter (· ∈ ns)

def isSupported (op : Operator) : Bool := (op.template? 0).isSome

/-- The numbers of operands that the templates of an operator ask for, in ascending order.
The templates looked at are those for up to three operands. -/
def arities (op : Operator) : List Nat :=
  ascending ((List.range 4).filterMap fun n => (op.template? n).map arity)

end Operator
end ODataQuery
