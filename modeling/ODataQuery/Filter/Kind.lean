/-! The kinds of node in a parsed filter, grouped by what a compiler does with them:
literals carry a value, operators are looked up by name, and a few kinds have no
compile rule. Every kind has one lower-case name. -/
namespace ODataQuery

/-- Literals, whose text carries a value. -/
inductive LiteralKind
  | string | number | boolean | guid | date | time | dateTime
  deriving DecidableEq, Repr

/-- Nodes whose text names an operator or a function. -/
inductive OperatorKind
  | logical | comparison | function | lambda | navigation
  deriving DecidableEq, Repr

/-- Nodes that a parser may produce and that have no compile rule. -/
inductive UnsupportedKind
  | null | duration | parameterAlias | enum | geography
  deriving DecidableEq, Repr

inductive Kind
  | literal (kind : LiteralKind)
  | property
  | list
  | operator (kind : OperatorKind)
  | unsupported (kind : UnsupportedKind)
  deriving DecidableEq, Repr

def LiteralKind.name : LiteralKind → String
  | string => "string"
  | number => "number"
  | boolean => "boolean"
  | guid => "guid"
  | date => "date"
  | time => "time"
  | dateTime => "date_time"

def OperatorKind.name : OperatorKind → String
  | logical => "logical"
  | comparison => "comparison"
  | function => "function"
  | lambda => "lambda"
  | navigation => "navigation"

def UnsupportedKind.name : UnsupportedKind → String
  | null => "null"
  | duration => "duration"
  | parameterAlias => "parameter_alias"
  | enum => "enum"
  | geography => "geography"

namespace Kind

def name : Kind → String
  | literal k => k.name
  | property => "property"
  | list => "list"
  | operator k => k.name
  | unsupported k => k.name

def isLiteral : Kind → Bool
  | literal _ => true
  | _ => false

def isOperator : Kind → Bool
  | operator _ => true
  | _ => false

/-- All kinds, in the order in which messages list them. -/
def known : List Kind :=
  [literal .string, literal .number, literal .boolean, literal .guid, literal .date,
    literal .time, literal .dateTime, property, list, operator .logical,
    operator .comparison, operator .function, operator .lambda, operator .navigation,
    unsupported .null, unsupported .duration, unsupported .parameterAlias,
    unsupported .enum, unsupported .geography]

theorem mem_known (k : Kind) : k ∈ known := by
  rcases k with (_ | _) | _ | _ | (_ | _) | (_ | _) <;> decide

theorem name_injective {a b : Kind} (h : a.name = b.name) : a = b := by
  have key : ∀ a ∈ known, ∀ b ∈ known, a.name = b.name → a = b := by decide
  exact key a (mem_known a) b (mem_known b) h

end Kind
end ODataQuery
