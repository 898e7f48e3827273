import ODataQuery.Text.Characters

/-! The operators and functions of the filter language and how their names are found.
A name may be written in any letter case and with blanks around it. -/
namespace ODataQuery

inductive Operator
  | eq | ne | gt | ge | lt | le | isIn
  | and | or | not
  | substring | substringOf | contains | startsWith | endsWith | length | indexOf
  | trim | concat | toLower | toUpper
  | date | time | year | month | day | hour | minute | second | fractionalSecond
  | totalOffsetMinutes | minDateTime | maxDateTime | now
  | round | floor | ceiling
  | mod | div | add | mul | sub
  | isOf | cast
  | geoDistance | geoLength | geoIntersects
  | navigation | any | all
  deriving DecidableEq, Repr

namespace Operator

def name : Operator → String
  | eq => "eq"
  | ne => "ne"
  | gt => "gt"
  | ge => "ge"
  | lt => "lt"
  | le => "le"
  | isIn => "in"
  | and => "and"
  | or => "or"
  | not => "not"
  | substring => "substring"
  | substringOf => "substringof"
  | contains => "contains"
  | startsWith => "startswith"
  | endsWith => "endswith"
  | length => "length"
  | indexOf => "indexof"
  | trim => "trim"
  | concat => "concat"
  | toLower => "tolower"
  | toUpper => "toupper"
  | date => "date"
  | time => "time"
  | year => "year"
  | month => "month"
  | day => "day"
  | hour => "hour"
  | minute => "minute"
  | second => "second"
  | fractionalSecond => "fractionalsecond"
  | totalOffsetMinutes => "totaloffsetminutes"
  | minDateTime => "mindatetime"
  | maxDateTime => "maxdatetime"
  | now => "now"
  | round => "round"
  | floor => "floor"
  | ceiling => "ceiling"
  | mod => "mod"
  | div => "div"
  | add => "add"
  | mul => "mul"
  | sub => "sub"
  | isOf => "isof"
  | cast => "cast"
  | geoDistance => "geo.distance"
  | geoLength => "geo.length"
  | geoIntersects => "geo.intersects"
  | navigation => "/"
  | any => "any"
  | all => "all"

/-- All operators, in the order in which they are listed. -/
def known : List Operator :=
  [eq, ne, gt, ge, lt, le, isIn, and, or, not, substring, substringOf, contains,
    startsWith, endsWith, length, indexOf, trim, concat, toLower, toUpper, date, time,
    year, month, day, hour, minute, second, fractionalSecond, totalOffsetMinutes,
    minDateTime, maxDateTime, now, round, floor, ceiling, mod, div, add, mul, sub, isOf,
    cast, geoDistance, geoLength, geoIntersects, navigation, any, all]

theorem mem_known (op : Operator) : op ∈ known := by
  cases op <;> decide

/-- A written name without the blanks around it and with ASCII letters lowered. -/
def normalize (written : String) : String :=
  String.ofList ((trimBlank written.toList).map Char.toLower)

def ofName? (written : String) : Option Operator :=
  known.find? (·.name == normalize written)

end Operator
end ODataQuery
