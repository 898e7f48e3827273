/-! The shortest decimal text of a binary64 number: the fewest digits that are nearer to
the number than to any other one, and of those the nearest. -/
namespace ODataQuery

/-- A binary64 number other than zero, infinity and NaN, without its sign: the significand
times a power of two. -/
structure Binary64 where
  significand : Nat
  exponent : Int
  /-- The next smaller number is only half as far away as the next greater one. -/
  narrowBelow : Bool

namespace Binary64

def ofBits (bits : UInt64) : Binary64 :=
  let hidden := Nat.pow 2 52
  let field := bits.toNat / hidden % 2048
  let fraction := bits.toNat % hidden
  if field = 0 then ⟨fraction, -1074, false⟩
  else ⟨hidden + fraction, (field : Int) - 1075, fraction = 0 && field ≠ 1⟩

def power (base : Nat) (e : Int) : Nat × Nat :=
  if 0 ≤ e then (Nat.pow base e.toNat, 1) else (1, Nat.pow base (-e).toNat)

/-- Compares `a * 10 ^ k` with `b` quarters of the unit of the last binary place. -/
def compareGrid (x : Binary64) (a : Nat) (k : Int) (b : Nat) : Ordering :=
  let (tn, td) := power 10 k
  let (un, ud) := power 2 (x.exponent - 2)
  compare (a * tn * ud) (b * un * td)

/-- The greatest multiple of `10 ^ k` that is not above the number, as a multiple. -/
def floorGrid (x : Binary64) (k : Int) : Nat :=
  let (tn, td) := power 10 k
  let (un, ud) := power 2 (x.exponent - 2)
  4 * x.significand * un * td / (tn * ud)

/-- Whether `a * 10 ^ k` is nearer to the number than to any other one. Halfway points
belong to the number with the even significand. -/
def owns (x : Binary64) (a : Nat) (k : Int) : Bool :=
  let even := x.significand % 2 = 0
  let low := 4 * x.significand - (if x.narrowBelow then 1 else 2)
  let above := x.compareGrid a k low
  let below := x.compareGrid a k (4 * x.significand + 2)
  (above = .gt || even && above = .eq) && (below = .lt || even && below = .eq)

/-- Of two neighbours on the grid, the one nearer to the number; of two equally near ones
the even one. -/
def nearer (x : Binary64) (a : Nat) (k : Int) : Nat :=
  let (tn, td) := power 10 k
  let (un, ud) := power 2 (x.exponent - 2)
  match compare ((2 * a + 1) * tn * ud) (8 * x.significand * un * td) with
  | .lt => a + 1
  | .gt => a
  | .eq => if a % 2 = 0 then a else a + 1

/-- The multiple of `10 ^ k` that stands for the number, if one does. -/
def onGrid? (x : Binary64) (k : Int) : Option Nat :=
  let a := x.floorGrid k
  match x.owns a k, x.owns (a + 1) k with
  | true, true => some (x.nearer a k)
  | true, false => some a
  | false, true => some (a + 1)
  | false, false => none

/-- The least power of ten above the number, as an exponent. -/
def magnitude (x : Binary64) : Int :=
  let candidates := (List.range 640).map fun (i : Nat) => (i : Int) - 324
  (candidates.find? fun p => x.floorGrid p = 0).getD 0

/-- The shortest digits and the power of ten of the last one. -/
def shortest (x : Binary64) : Nat × Int :=
  let grids := (List.range 17).map fun (i : Nat) => x.magnitude - (i + 1)
  (grids.findSome? fun k => (x.onGrid? k).map (·, k)).getD (0, 0)

end Binary64

/-- How digits are laid out: positionally while the decimal exponent is in the range, with
at least one digit on both sides of the point, and otherwise with a signed exponent. -/
structure DecimalLayout where
  leastExponent : Int
  greatestExponent : Int

/-- Messages write a number positionally if its decimal exponent is from -5 to 15. -/
def messageLayout : DecimalLayout := ⟨-5, 15⟩

namespace DecimalLayout

def zeros (n : Nat) : List Char := List.replicate n '0'

/-- Lays out digits without trailing zeros of which `point` stand before the point. -/
def layOut (l : DecimalLayout) (digits : List Char) (point : Int) : List Char :=
  let e := point - 1
  if l.leastExponent ≤ e ∧ e ≤ l.greatestExponent then
    if point ≤ 0 then ['0', '.'] ++ zeros (-point).toNat ++ digits
    else
      let whole := digits.take point.toNat
      let fraction := digits.drop point.toNat
      whole ++ zeros (point.toNat - digits.length) ++ '.' ::
        (if fraction = [] then ['0'] else fraction)
  else
    let tail := digits.drop 1
    digits.take 1 ++ (if tail = [] then [] else '.' :: tail) ++
      ['e', if e < 0 then '-' else '+'] ++ Nat.toDigits 10 e.natAbs

def write (l : DecimalLayout) (bits : UInt64) : String :=
  let signBit := Nat.pow 2 63
  let sign := if bits.toNat < signBit then [] else ['-']
  let magnitude := bits.toNat % signBit
  if magnitude = 0 then String.ofList (sign ++ ['0', '.', '0'])
  else
    let (n, k) := (Binary64.ofBits bits).shortest
    let written := Nat.toDigits 10 n
    let digits := (written.reverse.dropWhile (· = '0')).reverse
    String.ofList (sign ++ l.layOut digits (k + written.length))

end DecimalLayout
end ODataQuery
