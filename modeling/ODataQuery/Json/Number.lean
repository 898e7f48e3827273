import ODataQuery.Json.Problem

/-! Numbers in a JSON text. A number without fraction and exponent that fits a signed or an
unsigned 64-bit word is an integer, any other one a binary64 number. -/
namespace ODataQuery.Json

/-- A number as it is written, without its sign. -/
structure Numeral where
  whole : List Char
  fraction : List Char
  exponent : Option Int

inductive Number
  | integer (i : Int)
  | float (bits : UInt64)
  deriving DecidableEq, Repr

def readDigits : Reader (List Char) := fun cs =>
  match cs.takeWhile Char.isDigit, cs with
  | [], [] => .error .endOfText
  | [], _ => .error .malformed
  | digits, _ => .ok (digits, cs.dropWhile Char.isDigit)

def readFraction : Reader (List Char)
  | '.' :: cs => readDigits cs
  | cs => .ok ([], cs)

def natOfDigits (digits : List Char) : Nat := Nat.ofDigitChars 10 digits 0

def readExponent : Reader (Option Int) := fun cs =>
  match cs with
  | c :: cs =>
    if c = 'e' ∨ c = 'E' then
      match cs with
      | '-' :: cs => do
        let (digits, cs) ← readDigits cs
        return (some (-(natOfDigits digits : Int)), cs)
      | '+' :: cs => do
        let (digits, cs) ← readDigits cs
        return (some (natOfDigits digits : Int), cs)
      | cs => do
        let (digits, cs) ← readDigits cs
        return (some (natOfDigits digits : Int), cs)
    else .ok (none, c :: cs)
  | [] => .ok (none, [])

/-- Reads a number after its sign. A zero is followed by no other digit. -/
def readNumeral : Reader Numeral := fun cs => do
  let (whole, cs) ← readDigits cs
  if whole.head? = some '0' ∧ whole ≠ ['0'] then .error .malformed
  let (fraction, cs) ← readFraction cs
  let (exponent, cs) ← readExponent cs
  return (⟨whole, fraction, exponent⟩, cs)

/-- Appends digits to a significand as long as it fits a 64-bit word, and returns the
digits that are left. -/
def absorb (significand : Nat) : List Char → Nat × List Char
  | [] => (significand, [])
  | d :: ds =>
    let next := significand * 10 + (d.toNat - '0'.toNat)
    if next < UInt64.size then absorb next ds else (significand, d :: ds)

/-- Ten to a power that binary64 numbers reach. -/
def tenTo (e : Nat) : Float := Float.ofScientific 1 false e

/-- Divides a number below `2 ^ 64` by a power of ten, in steps that stay in range; past
two steps nothing is left. -/
def shrink (x : Float) (e : Nat) : Float :=
  if e ≤ 308 then x / tenTo e
  else if e ≤ 616 then x / tenTo 308 / tenTo (e - 308)
  else 0

/-- Multiplies by a power of ten; the result may be out of range. -/
def scale? (x : Float) (e : Int) : Option Float :=
  if e < 0 then some (shrink x (-e).toNat)
  else if x == 0 then some x
  else if 308 < e then none
  else
    let y := x * tenTo e.toNat
    if y.isInf then none else some y

namespace Numeral

/-- The binary64 value, from the digits that fit a 64-bit word. -/
def float? (n : Numeral) : Option Float :=
  let (whole, dropped) := absorb 0 n.whole
  let (significand, unused) := absorb whole n.fraction
  let e : Int := dropped.length - (n.fraction.length - unused.length) + n.exponent.getD 0
  scale? (UInt64.ofNat significand).toFloat e

def isInteger (n : Numeral) : Bool := n.fraction.isEmpty && n.exponent.isNone

def toNumber (n : Numeral) (negative : Bool) : Except Problem Number :=
  let value := natOfDigits n.whole
  if n.isInteger ∧ ¬negative ∧ value < UInt64.size then .ok (.integer value)
  else if n.isInteger ∧ negative ∧ 0 < value ∧ value ≤ UInt64.size / 2 then .ok (.integer (-value))
  else
    match n.float? with
    | none => .error .malformed
    | some x => .ok (.float (if negative then -x else x).toBits)

end Numeral

def readNumber : Reader Number := fun cs =>
  match cs with
  | '-' :: cs => do
    let (n, cs) ← readNumeral cs
    return (← n.toNumber true, cs)
  | cs => do
    let (n, cs) ← readNumeral cs
    return (← n.toNumber false, cs)

/-- Passes over a number whose value is not wanted. A number that breaks off is malformed
even at the end of the text. -/
def skipNumber (cs : List Char) : Except Problem (List Char) :=
  match readNumeral (if cs.head? = some '-' then cs.drop 1 else cs) with
  | .ok (_, cs) => .ok cs
  | .error _ => .error .malformed

end ODataQuery.Json
