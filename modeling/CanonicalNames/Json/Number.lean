import CanonicalNames.Json.Basic

/-!
# JSON numbers

A number is read in double precision. Its leading digits form a coefficient below two to the
power of sixty-four; a digit that no longer fits is dropped, and before the point it still
counts as a place. The coefficient is then scaled by a power of ten, and each of the two
factors and their product is rounded to the nearest double. A number for which this exceeds
every double is well formed and has no value.

Only the overflow of this computation is visible, so that it is carried out on natural
numbers: `nearestDouble` rounds, and `Scaled.exceedsDouble` compares the product with the
least number that rounds to no double.
-/

namespace CanonicalNames.Json

/-- The value of a decimal digit. -/
def digitValue (digit : Char) : Nat :=
  digit.toNat - 48

/-- The value of some decimal digits. -/
def digitsValue (digits : List Char) : Nat :=
  digits.foldl (fun value digit => 10 * value + digitValue digit) 0

/-- The first natural number that takes more than sixty-four bits. It is not to be counted down
to, hence irreducible, as are the other bounds. -/
@[irreducible]
def wordBound : Nat :=
  Nat.pow 2 64

/-- All natural numbers below this one are doubles. -/
@[irreducible]
def exactBound : Nat :=
  Nat.pow 2 53

/-- The double nearest to a natural number, the even one of two; the range of exponents is not
bounded. -/
def nearestDouble (n : Nat) : Nat :=
  if n < exactBound then n
  else
    let unit := Nat.pow 2 (n.log2 - 52)
    let below := n / unit
    let rest := n % unit
    if 2 * rest < unit ∨ (2 * rest = unit ∧ below % 2 = 0) then below * unit
    else (below + 1) * unit

/-- The least real number that rounds to no finite double. -/
@[irreducible]
def doubleBound : Nat :=
  Nat.pow 2 1024 - Nat.pow 2 970

/-- The greatest power of ten that is a finite double. -/
def maxDoublePower : Nat := 308

/-- The number `coefficient · 10 ^ exponent`. -/
structure Scaled where
  coefficient : Nat
  exponent : Int
  deriving DecidableEq, Repr

namespace Scaled

/-- A coefficient with one more digit, if it still fits. -/
def append? (coefficient : Nat) (digit : Char) : Option Nat :=
  let longer := 10 * coefficient + digitValue digit
  if longer < wordBound then some longer else none

/-- The number whose digits follow a coefficient. The first digit that does not fit and all
digits after it are places only. -/
def ofDigits (coefficient : Nat) : List Char → Scaled
  | [] => ⟨coefficient, 0⟩
  | digit :: rest =>
    match append? coefficient digit with
    | some longer => ofDigits longer rest
    | none => ⟨coefficient, rest.length + 1⟩

/-- The number followed by digits behind the point, up to the first that does not fit. -/
def addFraction (number : Scaled) : List Char → Scaled
  | [] => number
  | digit :: rest =>
    match append? number.coefficient digit with
    | some longer => addFraction ⟨longer, number.exponent - 1⟩ rest
    | none => number

/-- The number times a power of ten, which is given by its digits and whether it is
negative. -/
def shift (number : Scaled) (isNegative : Bool) (digits : List Char) : Scaled :=
  let places : Int := digitsValue digits
  { number with exponent := number.exponent + (if isNegative then -places else places) }

/-- Whether reading the number in double precision exceeds every double. A division by a power
of ten never does. -/
def exceedsDouble (number : Scaled) : Bool :=
  number.coefficient != 0 &&
    match number.exponent with
    | .ofNat power =>
      decide (maxDoublePower < power) ||
        decide (doubleBound ≤ nearestDouble number.coefficient * nearestDouble (Nat.pow 10 power))
    | .negSucc _ => false

end Scaled

/-- The number written by a sign, digits, a fraction and an exponent; `text` is the whole
literal. -/
def number (text : List Char) (isNegative : Bool) (digits : List Char)
    (fraction : Option (List Char)) (exponent : Option (Bool × List Char)) : Json :=
  let whole := Scaled.ofDigits 0 digits
  if !isNegative && fraction.isNone && exponent.isNone && whole.exponent == 0 then
    .natural whole.coefficient
  else
    let (goesDown, places) := exponent.getD (false, [])
    if ((whole.addFraction (fraction.getD [])).shift goesDown places).exceedsDouble then
      .unreadable
    else .decimal (String.ofList text)

end CanonicalNames.Json
