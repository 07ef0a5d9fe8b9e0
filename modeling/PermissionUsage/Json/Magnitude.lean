import PermissionUsage.Json.Decimal
/-!
# The range of numbers

Numbers that are no integers have no exact value here, but a document is refused if it has to keep a
number beyond the range of binary floating point with 53 significant bits and exponents below 1024.
What decides is the product of two rounded factors: the leading digits of the number, as many as
stay below `2 ^ 64`, and the power of ten that is left.
-/

namespace PermissionUsage.Json

/-- The natural number nearest to `n` with at most 53 significant bits; of two that are equally near
the one that is even in its last place. -/
def roundSignificant (n : Nat) : Nat :=
  let shift := n.log2 - 52
  let unit := 1 <<< shift
  let low := n / unit * unit
  let rest := 2 * (n - low)
  if rest < unit ∨ rest = unit ∧ n / unit % 2 = 0 then low else low + unit

/-- The size of a number: the product of a significand and a power of ten. -/
structure Magnitude where
  significand : Nat
  exponent : Int
  deriving DecidableEq, Repr

namespace Magnitude

/-- Takes digits into a significand as long as it stays below `2 ^ 64`, and counts them. -/
def takeDigits (significand : Nat) : List Char → Nat × Nat
  | [] => (significand, 0)
  | c :: cs =>
    let next := 10 * significand + (c.toNat - 48)
    if next < UInt64.size then
      let (significand, taken) := takeDigits next cs
      (significand, taken + 1)
    else (significand, 0)

/-- The size of a number with these digits in front of its point and behind it, and an exponent. -/
def ofDigits (whole fraction : List Char) (exponent : Int) : Magnitude :=
  let (significand, inFront) := takeDigits 0 whole
  let (significand, behind) := takeDigits significand fraction
  { significand, exponent := exponent + (whole.length - inFront : Nat) - behind }

def isFinite (size : Magnitude) : Bool :=
  size.significand = 0 || size.exponent < 0 ||
    size.exponent ≤ 308 &&
      roundSignificant (roundSignificant size.significand *
        roundSignificant (Nat.pow 10 size.exponent.toNat)) < 1 <<< 1024

end Magnitude

def isFiniteInt (n : Int) : Bool :=
  n.natAbs < UInt64.size || (Magnitude.ofDigits (Decimal.digits n.natAbs) [] 0).isFinite

end PermissionUsage.Json
