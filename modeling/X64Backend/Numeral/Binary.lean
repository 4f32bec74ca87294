import X64Backend.Numeral.Integer

/-!
Binary floating-point encodings, as bit patterns.  A positive fraction is rounded to the nearest
pattern, a tie going to the even one, entirely in natural numbers.

`scaled` is the number of quanta in the value, and the pattern of a value is its scaled significand
plus its quantum's rank shifted past the fraction bits: the leading bit of a normal significand
carries into the exponent field, so normal and subnormal values follow the same rule.
-/

namespace X64Backend.Numeral

/-- A binary interchange format. -/
structure Format where
  fractionBits : Nat
  exponentBits : Nat
  deriving DecidableEq, Repr

def Format.double : Format := ⟨52, 11⟩

def Format.single : Format := ⟨23, 8⟩

namespace Format

/-- The exponent of the smallest quantum, negated: subnormal values count units of
`2 ^ -minQuantum`. -/
def minQuantum (format : Format) : Nat :=
  Nat.pow 2 (format.exponentBits - 1) - 2 + format.fractionBits

def infinity (format : Format) : Nat :=
  (Nat.pow 2 format.exponentBits - 1) * Nat.pow 2 format.fractionBits

def signBit (format : Format) : Nat :=
  Nat.pow 2 (format.exponentBits + format.fractionBits)

end Format

/-- The quotient rounded to the nearest integer, ties to even. -/
def roundQuotient (numerator denominator : Nat) : Nat :=
  let quotient := numerator / denominator
  let twice := 2 * (numerator % denominator)
  if denominator < twice ∨ (twice = denominator ∧ quotient % 2 = 1) then quotient + 1
  else quotient

/-- The exponent of the leading bit of a positive fraction. -/
def leadingExponent (numerator denominator : Nat) : Int :=
  let guess : Int := (numerator.log2 : Int) - (denominator.log2 : Int)
  let reached :=
    if 0 ≤ guess then denominator * Nat.pow 2 guess.toNat ≤ numerator
    else denominator ≤ numerator * Nat.pow 2 (-guess).toNat
  if reached then guess else guess - 1

/-- The pattern nearest to a fraction; at or above the pattern of infinity when it is too large. -/
def roundToPattern (format : Format) (numerator denominator : Nat) : Nat :=
  if numerator = 0 then 0
  else
    let lowest : Int := -(format.minQuantum : Int)
    let quantum := max (leadingExponent numerator denominator - format.fractionBits) lowest
    let significand :=
      if 0 ≤ quantum then roundQuotient numerator (denominator * Nat.pow 2 quantum.toNat)
      else roundQuotient (numerator * Nat.pow 2 (-quantum).toNat) denominator
    (quantum - lowest).toNat * Nat.pow 2 format.fractionBits + significand

/-- The single pattern nearest to a double pattern.  Too large a value becomes infinite; a
value that is no number keeps the leading bits of its fraction. -/
def doubleToSingle (pattern : Nat) : Nat :=
  let negative := Format.double.signBit ≤ pattern
  let magnitude := if negative then pattern - Format.double.signBit else pattern
  let narrowed :=
    if Format.double.infinity ≤ magnitude then
      Format.single.infinity + (magnitude - Format.double.infinity) / 0x20000000
    else
      let exponent := magnitude / 0x10000000000000
      let fraction := magnitude % 0x10000000000000
      let significand := if exponent = 0 then fraction else fraction + 0x10000000000000
      let quantum := max exponent 1 - 1
      min Format.single.infinity
        (roundToPattern .single (significand * Nat.pow 2 quantum)
          (Nat.pow 2 Format.double.minQuantum))
  if negative then Format.single.signBit + narrowed else narrowed

end X64Backend.Numeral
