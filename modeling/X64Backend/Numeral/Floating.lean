import X64Backend.Numeral.Binary

/-!
Floating-point numerals: decimal with an optional decimal exponent, or hexadecimal with a required
binary exponent, or the words for infinity and for what is no number.  Underscores follow the rule
for integers.
-/

namespace X64Backend.Numeral

def lowerText (text : List Char) : List Char :=
  text.map Char.toLower

/-- The digits of a numeral around an optional point. -/
structure Digits where
  /-- The digits on both sides of the point as one number. -/
  value : Nat
  /-- How many of them stand behind the point. -/
  places : Nat
  present : Bool
  rest : List Char

/-- Reads digits, skipping underscores, up to a second point or any other character. -/
def readFraction (base : Nat) : (point : Bool) → Nat → Nat → Bool → List Char → Digits
  | _, value, places, present, [] => ⟨value, places, present, []⟩
  | point, value, places, present, c :: rest =>
      if c = '_' then readFraction base point value places present rest
      else if c = '.' then
        if point then ⟨value, places, present, c :: rest⟩
        else readFraction base true value places present rest
      else
        match Text.hexValue? c with
        | some digit =>
            if digit < base then
              readFraction base point (value * base + digit) (if point then places + 1 else places)
                true rest
            else ⟨value, places, present, c :: rest⟩
        | none => ⟨value, places, present, c :: rest⟩

/-- Exponents beyond this magnitude take no further digits. -/
def exponentBound : Nat := 10000

/-- Reads the digits of an exponent, skipping underscores. -/
def readExponentDigits : Nat → List Char → Nat × List Char
  | value, [] => (value, [])
  | value, c :: rest =>
      if c = '_' then readExponentDigits value rest
      else if c.isDigit then
        readExponentDigits
          (if value < exponentBound then value * 10 + (c.toNat - '0'.toNat) else value) rest
      else (value, c :: rest)

/-- Reads what follows the mark of an exponent: an optional sign and at least one digit. -/
def readExponent? (text : List Char) : Option (Int × List Char) :=
  let (negative, digits) := splitSign text
  match digits with
  | c :: _ =>
      if c.isDigit then
        let (value, rest) := readExponentDigits 0 digits
        some (if negative then -(value : Int) else value, rest)
      else none
  | [] => none

def scaleBy (value base : Nat) (exponent : Int) : Nat × Nat :=
  if 0 ≤ exponent then (value * Nat.pow base exponent.toNat, 1)
  else (value, Nat.pow base (-exponent).toNat)

/-- The magnitude of an unsigned numeral, as a fraction, if it is well formed. -/
def readFraction? (text : List Char) : Option (Nat × Nat) :=
  match text with
  | '0' :: c :: d :: rest =>
      if c = 'x' ∨ c = 'X' then hexadecimal (d :: rest) else decimal text
  | _ => decimal text
where
  hexadecimal (digits : List Char) : Option (Nat × Nat) :=
    let found := readFraction 16 false 0 0 false digits
    match found.rest with
    | mark :: rest =>
        if found.present && (mark = 'p' || mark = 'P') then
          match readExponent? rest with
          | some (exponent, []) => some (scaleBy found.value 2 (exponent - 4 * found.places))
          | _ => none
        else none
    | [] => none
  decimal (digits : List Char) : Option (Nat × Nat) :=
    let found := readFraction 10 false 0 0 false digits
    if !found.present then none
    else match found.rest with
      | [] => some (scaleBy found.value 10 (-(found.places : Int)))
      | mark :: rest =>
          if mark = 'e' || mark = 'E' then
            match readExponent? rest with
            | some (exponent, []) => some (scaleBy found.value 10 (exponent - found.places))
            | _ => none
          else none

/-- The pattern of the quiet value that the word for no number denotes. -/
def notANumber : Nat := 0x7FF8000000000001

def readPattern (text : List Char) : Except Cause Nat :=
  let (negative, unsigned) := splitSign text
  let withSign (magnitude : Nat) : Nat :=
    if negative then Format.double.signBit + magnitude else magnitude
  if lowerText text = "nan".toList then .ok notANumber
  else if lowerText unsigned = "inf".toList ∨ lowerText unsigned = "infinity".toList then
    .ok (withSign Format.double.infinity)
  else match readFraction? unsigned with
    | none => .error .malformed
    | some (numerator, denominator) =>
        if text.contains '_' && !underscoresAllowed text then .error .malformed
        else
          let pattern := roundToPattern .double numerator denominator
          if Format.double.infinity ≤ pattern then .error .outOfRange
          else .ok (withSign pattern)

def readDouble (text : String) : Except Refusal Nat :=
  match readPattern text.toList with
  | .ok pattern => .ok pattern
  | .error cause => .error ⟨.float, text, cause⟩

end X64Backend.Numeral
