import X64Backend.Text.Quoted

/-!
Integer numerals.  A numeral is read in a fixed radix, or in the radix that its own lead names:
`0x`, `0b`, `0o`, a bare `0` for octal, and decimal otherwise.  Only the second way admits
underscores, and only between digits or behind the lead.

Digits are read from left to right, and the first digit that carries the value past 64 bits decides
the outcome: a stray character behind it is not looked at.
-/

namespace X64Backend.Numeral

/-- The reader whose name an error shows. -/
inductive Reader where
  | signed
  | unsigned
  | float
  deriving DecidableEq, Repr

def Reader.name : Reader → String
  | signed => "ParseInt"
  | unsigned => "ParseUint"
  | float => "ParseFloat"

inductive Cause where
  | malformed
  | outOfRange
  deriving DecidableEq, Repr

def Cause.message : Cause → String
  | malformed => "invalid syntax"
  | outOfRange => "value out of range"

structure Refusal where
  reader : Reader
  text : String
  cause : Cause
  deriving DecidableEq, Repr

def Refusal.message (refusal : Refusal) : String :=
  "strconv." ++ refusal.reader.name ++ ": parsing " ++ Text.quote refusal.text ++ ": " ++
    refusal.cause.message

/-- The radix of a numeral: given by the caller, or named by the numeral's own lead. -/
inductive Radix where
  | fixed (base : Nat)
  | byLead
  deriving DecidableEq, Repr

def digitValue? (c : Char) : Option Nat :=
  if '0' ≤ c ∧ c ≤ '9' then some (c.toNat - '0'.toNat)
  else if 'a' ≤ c ∧ c ≤ 'z' then some (c.toNat - 'a'.toNat + 10)
  else if 'A' ≤ c ∧ c ≤ 'Z' then some (c.toNat - 'A'.toNat + 10)
  else none

def wordLimit : Nat := 0x10000000000000000

/-- Reads digits onto a value, skipping underscores where they are admitted. -/
def readDigits (base : Nat) (underscores : Bool) : List Char → Nat → Except Cause Nat
  | [], value => .ok value
  | c :: rest, value =>
      if underscores && c = '_' then readDigits base underscores rest value
      else match digitValue? c with
        | none => .error .malformed
        | some digit =>
            if base ≤ digit then .error .malformed
            else if wordLimit ≤ value * base + digit then .error .outOfRange
            else readDigits base underscores rest (value * base + digit)

/-- The radix that a lead names, and the digits behind it. -/
def splitLead : List Char → Nat × List Char
  | '0' :: c :: d :: rest =>
      if c = 'x' ∨ c = 'X' then (16, d :: rest)
      else if c = 'b' ∨ c = 'B' then (2, d :: rest)
      else if c = 'o' ∨ c = 'O' then (8, d :: rest)
      else (8, c :: d :: rest)
  | '0' :: rest => (8, rest)
  | text => (10, text)

/-- What stood before a character, for the rule on underscores. -/
inductive Before where
  | nothing
  | digit
  | underscore
  | other
  deriving DecidableEq, Repr

/-- Whether every underscore stands behind a digit and before one. -/
def underscoresSeparate (hex : Bool) : Before → List Char → Bool
  | before, [] => before ≠ .underscore
  | before, c :: rest =>
      if c.isDigit || (hex && (Text.hexValue? c).isSome) then underscoresSeparate hex .digit rest
      else if c = '_' then before = .digit && underscoresSeparate hex .underscore rest
      else before ≠ .underscore && underscoresSeparate hex .other rest

def dropSign : List Char → List Char
  | c :: rest => if c = '-' ∨ c = '+' then rest else c :: rest
  | [] => []

/-- The rule on underscores: between digits, or between a lead and a digit. -/
def underscoresAllowed (text : List Char) : Bool :=
  match dropSign text with
  | '0' :: c :: rest =>
      if c = 'x' ∨ c = 'X' then underscoresSeparate true .digit rest
      else if c = 'b' ∨ c = 'B' ∨ c = 'o' ∨ c = 'O' then underscoresSeparate false .digit rest
      else underscoresSeparate false .nothing ('0' :: c :: rest)
  | rest => underscoresSeparate false .nothing rest

/-- The value of an unsigned numeral of at most 64 bits. -/
def readMagnitude (radix : Radix) (text : List Char) : Except Cause Nat :=
  if text = [] then .error .malformed
  else match radix with
    | .fixed base => readDigits base false text 0
    | .byLead =>
        let (base, digits) := splitLead text
        match readDigits base true digits 0 with
        | .error cause => .error cause
        | .ok value =>
            if digits.contains '_' && !underscoresAllowed text then .error .malformed
            else .ok value

def readUnsigned (radix : Radix) (text : String) : Except Refusal UInt64 :=
  match readMagnitude radix text.toList with
  | .ok value => .ok value.toUInt64
  | .error cause => .error ⟨.unsigned, text, cause⟩

/-- Whether a numeral starts with a minus sign, and what follows an optional sign. -/
def splitSign : List Char → Bool × List Char
  | '-' :: rest => (true, rest)
  | '+' :: rest => (false, rest)
  | text => (false, text)

/-- The value of a signed numeral of at most 64 bits. -/
def readInteger (radix : Radix) (text : List Char) : Except Cause Int :=
  let (negative, digits) := splitSign text
  match readMagnitude radix digits with
  | .error cause => .error cause
  | .ok value =>
      if negative then
        if 0x8000000000000000 < value then .error .outOfRange else .ok (-(value : Int))
      else if 0x8000000000000000 ≤ value then .error .outOfRange else .ok value

def readSigned (radix : Radix) (text : String) : Except Refusal Int :=
  match readInteger radix text.toList with
  | .ok value => .ok value
  | .error cause => .error ⟨.signed, text, cause⟩

end X64Backend.Numeral
