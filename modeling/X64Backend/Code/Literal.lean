import X64Backend.Numeral.Floating

/-!
Immediate values and label references.  A literal keeps the text it was written with and is turned
into bits only where they are needed.
-/

namespace X64Backend

namespace Literal

inductive Kind where
  | int
  | uint
  | float
  | string
  | bool
  | binary
  | hex
  | dataLabel
  | procLabel
  deriving DecidableEq, Repr, Inhabited

namespace Kind

def text : Kind → String
  | int => "int"
  | uint => "uint"
  | float => "float"
  | string => "string"
  | bool => "bool"
  | binary => "binary"
  | hex => "hex"
  | dataLabel => "data label"
  | procLabel => "procedure label"

/-- Every kind, in the order of its number. -/
def all : List Kind := [int, uint, float, string, bool, binary, hex, dataLabel, procLabel]

def textOfNumber (number : Nat) : String :=
  match all[number]? with
  | some kind => kind.text
  | none => "unknown"

end Kind

/-- Why a literal has no bits. -/
inductive Fault where
  | integer (text : String) (refusal : Numeral.Refusal)
  | unsigned (text : String) (refusal : Numeral.Refusal)
  | boolean (text : String)
  | radix (kind : Kind) (text : String) (refusal : Numeral.Refusal)
  | floating (text : String) (refusal : Numeral.Refusal)
  | notNumeric (kind : Kind) (text : String)
  deriving DecidableEq, Repr

namespace Fault

def message : Fault → String
  | integer text refusal =>
      "invalid integer literal " ++ Text.quote text ++ ": " ++ refusal.message
  | unsigned text refusal =>
      "invalid unsigned literal " ++ Text.quote text ++ ": " ++ refusal.message
  | boolean text => "invalid boolean literal " ++ Text.quote text
  | radix kind text refusal =>
      "invalid " ++ kind.text ++ " literal " ++ Text.quote text ++ ": " ++ refusal.message
  | floating text refusal =>
      "invalid float literal " ++ Text.quote text ++ ": " ++ refusal.message
  | notNumeric kind text =>
      kind.text ++ " " ++ Text.quote text ++ ": literal has no numeric encoding"

/-- Whether the literal is of a kind without numeric encoding. -/
def isNotNumeric : Fault → Bool
  | notNumeric _ _ => true
  | _ => false

end Fault

end Literal

/-- An immediate value or a label reference. -/
structure Literal where
  kind : Literal.Kind
  text : String
  deriving DecidableEq, Repr, Inhabited

namespace Literal

def ofInt (value : Int) : Literal := ⟨.int, toString value⟩

def ofNat (value : Nat) : Literal := ⟨.uint, toString value⟩

def ofWord (value : UInt64) : Literal := ⟨.hex, "0x" ++ Text.hexUpper value.toNat⟩

def ofBool (value : Bool) : Literal := ⟨.bool, if value then "true" else "false"⟩

def data (name : String) : Literal := ⟨.dataLabel, name⟩

def proc (name : String) : Literal := ⟨.procLabel, name⟩

/-- Whether the literal names an address rather than a value. -/
def isLabel (literal : Literal) : Bool :=
  literal.kind = .dataLabel || literal.kind = .procLabel

def isNegative (text : String) : Bool :=
  text.toList.head? = some '-'

/-- The digits of a text behind its minus sign and its lead, without underscores.  The lead is a
zero and the given letter in either case. -/
def bareDigits (letter : Char) (text : String) : String :=
  let unsigned := if isNegative text then text.toList.drop 1 else text.toList
  let digits :=
    match unsigned with
    | '0' :: c :: rest => if c.toLower = letter then rest else unsigned
    | _ => unsigned
  String.ofList (digits.filter (· ≠ '_'))

/-- Whether a floating-point literal carries the mark for single precision. -/
def isSingle (text : String) : Bool :=
  match text.toList.getLast? with
  | some c => c = 'f' || c = 'F'
  | none => false

/-- The 64-bit pattern of a literal in a power-of-two radix. -/
def radixBits (kind : Kind) (letter : Char) (base : Nat) (text : String) : Except Fault UInt64 :=
  match Numeral.readUnsigned (.fixed base) (bareDigits letter text) with
  | .ok value => .ok (if isNegative text then -value else value)
  | .error refusal => .error (.radix kind text refusal)

def floatBits (text : String) : Except Fault UInt64 :=
  let numeral := if isSingle text then String.ofList text.toList.dropLast else text
  match Numeral.readDouble numeral with
  | .error refusal => .error (.floating text refusal)
  | .ok pattern =>
      .ok (if isSingle text then Numeral.doubleToSingle pattern else pattern).toUInt64

def intValue (text : String) : Except Fault Int :=
  match Numeral.readSigned .byLead text with
  | .ok value => .ok value
  | .error refusal => .error (.integer text refusal)

def wordOfInt (value : Int) : UInt64 :=
  (Int64.ofInt value).toUInt64

def intOfWord (word : UInt64) : Int :=
  word.toInt64.toInt

def bits (literal : Literal) : Except Fault UInt64 :=
  match literal.kind with
  | .int => (intValue literal.text).map wordOfInt
  | .uint =>
      match Numeral.readUnsigned .byLead literal.text with
      | .ok value => .ok value
      | .error refusal => .error (.unsigned literal.text refusal)
  | .bool =>
      if literal.text = "true" ∨ literal.text = "1" then .ok 1
      else if literal.text = "false" ∨ literal.text = "0" then .ok 0
      else .error (.boolean literal.text)
  | .binary => radixBits .binary 'b' 2 literal.text
  | .hex => radixBits .hex 'x' 16 literal.text
  | .float => floatBits literal.text
  | kind => .error (.notNumeric kind literal.text)

/-- The fewest bytes, of 1, 2, 4 and 8, that hold a signed value either as a signed or as an
unsigned number. -/
def signedSize (value : Int) : Nat :=
  if -0x80 ≤ value ∧ value < 0x100 then 1
  else if -0x8000 ≤ value ∧ value < 0x10000 then 2
  else if -0x80000000 ≤ value ∧ value < 0x100000000 then 4
  else 8

/-- The fewest bytes, of 1, 2, 4 and 8, that hold a word as an unsigned number. -/
def unsignedSize (word : UInt64) : Nat :=
  if word.toNat < 0x100 then 1
  else if word.toNat < 0x10000 then 2
  else if word.toNat < 0x100000000 then 4
  else 8

/-- The fewest bytes that hold the literal, by its kind and magnitude. -/
def minSize (literal : Literal) : Except Fault Nat :=
  match literal.kind with
  | .bool => .ok 1
  | .float => .ok (if isSingle literal.text then 4 else 8)
  | .string | .dataLabel | .procLabel => .ok 8
  | .int => (intValue literal.text).map signedSize
  | .uint => literal.bits.map unsignedSize
  | .binary | .hex =>
      literal.bits.map fun word =>
        if isNegative literal.text then signedSize (intOfWord word) else unsignedSize word

/-- Whether the literal can be encoded as a sign-extended 32-bit immediate. -/
def fitsImm32 (literal : Literal) : Bool :=
  literal.isLabel ||
    match literal.bits with
    | .ok word => -0x80000000 ≤ intOfWord word && intOfWord word < 0x80000000
    | .error _ => false

/-- The low and the high half of the 64-bit pattern. -/
def halves (literal : Literal) : Except Fault (Literal × Literal) :=
  literal.bits.map fun word => (ofWord (word &&& 0xFFFFFFFF), ofWord (word >>> 32))

/-- The spelling of a literal as an operand.  The target of a branch is written bare, any other
label with the word that asks for its address. -/
def render (literal : Literal) (branchTarget : Bool) : String :=
  match literal.kind with
  | .int | .uint | .hex => literal.text
  | .bool => if literal.text = "true" ∨ literal.text = "1" then "1" else "0"
  | .binary =>
      match literal.bits with
      | .ok word => toString (intOfWord word)
      | .error _ => literal.text
  | .float =>
      match literal.bits with
      | .ok word => "0x" ++ Text.hexUpper word.toNat
      | .error _ => literal.text
  | .dataLabel | .procLabel => if branchTarget then literal.text else "OFFSET " ++ literal.text
  | .string => Text.quote literal.text

def spelling (literal : Literal) : String :=
  literal.render false

end Literal

end X64Backend
