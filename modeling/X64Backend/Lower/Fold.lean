import X64Backend.Lower.State

/-!
Operators on literals, evaluated while generating.
-/

namespace X64Backend.Lower

open X64Backend.Tree

def numeric? (literal : Literal) : Option UInt64 :=
  match literal.kind with
  | .int | .uint | .hex | .binary | .bool => literal.bits.toOption
  | _ => none

/-- The truth of a literal.  Labels and texts are addresses, which are never zero. -/
def truth (literal : Literal) : Bool :=
  literal.isLabel || literal.kind = .string ||
    match literal.bits with
    | .ok word => word != 0
    | .error _ => false

/-- Cuts a word to a width and extends it back to 64 bits. -/
def wrap (word : UInt64) (size : Size) (signed : Bool) : UInt64 :=
  let bits := size.bytes * 8
  if bits = 0 ∨ 64 ≤ bits then word
  else if signed then
    let shift := (64 - bits).toUInt64
    ((word <<< shift).toInt64 >>> shift.toInt64).toUInt64
  else word &&& ((1 <<< bits.toUInt64) - 1)

def literalOf (word : UInt64) (signed : Bool) : Literal :=
  if signed then .ofInt (Literal.intOfWord word) else .ofNat word.toNat

def lessThan (first second : UInt64) (signed : Bool) : Bool :=
  if signed then first.toInt64 < second.toInt64 else first < second

inductive Folded where
  | word (value : UInt64)
  | truth (value : Bool)
  | divisionByZero
  /-- The operator has no meaning for words. -/
  | unknown
  deriving DecidableEq, Repr

/-- The value of an operator on two words that are already cut to the width of the operation. -/
def foldWords (op : BinaryOp) (first second : UInt64) (signed : Bool) : Folded :=
  let count := second &&& 63
  match op with
  | .add => .word (first + second)
  | .sub => .word (first - second)
  | .mul => .word (first * second)
  | .and => .word (first &&& second)
  | .or => .word (first ||| second)
  | .xor => .word (first ^^^ second)
  | .shl => .word (first <<< count)
  | .shr =>
      .word (if signed then (first.toInt64 >>> count.toInt64).toUInt64 else first >>> count)
  | .div =>
      if second = 0 then .divisionByZero
      else .word (if signed then (first.toInt64 / second.toInt64).toUInt64 else first / second)
  | .mod =>
      if second = 0 then .divisionByZero
      else .word (if signed then (first.toInt64 % second.toInt64).toUInt64 else first % second)
  | .eq => .truth (first == second)
  | .ne => .truth (first != second)
  | .lt => .truth (lessThan first second signed)
  | .le => .truth (!lessThan second first signed)
  | .gt => .truth (lessThan second first signed)
  | .ge => .truth (!lessThan first second signed)
  | .other _ => .unknown

/-- Evaluates an operator on two literals at a width, if both are numeric. -/
def foldLiterals (op : BinaryOp) (left right : Literal) (size : Size) (signed : Bool) :
    Gen (Option Operand) := do
  match numeric? left, numeric? right with
  | some first, some second =>
      match foldWords op (wrap first size signed) (wrap second size signed) signed with
      | .word value =>
          log ("fold: " ++ left.spelling ++ " " ++ op.symbol ++ " " ++ right.spelling)
          return some (.lit (literalOf (wrap value size signed) signed))
      | .truth value => return some (.lit (.ofBool value))
      | .divisionByZero =>
          report (.ofMessage "division by zero in constant expression")
          return some (.lit (.ofInt 0))
      | .unknown => return none
  | _, _ => return none

def fold (op : BinaryOp) (left right : Operand) (size : Size) (signed : Bool) :
    Gen (Option Operand) := do
  match left, right with
  | .lit first, .lit second => foldLiterals op first second size signed
  | _, _ => return none

def foldUnary? (op : UnaryOp) (literal : Literal) (size : Size) (signed : Bool) :
    Option Literal :=
  match op with
  | .not => some (.ofBool (!truth literal))
  | .neg => (numeric? literal).map fun word => literalOf (wrap (0 - word) size signed) signed
  | .compl => (numeric? literal).map fun word => literalOf (wrap (~~~ word) size signed) signed
  | .other _ => none

end X64Backend.Lower
