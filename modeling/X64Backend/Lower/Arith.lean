import X64Backend.Lower.Place

/-!
Operators on operands.  Both operands have been evaluated; an operator on two numeric literals is
evaluated on the spot, and any other one becomes instructions.
-/

namespace X64Backend.Lower

open X64Backend.Tree

/-- The instruction of an operator that works on a destination and a source of one width. -/
def arithOp? : BinaryOp → Option Op
  | .add => some .add
  | .sub => some .sub
  | .mul => some .imul
  | .and => some .and
  | .or => some .or
  | .xor => some .xor
  | _ => none

def isLiteral : Operand → Bool
  | .lit _ => true
  | _ => false

/-- Puts the operand that may be overwritten first, where the order does not matter. -/
def arrange (draft : Draft) (op : BinaryOp) (left right : Operand) : Operand × Operand :=
  if (isLiteral left || !isTemp draft left) && isTemp draft right && op ≠ .sub then (right, left)
  else (left, right)

/-- An operator whose instruction works on a destination and a source.  There is no multiplication
of bytes, so they are multiplied at 32 bits. -/
def combine (op : BinaryOp) (instr : Op) (left right : Operand) (size : Size) (signed : Bool) :
    Gen Operand := do
  let (first, second) := arrange (← get).draft op left right
  let dst ← load first size signed
  let src ← operandFor second size signed
  if instr = .imul && size = .s8 then
    let wide ← load src .s32 signed
    widen (dst.resize .s32) (.reg dst) signed
    emit [.binary instr (.reg (dst.resize .s32)) (.reg wide)]
    release (.reg wide)
  else
    emit [.binary instr (.reg dst) src]
    release src
  return .reg dst

def isZero : Operand → Bool
  | .lit literal =>
      match literal.bits with
      | .ok word => word == 0
      | .error _ => false
  | _ => false

/-- Puts a divisor where the division can use it: a 64-bit cell stays where it is, anything else
goes to the count register. -/
def placeDivisor (divisor : Operand) (signed : Bool) : Gen Operand := do
  if divisor.isMem && divisor.size = .s64 then return divisor
  let rcx : Operand := .reg (.fix .rcx .s64)
  move rcx divisor signed .lowFirst
  return rcx

/-- The instructions that divide the accumulator. -/
def division (divisor : Operand) (signed : Bool) : List Instr :=
  if signed then [.nullary .cqo, .unary .idiv divisor]
  else
    let edx : Operand := .reg (.fix .rdx .s32)
    [.binary .xor edx edx, .unary .div divisor]

/-- A division of 64-bit values, or its remainder. -/
def divide (left right : Operand) (size : Size) (signed remainder : Bool) : Gen Operand := do
  if isZero right then
    report (.ofMessage "division by zero")
    release left
    return .lit (.ofInt 0)
  drafting Drafting.reserve
  let divisor ← placeDivisor right signed
  move (.reg (.fix .rax .s64)) left signed .lowFirst
  let result ← drafting (Drafting.callAlloc .s64)
  emit (division divisor signed)
  release left
  release right
  if remainder then emit [.binary .mov (.reg result) (.reg (.fix .rdx .s64))]
  return .reg (result.resize size)

/-- Whether a literal can be the count of a shift. -/
def isCount (literal : Literal) : Bool :=
  match literal.bits with
  | .ok word => word ≤ 63
  | .error _ => false

/-- A shift.  A count that is not a literal goes through the count register. -/
def shift (op : Op) (left right : Operand) (size : Size) (signed : Bool) : Gen Operand := do
  let dst ← load left size signed
  match right with
  | .lit literal =>
      if isCount literal then emit [.binary op (.reg dst) right]
      else report (.ofMessage ("shift count " ++ literal.spelling ++ " out of range"))
  | _ =>
      move (.reg (.fix .rcx .s64)) right false .lowFirst
      release right
      emit [.binary op (.reg dst) (.reg (.fix .rcx .s8))]
  return .reg dst

def arith (op : BinaryOp) (left right : Operand) (type : TypeRef) : Gen Operand := do
  let size := type.operandSize
  let signed := type.isSigned
  match ← fold op left right size signed with
  | some folded => return folded
  | none =>
      match op with
      | .div => divide left right size signed false
      | .mod => divide left right size signed true
      | .shl => shift .shl left right size signed
      | .shr => shift (if signed then .sar else .shr) left right size signed
      | _ =>
          match arithOp? op with
          | some instr => combine op instr left right size signed
          | none => throw (.unknownOperator op.symbol)

def comparisonCond (op : BinaryOp) (signed : Bool) : Cond :=
  match op with
  | .ne => .ne
  | .lt => if signed then .l else .b
  | .le => if signed then .le else .be
  | .gt => if signed then .g else .a
  | .ge => if signed then .ge else .ae
  | _ => .e

/-- The wider of two widths, the first one if they are equally wide. -/
def widerSize (first second : Size) : Size :=
  if first.bytes < second.bytes then second else first

/-- The source of a comparison.  An instruction has at most one memory cell. -/
def comparand (left right : Operand) (size : Size) (signed : Bool) : Gen Operand := do
  if left.isMem && right.isMem then return .reg (← load right size signed)
  operandFor right size signed

/-- Compares two operands and stores the condition in a byte register.  A literal can only be the
second operand. -/
def compareOperands (cond : Cond) (left right : Operand) (size : Size) (signed : Bool) :
    Gen Operand := do
  let (cond, left, right) :=
    if isLiteral left then (cond.swap, right, left) else (cond, left, right)
  let first ← if left.size = size then pure left else Operand.reg <$> load left size signed
  let second ← comparand first right size signed
  emit [.binary .cmp first second]
  release first
  release second
  let dst ← drafting (Drafting.nextRegister .s8)
  emit [.unary (.set cond) (.reg dst)]
  return .reg dst

/-- The truth value of a comparison between values of two types.  The left type decides whether it
is signed. -/
def compare (op : BinaryOp) (left right : Operand) (leftType rightType : TypeRef) :
    Gen Operand := do
  let size := widerSize leftType.operandSize rightType.operandSize
  let signed := leftType.isSigned
  match ← fold op left right size signed with
  | some folded => return folded
  | none => compareOperands (comparisonCond op signed) left right size signed

/-- Negates a truth value.  A comparison that was just made is negated in place. -/
def negate (operand : Operand) : Gen Operand := do
  match ← lastSet? operand, ← temp operand with
  | some cond, true =>
      modifyText fun text => text.replaceLast (.unary (.set cond.negate) operand)
      return operand
  | _, _ =>
      test operand
      release operand
      let dst ← drafting (Drafting.nextRegister .s8)
      emit [.unary (.set .e) (.reg dst)]
      return .reg dst

/-- An operator that works on its operand in place. -/
def change (op : Op) (operand : Operand) (type : TypeRef) : Gen Operand := do
  let dst ← load operand type.operandSize type.isSigned
  emit [.unary op (.reg dst)]
  return .reg dst

def foldedOperand? (op : UnaryOp) (operand : Operand) (type : TypeRef) : Option Literal :=
  match operand with
  | .lit literal => foldUnary? op literal type.operandSize type.isSigned
  | _ => none

def unary (op : UnaryOp) (operand : Operand) (type : TypeRef) : Gen Operand := do
  match foldedOperand? op operand type with
  | some literal => return .lit literal
  | none =>
      match op with
      | .neg => change .neg operand type
      | .compl => change .not operand type
      | .not => negate operand
      | .other symbol => throw (.unknownUnaryOperator symbol)

end X64Backend.Lower
