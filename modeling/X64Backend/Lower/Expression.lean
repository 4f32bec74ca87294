import X64Backend.Lower.Arith
import X64Backend.Lower.Object
import X64Backend.Lower.Replay

/-!
Expressions.  Each expression is lowered to the computations that its surroundings may ask for: its
value, a branch on its truth, and the place that it names.
-/

namespace X64Backend.Lower

open X64Backend.Tree

/-- What can be generated for an expression. -/
structure Lowered where
  /-- The value of a literal node, which is known beforehand. -/
  literal? : Option Literal
  /-- Leaves the value in a literal, a register or a memory cell.  For literals and plain variables
  nothing is emitted. -/
  value : Gen Operand
  /-- Jumps to a label when the truth of the value is as wanted. -/
  branch : (label : String) → (wanted : Bool) → Gen Unit
  /-- The storage that the expression names, if it is one that can be assigned to. -/
  place? : Option (Gen Operand)

namespace Lowered

def branchOn (value : Gen Operand) (label : String) (wanted : Bool) : Gen Unit := do
  testAndBranch (← value) label wanted

def ofValue (value : Gen Operand) : Lowered :=
  { literal? := none, value, branch := branchOn value, place? := none }

def ofPlace (place : Gen Operand) : Lowered :=
  { ofValue place with place? := some place }

end Lowered

/-- Branches on two sides of which the right one is evaluated only if the left one does not decide.
A side that is a literal decides the outcome beforehand. -/
def shortCircuit (op : LogicalOp) (left right : Lowered) (label : String) (wanted : Bool) :
    Gen Unit := do
  let jumpIfDecided : Gen Unit := if op.decisive = wanted then jumpTo label else pure ()
  match left.literal?, right.literal? with
  | some first, _ =>
      if truth first = op.decisive then jumpIfDecided else right.branch label wanted
  | none, some second =>
      if truth second = op.decisive then
        -- the left side still has its effects
        release (← left.value)
        jumpIfDecided
      else left.branch label wanted
  | none, none =>
      if wanted = op.decisive then
        left.branch label wanted
        right.branch label wanted
      else
        let skip ← newLabel
        left.branch skip (!wanted)
        right.branch label wanted
        defineLabel skip

/-- The truth of two sides as a byte. -/
def logicalValue (op : LogicalOp) (left right : Lowered) : Gen Operand := do
  match left.literal? with
  | some first =>
      if truth first = op.decisive then return .lit (.ofBool op.decisive) else right.value
  | none =>
      reserveIfBusy
      let dst ← stable .s8
      drafting (Drafting.lock dst)
      let no ← newLabel
      let done ← newLabel
      shortCircuit op left right no false
      emit
        [.binary .mov dst (.lit (.ofInt 1)),
          .branch .jmp done,
          .label no false,
          .binary .mov dst (.lit (.ofInt 0)),
          .label done false]
      match dst with
      | .reg register => drafting (Drafting.settle register)
      | _ => pure ()
      return dst

def placeOf (env : Env) (e : Expr) (place? : Option (Gen Operand)) : Gen Operand :=
  match place? with
  | some place => place
  | none => throw (.notAssignable (e.shown env.program))

/-- The memory cell that an expression names, for an argument that is passed by reference. -/
def addressOf (env : Env) (e : Expr) (place? : Option (Gen Operand)) : Gen Operand := do
  let place ← placeOf env e place?
  if place.isMem then return place
  throw (.notAddressable (e.shown env.program))

def binary (env : Env) (op : BinaryOp) (left right : Expr) (type : TypeRef)
    (first second : Gen Operand) : Gen Operand := do
  let x ← first
  let y ← second
  if op.isComparison then compare op x y (left.type env.program) (right.type env.program)
  else arith op x y type

def lower (env : Env) : Expr → Lowered
  | .absent => .ofValue (throw .absentExpression)
  | .lit value _ => { Lowered.ofValue (literal value) with literal? := some value }
  | .var id => .ofPlace (variableOperand env.program id)
  | .field object member => .ofPlace do
      fieldCell (← (lower env object).value) member
  | .binary op left right type =>
      .ofValue (binary env op left right type (lower env left).value (lower env right).value)
  | .overloaded _ left right _ callee =>
      let first := lower env left
      let second := lower env right
      .ofValue (invoke env callee
        (operandsOf (env.program.function callee) none
          [(first.value, addressOf env left first.place?),
            (second.value, addressOf env right second.place?)]) false)
  | .unary op operand type =>
      let inner := lower env operand
      let plain := Lowered.ofValue do
        unary op (← inner.value) type
      match op with
      | .not => { plain with branch := fun label wanted => inner.branch label (!wanted) }
      | _ => plain
  | .logical op left right =>
      let first := lower env left
      let second := lower env right
      { Lowered.ofValue (logicalValue op first second) with
        branch := shortCircuit op first second }
  | .call callee receiver arguments isVirtual =>
      let receiverValue :=
        if receiver.isAbsent then none else some (lower env receiver).value
      .ofValue (invoke env callee
        (operandsOf (env.program.function callee) receiverValue (lowerAll env arguments)) isVirtual)
  | .new cls arguments => .ofValue (newObject env cls (lowerAll env arguments))
  | .asm block vars type => .ofValue (asmBlock ⟨env.program, block, vars, type⟩)
where
  lowerAll (env : Env) : List Expr → List (Gen Operand × Gen Operand)
    | [] => []
    | e :: rest =>
        let lowered := lower env e
        (lowered.value, addressOf env e lowered.place?) :: lowerAll env rest

end X64Backend.Lower
