import X64Backend.Lower.Fusion

/-!
Where values are: variables, fields, text literals, and storage that lasts across branches.
-/

namespace X64Backend.Lower

open X64Backend.Tree

/-- What a variable stands for in an activation: an operand, or an offset in the frame. -/
inductive Binding where
  | operand (operand : Operand)
  | offset (offset : Int64)

def Activation.binding? (activation : Activation) (id : VarId) : Option Binding :=
  match activation.bound.lookup id with
  | some operand => some (.operand operand)
  | none => (activation.locals.lookup id).map .offset

/-- The operand of a variable.  Inside an expansion a parameter is the operand of the caller, and a
local is at its place in the frame of the caller.  A by-reference variable is reached through its
stored address. -/
def variableOperand (program : TypedProgram) (id : VarId) : Gen Operand := do
  let v := program.var id
  let found : Option Binding :=
    (← get).activations.findSome? fun activation => activation.binding? id
  match found with
  | some (.operand operand) => return operand
  | some (.offset offset) => cell v offset
  | none => cell v v.offset
where
  cell (v : Variable) (offset : Int64) : Gen Operand := do
    if v.byRef then
      let pointer ← drafting (Drafting.nextRegister .s64)
      emit [.binary .mov (.reg pointer) (.mem (frameCell offset .s64))]
      return .mem (.ofBase pointer 0 v.type.operandSize)
    else return .mem (frameCell offset v.type.operandSize)

def base (operand : Operand) : Gen Register :=
  match operand with
  | .reg register => return register.resize .s64
  | _ => load operand .s64 false

def fieldCell (object : Operand) (member : Field) : Gen Operand := do
  let register ← base object
  return .mem (.ofBase register member.offset.toInt32 member.type.operandSize)

def textLabel (number : Nat) : String :=
  ".S" ++ toString number

/-- The operand of a literal.  Texts live in the data section, one item for each text. -/
def literal (value : Literal) : Gen Operand := do
  if value.kind ≠ .string then return .lit value
  let texts := (← get).texts
  match texts.idxOf? value.text with
  | some number => return .lit (.data (textLabel number))
  | none =>
      let label := textLabel texts.length
      modify fun state =>
        { state with
          texts := state.texts ++ [value.text]
          data := state.data.emit (.data ⟨label, ".asciz", [Text.quote value.text]⟩) }
      return .lit (.data label)

/-- Clears the accumulator ahead of code with branches, if there is room: a value moved out of it on
one path only would be looked for in the new register on the other path too. -/
def reserveIfBusy : Gen Unit := do
  let pool := (← get).draft.pool
  if pool.isOccupied Pool.accumulator && 0 < pool.freeCount then drafting Drafting.reserve

/-- Storage for a value that lives across branches: a register of the pool other than the
accumulator, or a place in the frame when none is free. -/
def stable (size : Size) : Gen Operand := do
  let pool := (← get).draft.pool
  if Pool.savedSlots.any fun slot => !pool.isOccupied slot then
    return .reg (← drafting (Drafting.nextRegister size))
  log "no free callee-saved register, using a stack slot"
  stackTemp size

end X64Backend.Lower
