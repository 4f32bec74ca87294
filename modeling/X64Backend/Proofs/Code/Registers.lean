import X64Backend.Code.Instr
import X64Backend.Pool.Slot

/-!
The registers that an instruction names, and those that it uses without naming them.
-/

namespace X64Backend

/-- The operand with another register in the place of its own. -/
def Operand.mapRegister (change : Register → Register) : Operand → Operand
  | .reg register => .reg (change register)
  | .mem pointer => .mem { pointer with base := change pointer.base }
  | other => other

namespace Instr

/-- The mnemonic of an instruction proper. -/
def op? : Instr → Option Op
  | .binary op _ _ | .unary op _ | .nullary op => some op
  | _ => none

/-- The registers that an instruction names. -/
def registers (instr : Instr) : List Register :=
  instr.operands.filterMap Operand.base?

/-- An instruction names a handle. -/
def Names (instr : Instr) (handle : Handle) : Prop :=
  ∃ register ∈ instr.registers, register.place = .slot handle

/-- The instruction with other registers in the place of its own. -/
def mapRegisters (change : Register → Register) : Instr → Instr
  | .binary op dst src => .binary op (dst.mapRegister change) (src.mapRegister change)
  | .unary op operand => .unary op (operand.mapRegister change)
  | other => other

/-- Whether an instruction works on the accumulator without naming it. -/
def impliesAccumulator : Instr → Bool
  | .unary .idiv _ | .unary .div _ => true
  | .nullary .cqo | .nullary .cdq | .nullary .syscall => true
  | _ => false

/-- Whether the next instruction is executed next. -/
def isStraight : Instr → Bool
  | .unary op _ => !op.isBranch
  | .nullary op => op ≠ .ret
  | _ => true

/-- Whether an instruction names the accumulator or works on it. -/
def usesAccumulator (instr : Instr) : Bool :=
  instr.impliesAccumulator ||
    instr.registers.any fun register => register.place = .fixed (some .rax)

theorem mem_registers_dst {op : Op} {dst src : Operand} {register : Register}
    (base : dst.base? = some register) : register ∈ (binary op dst src).registers := by
  simp [registers, operands, base]

theorem mem_registers_src {op : Op} {dst src : Operand} {register : Register}
    (base : src.base? = some register) : register ∈ (binary op dst src).registers := by
  simp [registers, operands, base]

theorem mem_registers_unary {op : Op} {operand : Operand} {register : Register}
    (base : operand.base? = some register) : register ∈ (unary op operand).registers := by
  simp [registers, operands, base]

end Instr

end X64Backend
