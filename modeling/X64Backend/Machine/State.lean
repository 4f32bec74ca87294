import X64Backend.CallingConvention
import X64Backend.Machine.Flags
import X64Backend.Machine.Image

/-!
The state of the machine and the faults that stop it.  An instruction that faults may have changed
the state before, so the execution monad keeps the state beside the fault.
-/

namespace X64Backend.Machine

/-- What a call promises to give back, recorded when it is made. -/
structure Frame where
  target : String
  rsp : UInt64
  registers : Registers

inductive Fault where
  | stepLimit
  | misaligned (target : String) (rsp : UInt64)
  | stackMoved (target : String) (distance : UInt64)
  | clobbered (target : String) (phys : Phys)
  | returnWithoutCall
  | outOfCode (ip : Int)
  | unboundHandle (handle : Handle)
  | noHigh8 (phys : Phys)
  | literal (fault : Literal.Fault)
  | unknownSymbol (name : String)
  | unknownLabel (name : String)
  | readAbsent
  | notWritable (operand : Operand)
  | badAddress (address : UInt64)
  | unsupportedOp (op : Op)
  | unsupportedInstr
  | unsupportedSyscall (number : UInt64)
  | divideWidth (op : Op)
  | divisionByZero
  | highDividend
  | missingSignExtension
  | unsizedDestination (op : Op)
  | twoMemoryOperands (op : Op)
  | addressOfNothing
  /-- A branch address so high that the index of the instruction is negative: the interpreter
  itself breaks off. -/
  | negativeIndex (index : Int)
  deriving DecidableEq, Repr

def Fault.message : Fault → String
  | stepLimit => "step limit reached"
  | misaligned target rsp =>
      "stack not 16-byte aligned at call: call " ++ target ++ " with rsp=0x" ++
        Text.hexUpper rsp.toNat
  | stackMoved target distance =>
      "callee-saved register not restored: " ++ target ++ " returned with rsp off by " ++
        toString (Literal.intOfWord distance)
  | clobbered target phys =>
      "callee-saved register not restored: " ++ target ++ " clobbered " ++ phys.text
  | returnWithoutCall => "return without matching call"
  | outOfCode ip => "instruction pointer " ++ toString ip ++ " out of range"
  | unboundHandle handle => "unbound register handle " ++ toString handle
  | noHigh8 phys => phys.text ++ " has no upper-8 alias"
  | literal fault => fault.message
  | unknownSymbol name => "unknown symbol " ++ Text.quote name
  | unknownLabel name => "unknown label " ++ Text.quote name
  | readAbsent => "unsupported operand <nil>"
  | notWritable operand => "cannot write to " ++ operand.kindText
  | badAddress address =>
      "indirect branch to invalid address 0x" ++ Text.hexUpper address.toNat
  | unsupportedOp op => "unsupported instruction " ++ op.name
  | unsupportedInstr => "unsupported instruction <nil>"
  | unsupportedSyscall number => "unsupported syscall " ++ toString number.toNat
  | divideWidth op => op.name ++ " only supported on 64-bit operands"
  | divisionByZero => "division by zero"
  | highDividend => "div with non-zero rdx is not supported"
  | missingSignExtension =>
      "idiv needs rdx to hold the sign extension of rax (missing cqo)"
  | unsizedDestination op => op.name ++ ": destination has no size"
  | twoMemoryOperands op => op.name ++ ": two memory operands"
  | addressOfNothing => "lea needs a memory source"
  | negativeIndex index => "runtime error: index out of range [" ++ toString index ++ "]"

/-- The classes of faults that callers tell apart. -/
inductive Fault.Class where
  | stepLimit
  | misaligned
  | clobbered
  | crash
  | other
  deriving DecidableEq, Repr

def Fault.class : Fault → Fault.Class
  | stepLimit => .stepLimit
  | misaligned _ _ => .misaligned
  | stackMoved _ _ | clobbered _ _ => .clobbered
  | negativeIndex _ => .crash
  | _ => .other

/-- How many of the newest instructions a report shows. -/
def recentCount : Nat := 10

structure State where
  registers : Registers
  memory : Memory
  flags : Flags
  /-- The index of the next instruction. -/
  ip : Int
  /-- The first address not yet handed out. -/
  heap : UInt64
  /-- The calls in progress, innermost first. -/
  frames : List Frame
  /-- The indices of the instructions executed last, newest first. -/
  recent : List Nat
  /-- The status given to the exit service, once it was called. -/
  exit : Option UInt64
  steps : Nat

def State.initial (image : Image) : State :=
  { registers := .zero
    memory := image.memory
    flags := .clear
    ip := 0
    heap := heapBase
    frames := []
    recent := []
    exit := none
    steps := 0 }

abbrev Exec := EStateM Fault State

namespace Exec

def getReg (phys : Phys) : Exec UInt64 := do
  return (← get).registers.get phys

def setReg (phys : Phys) (word : UInt64) : Exec Unit :=
  modify fun state => { state with registers := state.registers.set phys word }

def setFlags (flags : Flags) : Exec Unit :=
  modify fun state => { state with flags }

def load (address : UInt64) (count : Nat) : Exec UInt64 := do
  return (← get).memory.load address count

def store (address : UInt64) (count : Nat) (word : UInt64) : Exec Unit :=
  modify fun state => { state with memory := state.memory.store address count word }

def push (word : UInt64) : Exec Unit := do
  let rsp := (← getReg .rsp) - 8
  setReg .rsp rsp
  store rsp 8 word

def pop : Exec UInt64 := do
  let rsp ← getReg .rsp
  let word ← load rsp 8
  setReg .rsp (rsp + 8)
  return word

end Exec

end X64Backend.Machine
