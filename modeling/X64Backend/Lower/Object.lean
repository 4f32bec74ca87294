import X64Backend.Lower.Call

/-!
New objects.  Their memory comes from the operating system, filled with zeros.
-/

namespace X64Backend.Lower

open X64Backend.Tree

def mapService : Int := 9

def readWrite : Int := 3

/-- Memory that belongs to the process alone and to no file. -/
def privateAnonymous : Int := 0x22

/-- The instructions that leave the address of fresh memory in the accumulator. -/
def mapMemory (size : Int64) : List Instr :=
  let dword (phys : Phys) : Operand := .reg (.fix phys .s32)
  [.binary .mov (dword .rax) (.lit (.ofInt mapService)),
    .binary .xor (dword .rdi) (dword .rdi),
    .binary .mov (dword .rsi) (.lit (.ofInt size.toInt)),
    .binary .mov (dword .rdx) (.lit (.ofInt readWrite)),
    .binary .mov (dword .r10) (.lit (.ofInt privateAnonymous)),
    .binary .mov (.reg (.fix .r8 .s64)) (.lit (.ofInt (-1))),
    .binary .xor (dword .r9) (dword .r9),
    .nullary .syscall]

def allocateObject (c : Tree.Class) : Gen Register := do
  drafting Drafting.reserve
  let object ← drafting (Drafting.callAlloc .s64)
  emit (mapMemory c.size)
  log ("new " ++ c.name ++ ": " ++ toString c.size ++ " bytes")
  if c.hasVTable then
    emit [.binary .mov (.mem (.ofBase object 0 .s64)) (.lit (.data c.vtableLabel))]
  return object

/-- Makes an instance and runs the constructor on it, if there is one. -/
def newObject (env : Env) (cls : ClassId) (arguments : List (Gen Operand × Gen Operand)) :
    Gen Operand := do
  let c := env.program.cls cls
  let object : Operand := .reg (← allocateObject c)
  match c.ctor with
  | none => return object
  | some ctor =>
      drafting (Drafting.lock object)
      let operands := operandsOf (env.program.function ctor) (some (pure object)) arguments
      release (← invoke env ctor operands false)
      drafting (Drafting.unlock object)
      return object

end X64Backend.Lower
