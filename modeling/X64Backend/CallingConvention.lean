import X64Backend.Code.Phys

/-!
The calling convention: how arguments and results cross a call.
-/

namespace X64Backend.CallingConvention

def argumentRegisters : List Phys := [.rdi, .rsi, .rdx, .rcx, .r8, .r9]

/-- The register of an argument; later arguments go on the stack. -/
def argumentRegister? (index : Nat) : Option Phys := argumentRegisters[index]?

def returnRegister : Phys := .rax

def calleeSaved : List Phys := [.rbx, .rbp, .r12, .r13, .r14, .r15]

def stackAlignment : Nat := 16

/-- The bytes below the stack pointer that a leaf may use. -/
def redZone : Nat := 128

end X64Backend.CallingConvention
