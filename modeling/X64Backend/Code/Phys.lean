import X64Backend.Code.Size

/-!
The sixteen general registers of the machine and their spellings at each width.
-/

namespace X64Backend

inductive Phys where
  | rax
  | rbx
  | rcx
  | rdx
  | rsi
  | rdi
  | rbp
  | rsp
  | r8
  | r9
  | r10
  | r11
  | r12
  | r13
  | r14
  | r15
  deriving DecidableEq, Repr, Inhabited

namespace Phys

def all : List Phys :=
  [rax, rbx, rcx, rdx, rsi, rdi, rbp, rsp, r8, r9, r10, r11, r12, r13, r14, r15]

def index : Phys → Fin 16
  | rax => 0
  | rbx => 1
  | rcx => 2
  | rdx => 3
  | rsi => 4
  | rdi => 5
  | rbp => 6
  | rsp => 7
  | r8 => 8
  | r9 => 9
  | r10 => 10
  | r11 => 11
  | r12 => 12
  | r13 => 13
  | r14 => 14
  | r15 => 15

/-- The spellings of a register at 8, 16, 32 and 64 bits, and of its upper byte where it has one. -/
def spellings : Phys → String × String × String × String × Option String
  | rax => ("al", "ax", "eax", "rax", some "ah")
  | rbx => ("bl", "bx", "ebx", "rbx", some "bh")
  | rcx => ("cl", "cx", "ecx", "rcx", some "ch")
  | rdx => ("dl", "dx", "edx", "rdx", some "dh")
  | rsi => ("sil", "si", "esi", "rsi", none)
  | rdi => ("dil", "di", "edi", "rdi", none)
  | rbp => ("bpl", "bp", "ebp", "rbp", none)
  | rsp => ("spl", "sp", "esp", "rsp", none)
  | r8 => ("r8b", "r8w", "r8d", "r8", none)
  | r9 => ("r9b", "r9w", "r9d", "r9", none)
  | r10 => ("r10b", "r10w", "r10d", "r10", none)
  | r11 => ("r11b", "r11w", "r11d", "r11", none)
  | r12 => ("r12b", "r12w", "r12d", "r12", none)
  | r13 => ("r13b", "r13w", "r13d", "r13", none)
  | r14 => ("r14b", "r14w", "r14d", "r14", none)
  | r15 => ("r15b", "r15w", "r15d", "r15", none)

def name? (phys : Phys) : Size → Option String
  | .unsized => none
  | .s8 => some phys.spellings.1
  | .s16 => some phys.spellings.2.1
  | .s32 => some phys.spellings.2.2.1
  | .s64 => some phys.spellings.2.2.2.1
  | .high8 => phys.spellings.2.2.2.2

/-- Whether the upper byte of the lower half can be named. -/
def hasHigh8 (phys : Phys) : Bool :=
  (phys.name? .high8).isSome

def text (phys : Phys) : String :=
  phys.spellings.2.2.2.1

def table : List (String × Phys × Size) :=
  all.flatMap fun phys => Size.all.filterMap fun size =>
    (phys.name? size).map fun name => (name, phys, size)

/-- The register and width that a spelling names. -/
def lookup (name : String) : Option (Phys × Size) :=
  table.lookup name

def names : List String :=
  table.map Prod.fst

/-- The full-width spelling, or a question mark where there is no register. -/
def textOrUnknown : Option Phys → String
  | some phys => phys.text
  | none => "?"

/-- The name of the register with a given number, counted from one. -/
def textOfNumber (number : Nat) : String :=
  textOrUnknown (if number = 0 then none else all[number - 1]?)

end Phys

end X64Backend
