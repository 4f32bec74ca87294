import X64Backend.Code.Literal
import X64Backend.Code.Phys

/-!
Operands of instructions: registers, memory cells and literals.  A register is either a fixed
hardware register or stands for a handle, whose hardware register is known only when the listing is
written.

Handles are natural numbers without a bound.  An implementation that keeps them in 32-bit words is
modelled exactly as long as it issues fewer than `2 ^ 32` of them.
-/

namespace X64Backend

/-- An allocation that lives in some hardware register.  Handles count from one. -/
abbrev Handle := Nat

/-- Where a register operand is: behind a handle, or in a fixed hardware register.  A place without
any register occurs only in code that was put together by hand. -/
inductive Place where
  | slot (handle : Handle)
  | fixed (phys : Option Phys)
  deriving DecidableEq, Repr, Inhabited

structure Register where
  place : Place
  size : Size
  deriving DecidableEq, Repr, Inhabited

namespace Register

def fix (phys : Phys) (size : Size) : Register := ⟨.fixed (some phys), size⟩

/-- The register of a handle at a width; the handle zero stands for no register. -/
def ofHandle (handle : Handle) (size : Size) : Register :=
  if handle = 0 then ⟨.fixed none, size⟩ else ⟨.slot handle, size⟩

/-- The handle of a register, zero for a fixed one. -/
def handle (register : Register) : Handle :=
  match register.place with
  | .slot handle => handle
  | .fixed _ => 0

def isSlot (register : Register) : Bool :=
  match register.place with
  | .slot _ => true
  | .fixed _ => false

def resize (register : Register) (size : Size) : Register := { register with size }

/-- Whether two registers are one storage, whatever their widths. -/
def same (first second : Register) : Bool := first.place = second.place

def text (register : Register) : String :=
  match register.place with
  | .slot handle => "%" ++ toString handle ++ ":" ++ register.size.text
  | .fixed phys =>
      match phys.bind fun p => p.name? register.size with
      | some name => name
      | none => Phys.textOrUnknown phys ++ ":" ++ register.size.text

end Register

structure Pointer where
  base : Register
  disp : Int32
  size : Size
  deriving DecidableEq, Repr, Inhabited

namespace Pointer

/-- The cell at a displacement from a base, which is used at full width. -/
def ofBase (base : Register) (disp : Int32) (size : Size) : Pointer :=
  ⟨base.resize .s64, disp, size⟩

def offset (pointer : Pointer) (distance : Int32) : Pointer :=
  { pointer with disp := pointer.disp + distance }

def resize (pointer : Pointer) (size : Size) : Pointer := { pointer with size }

def text (pointer : Pointer) : String :=
  "\x7b" ++ pointer.base.text ++ " " ++ toString pointer.disp.toInt ++ " " ++ pointer.size.text ++
    "\x7d"

end Pointer

/-- An operand.  An absent one occurs only in code that was put together by hand, and where an
expression has no value. -/
inductive Operand where
  | absent
  | reg (register : Register)
  | mem (pointer : Pointer)
  | lit (literal : Literal)
  deriving DecidableEq, Repr, Inhabited

namespace Operand

/-- Whether two operands are one register or one memory cell, whatever their widths. -/
def sameLocation : Operand → Operand → Bool
  | reg first, reg second => first.same second
  | mem first, mem second => first.base.same second.base && first.disp = second.disp
  | _, _ => false

def size : Operand → Size
  | reg register => register.size
  | mem pointer => pointer.size
  | _ => .unsized

/-- The register that an operand is or depends on. -/
def base? : Operand → Option Register
  | reg register => some register
  | mem pointer => some pointer.base
  | _ => none

def isMem : Operand → Bool
  | mem _ => true
  | _ => false

def text : Operand → String
  | absent => "<nil>"
  | reg register => register.text
  | mem pointer => pointer.text
  | lit literal => literal.spelling

def kindText : Operand → String
  | absent => "<nil>"
  | reg _ => "asm.Register"
  | mem _ => "asm.Pointer"
  | lit _ => "asm.Literal"

end Operand

end X64Backend
