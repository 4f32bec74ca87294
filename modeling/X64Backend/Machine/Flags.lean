import X64Backend.Code.Cond
import X64Backend.Code.Size

/-!
Words cut to the width of an operand, and the flags with what each kind of instruction makes of
them.  A condition reads the flags that a comparison left.
-/

namespace X64Backend.Machine

/-- The bits that an operand of a width covers; an operand without a width covers all. -/
def mask : Size → UInt64
  | .s8 | .high8 => 0xFF
  | .s16 => 0xFFFF
  | .s32 => 0xFFFFFFFF
  | .s64 | .unsized => 0xFFFFFFFFFFFFFFFF

def signBit (size : Size) : UInt64 :=
  (mask size >>> 1) + 1

def isNegative (word : UInt64) (size : Size) : Bool :=
  word &&& signBit size != 0

/-- The covered bits as a signed number, extended to the full word. -/
def signExtend (word : UInt64) (size : Size) : UInt64 :=
  let low := word &&& mask size
  if size ≠ .s64 && isNegative low size then low ||| ~~~ mask size else low

/-- The four flags that conditions read. -/
structure Flags where
  zero : Bool
  sign : Bool
  carry : Bool
  overflow : Bool
  deriving DecidableEq, Repr, Inhabited

namespace Flags

def clear : Flags := ⟨false, false, false, false⟩

def ofLogic (result : UInt64) (size : Size) : Flags :=
  let result := result &&& mask size
  ⟨result = 0, isNegative result size, false, false⟩

def ofAdd (first second result : UInt64) (size : Size) : Flags :=
  let first := first &&& mask size
  let second := second &&& mask size
  let result := result &&& mask size
  { zero := result = 0
    sign := isNegative result size
    carry := result < first
    overflow :=
      isNegative first size == isNegative second size &&
        isNegative result size != isNegative first size }

/-- The flags of a subtraction or comparison. -/
def ofSub (first second result : UInt64) (size : Size) : Flags :=
  let first := first &&& mask size
  let second := second &&& mask size
  let result := result &&& mask size
  { zero := result = 0
    sign := isNegative result size
    carry := first < second
    overflow :=
      isNegative first size != isNegative second size &&
        isNegative result size != isNegative first size }

def holds (flags : Flags) : Cond → Bool
  | .e => flags.zero
  | .ne => !flags.zero
  | .l => flags.sign != flags.overflow
  | .le => flags.zero || flags.sign != flags.overflow
  | .g => !flags.zero && flags.sign == flags.overflow
  | .ge => flags.sign == flags.overflow
  | .b => flags.carry
  | .be => flags.carry || flags.zero
  | .a => !flags.carry && !flags.zero
  | .ae => !flags.carry

end Flags

end X64Backend.Machine
