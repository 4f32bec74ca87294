/-!
The widths at which a register or a memory cell is used.
-/

namespace X64Backend

/-- A width class.  `high8` is the upper byte of a 16-bit register. -/
inductive Size where
  | unsized
  | s8
  | s16
  | s32
  | s64
  | high8
  deriving DecidableEq, Repr, Inhabited

namespace Size

/-- The width in bytes; nothing for an operand without a width. -/
def bytes : Size → Nat
  | unsized => 0
  | s8 | high8 => 1
  | s16 => 2
  | s32 => 4
  | s64 => 8

def keyword : Size → String
  | unsized => ""
  | s8 | high8 => "BYTE"
  | s16 => "WORD"
  | s32 => "DWORD"
  | s64 => "QWORD"

def text : Size → String
  | unsized => "none"
  | s8 => "8"
  | s16 => "16"
  | s32 => "32"
  | s64 => "64"
  | high8 => "8h"

def all : List Size := [unsized, s8, s16, s32, s64, high8]

def ofText? (name : String) : Option Size :=
  all.find? fun size => size.text = name

def ofBytes? : Int → Option Size
  | 1 => some s8
  | 2 => some s16
  | 4 => some s32
  | 8 => some s64
  | _ => none

/-- The width class of a number of bytes, 64 bits standing in for all others. -/
def ofBytes (count : Int) : Size :=
  (ofBytes? count).getD s64

def textOfNumber (number : Nat) : String :=
  match all[number]? with
  | some size => size.text
  | none => "none"

end Size

end X64Backend
