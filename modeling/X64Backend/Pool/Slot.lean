import X64Backend.Code.Operand

/-!
The slots of the register pool.  The first slot is the accumulator: it carries return values,
dividends and service numbers.  The others are registers that a procedure has to restore.
-/

namespace X64Backend.Pool

def slotCount : Nat := 6

abbrev Slot := Fin 6

def accumulator : Slot := 0

/-- The slots other than the accumulator, in the order in which they are handed out. -/
def savedSlots : List Slot := [1, 2, 3, 4, 5]

def allSlots : List Slot := accumulator :: savedSlots

def slotPhys : Slot → Phys
  | 0 => .rax
  | 1 => .rbx
  | 2 => .r12
  | 3 => .r13
  | 4 => .r14
  | 5 => .r15

def slotOfPhys? (phys : Phys) : Option Slot :=
  allSlots.find? fun slot => slotPhys slot = phys

/-- What is known about the value in an occupied slot. -/
inductive Claim where
  | used
  /-- A value that the hardware produced, of a width still to be settled. -/
  | needed (pending : Size)
  deriving DecidableEq, Repr, Inhabited

def Claim.text : Claim → String
  | used => "used"
  | needed _ => "needed"

def stateText : Option Claim → String
  | none => "free"
  | some claim => claim.text

def stateTextOfNumber : Nat → String
  | 0 => "free"
  | 1 => "used"
  | 2 => "needed"
  | _ => "unknown"

structure Occupant where
  handle : Handle
  claim : Claim
  /-- A locked value is freed only by force. -/
  locked : Bool
  /-- The hardware wrote the value, so its earlier instructions cannot be renamed. -/
  implicit : Bool
  deriving DecidableEq, Repr, Inhabited

end X64Backend.Pool
