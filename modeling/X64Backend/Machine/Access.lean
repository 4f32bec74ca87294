import X64Backend.Machine.State

/-!
Reading and writing operands.
-/

namespace X64Backend.Machine

/-- What the operands of one instruction refer to: the program, and the tick of the instruction. -/
structure Scope where
  image : Image
  tick : Nat

/-- The part of a register word that a width names. -/
def readPart (word : UInt64) : Size → UInt64
  | .high8 => (word >>> 8) &&& 0xFF
  | size => word &&& mask size

/-- A register word with the part that a width names replaced.  Writing the low half clears the
high half; narrower writes keep all other bits. -/
def writePart (word : UInt64) (size : Size) (value : UInt64) : UInt64 :=
  match size with
  | .s64 => value
  | .s32 => value &&& 0xFFFFFFFF
  | .high8 => (word &&& ~~~ (0xFF00 : UInt64)) ||| ((value &&& 0xFF) <<< 8)
  | size => (word &&& ~~~ mask size) ||| (value &&& mask size)

namespace Scope

def phys (scope : Scope) (register : Register) : Exec Phys :=
  match scope.image.timeline.resolve register scope.tick with
  | none => throw (.unboundHandle register.handle)
  | some phys =>
      if register.size = .high8 && !phys.hasHigh8 then throw (.noHigh8 phys) else return phys

def address (scope : Scope) (pointer : Pointer) : Exec UInt64 := do
  let phys ← scope.phys pointer.base
  return (← Exec.getReg phys) + Literal.wordOfInt pointer.disp.toInt

def symbol (scope : Scope) (name : String) : Exec UInt64 :=
  match symbolValue? scope.image.labels scope.image.data name with
  | some word => return word
  | none => throw (.unknownSymbol name)

/-- The value of an operand.  A literal takes the width of the other operand. -/
def read (scope : Scope) (operand : Operand) (size : Size) : Exec UInt64 :=
  match operand with
  | .absent => throw .readAbsent
  | .reg register => do
      let phys ← scope.phys register
      return readPart (← Exec.getReg phys) register.size
  | .mem pointer => do
      Exec.load (← scope.address pointer) pointer.size.bytes
  | .lit literal =>
      if literal.isLabel then scope.symbol literal.text
      else match literal.bits with
        | .ok word => return word &&& mask size
        | .error fault => throw (.literal fault)

/-- Writes an operand at its own width. -/
def write (scope : Scope) (operand : Operand) (value : UInt64) : Exec Unit :=
  match operand with
  | .reg register => do
      let phys ← scope.phys register
      Exec.setReg phys (writePart (← Exec.getReg phys) register.size value)
  | .mem pointer => do
      Exec.store (← scope.address pointer) pointer.size.bytes value
  | other => throw (.notWritable other)

/-- The instruction that a branch operand leads to, and its name in reports. -/
def target (scope : Scope) (operand : Operand) : Exec (Nat × String) := do
  match operand with
  | .lit literal =>
      if literal.isLabel then
        match scope.image.labels[literal.text]? with
        | some index => return (index, literal.text)
        | none => throw (.unknownLabel literal.text)
      else indirect (← scope.read operand .s64)
  | _ => indirect (← scope.read operand .s64)
where
  /-- An address below the code or behind it leads nowhere. -/
  indirect (address : UInt64) : Exec (Nat × String) :=
    let index := Literal.intOfWord (address - codeBase)
    if address < codeBase ∨ (scope.image.code.size : Int) ≤ index then throw (.badAddress address)
    else if index < 0 then throw (.negativeIndex index)
    else
      match scope.image.code[index.toNat]? with
      | some ⟨_, .label name _⟩ => return (index.toNat, name)
      | _ => return (index.toNat, "0x" ++ Text.hexUpper address.toNat)

end Scope

end X64Backend.Machine
