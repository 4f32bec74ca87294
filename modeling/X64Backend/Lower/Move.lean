import X64Backend.Lower.State

/-!
Moves between operands: literals are checked against the width of their destination, and narrower
values are extended.
-/

namespace X64Backend.Lower

/-- The order in which the halves of a wide literal are stored. -/
inductive ChunkOrder where
  /-- For variables. -/
  | lowFirst
  /-- For fields. -/
  | highFirst
  deriving DecidableEq, Repr

/-- Whether an operand is a register of the pool that the current expression owns and may
overwrite. -/
def isTemp (draft : Draft) : Operand → Bool
  | .reg register =>
      register.isSlot && draft.isLive (.reg register) && !draft.isLocked (.reg register)
  | _ => false

def temp (operand : Operand) : Gen Bool := do
  return isTemp (← get).draft operand

/-- Frees the register behind an operand that is no longer needed, unless it is locked. -/
def release (operand : Operand) : Gen Unit := do
  let _ ← drafting (Drafting.free operand false)

def freeAnyway (operand : Operand) : Gen Unit := do
  let _ ← drafting (Drafting.free operand true)

/-- Whether a literal fits a width.  If not, that is reported. -/
def fits (literal : Literal) (size : Size) : Gen Bool := do
  match literal.minSize with
  | .error fault =>
      report (.ofMessage fault.message)
      return false
  | .ok need =>
      if size ≠ .unsized && size.bytes < need then
        report (.literalOverflow literal.text need size.bytes)
        return false
      return true

/-- Stores a literal that does not extend from 32 bits into a 64-bit cell, one half at a time. -/
def storeHalves (cell : Pointer) (literal : Literal) (order : ChunkOrder) : Gen Unit := do
  match literal.halves with
  | .error fault => report (.ofMessage fault.message)
  | .ok (low, high) =>
      let highCell := (cell.resize .s32).offset 4
      let lowCell := highCell.offset (-4)
      let storeLow := Instr.binary .mov (.mem lowCell) (.lit low)
      let storeHigh := Instr.binary .mov (.mem highCell) (.lit high)
      log ("chunk: " ++ literal.spelling ++ " split into " ++ low.spelling ++ " and " ++
        high.spelling)
      match order with
      | .lowFirst => emit [storeLow, storeHigh]
      | .highFirst => emit [storeHigh, storeLow]

def storeLiteral (dst : Operand) (literal : Literal) (order : ChunkOrder) : Gen Unit := do
  if ← fits literal dst.size then
    match dst with
    | .mem cell =>
        if cell.size ≠ .s64 || literal.fitsImm32 then emit [.binary .mov dst (.lit literal)]
        else storeHalves cell literal order
    | _ => emit [.binary .mov dst (.lit literal)]

/-- The instruction that extends a narrower operand into a register.  Writing the low half of a
register clears the high half. -/
def widening (dst : Register) (src : Operand) (signed : Bool) : Instr :=
  if src.size.bytes = 4 then
    if signed then .binary .movsxd (.reg (dst.resize .s64)) src
    else .binary .mov (.reg (dst.resize .s32)) src
  else .binary (if signed then .movsx else .movzx) (.reg dst) src

def widen (dst : Register) (src : Operand) (signed : Bool) : Gen Unit :=
  emit [widening dst src signed]

def moveRegister (dst src : Register) (signed : Bool) : Gen Unit :=
  if dst.size.bytes ≤ src.size.bytes then
    emit [.binary .mov (.reg dst) (.reg (src.resize dst.size))]
  else widen dst (.reg src) signed

def moveCell (dst : Register) (src : Pointer) (signed : Bool) : Gen Unit :=
  if dst.size.bytes ≤ src.size.bytes then
    emit [.binary .mov (.reg dst) (.mem (src.resize dst.size))]
  else widen dst (.mem src) signed

/-- Puts a value into a temporary by some means, and the temporary into its destination. -/
def viaTemp (dst : Operand) (fill : Register → Gen Unit) : Gen Unit := do
  let register ← drafting (Drafting.nextRegister dst.size)
  fill register
  emit [.binary .mov dst (.reg register)]
  freeAnyway (.reg register)

/-- Copies a value into a register or memory, converting between widths. -/
def move (dst src : Operand) (signed : Bool) (order : ChunkOrder) : Gen Unit :=
  match src, dst with
  | .absent, _ => throw (.voidMove dst)
  | .lit literal, _ => storeLiteral dst literal order
  | .reg register, .reg target => moveRegister target register signed
  | .reg register, _ =>
      if dst.size.bytes ≤ register.size.bytes then
        emit [.binary .mov dst (.reg (register.resize dst.size))]
      else viaTemp dst fun temporary => widen temporary src signed
  | .mem cell, .reg target => moveCell target cell signed
  | .mem cell, _ => viaTemp dst fun temporary => moveCell temporary cell signed

/-- A register that holds a value at a width and that the caller may overwrite.  A temporary is
reused in place. -/
def load (operand : Operand) (size : Size) (signed : Bool) : Gen Register := do
  match operand, ← temp operand with
  | .reg register, true =>
      if register.size.bytes < size.bytes then widen (register.resize size) operand signed
      return register.resize size
  | _, _ =>
      let register ← drafting (Drafting.nextRegister size)
      move (.reg register) operand signed .lowFirst
      release operand
      return register

/-- An operand in a form that can be the source of a two-operand instruction of a width: a literal
that fits, or a register or memory cell of that width. -/
def operandFor (operand : Operand) (size : Size) (signed : Bool) : Gen Operand := do
  match operand with
  | .lit literal =>
      if !(← fits literal size) then return .lit (.ofInt 0)
      if size = .s64 && !literal.fitsImm32 then return .reg (← load operand size signed)
      return operand
  | .absent => return .reg (← load operand size signed)
  | _ =>
      if operand.size = size then return operand
      return .reg (← load operand size signed)

end X64Backend.Lower
