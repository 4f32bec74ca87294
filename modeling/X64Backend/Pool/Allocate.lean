import X64Backend.Pool.Draft

/-!
Handing out the registers of the pool.  There is no spilling: running out of registers is a fault.

A value in the accumulator that has to make room is either renamed, when some other register has not
been named since the value was born, or moved by an instruction of its own.
-/

namespace X64Backend.Drafting

open Pool

def log (message : String) : Drafting Unit :=
  modify fun draft => { draft with trace := message :: draft.trace }

def emit (instr : Instr) : Drafting Unit :=
  modify fun draft => { draft with text := draft.text.emit instr }

def take (slot : Slot) (claim : Claim) (size : Size) : Drafting Register := do
  let draft ← get
  let (handle, timeline) := draft.timeline.bind (some (slotPhys slot)) draft.text.clock
  let occupant : Occupant :=
    { handle, claim, locked := false, implicit := claim ≠ .used }
  let pool := (draft.pool.put slot (some occupant)).touch slot
  set { draft with
    timeline
    pool := { pool with last := handle, pressure := max pool.pressure pool.liveCount } }
  return ⟨.slot handle, size⟩

/-- Allocates the first free slot behind the accumulator, and the accumulator only when it is the
last one free. -/
def nextRegister (size : Size) : Drafting Register := do
  let pool := (← get).pool
  match savedSlots.find? fun slot => !pool.isOccupied slot with
  | some slot => take slot .used size
  | none =>
      if !pool.isOccupied accumulator then take accumulator .used size
      else
        log ("regalloc: pool exhausted\n" ++ pool.dump)
        throw .poolExhausted

/-- The newest register at another width. -/
def currentRegister (size : Size) : Drafting Register := do
  let last := (← get).pool.last
  if last = 0 then throw .noRegisterYet
  return ⟨.slot last, size⟩

/-- A free slot whose register no instruction has named since the handle was born. -/
def renameTarget? (draft : Draft) (handle : Handle) : Option Slot :=
  savedSlots.find? fun slot =>
    !draft.pool.isOccupied slot &&
      !draft.text.references draft.timeline (some (slotPhys slot)) (draft.timeline.born handle)

/-- Moves a value to another free slot with an instruction.  What was emitted before keeps naming
the old register. -/
def evacuate (slot : Slot) (occupant : Occupant) : Drafting Unit := do
  let draft ← get
  match savedSlots.find? fun other => other ≠ slot && !draft.pool.isOccupied other with
  | none =>
      log ("regalloc: cannot move " ++ occupant.claim.text ++ " out of " ++ (slotPhys slot).text ++
        "\n" ++ draft.pool.dump)
      throw (.noFreeSlot occupant.claim (slotPhys slot))
  | some free =>
      let moved : Occupant := { occupant with claim := .used, implicit := false }
      set { draft with
        timeline := draft.timeline.relocate occupant.handle (some (slotPhys free)) draft.text.clock
        pool := ((draft.pool.put free (some moved)).touch free).put slot none }
      emit (.binary .mov (.reg ⟨.slot occupant.handle, .s64⟩)
        (.reg (.fix (slotPhys slot) .s64)))
      log ("regalloc: moved " ++ occupant.claim.text ++ " value from " ++ (slotPhys slot).text ++
        " to " ++ (slotPhys free).text)

/-- Renames a value of the accumulator to another slot for its whole life. -/
def rename (occupant : Occupant) (free : Slot) : Drafting Unit := do
  let draft ← get
  set { draft with
    timeline := draft.timeline.rebind occupant.handle (some (slotPhys free))
    pool := ((draft.pool.put free (some occupant)).touch free).put accumulator none }
  log ("regalloc: renamed accumulator value to " ++ (slotPhys free).text)

/-- Clears the accumulator before a call, a division or a service. -/
def reserve : Drafting Unit := do
  let draft ← get
  match draft.pool.occupant? accumulator with
  | none => return ()
  | some occupant =>
      let target :=
        if occupant.claim = .used && !occupant.implicit then
          renameTarget? draft occupant.handle
        else none
      match target with
      | some free => rename occupant free
      | none => evacuate accumulator occupant

/-- Marks the accumulator as holding a value that the hardware produced. -/
def callAlloc (size : Size) : Drafting Register := do
  match (← get).pool.claim? accumulator with
  | some claim => throw (.accumulatorBusy claim)
  | none => take accumulator (.needed size) size

def vacate (slot : Slot) : Drafting Unit := do
  match (← get).pool.occupant? slot with
  | none => return ()
  | some occupant => if slot = accumulator then reserve else evacuate slot occupant

/-- Claims one particular slot, moving away the value in it. -/
def claimSlot (slot : Slot) (size : Size) : Drafting Register := do
  vacate slot
  take slot .used size

def claimNumber (number : Int) (size : Size) : Drafting Register :=
  match (if 0 ≤ number then allSlots[number.toNat]? else none) with
  | some slot => claimSlot slot size
  | none => throw (.noSuchSlot number)

/-- Makes the value behind a register an ordinary unlocked one. -/
def settle (register : Register) : Drafting Unit :=
  modify fun draft => draft.adjust (.reg register) fun occupant =>
    { occupant with claim := .used, locked := false }

/-- Protects the value behind an operand from being freed. -/
def lock (operand : Operand) : Drafting Unit :=
  modify fun draft => draft.adjust operand fun occupant => { occupant with locked := true }

def unlock (operand : Operand) : Drafting Unit :=
  modify fun draft => draft.adjust operand fun occupant => { occupant with locked := false }

def isUnlocked (pool : Pool) (slot : Slot) : Bool :=
  match pool.occupant? slot with
  | some occupant => !occupant.locked
  | none => false

/-- Locks every value that is not locked yet, and tells which ones. -/
def lockLive : Drafting (List Register) := do
  let pool := (← get).pool
  let unlocked := allSlots.filter (isUnlocked pool)
  modify fun draft => draft.mapPool fun pool =>
    unlocked.foldl (fun pool slot => pool.adjust slot fun occupant =>
      { occupant with locked := true }) pool
  return unlocked.filterMap fun slot =>
    (pool.occupant? slot).map fun occupant => ⟨.slot occupant.handle, .s64⟩

/-- Frees the value behind an operand.  A locked value is freed only by force; the result says
whether it was freed. -/
def free (operand : Operand) (force : Bool) : Drafting Bool := do
  let draft ← get
  match draft.slotOf? operand with
  | none => return false
  | some slot =>
      if draft.isLocked operand && !force then return false
      set (draft.mapPool fun pool => pool.put slot none)
      return true

/-- Frees every value, or every value that is not locked. -/
def freeAll (force : Bool) : Drafting Unit :=
  modify fun draft => draft.mapPool fun pool =>
    allSlots.foldl
      (fun pool slot => if force || isUnlocked pool slot then pool.put slot none else pool) pool

/-- Forgets all values and the registers to restore, at the start of a procedure. -/
def beginProcedure : Drafting Unit :=
  modify fun draft => draft.mapPool fun _ => Pool.empty

end X64Backend.Drafting
