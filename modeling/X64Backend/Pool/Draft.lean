import X64Backend.Code.Listing
import X64Backend.Fault

/-!
Code under construction: the register pool, the stream that instructions go to, and the timeline
that says which hardware register each handle lives in.
-/

namespace X64Backend

structure Pool where
  slots : Vector (Option Pool.Occupant) 6
  /-- The newest handle, zero before the first one. -/
  last : Handle
  /-- The registers to restore that the procedure has touched. -/
  saved : Vector Bool 6
  /-- The largest number of slots that were occupied at once. -/
  pressure : Nat

/-- Code under construction, with the messages that trace it. -/
structure Draft where
  pool : Pool
  text : Stream
  timeline : Timeline
  /-- Trace messages, newest first. -/
  trace : List String

/-- Computations that extend a draft and may fault.  A fault keeps the draft as it was left. -/
abbrev Drafting := EStateM Fault Draft

namespace Pool

def empty : Pool :=
  { slots := Vector.replicate 6 none
    last := 0
    saved := Vector.replicate 6 false
    pressure := 0 }

def occupant? (pool : Pool) (slot : Slot) : Option Occupant :=
  pool.slots.get slot

def isOccupied (pool : Pool) (slot : Slot) : Bool :=
  (pool.occupant? slot).isSome

def claim? (pool : Pool) (slot : Slot) : Option Claim :=
  (pool.occupant? slot).map Occupant.claim

def liveCount (pool : Pool) : Nat :=
  allSlots.countP pool.isOccupied

def freeCount (pool : Pool) : Nat :=
  slotCount - pool.liveCount

def put (pool : Pool) (slot : Slot) (contents : Option Occupant) : Pool :=
  { pool with slots := pool.slots.set slot contents }

/-- Notes that the procedure touches the register of a slot.  The accumulator need not be
restored. -/
def touch (pool : Pool) (slot : Slot) : Pool :=
  if slot = accumulator then pool else { pool with saved := pool.saved.set slot true }

def adjust (pool : Pool) (slot : Slot) (change : Occupant → Occupant) : Pool :=
  pool.put slot ((pool.occupant? slot).map change)

/-- The registers to restore that the procedure has touched, in slot order. -/
def usedSaved (pool : Pool) : List Phys :=
  (savedSlots.filter fun slot => pool.saved.get slot).map slotPhys

def dumpSlot (pool : Pool) (slot : Slot) : String :=
  let head := "  " ++ Text.padRight 3 (slotPhys slot).text ++ " " ++
    Text.padRight 6 (stateText (pool.claim? slot))
  match pool.occupant? slot with
  | none => head ++ "\n"
  | some occupant =>
      let pending :=
        match occupant.claim with
        | .used => ""
        | .needed size => " (" ++ size.text ++ "-bit)"
      head ++ pending ++ (if occupant.locked then " locked" else "") ++
        " handle " ++ toString occupant.handle ++ "\n"

def dump (pool : Pool) : String :=
  String.join (allSlots.map pool.dumpSlot)

end Pool

namespace Draft

def empty : Draft := ⟨.empty, .empty, .empty, []⟩

def toProgram (draft : Draft) (data : Stream) : Program :=
  ⟨draft.text, data, draft.timeline⟩

def mapPool (draft : Draft) (change : Pool → Pool) : Draft :=
  { draft with pool := change draft.pool }

/-- The slot that holds the value behind an operand: the register itself, or the base of a memory
cell.  A handle whose value is gone has none. -/
def slotOf? (draft : Draft) (operand : Operand) : Option Pool.Slot := do
  let register ← operand.base?
  let handle ← if register.isSlot then some register.handle else none
  let slot ← (draft.timeline.current handle).bind Pool.slotOfPhys?
  let occupant ← draft.pool.occupant? slot
  if occupant.handle = handle then some slot else none

def isLive (draft : Draft) (operand : Operand) : Bool :=
  (draft.slotOf? operand).isSome

def isLocked (draft : Draft) (operand : Operand) : Bool :=
  match (draft.slotOf? operand).bind draft.pool.occupant? with
  | some occupant => occupant.locked
  | none => false

/-- Changes the value behind an operand, if it is still in the pool. -/
def adjust (draft : Draft) (operand : Operand) (change : Pool.Occupant → Pool.Occupant) : Draft :=
  match draft.slotOf? operand with
  | some slot => draft.mapPool fun pool => pool.adjust slot change
  | none => draft

end Draft

end X64Backend
