import X64Backend.Code.Instr
import X64Backend.Code.Timeline

/-!
Streams of instructions.  Every appended instruction is stamped with the tick of a clock that never
goes back; an inserted one takes the stamp of the entry that it is put in front of.

Ticks are natural numbers without a bound.  A clock that is a 64-bit word is modelled exactly as long
as fewer than `2 ^ 64 - 1` instructions are appended.
-/

namespace X64Backend

/-- An instruction with the tick at which it was emitted. -/
structure Entry where
  tick : Nat
  instr : Instr
  deriving DecidableEq, Repr, Inhabited

structure Stream where
  entries : Array Entry
  /-- The stamp of the next appended instruction. -/
  clock : Nat
  deriving DecidableEq, Repr, Inhabited

namespace Stream

/-- Nothing has been emitted; the clock starts at one. -/
def empty : Stream := ⟨#[], 1⟩

def emit (stream : Stream) (instr : Instr) : Stream :=
  ⟨stream.entries.push ⟨stream.clock, instr⟩, stream.clock + 1⟩

def append (stream : Stream) (instrs : List Instr) : Stream :=
  instrs.foldl emit stream

def size (stream : Stream) : Nat :=
  stream.entries.size

/-- Puts instructions in front of the entry at an index.  An index outside the stream counts as
its nearer end. -/
def insert (stream : Stream) (index : Int) (instrs : List Instr) : Stream :=
  let position := min index.toNat stream.entries.size
  let stamp :=
    match stream.entries[position]? with
    | some entry => entry.tick
    | none => stream.clock
  let inserted := (instrs.map fun instr => Entry.mk stamp instr).toArray
  { stream with
    entries := stream.entries.extract 0 position ++ inserted ++
      stream.entries.extract position stream.entries.size }

def last? (stream : Stream) : Option Instr :=
  stream.entries.back?.map Entry.instr

/-- Overwrites the newest instruction, keeping its stamp. -/
def replaceLast (stream : Stream) (instr : Instr) : Stream :=
  { stream with
    entries := stream.entries.modify (stream.entries.size - 1) fun entry => { entry with instr } }

def removeLast (stream : Stream) : Stream :=
  { stream with entries := stream.entries.pop }

/-- Whether an entry names a register, directly or through a handle.  Without a register the
question is whether it names a handle that lives nowhere. -/
def entryNames (timeline : Timeline) (phys : Option Phys) (entry : Entry) : Bool :=
  entry.instr.operands.any fun operand =>
    match operand.base? with
    | some register => timeline.resolve register entry.tick = phys
    | none => false

/-- Whether one of the entries, newest first, names a register.  The search ends at the first
entry stamped before `since`. -/
def namedSince (timeline : Timeline) (phys : Option Phys) (since : Nat) : List Entry → Bool
  | [] => false
  | entry :: older =>
      since ≤ entry.tick &&
        (entryNames timeline phys entry || namedSince timeline phys since older)

def references (stream : Stream) (timeline : Timeline) (phys : Option Phys) (since : Nat) :
    Bool :=
  namedSince timeline phys since stream.entries.toListRev

end Stream

end X64Backend
