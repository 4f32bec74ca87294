import X64Backend.Machine.Step
import X64Backend.Proofs.Pool.Session

/-!
A machine with a private register for every cell.  It executes an instruction on the word of each
register that the instruction stands for, whatever the pool makes of them.
-/

namespace X64Backend.Machine

/-- The state of a machine with private registers.  The registers of the pool are of no account. -/
structure Private where
  words : Cell → UInt64
  state : State

/-- The private registers that take the seats of the two hardware registers with an upper byte. -/
structure Seats where
  rax : Option Cell
  rbx : Option Cell

/-- The private register behind a register operand. -/
def cellOf? (cell : Handle → Cell) (period : Nat) (register : Register) : Option Cell :=
  match register.place with
  | .slot handle => some (cell handle)
  | .fixed (some .rax) => some (.raw period)
  | .fixed _ => none

/-- The private registers that an instruction works on. -/
def involved (cell : Handle → Cell) (period : Nat) (instr : Instr) : List Cell :=
  instr.registers.filterMap (cellOf? cell period) ++
    if instr.impliesAccumulator then [.raw period] else []

/-- The seats for an instruction: the accumulator keeps its own, and there are never more than two
private registers in one instruction. -/
def seats (cell : Handle → Cell) (period : Nat) (instr : Instr) : Seats :=
  let cells := involved cell period instr
  let first := if .raw period ∈ cells then some (.raw period) else cells.head?
  ⟨first, cells.find? fun cell => some cell ≠ first⟩

namespace Seats

/-- A register operand with the seat of its private register in the place of its handle. -/
def register (seats : Seats) (cell : Handle → Cell) (register : Register) : Register :=
  match register.place with
  | .slot handle => .fix (if seats.rax = some (cell handle) then .rax else .rbx) register.size
  | .fixed _ => register

/-- The registers with the private words in their seats. -/
def seat (seats : Seats) (words : Cell → UInt64) (registers : Registers) : Registers :=
  let registers :=
    match seats.rax with
    | some cell => registers.set .rax (words cell)
    | none => registers
  match seats.rbx with
  | some cell => registers.set .rbx (words cell)
  | none => registers

/-- The private words taken back from their seats. -/
def unseat (seats : Seats) (words : Cell → UInt64) (registers : Registers) : Cell → UInt64 :=
  fun cell =>
    if seats.rax = some cell then registers.get .rax
    else if seats.rbx = some cell then registers.get .rbx
    else words cell

end Seats

namespace Private

/-- Executes one instruction on private registers. -/
def step (image : Image) (checked : Bool) (cell : Handle → Cell) (period : Nat) (instr : Instr) :
    EStateM Fault Private Unit := fun start =>
  let seats := seats cell period instr
  let seated := { start.state with registers := seats.seat start.words start.state.registers }
  match execute ⟨image, 0⟩ checked (instr.mapRegisters (seats.register cell)) seated with
  | .ok _ state => .ok () ⟨seats.unseat start.words state.registers, state⟩
  | .error fault state => .error fault ⟨seats.unseat start.words state.registers, state⟩

/-- Executes instructions one after the other, each with the period of the accumulator in which it
was written. -/
def run (image : Image) (checked : Bool) (cell : Handle → Cell) :
    List (Instr × Nat) → EStateM Fault Private Unit
  | [] => return ()
  | (instr, period) :: rest => do
      step image checked cell period instr
      run image checked cell rest

end Private

/-- Executes entries one after the other, as the machine does where nothing branches. -/
def runStraight (image : Image) (checked : Bool) : (index : Nat) → List Entry → Exec Unit
  | _, [] => return ()
  | index, entry :: rest => do
      discard (Machine.step image checked index entry)
      runStraight image checked (index + 1) rest

end X64Backend.Machine

namespace X64Backend.Session

/-- The instruction of an entry, unless the allocator wrote it, with the period of the
accumulator. -/
def appended? : Entry × Option Nat → Option (Instr × Nat)
  | (entry, event) => event.map fun period => (entry.instr, period)

/-- The instructions that the session wrote, without those of the allocator. -/
def program (session : Session) : List (Instr × Nat) :=
  (session.draft.text.entries.toList.zip session.events).filterMap appended?

end X64Backend.Session
