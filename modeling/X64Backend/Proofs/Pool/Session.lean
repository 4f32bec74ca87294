import Mathlib.Logic.Function.Basic
import X64Backend.Proofs.Code.Registers
import X64Backend.Proofs.Pool.Steps

/-!
Sessions with the allocator: its operations in any order, with straight-line instructions written in
between.

A handle stands for a private register.  The accumulator may be named directly while its slot is
free, and then it stands for a private register too; an operation that hands out the accumulator as
produced by the hardware gives that register to the handle.  When a value leaves the accumulator, a
new period begins and the accumulator stands for another private register.
-/

namespace X64Backend

open Pool

/-- A private register: that of a handle, or the one of a period of the accumulator. -/
inductive Cell where
  | own (handle : Handle)
  | raw (period : Nat)
  deriving DecidableEq, Repr, Inhabited

namespace Draft

instance (draft : Draft) (slot : Slot) (handle : Handle) : Decidable (draft.Holds slot handle) :=
  inferInstanceAs (Decidable (_ = _))

instance (draft : Draft) (handle : Handle) : Decidable (draft.Live handle) :=
  inferInstanceAs (Decidable (∃ slot, draft.Holds slot handle))

/-- The accumulator may be named: its slot is free, or holds what the hardware produced. -/
def Open (draft : Draft) : Prop :=
  ∀ occupant ∈ draft.pool.occupant? accumulator, occupant.implicit = true

instance (draft : Draft) : Decidable draft.Open :=
  inferInstanceAs (Decidable (∀ occupant ∈ draft.pool.occupant? accumulator, _))

/-- A register that an instruction may name now: that of a live handle, the accumulator while it is
open, or one that does not belong to the pool. -/
def Allows (draft : Draft) (register : Register) : Prop :=
  match register.place with
  | .slot handle => draft.Live handle
  | .fixed none => True
  | .fixed (some phys) => phys = .rax ∨ slotOfPhys? phys = none

instance (draft : Draft) (register : Register) : Decidable (draft.Allows register) := by
  unfold Allows
  split <;> infer_instance

/-- An instruction that may be written now. -/
structure Admits (draft : Draft) (instr : Instr) : Prop where
  straight : instr.isStraight = true
  allowed : ∀ register ∈ instr.registers, draft.Allows register
  open_of_uses : instr.usesAccumulator = true → draft.Open

instance (draft : Draft) (instr : Instr) : Decidable (draft.Admits instr) :=
  decidable_of_iff (instr.isStraight = true ∧ (∀ register ∈ instr.registers, draft.Allows register) ∧
      (instr.usesAccumulator = true → draft.Open))
    ⟨fun ⟨straight, allowed, uses⟩ => ⟨straight, allowed, uses⟩,
      fun admits => ⟨admits.straight, admits.allowed, admits.open_of_uses⟩⟩

end Draft

/-- Which private register each handle stands for, and the period that the accumulator is in. -/
structure Naming where
  cell : Handle → Cell
  period : Nat

namespace Naming

/-- Every handle stands for a register of its own. -/
def initial : Naming := ⟨.own, 0⟩

/-- The names after the contents of the accumulator have changed. -/
def turn (naming : Naming) (before after : Option Occupant) : Naming :=
  let period :=
    match before with
    | some occupant =>
        if after.map Occupant.handle = some occupant.handle then naming.period
        else naming.period + 1
    | none => naming.period
  { period
    cell :=
      match after with
      | some occupant =>
          if occupant.implicit then Function.update naming.cell occupant.handle (.raw period)
          else naming.cell
      | none => naming.cell }

/-- The names after an operation of the allocator. -/
def next (naming : Naming) (before after : Draft) : Naming :=
  naming.turn (before.pool.occupant? accumulator) (after.pool.occupant? accumulator)

end Naming

/-- An operation of the allocator. -/
inductive Command where
  | nextRegister (size : Size)
  | reserve
  | claim (number : Int) (size : Size)
  | callAlloc (size : Size)
  | settle (register : Register)
  | lock (operand : Operand)
  | unlock (operand : Operand)
  | lockLive
  | free (operand : Operand) (force : Bool)
  | freeAll (force : Bool)
  deriving DecidableEq, Repr

/-- What an operation does to a draft. -/
def Command.perform : Command → Drafting Unit
  | nextRegister size => discard (Drafting.nextRegister size)
  | reserve => Drafting.reserve
  | claim number size => discard (Drafting.claimNumber number size)
  | callAlloc size => discard (Drafting.callAlloc size)
  | settle register => Drafting.settle register
  | lock operand => Drafting.lock operand
  | unlock operand => Drafting.unlock operand
  | lockLive => discard Drafting.lockLive
  | free operand force => discard (Drafting.free operand force)
  | freeAll force => Drafting.freeAll force

/-- A draft with the private registers behind it.  An event for each entry of the stream tells who
wrote it: the allocator, or the session in a period of the accumulator. -/
structure Session where
  draft : Draft
  naming : Naming
  events : List (Option Nat)

/-- One thing done in a session. -/
inductive Action where
  | allocate (command : Command)
  | append (instr : Instr)
  deriving DecidableEq, Repr

namespace Session

/-- Nothing has been done. -/
def initial : Session := ⟨.empty, .initial, []⟩

/-- The session after an operation has left a draft; what is new in the stream was written by the
allocator. -/
def advance (session : Session) (draft : Draft) : Session :=
  { draft
    naming := session.naming.next session.draft draft
    events := session.events ++
      List.replicate (draft.text.entries.size - session.draft.text.entries.size) none }

/-- The session after an instruction has been written. -/
def append (session : Session) (instr : Instr) : Session :=
  { session with
    draft := { session.draft with text := session.draft.text.emit instr }
    events := session.events ++ [some session.naming.period] }

/-- Does one thing, unless the allocator faults or the instruction may not be written. -/
def perform (session : Session) : Action → Option Session
  | .allocate command =>
      match command.perform session.draft with
      | .ok _ draft => some (session.advance draft)
      | .error _ _ => none
  | .append instr => if session.draft.Admits instr then some (session.append instr) else none

/-- Does one thing after the other. -/
def run (actions : List Action) : Option Session :=
  actions.foldlM perform initial

end Session

end X64Backend
