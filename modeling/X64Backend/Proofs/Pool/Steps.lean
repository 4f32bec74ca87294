import Mathlib.Logic.Relation
import X64Backend.Proofs.Pool.Tables
import X64Backend.Proofs.Success

/-!
What the allocator can do to a draft, in steps of one kind each: a slot gets a fresh handle, a value
is moved by an instruction, a value is renamed for its whole life, the marks of a value change, a
slot is given up.  Every operation is a sequence of such steps, so a property that each step keeps is
kept by all of them.
-/

namespace X64Backend

open Pool

namespace Draft

/-- The value of a handle is in a slot. -/
def Holds (draft : Draft) (slot : Slot) (handle : Handle) : Prop :=
  (draft.pool.occupant? slot).map Occupant.handle = some handle

/-- The value of a handle is in the pool. -/
def Live (draft : Draft) (handle : Handle) : Prop :=
  ∃ slot, draft.Holds slot handle

/-- The draft after a slot has been given a fresh handle. -/
def issue (draft : Draft) (slot : Slot) (claim : Claim) : Draft :=
  let occupant : Occupant :=
    { handle := draft.timeline.count, claim, locked := false, implicit := claim ≠ .used }
  let pool := (draft.pool.put slot (some occupant)).touch slot
  { draft with
    timeline := (draft.timeline.bind (some (slotPhys slot)) draft.text.clock).2
    pool := { pool with
      last := draft.timeline.count
      pressure := max pool.pressure pool.liveCount } }

/-- The instruction that takes a value out of a slot. -/
def moveOut (handle : Handle) (slot : Slot) : Instr :=
  .binary .mov (.reg ⟨.slot handle, .s64⟩) (.reg (.fix (slotPhys slot) .s64))

/-- The draft after a value has been moved by an instruction. -/
def shift (draft : Draft) (slot free : Slot) (occupant : Occupant) : Draft :=
  { draft with
    timeline := draft.timeline.relocate occupant.handle (some (slotPhys free)) draft.text.clock
    pool := ((draft.pool.put free (some { occupant with claim := .used, implicit := false })).touch
      free).put slot none
    text := draft.text.emit (moveOut occupant.handle slot) }

/-- The draft after the value of the accumulator has been renamed. -/
def renamed (draft : Draft) (free : Slot) (occupant : Occupant) : Draft :=
  { draft with
    timeline := draft.timeline.rebind occupant.handle (some (slotPhys free))
    pool := ((draft.pool.put free (some occupant)).touch free).put accumulator none }

/-- The draft after the contents of a slot have been replaced. -/
def refill (draft : Draft) (slot : Slot) (contents : Option Occupant) : Draft :=
  draft.mapPool fun pool => pool.put slot contents

/-- The draft with a longer trace. -/
def traced (draft : Draft) (message : String) : Draft :=
  { draft with trace := message :: draft.trace }

theorem occupant?_issue (draft : Draft) (slot other : Slot) (claim : Claim) :
    (draft.issue slot claim).pool.occupant? other =
      if other = slot then some ⟨draft.timeline.count, claim, false, claim ≠ .used⟩
      else draft.pool.occupant? other := by
  change ((draft.pool.put slot _).touch slot).occupant? other = _
  simp

theorem history?_issue (draft : Draft) (slot : Slot) (claim : Claim) (handle : Nat) :
    (draft.issue slot claim).timeline.history? handle =
      if handle = draft.timeline.count then some ⟨draft.text.clock, some (slotPhys slot), []⟩
      else draft.timeline.history? handle :=
  Timeline.history?_bind draft.timeline (some (slotPhys slot)) draft.text.clock handle

@[simp]
theorem count_issue (draft : Draft) (slot : Slot) (claim : Claim) :
    (draft.issue slot claim).timeline.count = draft.timeline.count + 1 :=
  Timeline.count_bind draft.timeline (some (slotPhys slot)) draft.text.clock

theorem occupant?_shift (draft : Draft) (slot free other : Slot) (occupant : Occupant) :
    (draft.shift slot free occupant).pool.occupant? other =
      if other = slot then none
      else if other = free then some { occupant with claim := .used, implicit := false }
      else draft.pool.occupant? other := by
  simp [shift]

theorem history?_shift (draft : Draft) (slot free : Slot) (occupant : Occupant) (handle : Nat) :
    (draft.shift slot free occupant).timeline.history? handle =
      if handle = occupant.handle then (draft.timeline.history? occupant.handle).map fun history =>
        history.relocate (some (slotPhys free)) draft.text.clock
      else draft.timeline.history? handle :=
  Timeline.history?_update draft.timeline occupant.handle handle _

@[simp]
theorem count_shift (draft : Draft) (slot free : Slot) (occupant : Occupant) :
    (draft.shift slot free occupant).timeline.count = draft.timeline.count :=
  Timeline.count_update _ _ _

theorem born_shift (draft : Draft) (slot free : Slot) (occupant : Occupant) (handle : Nat) :
    (draft.shift slot free occupant).timeline.born handle = draft.timeline.born handle := by
  unfold Timeline.born
  rw [history?_shift]
  by_cases same : handle = occupant.handle
  · rw [if_pos same, same]
    cases draft.timeline.history? occupant.handle <;> simp
  · rw [if_neg same]

/-- A move changes only what is to come. -/
theorem placeAt_shift_of_lt (draft : Draft) (slot free : Slot) (occupant : Occupant)
    {handle tick : Nat} (born : draft.timeline.born handle < draft.text.clock)
    (earlier : tick < draft.text.clock) :
    (draft.shift slot free occupant).timeline.placeAt handle tick =
      draft.timeline.placeAt handle tick := by
  unfold Timeline.placeAt
  rw [history?_shift]
  by_cases same : handle = occupant.handle
  · rw [if_pos same]
    subst same
    cases found : draft.timeline.history? occupant.handle with
    | none => rfl
    | some history =>
        simp only [Timeline.born, found] at born
        exact History.placeAt_relocate_of_lt history _ born earlier
  · rw [if_neg same]

theorem placeAt_shift (draft : Draft) (slot free : Slot) (occupant : Occupant) {handle tick : Nat}
    (born : draft.timeline.born handle ≤ tick) (earlier : tick < draft.text.clock) :
    (draft.shift slot free occupant).timeline.placeAt handle tick =
      draft.timeline.placeAt handle tick :=
  placeAt_shift_of_lt draft slot free occupant (Nat.lt_of_le_of_lt born earlier) earlier

theorem occupant?_renamed (draft : Draft) (free other : Slot) (occupant : Occupant) :
    (draft.renamed free occupant).pool.occupant? other =
      if other = accumulator then none
      else if other = free then some occupant
      else draft.pool.occupant? other := by
  simp [renamed]

theorem history?_renamed (draft : Draft) (free : Slot) (occupant : Occupant) (handle : Nat) :
    (draft.renamed free occupant).timeline.history? handle =
      if handle = occupant.handle then (draft.timeline.history? occupant.handle).map fun history =>
        history.rebind (some (slotPhys free))
      else draft.timeline.history? handle :=
  Timeline.history?_update draft.timeline occupant.handle handle _

@[simp]
theorem count_renamed (draft : Draft) (free : Slot) (occupant : Occupant) :
    (draft.renamed free occupant).timeline.count = draft.timeline.count :=
  Timeline.count_update _ _ _

theorem born_renamed (draft : Draft) (free : Slot) (occupant : Occupant) (handle : Nat) :
    (draft.renamed free occupant).timeline.born handle = draft.timeline.born handle := by
  unfold Timeline.born
  rw [history?_renamed]
  by_cases same : handle = occupant.handle
  · rw [if_pos same, same]
    cases draft.timeline.history? occupant.handle <;> simp
  · rw [if_neg same]

/-- Renaming changes the past of one handle only. -/
theorem placeAt_renamed_of_ne (draft : Draft) (free : Slot) (occupant : Occupant)
    {handle tick : Nat} (other : handle ≠ occupant.handle) :
    (draft.renamed free occupant).timeline.placeAt handle tick =
      draft.timeline.placeAt handle tick := by
  unfold Timeline.placeAt
  rw [history?_renamed, if_neg other]

theorem occupant?_refill (draft : Draft) (slot other : Slot) (contents : Option Occupant) :
    (draft.refill slot contents).pool.occupant? other =
      if other = slot then contents else draft.pool.occupant? other := by
  simp [refill, mapPool]

/-- One thing that the allocator does. -/
inductive Step : Draft → Draft → Prop where
  | issue {draft} {slot : Slot} {claim : Claim} :
      draft.pool.occupant? slot = none → (claim ≠ .used → slot = accumulator) →
      Step draft (draft.issue slot claim)
  | shift {draft} {slot free : Slot} {occupant : Occupant} :
      draft.pool.occupant? slot = some occupant → draft.pool.occupant? free = none →
      free ≠ slot → free ≠ accumulator → Step draft (draft.shift slot free occupant)
  | rename {draft} {free : Slot} {occupant : Occupant} :
      draft.pool.occupant? accumulator = some occupant → occupant.implicit = false →
      draft.pool.occupant? free = none → free ≠ accumulator →
      draft.text.references draft.timeline (some (slotPhys free))
        (draft.timeline.born occupant.handle) = false →
      Step draft (draft.renamed free occupant)
  | mark {draft} {slot : Slot} {occupant marked : Occupant} :
      draft.pool.occupant? slot = some occupant → marked.handle = occupant.handle →
      marked.implicit = occupant.implicit → (marked.claim = .used ∨ marked.claim = occupant.claim) →
      Step draft (draft.refill slot (some marked))
  | drop {draft} (slot : Slot) : Step draft (draft.refill slot none)
  | trace {draft} (message : String) : Step draft (draft.traced message)

/-- A slot that the procedure may use stays one. -/
theorem Step.covers {draft draft' : Draft} {slot : Slot} (step : Step draft draft')
    (covers : draft.pool.Covers slot) : draft'.pool.Covers slot := by
  have put : ∀ other contents, (draft.pool.put other contents).Covers slot := fun _ _ => covers
  cases step with
  | @issue other => exact (put other _).touch other
  | @shift _ free => exact (put free _).touch free
  | @rename free => exact (put free _).touch free
  | _ => exact covers

/-- What the allocator does one after the other. -/
abbrev Steps : Draft → Draft → Prop := Relation.ReflTransGen Step

end Draft

namespace Drafting

open Draft

theorem take_eq (slot : Slot) (claim : Claim) (size : Size) (draft : Draft) :
    take slot claim size draft =
      .ok ⟨.slot draft.timeline.count, size⟩ (draft.issue slot claim) := rfl

theorem log_eq (message : String) (draft : Draft) :
    log message draft = .ok () (draft.traced message) := rfl

theorem nextRegister_ok {size : Size} {draft draft' : Draft} {register : Register}
    (run : nextRegister size draft = .ok register draft') :
    ∃ slot, draft.pool.occupant? slot = none ∧
      (slot = accumulator → ∀ saved ≠ accumulator, draft.pool.occupant? saved ≠ none) ∧
      register = ⟨.slot draft.timeline.count, size⟩ ∧ draft' = draft.issue slot .used := by
  simp only [nextRegister, Success.bind_ok, Success.get_ok] at run
  obtain ⟨_, _, ⟨rfl, rfl⟩, run⟩ := run
  cases found : savedSlots.find? fun slot => !draft.pool.isOccupied slot with
  | some slot =>
      obtain ⟨saved, free⟩ := saved_of_find? found
      simp only [found, take_eq] at run
      cases run
      exact ⟨slot, by simpa using free, fun same => absurd same saved, rfl, rfl⟩
  | none =>
      simp only [found, Success.ite_apply, take_eq] at run
      split at run
      · rename_i free
        cases run
        refine ⟨accumulator, by simpa using free, ?_, rfl, rfl⟩
        intro _ saved notAccumulator empty
        have occupied := List.find?_eq_none.mp found saved (mem_savedSlots.mpr notAccumulator)
        simp [isOccupied, empty] at occupied
      · simp at run

theorem evacuate_ok {slot : Slot} {occupant : Occupant} {draft draft' : Draft} {u : Unit}
    (run : evacuate slot occupant draft = .ok u draft') :
    ∃ free message, draft.pool.occupant? free = none ∧ free ≠ slot ∧ free ≠ accumulator ∧
      draft' = (draft.shift slot free occupant).traced message := by
  simp only [evacuate, Success.bind_ok, Success.get_ok] at run
  obtain ⟨_, _, ⟨rfl, rfl⟩, run⟩ := run
  cases found : savedSlots.find? fun other =>
      decide (other ≠ slot) && !draft.pool.isOccupied other with
  | none =>
      simp only [found] at run
      simp at run
  | some free =>
      obtain ⟨saved, passed⟩ := saved_of_find? found
      simp only [Bool.and_eq_true, decide_eq_true_eq, Bool.not_eq_true', isOccupied_eq_false]
        at passed
      simp only [found, Success.bind_ok, Success.set_ok, emit, Success.modify_ok, log_eq] at run
      obtain ⟨_, _, rfl, _, _, rfl, run⟩ := run
      cases run
      exact ⟨free, _, passed.2, passed.1, saved, rfl⟩

theorem rename_eq (occupant : Occupant) (free : Slot) (draft : Draft) :
    rename occupant free draft = .ok () ((draft.renamed free occupant).traced
      ("regalloc: renamed accumulator value to " ++ (slotPhys free).text)) := rfl

/-- Clearing the accumulator does nothing, renames its value or moves it. -/
theorem reserve_ok {draft draft' : Draft} {u : Unit} (run : reserve draft = .ok u draft') :
    (draft.pool.occupant? accumulator = none ∧ draft' = draft) ∨
    ∃ occupant free message, draft.pool.occupant? accumulator = some occupant ∧
      draft.pool.occupant? free = none ∧ free ≠ accumulator ∧
      (occupant.implicit = false ∧
          draft.text.references draft.timeline (some (slotPhys free))
            (draft.timeline.born occupant.handle) = false ∧
          draft' = (draft.renamed free occupant).traced message ∨
        draft' = (draft.shift accumulator free occupant).traced message) := by
  simp only [reserve, Success.bind_ok, Success.get_ok] at run
  obtain ⟨_, _, ⟨rfl, rfl⟩, run⟩ := run
  cases occupied : draft.pool.occupant? accumulator with
  | none =>
      simp only [occupied, Success.pure_ok, true_and] at run
      exact .inl ⟨rfl, run.symm⟩
  | some occupant =>
      right
      simp only [occupied] at run
      generalize chosen : (if occupant.claim = .used && !occupant.implicit then
        renameTarget? draft occupant.handle else none) = target at run
      cases target with
      | some free =>
          simp only [rename_eq] at run
          cases run
          split at chosen
          · rename_i ordinary
            simp only [Bool.and_eq_true, decide_eq_true_eq, Bool.not_eq_true'] at ordinary
            obtain ⟨saved, passed⟩ := saved_of_find? chosen
            simp only [Bool.and_eq_true, Bool.not_eq_true', isOccupied_eq_false] at passed
            exact ⟨occupant, free, _, rfl, passed.1, saved, .inl ⟨ordinary.2, passed.2, rfl⟩⟩
          · contradiction
      | none =>
          obtain ⟨free, message, empty, _, saved, rfl⟩ := evacuate_ok run
          exact ⟨occupant, free, message, rfl, empty, saved, .inr rfl⟩

theorem callAlloc_ok {size : Size} {draft draft' : Draft} {register : Register}
    (run : callAlloc size draft = .ok register draft') :
    draft.pool.occupant? accumulator = none ∧ register = ⟨.slot draft.timeline.count, size⟩ ∧
      draft' = draft.issue accumulator (.needed size) := by
  simp only [callAlloc, claim?, Success.bind_ok, Success.get_ok] at run
  obtain ⟨_, _, ⟨rfl, rfl⟩, run⟩ := run
  cases occupied : draft.pool.occupant? accumulator with
  | some occupant => simp [occupied] at run
  | none =>
      simp only [occupied, Option.map_none, take_eq] at run
      cases run
      exact ⟨rfl, rfl, rfl⟩

/-- Clearing a slot does nothing, or takes its value elsewhere. -/
theorem vacate_ok {slot : Slot} {draft draft' : Draft} {u : Unit}
    (run : vacate slot draft = .ok u draft') :
    (draft.pool.occupant? slot = none ∧ draft' = draft) ∨
    (slot = accumulator ∧ reserve draft = .ok u draft') ∨
    ∃ occupant free message, draft.pool.occupant? slot = some occupant ∧ slot ≠ accumulator ∧
      draft.pool.occupant? free = none ∧ free ≠ slot ∧ free ≠ accumulator ∧
      draft' = (draft.shift slot free occupant).traced message := by
  simp only [vacate, Success.bind_ok, Success.get_ok] at run
  obtain ⟨_, _, ⟨rfl, rfl⟩, run⟩ := run
  cases occupied : draft.pool.occupant? slot with
  | none =>
      simp only [occupied, Success.pure_ok, true_and] at run
      exact .inl ⟨rfl, run.symm⟩
  | some occupant =>
      right
      simp only [occupied, Success.ite_apply] at run
      split at run
      · rename_i same
        exact .inl ⟨same, run⟩
      · rename_i saved
        obtain ⟨free, message, empty, apart, other, rfl⟩ := evacuate_ok run
        exact .inr ⟨occupant, free, message, rfl, saved, empty, apart, other, rfl⟩

theorem claimSlot_ok {slot : Slot} {size : Size} {draft draft' : Draft} {register : Register}
    (run : claimSlot slot size draft = .ok register draft') :
    ∃ cleared, vacate slot draft = .ok () cleared ∧
      register = ⟨.slot cleared.timeline.count, size⟩ ∧ draft' = cleared.issue slot .used := by
  simp only [claimSlot, Success.bind_ok, take_eq] at run
  obtain ⟨_, cleared, vacated, run⟩ := run
  cases run
  exact ⟨cleared, vacated, rfl, rfl⟩

/-- Freeing gives up the slot of the operand, or changes nothing. -/
theorem free_ok {operand : Operand} {force : Bool} {draft draft' : Draft} {freed : Bool}
    (run : free operand force draft = .ok freed draft') :
    draft' = draft ∨ ∃ slot, draft.slotOf? operand = some slot ∧
      (draft.isLocked operand = true → force = true) ∧ draft' = draft.refill slot none := by
  simp only [free, Success.bind_ok, Success.get_ok] at run
  obtain ⟨_, _, ⟨rfl, rfl⟩, run⟩ := run
  cases found : draft.slotOf? operand with
  | none =>
      simp only [found, Success.pure_ok] at run
      exact .inl run.2.symm
  | some slot =>
      simp only [found, Success.ite_apply] at run
      split at run
      · simp only [Success.pure_ok] at run
        exact .inl run.2.symm
      · rename_i allowed
        simp only [Success.bind_ok, Success.set_ok, Success.pure_ok] at run
        obtain ⟨_, _, rfl, _, rfl⟩ := run
        refine .inr ⟨slot, rfl, ?_, rfl⟩
        intro locked
        simpa [locked] using allowed

end Drafting

namespace Draft

theorem steps_traced {draft next : Draft} {message : String} (step : Step draft next) :
    Steps draft (next.traced message) :=
  .tail (.single step) (.trace message)

theorem steps_adjust {draft : Draft} {slot : Slot} {change : Occupant → Occupant}
    (handle : ∀ occupant, (change occupant).handle = occupant.handle)
    (implicit : ∀ occupant, (change occupant).implicit = occupant.implicit)
    (claim : ∀ occupant, (change occupant).claim = .used ∨
      (change occupant).claim = occupant.claim) :
    Steps draft (draft.mapPool fun pool => pool.adjust slot change) := by
  have refilled : (draft.mapPool fun pool => pool.adjust slot change) =
      draft.refill slot ((draft.pool.occupant? slot).map change) := rfl
  rw [refilled]
  cases occupied : draft.pool.occupant? slot with
  | none => exact .single (.drop slot)
  | some occupant =>
      exact .single (.mark occupied (handle occupant) (implicit occupant) (claim occupant))

theorem steps_adjust_operand {draft : Draft} {operand : Operand} {change : Occupant → Occupant}
    (handle : ∀ occupant, (change occupant).handle = occupant.handle)
    (implicit : ∀ occupant, (change occupant).implicit = occupant.implicit)
    (claim : ∀ occupant, (change occupant).claim = .used ∨
      (change occupant).claim = occupant.claim) :
    Steps draft (draft.adjust operand change) := by
  unfold adjust
  split
  · exact steps_adjust handle implicit claim
  · exact .refl

theorem steps_settle (draft : Draft) (register : Register) :
    Steps draft (draft.adjust (.reg register) fun occupant =>
      { occupant with claim := .used, locked := false }) :=
  steps_adjust_operand (fun _ => rfl) (fun _ => rfl) fun _ => .inl rfl

theorem steps_relock (draft : Draft) (operand : Operand) (locked : Bool) :
    Steps draft (draft.adjust operand fun occupant => { occupant with locked }) :=
  steps_adjust_operand (fun _ => rfl) (fun _ => rfl) fun _ => .inr rfl

/-- A change of the pool slot by slot is a sequence of steps if the change of each slot is. -/
theorem steps_foldl {change : Pool → Slot → Pool} (slots : List Slot) (draft : Draft)
    (each : ∀ draft slot, Steps draft (draft.mapPool fun pool => change pool slot)) :
    Steps draft (draft.mapPool fun pool => slots.foldl change pool) := by
  induction slots generalizing draft with
  | nil => exact .refl
  | cons slot rest inductionHypothesis =>
      exact (each draft slot).trans
        (inductionHypothesis (draft.mapPool fun pool => change pool slot))

theorem steps_lockLive {draft draft' : Draft} {registers : List Register}
    (run : Drafting.lockLive draft = .ok registers draft') : Steps draft draft' := by
  simp only [Drafting.lockLive, Success.bind_ok, Success.get_ok, Success.modify_ok,
    Success.pure_ok] at run
  obtain ⟨_, _, ⟨rfl, rfl⟩, _, _, rfl, _, rfl⟩ := run
  refine steps_foldl _ _ fun draft slot => ?_
  exact steps_adjust (fun _ => rfl) (fun _ => rfl) fun _ => .inr rfl

theorem steps_free {operand : Operand} {force freed : Bool} {draft draft' : Draft}
    (run : Drafting.free operand force draft = .ok freed draft') : Steps draft draft' := by
  rcases Drafting.free_ok run with rfl | ⟨slot, _, _, rfl⟩
  · exact .refl
  · exact .single (.drop slot)

theorem steps_freeAll {force : Bool} {draft draft' : Draft} {u : Unit}
    (run : Drafting.freeAll force draft = .ok u draft') : Steps draft draft' := by
  rw [← Success.modify_ok.mp run]
  refine steps_foldl _ _ fun draft slot => ?_
  unfold mapPool
  dsimp only
  split
  · exact .single (.drop slot)
  · exact .refl

theorem steps_reserve {draft draft' : Draft} {u : Unit}
    (run : Drafting.reserve draft = .ok u draft') : Steps draft draft' := by
  rcases Drafting.reserve_ok run with
    ⟨_, rfl⟩ | ⟨occupant, free, message, occupied, empty, saved, ⟨ordinary, unnamed, rfl⟩ | rfl⟩
  · exact .refl
  · exact steps_traced (.rename occupied ordinary empty saved unnamed)
  · exact steps_traced (.shift occupied empty saved saved)

theorem steps_vacate {slot : Slot} {draft draft' : Draft} {u : Unit}
    (run : Drafting.vacate slot draft = .ok u draft') : Steps draft draft' := by
  rcases Drafting.vacate_ok run with
    ⟨_, rfl⟩ | ⟨_, reserved⟩ | ⟨occupant, free, message, occupied, _, empty, apart, saved, rfl⟩
  · exact .refl
  · exact steps_reserve reserved
  · exact steps_traced (.shift occupied empty apart saved)

/-- Handles are never taken back. -/
theorem Steps.count_le {draft draft' : Draft} (steps : Steps draft draft') :
    draft.timeline.count ≤ draft'.timeline.count := by
  induction steps with
  | refl => exact Nat.le_refl _
  | tail _ last inductionHypothesis =>
      refine Nat.le_trans inductionHypothesis ?_
      cases last with
      | issue => simp
      | shift => simp
      | rename => simp
      | mark => exact Nat.le_refl _
      | drop => exact Nat.le_refl _
      | trace => exact Nat.le_refl _

theorem vacate_frees {slot : Slot} {draft draft' : Draft} {u : Unit}
    (run : Drafting.vacate slot draft = .ok u draft') : draft'.pool.occupant? slot = none := by
  rcases Drafting.vacate_ok run with
    ⟨empty, rfl⟩ | ⟨rfl, reserved⟩ | ⟨occupant, free, message, _, _, _, _, _, rfl⟩
  · exact empty
  · rcases Drafting.reserve_ok reserved with
      ⟨empty, rfl⟩ | ⟨occupant, free, message, _, _, _, ⟨_, _, rfl⟩ | rfl⟩
    · exact empty
    · simp [renamed, traced]
    · simp [shift, traced]
  · simp [shift, traced]

end Draft

end X64Backend
