import X64Backend.Proofs.Pool.Placement

/-!
What a change of a draft leaves to the values that someone else relies on.

A set of handles is guarded if their values stay in the pool with their locks.  One that is in a slot
other than the accumulator also stays there, unless the slot is among those that may be claimed.  And
if guarded values fill the whole pool, then none of them moves: there is nowhere to go.
-/

namespace X64Backend

open Pool

/-- The handle behind an operand. -/
def Operand.handle? (operand : Operand) : Option Handle :=
  match operand.base? with
  | some ⟨.slot handle, _⟩ => some handle
  | _ => none

namespace Operand

@[simp]
theorem handle?_mem (pointer : Pointer) : (mem pointer).handle? = (reg pointer.base).handle? := rfl

@[simp]
theorem handle?_resize (register : Register) (size : Size) :
    (reg (register.resize size)).handle? = (reg register).handle? := by
  obtain ⟨place, width⟩ := register
  cases place with
  | slot handle => rfl
  | fixed phys => rfl

@[simp]
theorem handle?_fix (phys : Phys) (size : Size) : (reg (.fix phys size)).handle? = none := rfl

end Operand

namespace Draft

/-- The value of a handle is in the pool with a given lock. -/
def Carries (draft : Draft) (handle : Handle) (locked : Bool) : Prop :=
  ∃ slot occupant, draft.pool.occupant? slot = some occupant ∧ occupant.handle = handle ∧
    occupant.locked = locked

/-- The value of a handle is locked, or gone. -/
def Held (draft : Draft) (handle : Handle) : Prop :=
  ∀ locked, draft.Carries handle locked → locked = true

theorem live_of_carries {draft : Draft} {handle : Handle} {locked : Bool}
    (carries : draft.Carries handle locked) : draft.Live handle := by
  obtain ⟨slot, occupant, occupied, same, _⟩ := carries
  exact ⟨slot, by simp [Holds, occupied, same]⟩

theorem carries_of_holds {draft : Draft} {slot : Slot} {handle : Handle}
    (holds : draft.Holds slot handle) : ∃ locked, draft.Carries handle locked := by
  obtain ⟨occupant, occupied, same⟩ := Option.map_eq_some_iff.mp holds
  exact ⟨occupant.locked, slot, occupant, occupied, same, rfl⟩

/-- In a tidy draft, the slot of an operand is the one that holds its handle. -/
theorem Tidy.slotOf?_eq_some_iff {draft : Draft} (tidy : draft.Tidy) {operand : Operand}
    {slot : Slot} : draft.slotOf? operand = some slot ↔
      ∃ handle, operand.handle? = some handle ∧ draft.Holds slot handle := by
  unfold slotOf? Operand.handle?
  cases base : operand.base? with
  | none => simp
  | some register =>
      obtain ⟨place, size⟩ := register
      cases place with
      | fixed phys => simp [Register.isSlot]
      | slot handle =>
          simp only [Register.isSlot, Register.handle, Option.bind_eq_bind, Option.bind_some,
            if_true, Option.some.injEq, exists_eq_left']
          constructor
          · intro found
            obtain ⟨other, placed, found⟩ := Option.bind_eq_some_iff.mp found
            obtain ⟨occupant, occupied, found⟩ := Option.bind_eq_some_iff.mp found
            split at found
            · rename_i same
              cases found
              simp [Holds, occupied, same]
            · contradiction
          · intro holds
            obtain ⟨occupant, occupied, same⟩ := Option.map_eq_some_iff.mp holds
            have current := tidy.current_of_holds holds
            simp [current, occupied, same]

theorem Tidy.carries_unique {draft : Draft} (tidy : draft.Tidy) {handle : Handle}
    {first second : Bool} (here : draft.Carries handle first)
    (there : draft.Carries handle second) : first = second := by
  obtain ⟨slot, occupant, occupied, same, rfl⟩ := here
  obtain ⟨other, occupant', occupied', same', rfl⟩ := there
  have first : draft.Holds slot handle := by
    simp [Holds, occupied, same]
  have second : draft.Holds other handle := by
    simp [Holds, occupied', same']
  have slots : slot = other := tidy.slot_unique first second
  subst slots
  rw [occupied] at occupied'
  cases occupied'
  rfl

/-- A change leaves the guarded values alone.  The slots in `C` may be cleared. -/
structure Guards (guarded : Handle → Prop) (C : Slot → Prop) (draft draft' : Draft) : Prop where
  tidy : draft'.Tidy
  count : draft.timeline.count ≤ draft'.timeline.count
  /-- A value that is gone does not come back. -/
  gone : ∀ handle, handle < draft.timeline.count → draft'.Live handle → draft.Live handle
  kept : ∀ {handle locked}, guarded handle → draft.Carries handle locked →
    draft'.Carries handle locked
  still : ∀ {slot handle}, guarded handle → slot ≠ accumulator → ¬ C slot →
    draft.Holds slot handle →
    draft'.Holds slot handle ∧ draft'.timeline.history? handle = draft.timeline.history? handle
  full : (∀ slot, ∃ handle, guarded handle ∧ draft.Holds slot handle) → ∀ {slot handle},
    draft.Holds slot handle →
    draft'.Holds slot handle ∧ draft'.timeline.history? handle = draft.timeline.history? handle

namespace Guards

variable {guarded : Handle → Prop} {C : Slot → Prop} {draft draft' : Draft}

/-- A change of neither pool nor histories. -/
theorem of_same (tidy : draft'.Tidy) (pool : draft'.pool.slots = draft.pool.slots)
    (timeline : draft'.timeline = draft.timeline) : Guards guarded C draft draft' := by
  have occupants : ∀ slot, draft'.pool.occupant? slot = draft.pool.occupant? slot := by
    intro slot
    unfold Pool.occupant?
    rw [pool]
  have holds : ∀ slot handle, draft'.Holds slot handle ↔ draft.Holds slot handle := by
    intro slot handle
    unfold Holds
    rw [occupants]
  refine ⟨tidy, Nat.le_of_eq (by rw [timeline]), ?_, ?_, ?_, ?_⟩
  · rintro handle _ ⟨slot, here⟩
    exact ⟨slot, (holds slot handle).mp here⟩
  · rintro handle locked _ ⟨slot, occupant, occupied, rest⟩
    exact ⟨slot, occupant, by rw [occupants, occupied], rest⟩
  · intro slot handle _ _ _ here
    exact ⟨(holds slot handle).mpr here, by rw [timeline]⟩
  · intro _ slot handle here
    exact ⟨(holds slot handle).mpr here, by rw [timeline]⟩

theorem refl (tidy : draft.Tidy) : Guards guarded C draft draft :=
  of_same tidy rfl rfl

theorem trans {draft'' : Draft} (first : Guards guarded C draft draft')
    (second : Guards guarded C draft' draft'') : Guards guarded C draft draft'' := by
  refine ⟨second.tidy, Nat.le_trans first.count second.count, ?_, ?_, ?_, ?_⟩
  · intro handle issued live
    exact first.gone handle issued (second.gone handle (Nat.lt_of_lt_of_le issued first.count) live)
  · intro handle locked guards carries
    exact second.kept guards (first.kept guards carries)
  · intro slot handle guards saved unclaimed here
    have middle := first.still guards saved unclaimed here
    have last := second.still guards saved unclaimed middle.1
    exact ⟨last.1, last.2.trans middle.2⟩
  · intro filled slot handle here
    have middle := first.full filled here
    have filled' : ∀ slot, ∃ handle, guarded handle ∧ draft'.Holds slot handle := by
      intro slot
      obtain ⟨handle, guards, here⟩ := filled slot
      exact ⟨handle, guards, (first.full filled here).1⟩
    have last := second.full filled' middle.1
    exact ⟨last.1, last.2.trans middle.2⟩

/-- Fewer values are guarded all the more, and more slots may be claimed. -/
theorem mono {fewer : Handle → Prop} {more : Slot → Prop}
    (guards : Guards guarded C draft draft') (subset : ∀ handle, fewer handle → guarded handle)
    (superset : ∀ slot, C slot → more slot) : Guards fewer more draft draft' := by
  refine ⟨guards.tidy, guards.count, guards.gone, ?_, ?_, ?_⟩
  · intro handle locked few
    exact guards.kept (subset handle few)
  · intro slot handle few saved unclaimed
    exact guards.still (subset handle few) saved fun claimed => unclaimed (superset slot claimed)
  · intro filled
    refine guards.full fun slot => ?_
    obtain ⟨handle, few, here⟩ := filled slot
    exact ⟨handle, subset handle few, here⟩

/-- A locked value stays locked or goes. -/
theorem held {handle : Handle} (guards : Guards guarded C draft draft')
    (issued : handle < draft.timeline.count) (guarded : guarded handle) (held : draft.Held handle) :
    draft'.Held handle := by
  intro locked carries
  obtain ⟨slot, here⟩ := guards.gone handle issued (live_of_carries carries)
  obtain ⟨before, carries'⟩ := carries_of_holds here
  rw [guards.tidy.carries_unique carries (guards.kept guarded carries')]
  exact held before carries'

/-- If the locked values are guarded, then those that stay remain locked. -/
theorem held_locked {handle : Handle}
    (guards : Guards (fun handle => draft.Carries handle true) C draft draft')
    (issued : handle < draft.timeline.count) (held : draft.Held handle) : draft'.Held handle := by
  intro locked carries
  obtain ⟨slot, here⟩ := guards.gone handle issued (live_of_carries carries)
  obtain ⟨before, carries'⟩ := carries_of_holds here
  obtain rfl := held before carries'
  exact guards.tidy.carries_unique carries (guards.kept carries' carries')

section Steps

variable (tidy : draft.Tidy)
include tidy

theorem traced (message : String) : Guards guarded C draft (draft.traced message) :=
  of_same (tidy.step (.trace message)) rfl rfl

theorem issue {slot : Slot} {claim : Claim} (empty : draft.pool.occupant? slot = none)
    (produces : claim ≠ .used → slot = accumulator) :
    Guards guarded C draft (draft.issue slot claim) := by
  have apart : ∀ {other handle}, draft.Holds other handle → other ≠ slot := by
    rintro other handle here rfl
    simp [Holds, empty] at here
  have stays : ∀ {other handle}, draft.Holds other handle →
      (draft.issue slot claim).Holds other handle ∧
        (draft.issue slot claim).timeline.history? handle = draft.timeline.history? handle := by
    intro other handle here
    have issued := tidy.lt_count_of_holds here
    refine ⟨?_, ?_⟩
    · unfold Holds
      rw [occupant?_issue, if_neg (apart here)]
      exact here
    · rw [history?_issue, if_neg (Nat.ne_of_lt issued)]
  refine ⟨tidy.issue produces, by simp, ?_, ?_, ?_, ?_⟩
  · rintro handle issued ⟨other, here⟩
    unfold Holds at here
    rw [occupant?_issue] at here
    split at here
    · cases here
      exact absurd issued (Nat.lt_irrefl _)
    · exact ⟨other, here⟩
  · rintro handle locked _ ⟨other, occupant, occupied, same, lock⟩
    have here : draft.Holds other handle := by
      simp [Holds, occupied, same]
    have different : other ≠ slot := apart here
    exact ⟨other, occupant, by rw [occupant?_issue, if_neg different, occupied], same, lock⟩
  · intro other handle _ _ _ here
    exact stays here
  · intro _ other handle here
    exact stays here

/-- A value may be moved if nobody guards it, or out of the accumulator, or out of a slot that may
be claimed. -/
theorem shift {slot free : Slot} {occupant : Occupant}
    (occupied : draft.pool.occupant? slot = some occupant)
    (empty : draft.pool.occupant? free = none) (apart : free ≠ slot) (saved : free ≠ accumulator)
    (allowed : guarded occupant.handle → slot = accumulator ∨ C slot) :
    Guards guarded C draft (draft.shift slot free occupant) := by
  have here : draft.Holds slot occupant.handle := by simp [Holds, occupied]
  refine ⟨tidy.shift occupied saved, by simp, ?_, ?_, ?_, ?_⟩
  · rintro handle _ ⟨other, there⟩
    unfold Holds at there
    rw [occupant?_shift] at there
    split at there
    · contradiction
    · split at there
      · cases there
        exact ⟨slot, here⟩
      · exact ⟨other, there⟩
  · rintro handle locked _ ⟨other, second, occupied', same, lock⟩
    by_cases moved : other = slot
    · subst moved
      rw [occupied] at occupied'
      cases occupied'
      exact ⟨free, { occupant with claim := .used, implicit := false },
        by rw [occupant?_shift, if_neg apart, if_pos rfl], same, lock⟩
    · have different : other ≠ free := by
        rintro rfl
        simp [empty] at occupied'
      exact ⟨other, second,
        by rw [occupant?_shift, if_neg moved, if_neg different, occupied'], same, lock⟩
  · intro other handle guards saved' unclaimed there
    have moved : other ≠ slot := by
      rintro rfl
      have same : occupant.handle = handle := by simpa [Holds, occupied] using there
      rcases allowed (same ▸ guards) with accumulator | claimed
      · exact saved' accumulator
      · exact unclaimed claimed
    have different : other ≠ free := by
      rintro rfl
      simp [Holds, empty] at there
    have other' : handle ≠ occupant.handle := by
      rintro rfl
      exact moved (tidy.slot_unique there here)
    refine ⟨?_, by rw [history?_shift, if_neg other']⟩
    unfold Holds
    rw [occupant?_shift, if_neg moved, if_neg different]
    exact there
  · intro filled
    obtain ⟨handle, _, there⟩ := filled free
    simp [Holds, empty] at there

theorem renamed {free : Slot} {occupant : Occupant}
    (occupied : draft.pool.occupant? accumulator = some occupant)
    (ordinary : occupant.implicit = false) (empty : draft.pool.occupant? free = none)
    (saved : free ≠ accumulator) :
    Guards guarded C draft (draft.renamed free occupant) := by
  have here : draft.Holds accumulator occupant.handle := by simp [Holds, occupied]
  refine ⟨tidy.renamed occupied ordinary, by simp, ?_, ?_, ?_, ?_⟩
  · rintro handle _ ⟨other, there⟩
    unfold Holds at there
    rw [occupant?_renamed] at there
    split at there
    · contradiction
    · split at there
      · cases there
        exact ⟨accumulator, here⟩
      · exact ⟨other, there⟩
  · rintro handle locked _ ⟨other, second, occupied', same, lock⟩
    by_cases moved : other = accumulator
    · subst moved
      rw [occupied] at occupied'
      cases occupied'
      exact ⟨free, occupant, by rw [occupant?_renamed, if_neg saved, if_pos rfl], same, lock⟩
    · have different : other ≠ free := by
        rintro rfl
        simp [empty] at occupied'
      exact ⟨other, second,
        by rw [occupant?_renamed, if_neg moved, if_neg different, occupied'], same, lock⟩
  · intro other handle _ saved' _ there
    have different : other ≠ free := by
      rintro rfl
      simp [Holds, empty] at there
    have other' : handle ≠ occupant.handle := by
      rintro rfl
      exact saved' (tidy.slot_unique there here)
    refine ⟨?_, by rw [history?_renamed, if_neg other']⟩
    unfold Holds
    rw [occupant?_renamed, if_neg saved', if_neg different]
    exact there
  · intro filled
    obtain ⟨handle, _, there⟩ := filled free
    simp [Holds, empty] at there

/-- The marks of a value may change as long as a guarded one keeps its lock. -/
theorem mark {slot : Slot} {occupant marked : Occupant}
    (occupied : draft.pool.occupant? slot = some occupant)
    (same : marked.handle = occupant.handle) (implicit : marked.implicit = occupant.implicit)
    (locked : guarded occupant.handle → marked.locked = occupant.locked) :
    Guards guarded C draft (draft.refill slot (some marked)) := by
  have holds : ∀ {other handle}, (draft.refill slot (some marked)).Holds other handle ↔
      draft.Holds other handle := by
    intro other handle
    unfold Holds
    rw [occupant?_refill]
    split
    · rename_i here
      simp [here, occupied, same]
    · rfl
  refine ⟨tidy.mark occupied same implicit, Nat.le_refl _, ?_, ?_, ?_, ?_⟩
  · rintro handle _ ⟨other, here⟩
    exact ⟨other, holds.mp here⟩
  · rintro handle lock guards ⟨other, second, occupied', same', lock'⟩
    by_cases here : other = slot
    · subst here
      rw [occupied] at occupied'
      cases occupied'
      exact ⟨other, marked, by rw [occupant?_refill, if_pos rfl], same.trans same',
        (locked (same' ▸ guards)).trans lock'⟩
    · exact ⟨other, second, by rw [occupant?_refill, if_neg here, occupied'], same', lock'⟩
  · intro other handle _ _ _ here
    exact ⟨holds.mpr here, rfl⟩
  · intro _ other handle here
    exact ⟨holds.mpr here, rfl⟩

/-- A value that nobody guards may be dropped. -/
theorem drop {slot : Slot} (free : ∀ handle, draft.Holds slot handle → ¬ guarded handle) :
    Guards guarded C draft (draft.refill slot none) := by
  have stays : ∀ {other handle}, guarded handle → draft.Holds other handle → other ≠ slot := by
    rintro other handle guards here rfl
    exact free handle here guards
  refine ⟨tidy.drop slot, Nat.le_refl _, ?_, ?_, ?_, ?_⟩
  · rintro handle _ ⟨other, here⟩
    unfold Holds at here
    rw [occupant?_refill] at here
    split at here
    · contradiction
    · exact ⟨other, here⟩
  · rintro handle locked guards ⟨other, occupant, occupied, same, lock⟩
    have here : draft.Holds other handle := by
      simp [Holds, occupied, same]
    have different := stays guards here
    exact ⟨other, occupant, by rw [occupant?_refill, if_neg different, occupied], same, lock⟩
  · intro other handle guards _ _ here
    refine ⟨?_, rfl⟩
    unfold Holds
    rw [occupant?_refill, if_neg (stays guards here)]
    exact here
  · intro filled
    obtain ⟨handle, guards, here⟩ := filled slot
    exact absurd rfl (stays guards here)

end Steps

end Guards

end Draft

end X64Backend
