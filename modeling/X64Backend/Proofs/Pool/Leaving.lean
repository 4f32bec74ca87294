import X64Backend.Proofs.Pool.Guarding

/-!
What a change of the register pool leaves behind.

A register that is allocated is one more value in the pool, and only freeing takes it out again.
Moves and renames carry every value to its new slot with its lock.
-/

namespace X64Backend.Draft

open Pool

/-- Behind a change, the pool carries what it carried before, and at most some new values. -/
structure Leaves (N : Handle → Bool → Prop) (draft draft' : Draft) : Prop where
  tidy : draft'.Tidy
  carried : ∀ {handle locked}, draft'.Carries handle locked →
    draft.Carries handle locked ∨ N handle locked

namespace Leaves

variable {N M : Handle → Bool → Prop} {draft draft' draft'' : Draft}

theorem refl (tidy : draft.Tidy) : Leaves N draft draft :=
  ⟨tidy, .inl⟩

theorem trans (first : Leaves N draft draft') (second : Leaves N draft' draft'') :
    Leaves N draft draft'' := by
  refine ⟨second.tidy, fun carries => ?_⟩
  rcases second.carried carries with earlier | isNew
  · exact first.carried earlier
  · exact .inr isNew

theorem mono (leaves : Leaves N draft draft')
    (weaker : ∀ handle locked, N handle locked → M handle locked) :
    Leaves M draft draft' :=
  ⟨leaves.tidy, fun carries => (leaves.carried carries).imp_right (weaker _ _)⟩

/-- The slots hold what they held, or something new. -/
theorem of_occupants (tidy : draft'.Tidy)
    (occupants : ∀ slot occupant, draft'.pool.occupant? slot = some occupant →
      draft.Carries occupant.handle occupant.locked ∨ N occupant.handle occupant.locked) :
    Leaves N draft draft' := by
  refine ⟨tidy, ?_⟩
  rintro _ _ ⟨slot, occupant, occupied, rfl, rfl⟩
  exact occupants slot occupant occupied

/-- A change of neither slots nor histories. -/
theorem of_same (tidy : draft'.Tidy) (pool : draft'.pool = draft.pool) :
    Leaves N draft draft' :=
  of_occupants tidy fun slot occupant occupied =>
    .inl ⟨slot, occupant, pool ▸ occupied, rfl, rfl⟩

section Steps

variable (tidy : draft.Tidy)
include tidy

theorem issue (slot : Slot) :
    Leaves (fun handle locked => handle = draft.timeline.count ∧ locked = false) draft
      (draft.issue slot .used) := by
  refine of_occupants (tidy.issue fun produced => absurd rfl produced) ?_
  intro other occupant occupied
  rw [occupant?_issue] at occupied
  split at occupied
  · cases occupied
    exact .inr ⟨rfl, rfl⟩
  · exact .inl ⟨other, occupant, occupied, rfl, rfl⟩

theorem shift {slot free : Slot} {occupant : Occupant}
    (occupied : draft.pool.occupant? slot = some occupant) (saved : free ≠ accumulator) :
    Leaves N draft (draft.shift slot free occupant) := by
  refine of_occupants (tidy.shift occupied saved) ?_
  intro other moved there
  rw [occupant?_shift] at there
  split at there
  · contradiction
  · split at there
    · cases there
      exact .inl ⟨slot, occupant, occupied, rfl, rfl⟩
    · exact .inl ⟨other, moved, there, rfl, rfl⟩

theorem renamed {free : Slot} {occupant : Occupant}
    (occupied : draft.pool.occupant? accumulator = some occupant)
    (ordinary : occupant.implicit = false) :
    Leaves N draft (draft.renamed free occupant) := by
  refine of_occupants (tidy.renamed occupied ordinary) ?_
  intro other moved there
  rw [occupant?_renamed] at there
  split at there
  · contradiction
  · split at there
    · cases there
      exact .inl ⟨accumulator, occupant, occupied, rfl, rfl⟩
    · exact .inl ⟨other, moved, there, rfl, rfl⟩

theorem traced (message : String) : Leaves N draft (draft.traced message) :=
  of_same (tidy.step (.trace message)) rfl

theorem reserve {u : Unit} (run : Drafting.reserve draft = .ok u draft') :
    Leaves N draft draft' := by
  rcases Drafting.reserve_ok run with
    ⟨_, rfl⟩ | ⟨occupant, free, message, occupied, _, saved, ⟨ordinary, _, rfl⟩ | rfl⟩
  · exact refl tidy
  · have step : Leaves N draft (draft.renamed free occupant) :=
      renamed tidy occupied ordinary
    exact step.trans (traced step.tidy message)
  · have step : Leaves N draft _ := shift tidy occupied saved
    exact step.trans (traced step.tidy message)

theorem vacate {slot : Slot} {u : Unit} (run : Drafting.vacate slot draft = .ok u draft') :
    Leaves N draft draft' := by
  rcases Drafting.vacate_ok run with
    ⟨_, rfl⟩ | ⟨_, reserved⟩ | ⟨occupant, free, message, occupied, _, _, _, saved, rfl⟩
  · exact refl tidy
  · exact reserve tidy reserved
  · have step : Leaves N draft _ := shift tidy occupied saved
    exact step.trans (traced step.tidy message)

/-- An allocated register is unlocked. -/
theorem nextRegister {size : Size} {register : Register}
    (run : Drafting.nextRegister size draft = .ok register draft') :
    Leaves (fun handle locked => (Operand.reg register).handle? = some handle ∧ locked = false)
      draft draft' := by
  obtain ⟨slot, _, _, rfl, rfl⟩ := Drafting.nextRegister_ok run
  refine (issue tidy slot).mono ?_
  rintro _ _ ⟨rfl, rfl⟩
  exact ⟨rfl, rfl⟩

theorem claimSlot {slot : Slot} {size : Size} {register : Register}
    (run : Drafting.claimSlot slot size draft = .ok register draft') :
    Leaves (fun handle locked => (Operand.reg register).handle? = some handle ∧ locked = false)
      draft draft' := by
  obtain ⟨cleared, vacated, rfl, rfl⟩ := Drafting.claimSlot_ok run
  have first : Leaves _ draft cleared := vacate (N := fun _ _ => False) tidy vacated
  refine (first.mono fun _ _ => False.elim).trans ((issue first.tidy slot).mono ?_)
  rintro _ _ ⟨rfl, rfl⟩
  exact ⟨rfl, rfl⟩

/-- Marking the value behind an operand changes no other lock. -/
theorem adjust (operand : Operand) (change : Occupant → Occupant) {mark : Bool}
    (same : ∀ occupant, (change occupant).handle = occupant.handle)
    (marked : ∀ occupant, (change occupant).locked = mark)
    (implicit : ∀ occupant, (change occupant).implicit = occupant.implicit) :
    Leaves (fun handle locked => operand.handle? = some handle ∧ locked = mark) draft
        (draft.adjust operand change) ∧
      ∀ {handle locked}, operand.handle? = some handle →
        (draft.adjust operand change).Carries handle locked → locked = mark := by
  have guards : Guards (fun _ => False) (fun _ => True) draft (draft.adjust operand change) :=
    .adjust tidy (fun _ _ => id) same implicit
  have changed : ∀ {slot occupant}, (draft.adjust operand change).pool.occupant? slot =
      some occupant → draft.pool.occupant? slot = some occupant ∧
          operand.handle? ≠ some occupant.handle ∨
        operand.handle? = some occupant.handle ∧ occupant.locked = mark := by
    intro slot occupant occupied
    rw [tidy.occupant?_adjust] at occupied
    obtain ⟨before, there, rfl⟩ := Option.map_eq_some_iff.mp occupied
    split
    · rename_i behind
      exact .inr ⟨(congrArg some (same before)).symm ▸ behind, marked before⟩
    · exact .inl ⟨there, ‹_›⟩
  constructor
  · refine of_occupants guards.tidy fun slot occupant occupied => ?_
    rcases changed occupied with ⟨there, -⟩ | known
    · exact .inl ⟨slot, occupant, there, rfl, rfl⟩
    · exact .inr known
  · rintro handle locked behind ⟨slot, occupant, occupied, rfl, rfl⟩
    rcases changed occupied with ⟨-, apart⟩ | ⟨-, known⟩
    · exact absurd behind apart
    · exact known

/-- Freeing leaves nothing new.  By force, or without a lock, the value is gone. -/
theorem free {operand : Operand} {force freed : Bool}
    (run : Drafting.free operand force draft = .ok freed draft') :
    Leaves N draft draft' ∧ ∀ {handle locked}, operand.handle? = some handle →
      draft'.Carries handle locked → force = false ∧ locked = true := by
  have gone : ∀ {slot handle}, draft.Holds slot handle → Leaves N draft
      (draft.refill slot none) ∧ ∀ locked, ¬ (draft.refill slot none).Carries handle locked := by
    intro slot handle here
    refine ⟨of_occupants (tidy.drop slot) fun other kept there => ?_, ?_⟩
    · rw [occupant?_refill] at there
      split at there
      · contradiction
      · exact .inl ⟨other, kept, there, rfl, rfl⟩
    · rintro locked ⟨place, kept, there, same, -⟩
      rw [occupant?_refill] at there
      split at there
      · contradiction
      · rename_i apart
        exact apart (tidy.slot_unique (by simp [Holds, there, same]) here)
  simp only [Drafting.free, Success.bind_ok, Success.get_ok] at run
  obtain ⟨_, _, ⟨rfl, rfl⟩, run⟩ := run
  cases found : draft.slotOf? operand with
  | none =>
      simp only [found, Success.pure_ok] at run
      obtain ⟨-, rfl⟩ := run
      refine ⟨refl tidy, fun behind carries => ?_⟩
      obtain ⟨slot, here⟩ := live_of_carries carries
      rw [tidy.slotOf?_eq_some_iff.mpr ⟨_, behind, here⟩] at found
      contradiction
  | some slot =>
      obtain ⟨handle, behind, here⟩ := tidy.slotOf?_eq_some_iff.mp found
      simp only [found, Success.ite_apply] at run
      split at run
      · rename_i held
        obtain ⟨-, rfl⟩ := Success.pure_ok.mp run
        simp only [Bool.and_eq_true, Bool.not_eq_true'] at held
        refine ⟨refl tidy, fun behind' carries => ⟨held.2, ?_⟩⟩
        cases behind.symm.trans behind'
        obtain ⟨occupant, occupied, same⟩ := Option.map_eq_some_iff.mp here
        have locked : occupant.locked = true := by
          simpa [isLocked, found, occupied] using held.1
        exact tidy.carries_unique carries ⟨slot, occupant, occupied, same, locked⟩
      · simp only [Success.bind_ok, Success.set_ok, Success.pure_ok] at run
        obtain ⟨_, _, rfl, _, rfl⟩ := run
        obtain ⟨leaves, none⟩ := gone here
        refine ⟨leaves, fun behind' carries => ?_⟩
        cases behind.symm.trans behind'
        exact absurd carries (none _)

end Steps

end Leaves

end X64Backend.Draft
