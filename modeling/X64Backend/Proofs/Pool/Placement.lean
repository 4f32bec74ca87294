import X64Backend.Proofs.Pool.Steps

/-!
The pool and the histories of the handles agree: a value is in the slot whose register its handle
lives in now.  Everything the allocator does keeps it so.
-/

namespace X64Backend

open Pool

namespace Draft

/-- The pool and the histories of the handles agree. -/
structure Tidy (draft : Draft) : Prop where
  placed : ∀ {slot occupant}, draft.pool.occupant? slot = some occupant →
    draft.timeline.current occupant.handle = some (slotPhys slot)
  /-- What the hardware produced is in the accumulator. -/
  produced : ∀ {slot occupant}, draft.pool.occupant? slot = some occupant →
    occupant.implicit = true → slot = accumulator
  /-- A value in the accumulator has been there for its whole life. -/
  native : ∀ {occupant}, draft.pool.occupant? accumulator = some occupant →
    ∃ born, draft.timeline.history? occupant.handle = some ⟨born, some .rax, []⟩
  past : ∀ {handle history}, draft.timeline.history? handle = some history →
    history.born ≤ draft.text.clock ∧ ∀ move ∈ history.moves, move.1 < draft.text.clock

namespace Tidy

variable {draft : Draft} (tidy : draft.Tidy)
include tidy

theorem current_of_holds {slot : Slot} {handle : Handle} (holds : draft.Holds slot handle) :
    draft.timeline.current handle = some (slotPhys slot) := by
  obtain ⟨occupant, occupied, rfl⟩ := Option.map_eq_some_iff.mp holds
  exact tidy.placed occupied

theorem slot_unique {first second : Slot} {handle : Handle} (here : draft.Holds first handle)
    (there : draft.Holds second handle) : first = second := by
  have same := (tidy.current_of_holds here).symm.trans (tidy.current_of_holds there)
  exact slotPhys_injective (Option.some.inj same)

theorem issued_of_holds {slot : Slot} {handle : Handle} (holds : draft.Holds slot handle) :
    ∃ history, draft.timeline.history? handle = some history := by
  have current := tidy.current_of_holds holds
  unfold Timeline.current at current
  obtain ⟨history, issued, _⟩ := Option.bind_eq_some_iff.mp current
  exact ⟨history, issued⟩

theorem lt_count_of_holds {slot : Slot} {handle : Handle} (holds : draft.Holds slot handle) :
    handle < draft.timeline.count := by
  obtain ⟨history, issued⟩ := tidy.issued_of_holds holds
  exact Timeline.lt_count_of_history? issued

theorem lt_count_of_occupied {slot : Slot} {occupant : Occupant}
    (occupied : draft.pool.occupant? slot = some occupant) :
    occupant.handle < draft.timeline.count :=
  tidy.lt_count_of_holds (show draft.Holds slot occupant.handle by simp [Holds, occupied])

/-- Two slots never hold one value. -/
theorem handle_ne {slot other : Slot} {occupant : Occupant}
    (occupied : draft.pool.occupant? slot = some occupant) {second : Occupant}
    (occupied' : draft.pool.occupant? other = some second) (apart : other ≠ slot) :
    second.handle ≠ occupant.handle := by
  intro same
  apply apart
  have here : draft.Holds slot occupant.handle := by
    simp [Holds, occupied]
  have there : draft.Holds other occupant.handle := by
    simp [Holds, occupied', same]
  exact tidy.slot_unique there here

theorem born_le_clock (handle : Handle) : draft.timeline.born handle ≤ draft.text.clock := by
  unfold Timeline.born
  cases issued : draft.timeline.history? handle with
  | none => exact Nat.zero_le _
  | some history => exact (tidy.past issued).1

/-- At the present tick a handle is where it is now. -/
theorem placeAt_clock (handle : Handle) :
    draft.timeline.placeAt handle draft.text.clock = draft.timeline.current handle := by
  unfold Timeline.placeAt Timeline.current
  cases issued : draft.timeline.history? handle with
  | none => rfl
  | some history =>
      have past := (tidy.past issued).2
      simp only [Option.bind_some, History.placeAt, History.current]
      cases moves : history.moves with
      | nil => rfl
      | cons move earlier =>
          have before := past move (by simp [moves])
          simp [Nat.le_of_lt before]

theorem issue {slot : Slot} {claim : Claim} (produces : claim ≠ .used → slot = accumulator) :
    (draft.issue slot claim).Tidy := by
  constructor
  · intro other occupant occupied
    rw [occupant?_issue] at occupied
    unfold Timeline.current
    rw [history?_issue]
    split at occupied
    · rename_i same
      cases occupied
      simp [same, History.current]
    · have older := tidy.lt_count_of_occupied occupied
      rw [if_neg (Nat.ne_of_lt older)]
      exact tidy.placed occupied
  · intro other occupant occupied implicit
    rw [occupant?_issue] at occupied
    split at occupied
    · rename_i same
      cases occupied
      rw [same]
      exact produces (by simpa using implicit)
    · exact tidy.produced occupied implicit
  · intro occupant occupied
    rw [occupant?_issue] at occupied
    rw [history?_issue]
    split at occupied
    · rename_i same
      cases occupied
      rw [if_pos rfl, ← same]
      exact ⟨_, rfl⟩
    · have older := tidy.lt_count_of_occupied occupied
      rw [if_neg (Nat.ne_of_lt older)]
      exact tidy.native occupied
  · intro handle found issued
    rw [history?_issue] at issued
    split at issued
    · cases issued
      exact ⟨Nat.le_refl _, by simp⟩
    · exact tidy.past issued

theorem shift {slot free : Slot} {occupant : Occupant}
    (occupied : draft.pool.occupant? slot = some occupant) (saved : free ≠ accumulator) :
    (draft.shift slot free occupant).Tidy := by
  have holds : draft.Holds slot occupant.handle := by
    simp [Holds, occupied]
  obtain ⟨history, issued⟩ := tidy.issued_of_holds holds
  constructor
  · intro other second found
    rw [occupant?_shift] at found
    unfold Timeline.current
    rw [history?_shift]
    split at found
    · contradiction
    · rename_i apart
      split at found
      · rename_i same
        cases found
        simp [same, issued]
      · rw [if_neg (tidy.handle_ne occupied found apart)]
        exact tidy.placed found
  · intro other second found implicit
    rw [occupant?_shift] at found
    split at found
    · contradiction
    · split at found
      · cases found
        contradiction
      · exact tidy.produced found implicit
  · intro second found
    rw [occupant?_shift] at found
    split at found
    · contradiction
    · rename_i apart
      rw [if_neg saved.symm] at found
      rw [history?_shift, if_neg (tidy.handle_ne occupied found apart)]
      exact tidy.native found
  · intro handle found known
    change found.born ≤ draft.text.clock + 1 ∧ ∀ move ∈ found.moves, move.1 < draft.text.clock + 1
    rw [history?_shift] at known
    split at known
    · rw [issued] at known
      cases known
      have past := tidy.past issued
      refine ⟨by simpa using Nat.le_succ_of_le past.1, ?_⟩
      intro move membership
      rcases History.mem_moves_relocate membership with rfl | older
      · exact Nat.lt_succ_self _
      · exact Nat.lt_succ_of_lt (past.2 move older)
    · have past := tidy.past known
      exact ⟨Nat.le_succ_of_le past.1, fun move membership =>
        Nat.lt_succ_of_lt (past.2 move membership)⟩

theorem renamed {free : Slot} {occupant : Occupant}
    (occupied : draft.pool.occupant? accumulator = some occupant)
    (ordinary : occupant.implicit = false) :
    (draft.renamed free occupant).Tidy := by
  have holds : draft.Holds accumulator occupant.handle := by
    simp [Holds, occupied]
  obtain ⟨history, issued⟩ := tidy.issued_of_holds holds
  constructor
  · intro other second found
    rw [occupant?_renamed] at found
    unfold Timeline.current
    rw [history?_renamed]
    split at found
    · contradiction
    · rename_i apart
      split at found
      · rename_i same
        cases found
        simp [same, issued]
      · rw [if_neg (tidy.handle_ne occupied found apart)]
        exact tidy.placed found
  · intro other second found implicit
    rw [occupant?_renamed] at found
    split at found
    · contradiction
    · split at found
      · cases found
        simp [ordinary] at implicit
      · exact tidy.produced found implicit
  · intro second found
    simp [occupant?_renamed] at found
  · intro handle found known
    rw [history?_renamed] at known
    split at known
    · rw [issued] at known
      cases known
      exact ⟨(tidy.past issued).1, by simp [History.rebind]⟩
    · exact tidy.past known

theorem mark {slot : Slot} {occupant marked : Occupant}
    (occupied : draft.pool.occupant? slot = some occupant)
    (handle : marked.handle = occupant.handle) (implicit : marked.implicit = occupant.implicit) :
    (draft.refill slot (some marked)).Tidy := by
  constructor
  · intro other second found
    rw [occupant?_refill] at found
    split at found
    · rename_i same
      cases found
      rw [same, handle]
      exact tidy.placed occupied
    · exact tidy.placed found
  · intro other second found produced
    rw [occupant?_refill] at found
    split at found
    · rename_i same
      cases found
      rw [same]
      exact tidy.produced occupied (implicit ▸ produced)
    · exact tidy.produced found produced
  · intro second found
    rw [occupant?_refill] at found
    split at found
    · rename_i same
      cases found
      rw [handle]
      exact tidy.native (same ▸ occupied)
    · exact tidy.native found
  · exact tidy.past

theorem drop (slot : Slot) : (draft.refill slot none).Tidy := by
  have kept : ∀ {other second}, (draft.refill slot none).pool.occupant? other = some second →
      draft.pool.occupant? other = some second := by
    intro other second found
    rw [occupant?_refill] at found
    split at found
    · contradiction
    · exact found
  exact ⟨fun found => tidy.placed (kept found), fun found => tidy.produced (kept found),
    fun found => tidy.native (kept found), tidy.past⟩

theorem step {draft' : Draft} (step : Step draft draft') : draft'.Tidy := by
  cases step with
  | issue _ produces => exact tidy.issue produces
  | shift occupied _ _ saved => exact tidy.shift occupied saved
  | rename occupied ordinary _ _ _ => exact tidy.renamed occupied ordinary
  | mark occupied handle implicit _ => exact tidy.mark occupied handle implicit
  | drop slot => exact tidy.drop slot
  | trace message => exact ⟨tidy.placed, tidy.produced, tidy.native, tidy.past⟩

theorem steps {draft' : Draft} (steps : Steps draft draft') : draft'.Tidy := by
  induction steps with
  | refl => exact tidy
  | tail _ last inductionHypothesis => exact inductionHypothesis.step last

/-- Writing an instruction changes neither the pool nor the histories. -/
theorem emit (instr : Instr) : Tidy { draft with text := draft.text.emit instr } := by
  refine ⟨tidy.placed, tidy.produced, tidy.native, ?_⟩
  intro handle history issued
  have past := tidy.past issued
  exact ⟨Nat.le_succ_of_le past.1, fun move membership =>
    Nat.lt_succ_of_lt (past.2 move membership)⟩

end Tidy

theorem tidy_empty : Draft.empty.Tidy := by
  constructor
  · intro slot occupant occupied
    simp [Draft.empty] at occupied
  · intro slot occupant occupied
    simp [Draft.empty] at occupied
  · intro occupant occupied
    simp [Draft.empty] at occupied
  · intro handle history issued
    simp [Draft.empty, Timeline.empty, Timeline.history?] at issued

end Draft

end X64Backend
