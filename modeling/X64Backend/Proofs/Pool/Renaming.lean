import X64Backend.Proofs.Pool.Record

/-!
Renaming reaches back over code that is already written, and the record of the code follows.

The value of the accumulator has been there since it was born.  From then on no instruction names
the register it is renamed to, so whatever the table has in that slot since then is struck off and
the value takes its place.
-/

namespace X64Backend

open Pool

namespace Draft

/-- The table after the value of the accumulator has been taken to another slot since its birth, and
a new period has begun. -/
def renamedTable (draft : Draft) (naming : Naming) (table : Table) (free : Slot)
    (occupant : Occupant) : Table := fun tick slot =>
  if tick < draft.timeline.born occupant.handle then table tick slot
  else if slot = free then table tick accumulator
  else if slot = accumulator then
    if tick < draft.text.clock then none else some (.raw (naming.period + 1))
  else table tick slot

/-- What is in the new table was in the old one, but for the register of the new period. -/
theorem origin_of_renamedTable {draft : Draft} {naming : Naming} {table : Table} {free : Slot}
    {occupant : Occupant} {tick : Nat} {slot : Slot} {cell : Cell}
    (holds : draft.renamedTable naming table free occupant tick slot = some cell) :
    (∃ other, table tick other = some cell) ∨
      slot = accumulator ∧ draft.text.clock ≤ tick ∧ cell = .raw (naming.period + 1) := by
  unfold renamedTable at holds
  split at holds
  · exact .inl ⟨slot, holds⟩
  · split at holds
    · exact .inl ⟨accumulator, holds⟩
    · split at holds
      · rename_i first
        split at holds
        · contradiction
        · rename_i reached
          exact .inr ⟨first, Nat.not_lt.mp reached, (Option.some.inj holds).symm⟩
      · exact .inl ⟨slot, holds⟩

theorem fresh_renamedTable {draft : Draft} {naming : Naming} {table : Table} {free : Slot}
    {occupant : Occupant} {tick : Nat} {cell : Cell} (reached : tick ≤ draft.text.clock)
    (fresh : table.Fresh tick cell) :
    (draft.renamedTable naming table free occupant).Fresh tick cell := by
  intro earlier before slot holds
  rcases origin_of_renamedTable holds with ⟨other, old⟩ | ⟨_, late, _⟩
  · exact fresh earlier before other old
  · omega

/-- What is known when the value of the accumulator is renamed. -/
structure Renamable (draft : Draft) (naming : Naming) (table : Table) (events : List (Option Nat))
    (free : Slot) (occupant : Occupant) : Prop extends Recorded draft naming table events where
  occupied : draft.pool.occupant? accumulator = some occupant
  ordinary : occupant.implicit = false
  empty : draft.pool.occupant? free = none
  saved : free ≠ accumulator
  unnamed : draft.text.references draft.timeline (some (slotPhys free))
    (draft.timeline.born occupant.handle) = false

namespace Renamable

variable {draft : Draft} {naming : Naming} {table : Table} {events : List (Option Nat)}
  {free : Slot} {occupant : Occupant}
  (renamable : draft.Renamable naming table events free occupant)
include renamable

theorem cell_eq : naming.cell occupant.handle = .own occupant.handle := by
  have standing := renamable.standing renamable.occupied
  simpa [renamable.ordinary] using standing

/-- The value has been in the accumulator since it was born. -/
theorem stayed {tick : Nat} (born : draft.timeline.born occupant.handle ≤ tick)
    (reached : tick ≤ draft.text.clock) :
    table tick accumulator = some (.own occupant.handle) :=
  renamable.resident renamable.occupied renamable.ordinary born reached

theorem born_pos : 0 < draft.timeline.born occupant.handle := by
  rcases Nat.eq_zero_or_pos (draft.timeline.born occupant.handle) with zero | positive
  · have stayed : table 0 accumulator = _ := renamable.stayed (Nat.le_of_eq zero) (Nat.zero_le _)
    rw [renamable.blank] at stayed
    contradiction
  · exact positive

/-- Since the birth of the value, no entry names the register that it is renamed to. -/
theorem not_resolved {entry : Entry} (written : entry ∈ draft.text.entries.toList)
    (born : draft.timeline.born occupant.handle ≤ entry.tick) :
    ∀ register ∈ entry.instr.registers,
      draft.timeline.resolve register entry.tick ≠ some (slotPhys free) := by
  have ordered : draft.text.entries.toList.Pairwise fun older newer => older.tick ≤ newer.tick := by
    rw [List.pairwise_iff_getElem]
    intro first second inside inside' before
    have stamp := renamable.stamped (List.getElem?_eq_getElem inside)
    have stamp' := renamable.stamped (List.getElem?_eq_getElem inside')
    omega
  exact Stream.not_resolved_of_entryNames
    (Stream.not_named_of_references ordered renamable.unnamed entry written born)

theorem carried {tick : Nat} {source : Slot → Slot} (reached : tick ≤ draft.text.clock)
    (carried : table.Carried tick source)
    (still : draft.timeline.born occupant.handle ≤ tick → source free = free)
    (elsewhere : draft.timeline.born occupant.handle ≤ tick → ∀ slot, slot ≠ free →
      source slot ≠ free) :
    (draft.renamedTable naming table free occupant).Carried tick source := by
  intro slot cell holds
  by_cases early : tick < draft.timeline.born occupant.handle
  · have same : ∀ {earlier}, earlier ≤ tick →
        draft.renamedTable naming table free occupant earlier = table earlier := by
      intro earlier before
      funext other
      simp [renamedTable, Nat.lt_of_le_of_lt before early]
    rw [same (Nat.le_refl _)] at holds
    rw [same (Nat.sub_le _ _)]
    exact (carried slot cell holds).imp_left (fresh_renamedTable reached)
  · have born := Nat.not_lt.mp early
    have here := renamable.stayed born reached
    by_cases into : slot = free
    · -- The value itself: it was in this slot before, unless it is born with this entry.
      subst into
      have value : cell = .own occupant.handle := by
        simp only [renamedTable, early, if_false, if_true, here] at holds
        exact (Option.some.inj holds).symm
      subst value
      by_cases newborn : tick - 1 < draft.timeline.born occupant.handle
      · left
        intro earlier before other found
        rcases origin_of_renamedTable found with ⟨old, at_old⟩ | ⟨_, _, raw⟩
        · have known := renamable.known (by omega) at_old
          have alive : draft.timeline.born occupant.handle ≤ earlier := known.2
          omega
        · cases raw
      · right
        rw [still born]
        have before := renamable.stayed (Nat.not_lt.mp newborn) (by omega)
        simp [renamedTable, newborn, before]
    · by_cases first : slot = accumulator
      · -- Only the register of the new period is in the accumulator, and only now.
        left
        simp only [renamedTable, early, if_false, into] at holds
        rw [if_pos first] at holds
        split at holds
        · contradiction
        · cases holds
          intro earlier before other found
          rcases origin_of_renamedTable found with ⟨old, at_old⟩ | ⟨_, late, _⟩
          · have known : naming.period + 1 ≤ naming.period := renamable.known (by omega) at_old
            omega
          · omega
      · have old : table tick slot = some cell := by
          simpa [renamedTable, early, into, first] using holds
        rcases carried slot cell old with unseen | before
        · exact .inl (fresh_renamedTable reached unseen)
        · right
          by_cases newborn : tick - 1 < draft.timeline.born occupant.handle
          · simpa [renamedTable, newborn] using before
          · have apart : source slot ≠ accumulator := by
              intro same
              have stayed := renamable.stayed (Nat.not_lt.mp newborn) (by omega)
              rw [same, stayed] at before
              cases before
              exact first (renamable.apart reached old here)
            simpa [renamedTable, newborn, elsewhere born slot into, apart] using before

theorem apart_renamed {tick : Nat} {slot other : Slot} {cell : Cell}
    (reached : tick ≤ draft.text.clock)
    (first : draft.renamedTable naming table free occupant tick slot = some cell)
    (second : draft.renamedTable naming table free occupant tick other = some cell) :
    slot = other := by
  by_cases early : tick < draft.timeline.born occupant.handle
  · simp only [renamedTable, early, if_true] at first second
    exact renamable.apart reached first second
  · -- Away from the accumulator, the new table is the old one read at another slot.
    have elsewhere : ∀ {slot}, slot ≠ accumulator →
        draft.renamedTable naming table free occupant tick slot = some cell →
        table tick (if slot = free then accumulator else slot) = some cell := by
      intro slot apart holds
      by_cases into : slot = free
      · simpa [renamedTable, early, into] using holds
      · simpa [renamedTable, early, into, apart] using holds
    have unseen : ∀ {slot}, slot ≠ accumulator →
        draft.renamedTable naming table free occupant tick slot = some cell →
        draft.renamedTable naming table free occupant tick accumulator ≠ some cell := by
      intro slot apart holds at_first
      simp only [renamedTable, early, if_false, renamable.saved.symm] at at_first
      simp only [if_true] at at_first
      split at at_first
      · contradiction
      · cases at_first
        have known : naming.period + 1 ≤ naming.period :=
          renamable.known reached (elsewhere apart holds)
        omega
    by_cases home : slot = accumulator <;> by_cases home' : other = accumulator
    · rw [home, home']
    · rw [home] at first
      exact absurd first (unseen home' second)
    · rw [home'] at second
      exact absurd second (unseen home first)
    · have sources := renamable.apart reached (elsewhere home first) (elsewhere home' second)
      split at sources <;> split at sources
      · rename_i same same'
        rw [same, same']
      · exact absurd sources.symm home'
      · exact absurd sources home
      · exact sources

theorem found {entry : Entry} (written : entry ∈ draft.text.entries.toList)
    {handle : Handle} (names : entry.instr.Names handle) {slot : Slot}
    (found : draft.timeline.Found naming table entry.tick handle slot)
    (reached : entry.tick ≤ draft.text.clock) :
    ∃ slot', (draft.renamed free occupant).timeline.Found ⟨naming.cell, naming.period + 1⟩
      (draft.renamedTable naming table free occupant) entry.tick handle slot' ∧
      (handle ≠ occupant.handle → slot' = slot) := by
  obtain ⟨issued, born, place, holds⟩ := found
  by_cases same : handle = occupant.handle
  · subst same
    refine ⟨free, ⟨?_, ?_, ?_, ?_⟩, fun different => absurd rfl different⟩
    · rwa [count_renamed]
    · rwa [born_renamed]
    · have holds' : draft.Holds accumulator occupant.handle := by
        simp [Holds, renamable.occupied]
      obtain ⟨history, known⟩ := renamable.issued_of_holds holds'
      simp [Timeline.placeAt, history?_renamed, known]
    · simp [renamedTable, Nat.not_lt.mpr born, renamable.stayed born reached, renamable.cell_eq]
  · refine ⟨slot, ⟨?_, ?_, ?_, ?_⟩, fun _ => rfl⟩
    · rwa [count_renamed]
    · rwa [born_renamed]
    · rwa [placeAt_renamed_of_ne draft free occupant same]
    · by_cases early : entry.tick < draft.timeline.born occupant.handle
      · simpa [renamedTable, early] using holds
      · have into : slot ≠ free := by
          intro into
          obtain ⟨register, membership, at_handle⟩ := names
          refine renamable.not_resolved written (Nat.not_lt.mp early) register membership ?_
          rw [Timeline.resolve, at_handle, ← into]
          exact place
        have apart : slot ≠ accumulator := by
          intro first
          rw [first, renamable.stayed (Nat.not_lt.mp early) reached] at holds
          rcases renamable.faithful handle with own | ⟨_, _, _, raw⟩
          · rw [own] at holds
            exact same (Cell.own.inj (Option.some.inj holds)).symm
          · rw [raw] at holds
            cases holds
        simpa [renamedTable, early, into, apart] using holds

theorem accounted_renamed {entry : Entry} {event : Option Nat}
    (written : (entry, event) ∈ draft.text.entries.toList.zip events) :
    (draft.renamed free occupant).timeline.Accounted ⟨naming.cell, naming.period + 1⟩
      (draft.renamedTable naming table free occupant) entry event := by
  have inside := (List.of_mem_zip written).1
  have reached := Nat.le_of_lt (renamable.tick_lt written)
  cases renamable.accounted written with
  | appended straight named fixed uses carried =>
      refine .appended straight ?_ fixed ?_ (renamable.carried reached carried ?_ ?_)
      · intro handle names
        obtain ⟨slot, found⟩ := named handle names
        obtain ⟨slot', found', _⟩ := renamable.found inside names found reached
        exact ⟨slot', found'⟩
      · intro used
        have raw := uses used
        by_cases early : entry.tick < draft.timeline.born occupant.handle
        · simpa [renamedTable, early] using raw
        · rw [renamable.stayed (Nat.not_lt.mp early) reached] at raw
          cases raw
      · intro _
        rfl
      · intro _ slot apart
        exact apart
  | @moved handle start into instr found saved carried =>
      have names : entry.instr.Names handle := by
        rw [instr]
        exact ⟨⟨.slot handle, .s64⟩, by simp [moveOut, Instr.registers, Instr.operands,
          Operand.base?], rfl⟩
      have other : handle ≠ occupant.handle := by
        intro same
        obtain ⟨_, born, _, holds⟩ := found
        rw [same] at born holds
        rw [renamable.cell_eq] at holds
        exact saved (renamable.apart reached holds (renamable.stayed born reached))
      obtain ⟨slot', found', same⟩ := renamable.found inside names found reached
      rw [same other] at found'
      -- Neither end of the move is the slot that the value is renamed to.
      have clear : draft.timeline.born occupant.handle ≤ entry.tick →
          into ≠ free ∧ start ≠ free := by
        intro born
        have unresolved := renamable.not_resolved inside born
        rw [instr] at unresolved
        constructor
        · intro same
          refine unresolved ⟨.slot handle, .s64⟩ (by simp [moveOut, Instr.registers,
            Instr.operands, Operand.base?]) ?_
          rw [← same]
          exact found.2.2.1
        · intro same
          refine unresolved (.fix (slotPhys start) .s64) (by simp [moveOut, Instr.registers,
            Instr.operands, Operand.base?]) ?_
          rw [← same]
          rfl
      refine .moved instr found' saved (renamable.carried reached carried ?_ ?_)
      · intro born
        exact if_neg (clear born).1.symm
      · intro born slot apart
        unfold Timeline.source
        split
        · exact (clear born).2
        · exact apart

/-- After renaming, the new table accounts for the code. -/
theorem recorded : (draft.renamed free occupant).Recorded ⟨naming.cell, naming.period + 1⟩
    (draft.renamedTable naming table free occupant) events := by
  have born_le := renamable.born_le_clock occupant.handle
  refine { renamable.toTidy.renamed renamable.occupied renamable.ordinary with
    faithful := ?_, standing := ?_, injective := renamable.injective, held := ?_,
    stamped := renamable.stamped, clock_eq := renamable.clock_eq, aligned := renamable.aligned, present := ?_, blank := ?_, apart := ?_, known := ?_,
    resident := ?_, arrives := ?_, accounted := ?_ }
  · intro handle
    rw [count_renamed]
    rcases renamable.faithful handle with own | ⟨issued, old, bound, raw⟩
    · exact .inl own
    · exact .inr ⟨issued, old, Nat.le_succ_of_le bound, raw⟩
  · intro second found
    simp [occupant?_renamed] at found
  · intro handle raw
    exact absurd raw (renamable.cell_ne_raw (Nat.lt_succ_self _) handle)
  · funext slot
    change draft.renamedTable naming table free occupant draft.text.clock slot = _
    have present := congrFun renamable.present
    by_cases into : slot = free
    · subst into
      simp [renamedTable, Nat.not_lt.mpr born_le, present, Draft.contents, renamable.occupied,
        occupant?_renamed, renamable.saved]
    · by_cases first : slot = accumulator
      · subst first
        simp [renamedTable, Nat.not_lt.mpr born_le, Draft.contents, occupant?_renamed, into]
      · simp [renamedTable, Nat.not_lt.mpr born_le, present, Draft.contents, occupant?_renamed,
          into, first]
  · intro slot
    simp [renamedTable, renamable.born_pos, renamable.blank]
  · intro tick slot other cell reached first second
    exact renamable.apart_renamed reached first second
  · intro tick slot cell reached holds
    rcases origin_of_renamedTable holds with ⟨old, at_old⟩ | ⟨_, _, rfl⟩
    · have known := renamable.known reached at_old
      cases cell with
      | own handle =>
          refine ⟨?_, ?_⟩
          · rw [count_renamed]
            exact known.1
          · rw [born_renamed]
            exact known.2
      | raw period => exact Nat.le_succ_of_le known
    · exact Nat.le_refl (naming.period + 1)
  · intro second found
    simp [occupant?_renamed] at found
  · exact renamable.carried (Nat.le_refl _) renamable.arrives (fun _ => rfl) fun _ _ apart => apart
  · intro entry event written
    exact renamable.accounted_renamed written

end Renamable

end Draft

end X64Backend
