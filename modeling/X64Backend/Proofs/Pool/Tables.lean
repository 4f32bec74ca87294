import Mathlib.Data.List.Nodup
import Mathlib.Tactic.Common
import X64Backend.Pool.Allocate
import X64Backend.Proofs.Code.Registers

/-!
The tables of a draft, read after a change: the slots of the pool, the histories of the handles and
the entries of the stream.
-/

namespace X64Backend

namespace Pool

theorem slotPhys_injective {first second : Slot} (same : slotPhys first = slotPhys second) :
    first = second := by
  revert first second
  decide

@[simp]
theorem slotPhys_inj {first second : Slot} : slotPhys first = slotPhys second ↔ first = second :=
  ⟨slotPhys_injective, fun equal => by rw [equal]⟩

@[simp]
theorem slotOfPhys?_slotPhys (slot : Slot) : slotOfPhys? (slotPhys slot) = some slot := by
  revert slot
  decide

theorem slotPhys_of_slotOfPhys? {phys : Phys} {slot : Slot} (found : slotOfPhys? phys = some slot) :
    slotPhys slot = phys := by
  have selected := List.find?_some found
  simpa using selected

theorem mem_savedSlots {slot : Slot} : slot ∈ savedSlots ↔ slot ≠ accumulator := by
  revert slot
  decide

theorem mem_allSlots (slot : Slot) : slot ∈ allSlots := by
  revert slot
  decide

@[simp]
theorem occupant?_put (pool : Pool) (slot other : Slot) (contents : Option Occupant) :
    (pool.put slot contents).occupant? other =
      if other = slot then contents else pool.occupant? other := by
  change (pool.slots.set slot contents)[other.val] = _
  by_cases same : other = slot
  · simp [same]
  · have different : slot.val ≠ other.val := fun equal => same (Fin.ext equal.symm)
    rw [Vector.getElem_set_ne _ _ different]
    simp [same]
    rfl

@[simp]
theorem occupant?_touch (pool : Pool) (slot other : Slot) :
    (pool.touch slot).occupant? other = pool.occupant? other := by
  unfold touch
  split <;> rfl

@[simp]
theorem occupant?_adjust (pool : Pool) (slot other : Slot) (change : Occupant → Occupant) :
    (pool.adjust slot change).occupant? other =
      if other = slot then (pool.occupant? slot).map change else pool.occupant? other := by
  simp [adjust]

@[simp]
theorem occupant?_empty (slot : Slot) : empty.occupant? slot = none := by
  revert slot
  decide

@[simp]
theorem isOccupied_eq_false {pool : Pool} {slot : Slot} :
    pool.isOccupied slot = false ↔ pool.occupant? slot = none := by
  simp [isOccupied]

/-- Where a saved slot is looked for, the one found is the first that passes. -/
theorem saved_of_find? {test : Slot → Bool} {slot : Slot} (found : savedSlots.find? test = some slot) :
    slot ≠ accumulator ∧ test slot = true :=
  ⟨mem_savedSlots.mp (List.mem_of_find?_eq_some found), List.find?_some found⟩

/-- A slot that the procedure may use: the accumulator, or one whose register is going to be
saved. -/
def Covers (pool : Pool) (slot : Slot) : Prop :=
  slot = accumulator ∨ pool.saved.get slot = true

section Covers

variable {pool : Pool} {slot other : Slot}

theorem saved_touch (saved : other ≠ accumulator) :
    (pool.touch other).saved.get slot = if slot = other then true else pool.saved.get slot := by
  have marked : (pool.touch other).saved = pool.saved.set other true := by
    unfold touch
    rw [if_neg saved]
  rw [marked]
  change (pool.saved.set other true)[slot.val] = _
  by_cases same : slot = other
  · simp [same]
  · have different : other.val ≠ slot.val := fun equal => same (Fin.ext equal.symm)
    rw [Vector.getElem_set_ne _ _ different, if_neg same]
    rfl

theorem covers_touch_self (pool : Pool) (slot : Slot) : (pool.touch slot).Covers slot := by
  by_cases same : slot = accumulator
  · exact .inl same
  · exact .inr ((saved_touch same).trans (if_pos rfl))

theorem Covers.touch (covers : pool.Covers slot) (other : Slot) : (pool.touch other).Covers slot := by
  by_cases unsaved : other = accumulator
  · unfold Pool.touch
    rw [if_pos unsaved]
    exact covers
  · rcases covers with same | marked
    · exact .inl same
    · refine .inr ((saved_touch unsaved).trans ?_)
      rw [marked, ite_self]

theorem mem_usedSaved (saved : slot ≠ accumulator) (covers : pool.Covers slot) :
    slotPhys slot ∈ pool.usedSaved := by
  refine List.mem_map.mpr ⟨slot, List.mem_filter.mpr ⟨mem_savedSlots.mpr saved, ?_⟩, rfl⟩
  exact covers.resolve_left saved

theorem nodup_usedSaved (pool : Pool) : pool.usedSaved.Nodup := by
  refine List.Nodup.map ?_ (List.Nodup.filter _ (by decide))
  exact fun _ _ same => slotPhys_injective same

end Covers

end Pool

namespace History

@[simp]
theorem current_rebind (history : History) (phys : Option Phys) :
    (history.rebind phys).current = phys := rfl

@[simp]
theorem placeAt_rebind (history : History) (phys : Option Phys) (tick : Nat) :
    (history.rebind phys).placeAt tick = phys := rfl

@[simp]
theorem current_relocate (history : History) (phys : Option Phys) (now : Nat) :
    (history.relocate phys now).current = phys := by
  unfold relocate
  split
  · split <;> rename_i unmoved _ <;> simp [current, unmoved]
  · split <;> simp [current]

@[simp]
theorem born_relocate (history : History) (phys : Option Phys) (now : Nat) :
    (history.relocate phys now).born = history.born := by
  unfold relocate
  split <;> split <;> rfl

@[simp]
theorem born_rebind (history : History) (phys : Option Phys) :
    (history.rebind phys).born = history.born := rfl

theorem mem_moves_relocate {history : History} {phys : Option Phys} {now : Nat}
    {move : Nat × Option Phys} (membership : move ∈ (history.relocate phys now).moves) :
    move = (now, phys) ∨ move ∈ history.moves := by
  unfold relocate at membership
  split at membership
  · split at membership
    · exact .inr membership
    · exact .inl (by simpa using membership)
  · rename_i tick old earlier moved
    rw [moved]
    split at membership
    · rcases List.mem_cons.mp membership with same | older
      · exact .inl same
      · exact .inr (List.mem_cons_of_mem _ older)
    · simpa using membership

/-- From the tick of a move on, the handle is where it was moved to. -/
theorem placeAt_relocate_now (history : History) (phys : Option Phys) (now : Nat) :
    (history.relocate phys now).placeAt now = phys := by
  unfold relocate
  split
  · rename_i none
    split
    · simp [placeAt, none]
    · simp [placeAt]
  · split <;> simp [placeAt]

/-- A move does not change the past of a handle that already had one. -/
theorem placeAt_relocate_of_lt (history : History) (phys : Option Phys) {now tick : Nat}
    (born : history.born < now) (earlier : tick < now) :
    (history.relocate phys now).placeAt tick = history.placeAt tick := by
  unfold relocate
  split
  · rename_i none
    have different : history.born ≠ now := by omega
    simp [placeAt, none, different, Nat.not_le.mpr earlier]
  · rename_i move old rest some
    split
    · rename_i same
      subst same
      simp [placeAt, some, Nat.not_le.mpr earlier]
    · simp [placeAt, some, Nat.not_le.mpr earlier]

end History

namespace Timeline

@[simp]
theorem bind_fst (timeline : Timeline) (phys : Option Phys) (now : Nat) :
    (timeline.bind phys now).1 = timeline.count := rfl

theorem history?_bind (timeline : Timeline) (phys : Option Phys) (now handle : Nat) :
    (timeline.bind phys now).2.history? handle =
      if handle = timeline.count then some ⟨now, phys, []⟩ else timeline.history? handle := by
  unfold history? bind count
  by_cases zero : handle = 0
  · simp [zero]
  · by_cases newest : handle = timeline.histories.size + 1
    · simp [newest]
    · have position : handle - 1 ≠ timeline.histories.size := by omega
      simp [zero, newest, Array.getElem?_push, position]

theorem history?_update (timeline : Timeline) (handle other : Nat) (change : History → History) :
    (timeline.update handle change).history? other =
      if other = handle then (timeline.history? handle).map change
      else timeline.history? other := by
  unfold history? update
  by_cases zero : handle = 0
  · subst zero
    by_cases same : other = 0 <;> simp [same]
  · by_cases same : other = handle
    · simp [zero, same, Array.getElem?_modify]
    · by_cases none : other = 0
      · simp [none, Ne.symm zero]
      · have position : ¬ handle - 1 = other - 1 := by omega
        simp [zero, none, same, Array.getElem?_modify, position]

theorem lt_count_of_history? {timeline : Timeline} {handle : Nat} {history : History}
    (issued : timeline.history? handle = some history) : handle < timeline.count := by
  unfold history? at issued
  split at issued
  · contradiction
  · have bound := (Array.getElem?_eq_some_iff.mp issued).1
    unfold count
    omega

@[simp]
theorem count_bind (timeline : Timeline) (phys : Option Phys) (now : Nat) :
    (timeline.bind phys now).2.count = timeline.count + 1 := by
  simp [bind, count]

@[simp]
theorem count_update (timeline : Timeline) (handle : Handle) (change : History → History) :
    (timeline.update handle change).count = timeline.count := by
  unfold update count
  split <;> simp

end Timeline

namespace Stream

@[simp]
theorem entries_emit (stream : Stream) (instr : Instr) :
    (stream.emit instr).entries.toList = stream.entries.toList ++ [⟨stream.clock, instr⟩] := by
  simp [emit]

@[simp]
theorem clock_emit (stream : Stream) (instr : Instr) :
    (stream.emit instr).clock = stream.clock + 1 := rfl

/-- The search for a register ends at the first entry that is too old.  Where ticks never go back,
nothing is missed. -/
theorem not_named_of_namedSince {timeline : Timeline} {phys : Option Phys} {since : Nat}
    {newestFirst : List Entry} (ordered : newestFirst.Pairwise fun newer older => older.tick ≤ newer.tick)
    (unnamed : namedSince timeline phys since newestFirst = false) :
    ∀ entry ∈ newestFirst, since ≤ entry.tick → entryNames timeline phys entry = false := by
  induction newestFirst with
  | nil => simp
  | cons newest older inductionHypothesis =>
      rw [List.pairwise_cons] at ordered
      intro entry membership recent
      by_cases reached : since ≤ newest.tick
      · simp only [namedSince, reached, decide_true, Bool.true_and, Bool.or_eq_false_iff] at unnamed
        rcases List.mem_cons.mp membership with rfl | older
        · exact unnamed.1
        · exact inductionHypothesis ordered.2 unnamed.2 entry older recent
      · rcases List.mem_cons.mp membership with rfl | older
        · exact absurd recent reached
        · exact absurd (Nat.le_trans recent (ordered.1 entry older)) reached

theorem not_resolved_of_entryNames {timeline : Timeline} {phys : Option Phys} {entry : Entry}
    (unnamed : entryNames timeline phys entry = false) :
    ∀ register ∈ entry.instr.registers, timeline.resolve register entry.tick ≠ phys := by
  intro register named resolved
  obtain ⟨operand, membership, base⟩ := List.mem_filterMap.mp named
  have clear := List.any_eq_false.mp unnamed operand membership
  simp [base, resolved] at clear

/-- A register that a stream does not name since a tick is in none of the entries since then. -/
theorem not_named_of_references {stream : Stream} {timeline : Timeline} {phys : Option Phys}
    {since : Nat}
    (ordered : stream.entries.toList.Pairwise fun older newer => older.tick ≤ newer.tick)
    (unnamed : stream.references timeline phys since = false) :
    ∀ entry ∈ stream.entries.toList, since ≤ entry.tick →
      entryNames timeline phys entry = false := by
  intro entry membership recent
  have reversed : stream.entries.toListRev.Pairwise fun newer older => older.tick ≤ newer.tick := by
    simpa [List.pairwise_reverse] using ordered
  exact not_named_of_namedSince reversed unnamed entry (by simpa using membership) recent

end Stream

end X64Backend
