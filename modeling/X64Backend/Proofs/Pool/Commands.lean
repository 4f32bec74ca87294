import X64Backend.Proofs.Pool.Renaming

/-!
Every operation of the allocator leaves a record of the code, and so does every instruction that a
session writes.
-/

namespace X64Backend

open Pool

namespace Naming

/-- Where the accumulator keeps its value, the names stay. -/
theorem next_eq_self {naming : Naming} {before after : Draft}
    (standing : ∀ occupant, before.pool.occupant? accumulator = some occupant →
      occupant.implicit = true → naming.cell occupant.handle = .raw naming.period)
    (same : (after.pool.occupant? accumulator).map (fun occupant =>
        (occupant.handle, occupant.implicit)) =
      (before.pool.occupant? accumulator).map fun occupant =>
        (occupant.handle, occupant.implicit)) :
    naming.next before after = naming := by
  cases occupied : before.pool.occupant? accumulator with
  | none =>
      rw [occupied, Option.map_none, Option.map_eq_none_iff] at same
      simp [next, turn, occupied, same]
  | some occupant =>
      rw [occupied, Option.map_some, Option.map_eq_some_iff] at same
      obtain ⟨marked, found, equal⟩ := same
      simp only [Prod.mk.injEq] at equal
      unfold next turn
      simp only [occupied, found, Option.map_some, equal, if_true]
      split
      · rename_i implicit
        rw [← standing occupant occupied implicit, Function.update_eq_self]
      · rfl

/-- When a value leaves the accumulator, a new period begins. -/
theorem next_of_left {naming : Naming} {before after : Draft} {occupant : Occupant}
    (occupied : before.pool.occupant? accumulator = some occupant)
    (empty : after.pool.occupant? accumulator = none) :
    naming.next before after = ⟨naming.cell, naming.period + 1⟩ := by
  simp [next, turn, occupied, empty]

/-- A fresh handle with a register of its own changes no other name. -/
theorem next_issue {naming : Naming} {before after : Draft} {slot : Slot}
    (empty : after.pool.occupant? slot = none)
    (older : ∀ occupant, before.pool.occupant? accumulator = some occupant →
      occupant.handle < after.timeline.count) :
    naming.next before (after.issue slot .used) = naming.next before after := by
  by_cases first : slot = accumulator
  · subst first
    cases occupied : before.pool.occupant? accumulator with
    | none => simp [next, turn, occupied, empty, Draft.occupant?_issue]
    | some occupant =>
        have newer := Nat.ne_of_gt (older occupant occupied)
        rw [next_of_left occupied empty]
        simp [next, turn, occupied, newer, Draft.occupant?_issue]
  · have same : (after.issue slot .used).pool.occupant? accumulator =
        after.pool.occupant? accumulator := by
      rw [Draft.occupant?_issue, if_neg (Ne.symm first)]
    rw [next, same]
    rfl

end Naming

namespace Draft.Recorded

variable {draft : Draft} {naming : Naming} {table : Table} {events : List (Option Nat)}
  (recorded : draft.Recorded naming table events)
include recorded

theorem standing_raw (occupant : Occupant)
    (occupied : draft.pool.occupant? accumulator = some occupant)
    (implicit : occupant.implicit = true) :
    naming.cell occupant.handle = .raw naming.period := by
  simpa [implicit] using recorded.standing occupied

theorem traced (message : String) : (draft.traced message).Recorded naming table events :=
  { recorded with }

theorem issued {slot : Slot} (empty : draft.pool.occupant? slot = none) :
    ∃ table', (draft.issue slot .used).Recorded naming table' events := by
  have fresh : naming.cell draft.timeline.count = .own draft.timeline.count := by
    rcases recorded.faithful draft.timeline.count with own | ⟨issued, _⟩
    · exact own
    · exact absurd issued (Nat.lt_irrefl _)
  have change : Change draft naming (draft.issue slot .used) _ id :=
    Change.of_issue recorded empty (by simp) rfl
  rw [if_pos rfl, ← fresh, Naming.issued, Function.update_eq_self] at change
  exact ⟨_, recorded.quiet change rfl⟩

theorem produced_by_call (size : Size) (empty : draft.pool.occupant? accumulator = none) :
    ∃ table', (draft.issue accumulator (.needed size)).Recorded
      ⟨Function.update naming.cell draft.timeline.count (.raw naming.period), naming.period⟩
      table' events := by
  have change : Change draft naming (draft.issue accumulator (.needed size)) _ id :=
    Change.of_issue recorded empty (by simp) rfl
  exact ⟨_, recorded.quiet change rfl⟩

theorem marked {slot : Slot} {occupant marked : Occupant}
    (occupied : draft.pool.occupant? slot = some occupant)
    (handle : marked.handle = occupant.handle) (implicit : marked.implicit = occupant.implicit) :
    ∃ table', (draft.refill slot (some marked)).Recorded naming table' events := by
  have before : ∀ {other second}, (draft.refill slot (some marked)).pool.occupant? other =
      some second → ∃ first, draft.pool.occupant? other = some first ∧
        first.handle = second.handle ∧ first.implicit = second.implicit := by
    intro other second found
    rw [occupant?_refill] at found
    split at found
    · rename_i same
      cases found
      exact ⟨occupant, same ▸ occupied, handle.symm, implicit.symm⟩
    · exact ⟨second, found, rfl, rfl⟩
  have change : Change draft naming (draft.refill slot (some marked))
      ⟨naming.cell, naming.period⟩ id := by
    refine Change.of_pool recorded (recorded.mark occupied handle implicit) rfl (Nat.le_refl _)
      ?_ ?_ before ?_
    · intro second found
      obtain ⟨first, found', same, same'⟩ := before found
      rw [← same, ← same']
      exact recorded.standing found'
    · intro other cell holds
      left
      unfold Draft.contents at holds ⊢
      rw [occupant?_refill] at holds
      split at holds
      · rename_i second found
        split at found
        · rename_i same
          cases found
          rw [same, occupied]
          rwa [handle] at holds
        · rwa [found]
      · rename_i found
        split at found
        · contradiction
        · rwa [found]
    · intro _ second holds
      unfold Holds at holds ⊢
      rw [occupant?_refill]
      split
      · rename_i same
        rw [same, occupied] at holds
        simpa [handle] using holds
      · exact holds
  exact ⟨_, recorded.quiet change rfl⟩

/-- Giving up a slot other than an occupied accumulator. -/
theorem dropped {slot : Slot} (kept : slot = accumulator → draft.pool.occupant? slot = none) :
    ∃ table', (draft.refill slot none).Recorded naming table' events := by
  have before : ∀ {other second}, (draft.refill slot none).pool.occupant? other = some second →
      draft.pool.occupant? other = some second := by
    intro other second found
    rw [occupant?_refill] at found
    split at found
    · contradiction
    · exact found
  have change : Change draft naming (draft.refill slot none) ⟨naming.cell, naming.period⟩ id := by
    refine Change.of_pool recorded (recorded.drop slot) rfl (Nat.le_refl _) ?_ ?_ ?_ ?_
    · intro second found
      exact recorded.standing (before found)
    · intro other cell holds
      left
      unfold Draft.contents at holds ⊢
      rw [occupant?_refill] at holds
      by_cases same : other = slot
      · simp only [same, if_true] at holds
        split at holds
        · rename_i first
          rw [same, kept first]
          simpa [first] using holds
        · contradiction
      · simpa only [same, if_false] using holds
    · intro second found
      exact ⟨second, before found, rfl, rfl⟩
    · intro _ second holds
      unfold Holds at holds ⊢
      rw [occupant?_refill]
      split
      · rename_i same
        rw [same, kept same.symm] at holds
        contradiction
      · exact holds
  exact ⟨_, recorded.quiet change rfl⟩

/-- Giving up the value of the accumulator begins a new period. -/
theorem dropped_accumulator :
    ∃ table', (draft.refill accumulator none).Recorded ⟨naming.cell, naming.period + 1⟩ table'
      events := by
  have change : Change draft naming (draft.refill accumulator none)
      ⟨naming.cell, naming.period + 1⟩ id := by
    refine Change.of_pool recorded (recorded.drop accumulator) rfl (Nat.le_succ _) ?_ ?_ ?_ ?_
    · intro second found
      simp [occupant?_refill] at found
    · intro other cell holds
      unfold Draft.contents at holds ⊢
      rw [occupant?_refill] at holds
      by_cases same : other = accumulator
      · simp only [same, if_true, Option.some.injEq] at holds
        exact .inr ⟨same, holds.symm, Nat.lt_succ_self _⟩
      · left
        simpa only [same, if_false] using holds
    · intro second found
      simp [occupant?_refill] at found
    · intro same
      omega
  exact ⟨_, recorded.quiet change rfl⟩

theorem shifted {slot free : Slot} {occupant : Occupant}
    (occupied : draft.pool.occupant? slot = some occupant) (apart : free ≠ slot)
    (saved : free ≠ accumulator) :
    ∃ table', (draft.shift slot free occupant).Recorded
      ⟨naming.cell, if slot = accumulator then naming.period + 1 else naming.period⟩ table'
      (events ++ [none]) := by
  have change := Change.of_shift recorded occupied apart saved rfl
  refine ⟨_, recorded.written change rfl ?_⟩
  suffices found : (draft.shift slot free occupant).timeline.Found _ _ draft.text.clock
      occupant.handle free from .moved rfl found saved (change.carried recorded)
  refine ⟨?_, ?_, ?_, ?_⟩
  · rw [count_shift]
    exact recorded.lt_count_of_occupied occupied
  · rw [born_shift]
    exact recorded.born_le_clock _
  · have holds : draft.Holds slot occupant.handle := by
      simp [Holds, occupied]
    obtain ⟨history, known⟩ := recorded.issued_of_holds holds
    simp [Timeline.placeAt, history?_shift, known, History.placeAt_relocate_now]
  · rw [Table.since_of_le table _ (Nat.le_refl _)]
    simp [Draft.contents, occupant?_shift, apart]

theorem renamed {free : Slot} {occupant : Occupant}
    (occupied : draft.pool.occupant? accumulator = some occupant)
    (ordinary : occupant.implicit = false) (empty : draft.pool.occupant? free = none)
    (saved : free ≠ accumulator)
    (unnamed : draft.text.references draft.timeline (some (slotPhys free))
      (draft.timeline.born occupant.handle) = false) :
    ∃ table', (draft.renamed free occupant).Recorded ⟨naming.cell, naming.period + 1⟩ table'
      events := by
  have renamable : draft.Renamable naming table events free occupant :=
    { recorded with occupied, ordinary, empty, saved, unnamed }
  exact ⟨_, renamable.recorded⟩

end Draft.Recorded

namespace Draft

/-- An operation keeps a record of the code, with what it wrote itself marked as its own. -/
def Keeps (draft : Draft) (naming : Naming) (events : List (Option Nat)) (draft' : Draft) : Prop :=
  ∃ table, draft'.Recorded (naming.next draft draft') table (events ++ List.replicate
    (draft'.text.entries.size - draft.text.entries.size) none)

namespace Recorded

variable {draft draft' : Draft} {naming : Naming} {table : Table} {events : List (Option Nat)}

/-- An operation that writes nothing. -/
theorem keeps_of_quiet {naming' : Naming} (kept : ∃ table', draft'.Recorded naming' table' events)
    (text : draft'.text = draft.text) (next : naming.next draft draft' = naming') :
    draft.Keeps naming events draft' := by
  unfold Keeps
  rw [next, text, Nat.sub_self]
  simpa using kept

variable (recorded : draft.Recorded naming table events)
include recorded

theorem keeps_self : draft.Keeps naming events draft :=
  keeps_of_quiet ⟨table, recorded⟩ rfl (Naming.next_eq_self recorded.standing_raw rfl)

/-- An operation that moves a value out of a slot and writes nothing else. -/
theorem keeps_of_shift {slot free : Slot} {occupant : Occupant} {message : String}
    (occupied : draft.pool.occupant? slot = some occupant) (apart : free ≠ slot)
    (saved : free ≠ accumulator) :
    draft.Keeps naming events ((draft.shift slot free occupant).traced message) := by
  obtain ⟨table', recorded'⟩ := recorded.shifted occupied apart saved
  have next : naming.next draft ((draft.shift slot free occupant).traced message) =
      ⟨naming.cell, if slot = accumulator then naming.period + 1 else naming.period⟩ := by
    by_cases first : slot = accumulator
    · subst first
      rw [if_pos rfl]
      exact Naming.next_of_left occupied (by simp [Draft.traced, occupant?_shift])
    · rw [if_neg first]
      refine Naming.next_eq_self recorded.standing_raw ?_
      simp [Draft.traced, occupant?_shift, Ne.symm first, Ne.symm saved]
  have written : ((draft.shift slot free occupant).traced message).text.entries.size -
      draft.text.entries.size = 1 := by
    simp [Draft.traced, Draft.shift, Stream.emit]
  unfold Keeps
  rw [next, written]
  exact ⟨table', recorded'.traced message⟩

theorem reserve {u : Unit} (run : Drafting.reserve draft = .ok u draft') :
    draft.Keeps naming events draft' := by
  rcases Drafting.reserve_ok run with
    ⟨_, rfl⟩ | ⟨occupant, free, message, occupied, empty, saved, ⟨ordinary, unnamed, rfl⟩ | rfl⟩
  · exact recorded.keeps_self
  · obtain ⟨table', recorded'⟩ := recorded.renamed occupied ordinary empty saved unnamed
    refine keeps_of_quiet ⟨table', recorded'.traced message⟩ rfl ?_
    exact Naming.next_of_left occupied (by simp [Draft.traced, occupant?_renamed])
  · exact recorded.keeps_of_shift occupied saved saved

theorem vacate {slot : Slot} {u : Unit} (run : Drafting.vacate slot draft = .ok u draft') :
    draft.Keeps naming events draft' := by
  rcases Drafting.vacate_ok run with
    ⟨_, rfl⟩ | ⟨_, reserved⟩ | ⟨occupant, free, message, occupied, _, _, apart, saved, rfl⟩
  · exact recorded.keeps_self
  · exact recorded.reserve reserved
  · exact recorded.keeps_of_shift occupied apart saved

/-- Handing out a free slot after an operation. -/
theorem keeps_issue (kept : draft.Keeps naming events draft') {slot : Slot}
    (empty : draft'.pool.occupant? slot = none) (grows : draft.timeline.count ≤ draft'.timeline.count) :
    draft.Keeps naming events (draft'.issue slot .used) := by
  obtain ⟨table', recorded'⟩ := kept
  unfold Keeps
  rw [Naming.next_issue empty fun occupant occupied =>
    Nat.lt_of_lt_of_le (recorded.lt_count_of_occupied occupied) grows]
  exact recorded'.issued empty

theorem nextRegister {size : Size} {register : Register}
    (run : Drafting.nextRegister size draft = .ok register draft') :
    draft.Keeps naming events draft' := by
  obtain ⟨slot, empty, _, _, rfl⟩ := Drafting.nextRegister_ok run
  exact recorded.keeps_issue recorded.keeps_self empty (Nat.le_refl _)

theorem callAlloc {size : Size} {register : Register}
    (run : Drafting.callAlloc size draft = .ok register draft') :
    draft.Keeps naming events draft' := by
  obtain ⟨empty, _, rfl⟩ := Drafting.callAlloc_ok run
  refine keeps_of_quiet (recorded.produced_by_call size empty) rfl ?_
  simp [Naming.next, Naming.turn, empty, occupant?_issue]

theorem claimSlot {slot : Slot} {size : Size} {register : Register}
    (run : Drafting.claimSlot slot size draft = .ok register draft') :
    draft.Keeps naming events draft' := by
  obtain ⟨cleared, vacated, _, rfl⟩ := Drafting.claimSlot_ok run
  exact recorded.keeps_issue (recorded.vacate vacated) (vacate_frees vacated)
    (steps_vacate vacated).count_le

/-- A change of the marks of a value, which leaves its handle and where it came from. -/
theorem adjusted {slot : Slot} {change : Occupant → Occupant}
    (handle : ∀ occupant, (change occupant).handle = occupant.handle)
    (implicit : ∀ occupant, (change occupant).implicit = occupant.implicit) :
    ∃ table', (draft.mapPool fun pool => pool.adjust slot change).Recorded naming table' events := by
  change ∃ table', (draft.refill slot ((draft.pool.occupant? slot).map change)).Recorded _ table' _
  cases occupied : draft.pool.occupant? slot with
  | none => exact recorded.dropped fun _ => occupied
  | some occupant => exact recorded.marked occupied (handle occupant) (implicit occupant)

theorem keeps_adjust {operand : Operand} {change : Occupant → Occupant}
    (handle : ∀ occupant, (change occupant).handle = occupant.handle)
    (implicit : ∀ occupant, (change occupant).implicit = occupant.implicit) :
    draft.Keeps naming events (draft.adjust operand change) := by
  unfold Draft.adjust
  split
  · rename_i slot _
    refine keeps_of_quiet (recorded.adjusted handle implicit) rfl ?_
    refine Naming.next_eq_self recorded.standing_raw ?_
    rw [mapPool, occupant?_adjust]
    split
    · rename_i same
      rw [same]
      cases draft.pool.occupant? slot <;> simp [handle, implicit]
    · rfl
  · exact recorded.keeps_self

/-- A change of the marks of several values. -/
theorem adjusted_all {change : Occupant → Occupant} (slots : List Slot)
    (handle : ∀ occupant, (change occupant).handle = occupant.handle)
    (implicit : ∀ occupant, (change occupant).implicit = occupant.implicit) :
    ∃ table', (draft.mapPool fun pool =>
      slots.foldl (fun pool slot => pool.adjust slot change) pool).Recorded naming table' events := by
  induction slots generalizing draft table with
  | nil => exact ⟨table, recorded⟩
  | cons slot rest inductionHypothesis =>
      obtain ⟨table', recorded'⟩ : ∃ table', (draft.mapPool fun pool =>
          pool.adjust slot change).Recorded naming table' events :=
        recorded.adjusted handle implicit
      exact inductionHypothesis recorded'

omit recorded in
theorem occupant?_adjust_all {change : Occupant → Occupant} (slots : List Slot) (pool : Pool)
    (handle : ∀ occupant, (change occupant).handle = occupant.handle)
    (implicit : ∀ occupant, (change occupant).implicit = occupant.implicit) (other : Slot) :
    ((slots.foldl (fun pool slot => pool.adjust slot change) pool).occupant? other).map
        (fun occupant => (occupant.handle, occupant.implicit)) =
      (pool.occupant? other).map fun occupant => (occupant.handle, occupant.implicit) := by
  induction slots generalizing pool with
  | nil => rfl
  | cons slot rest inductionHypothesis =>
      rw [List.foldl_cons, inductionHypothesis, occupant?_adjust]
      split
      · rename_i same
        rw [same]
        cases pool.occupant? slot <;> simp [handle, implicit]
      · rfl

theorem lockLive {registers : List Register}
    (run : Drafting.lockLive draft = .ok registers draft') : draft.Keeps naming events draft' := by
  simp only [Drafting.lockLive, Success.bind_ok, Success.get_ok, Success.modify_ok,
    Success.pure_ok] at run
  obtain ⟨_, _, ⟨rfl, rfl⟩, _, _, rfl, _, rfl⟩ := run
  refine keeps_of_quiet (recorded.adjusted_all _ (fun _ => rfl) fun _ => rfl) rfl ?_
  refine Naming.next_eq_self recorded.standing_raw ?_
  rw [mapPool]
  apply occupant?_adjust_all
  · intro occupant
    rfl
  · intro occupant
    rfl

theorem keeps_drop (slot : Slot) : draft.Keeps naming events (draft.refill slot none) := by
  by_cases kept : slot = accumulator → draft.pool.occupant? slot = none
  · refine keeps_of_quiet (recorded.dropped kept) rfl ?_
    refine Naming.next_eq_self recorded.standing_raw ?_
    rw [occupant?_refill]
    split
    · rename_i same
      subst same
      rw [kept rfl]
    · rfl
  · obtain ⟨rfl, occupied⟩ := Classical.not_imp.mp kept
    obtain ⟨occupant, occupied⟩ := Option.ne_none_iff_exists'.mp occupied
    refine keeps_of_quiet recorded.dropped_accumulator rfl ?_
    exact Naming.next_of_left occupied (by simp [occupant?_refill])

theorem free {operand : Operand} {force freed : Bool}
    (run : Drafting.free operand force draft = .ok freed draft') :
    draft.Keeps naming events draft' := by
  rcases Drafting.free_ok run with rfl | ⟨slot, _, _, rfl⟩
  · exact recorded.keeps_self
  · exact recorded.keeps_drop slot

/-- Giving up slots other than the accumulator, where a test on the pool says so. -/
theorem dropped_all {test : Pool → Slot → Bool} (slots : List Slot)
    (saved : ∀ slot ∈ slots, slot ≠ accumulator) :
    (∃ table', (draft.mapPool fun pool => slots.foldl
        (fun pool slot => if test pool slot then pool.put slot none else pool) pool).Recorded
      naming table' events) ∧
    (slots.foldl (fun pool slot => if test pool slot then pool.put slot none else pool)
      draft.pool).occupant? accumulator = draft.pool.occupant? accumulator := by
  induction slots generalizing draft table with
  | nil => exact ⟨⟨table, recorded⟩, rfl⟩
  | cons slot rest inductionHypothesis =>
      have apart : slot ≠ accumulator := saved slot (by simp)
      have others : ∀ other ∈ rest, other ≠ accumulator := fun other membership =>
        saved other (by simp [membership])
      by_cases passed : test draft.pool slot = true
      · obtain ⟨table', recorded'⟩ : ∃ table', (draft.refill slot none).Recorded naming table'
            events := recorded.dropped fun same => absurd same apart
        obtain ⟨kept, same⟩ := inductionHypothesis recorded' others
        simp only [mapPool, List.foldl_cons, passed, if_true]
        refine ⟨kept, same.trans ?_⟩
        simp [occupant?_refill, Ne.symm apart]
      · simp only [mapPool, List.foldl_cons, passed]
        exact inductionHypothesis recorded others

omit recorded in
/-- After an operation, giving up slots other than the accumulator changes no names. -/
theorem keeps_dropped_all {test : Pool → Slot → Bool} (kept : draft.Keeps naming events draft') :
    draft.Keeps naming events (draft'.mapPool fun pool => savedSlots.foldl
      (fun pool slot => if test pool slot then pool.put slot none else pool) pool) := by
  obtain ⟨table', recorded'⟩ := kept
  obtain ⟨recorded'', same⟩ := recorded'.dropped_all savedSlots fun slot membership =>
    mem_savedSlots.mp membership
  unfold Keeps Naming.next
  rw [mapPool, same]
  exact recorded''

theorem freeAll {force : Bool} {u : Unit} (run : Drafting.freeAll force draft = .ok u draft') :
    draft.Keeps naming events draft' := by
  simp only [Drafting.freeAll, Success.modify_ok] at run
  subst run
  have kept (start : Draft) (begun : draft.Keeps naming events start) :
      draft.Keeps naming events (start.mapPool fun pool => savedSlots.foldl
        (fun pool slot => if force || Drafting.isUnlocked pool slot then pool.put slot none
          else pool) pool) := keeps_dropped_all begun
  simp only [mapPool, allSlots, List.foldl_cons]
  by_cases passed : (force || Drafting.isUnlocked draft.pool accumulator) = true
  · rw [if_pos passed]
    exact kept (draft.refill accumulator none) (recorded.keeps_drop accumulator)
  · rw [if_neg passed]
    exact kept draft recorded.keeps_self

/-- Every operation keeps a record of the code. -/
theorem perform {command : Command} {u : Unit} (run : command.perform draft = .ok u draft') :
    draft.Keeps naming events draft' := by
  cases command with
  | nextRegister size =>
      simp only [Command.perform, Success.discard_ok] at run
      obtain ⟨register, run⟩ := run
      exact recorded.nextRegister run
  | reserve => exact recorded.reserve run
  | claim number size =>
      simp only [Command.perform, Success.discard_ok, Drafting.claimNumber] at run
      obtain ⟨register, run⟩ := run
      cases found : (if 0 ≤ number then allSlots[number.toNat]? else none) with
      | some slot =>
          rw [found] at run
          exact recorded.claimSlot run
      | none =>
          rw [found] at run
          simp at run
  | callAlloc size =>
      simp only [Command.perform, Success.discard_ok] at run
      obtain ⟨register, run⟩ := run
      exact recorded.callAlloc run
  | settle register =>
      simp only [Command.perform, Drafting.settle, Success.modify_ok] at run
      subst run
      exact recorded.keeps_adjust (fun _ => rfl) fun _ => rfl
  | lock operand =>
      simp only [Command.perform, Drafting.lock, Success.modify_ok] at run
      subst run
      exact recorded.keeps_adjust (fun _ => rfl) fun _ => rfl
  | unlock operand =>
      simp only [Command.perform, Drafting.unlock, Success.modify_ok] at run
      subst run
      exact recorded.keeps_adjust (fun _ => rfl) fun _ => rfl
  | lockLive =>
      simp only [Command.perform, Success.discard_ok] at run
      obtain ⟨registers, run⟩ := run
      exact recorded.lockLive run
  | free operand force =>
      simp only [Command.perform, Success.discard_ok] at run
      obtain ⟨freed, run⟩ := run
      exact recorded.free run
  | freeAll force => exact recorded.freeAll run

/-- So does every instruction that the draft admits. -/
theorem append {instr : Instr} (admits : draft.Admits instr) :
    ∃ table', Recorded { draft with text := draft.text.emit instr } naming table'
      (events ++ [some naming.period]) := by
  have contents : Draft.contents { draft with text := draft.text.emit instr } naming =
      draft.contents naming := rfl
  have change : Change draft naming { draft with text := draft.text.emit instr } naming id :=
    { tidy := recorded.emit instr
      count := Nat.le_refl _
      born := fun _ _ => rfl
      places := fun _ _ _ _ _ => rfl
      cells := fun _ _ => rfl
      period := Nat.le_refl _
      faithful := recorded.faithful
      standing := recorded.standing
      injective := recorded.injective
      held := recorded.held
      contents := fun _ _ holds => .inl holds
      apart := Change.contents_apart recorded
      resident := fun occupied ordinary => .inr ⟨_, occupied, rfl, ordinary⟩ }
  refine ⟨_, recorded.written change rfl ?_⟩
  refine .appended admits.straight ?_ ?_ ?_ (change.carried recorded)
  · rintro handle ⟨register, membership, place⟩
    have live := admits.allowed register membership
    simp only [Allows, place] at live
    obtain ⟨slot, holds⟩ := live
    obtain ⟨occupant, occupied, rfl⟩ := Option.map_eq_some_iff.mp holds
    refine ⟨slot, recorded.lt_count_of_occupied occupied, recorded.born_le_clock _, ?_, ?_⟩
    · exact (recorded.placeAt_clock _).trans (recorded.current_of_holds holds)
    · rw [Table.since_of_le table _ (Nat.le_refl _)]
      simp [Draft.contents, occupied]
  · intro register membership slot place
    have allowed := admits.allowed register membership
    simp only [Allows, place, slotOfPhys?_slotPhys] at allowed
    rcases allowed with first | outside
    · exact slotPhys_inj.mp (show slotPhys _ = slotPhys accumulator from first)
    · contradiction
  · intro uses
    have opened := admits.open_of_uses uses
    rw [Table.since_of_le table _ (Nat.le_refl _), contents, Draft.contents]
    cases occupied : draft.pool.occupant? accumulator with
    | none => simp
    | some occupant =>
        have implicit := opened occupant (by simp [occupied])
        simp [recorded.standing_raw occupant occupied implicit]

end Recorded

theorem recorded_empty :
    Draft.empty.Recorded .initial (Table.since (fun _ _ => none) 1
      (Draft.empty.contents .initial)) [] := by
  have contents : ∀ {slot cell}, Draft.empty.contents .initial slot = some cell →
      slot = accumulator ∧ cell = .raw 0 := by
    intro slot cell holds
    simp only [Draft.contents, Draft.empty, occupant?_empty] at holds
    split at holds
    · rename_i first
      exact ⟨first, (Option.some.inj holds).symm⟩
    · contradiction
  have table : ∀ {tick slot cell}, Table.since (fun _ _ => none) 1
      (Draft.empty.contents .initial) tick slot = some cell →
      0 < tick ∧ slot = accumulator ∧ cell = .raw 0 := by
    intro tick slot cell holds
    unfold Table.since at holds
    split at holds
    · contradiction
    · exact ⟨by omega, contents holds⟩
  refine { tidy_empty with
    faithful := fun _ => .inl rfl, standing := ?_, injective := fun _ _ => Cell.own.inj,
    held := ?_, stamped := ?_, clock_eq := rfl, aligned := rfl, present := rfl,
    blank := fun _ => rfl, apart := ?_, known := ?_, resident := ?_, arrives := ?_,
    accounted := ?_ }
  · intro occupant occupied
    simp [Draft.empty] at occupied
  · intro handle raw
    exact Cell.noConfusion raw
  · intro index entry found
    simp [Draft.empty, Stream.empty] at found
  · intro tick slot other cell _ first second
    rw [(table first).2.1, (table second).2.1]
  · intro tick slot cell _ holds
    rw [(table holds).2.2]
    exact Nat.zero_le _
  · intro occupant occupied
    simp [Draft.empty] at occupied
  · intro slot cell _
    left
    intro earlier before other found
    have positive := (table found).1
    have one : earlier < 1 := before
    omega
  · intro entry event written
    simp [Draft.empty, Stream.empty] at written

end Draft

namespace Session

/-- Some table accounts for the code of the session. -/
def Sound (session : Session) : Prop :=
  ∃ table, session.draft.Recorded session.naming table session.events

theorem Sound.perform {session session' : Session} {action : Action} (sound : session.Sound)
    (performed : session.perform action = some session') : session'.Sound := by
  obtain ⟨table, recorded⟩ := sound
  cases action with
  | allocate command =>
      simp only [Session.perform] at performed
      split at performed
      · rename_i draft run
        cases performed
        exact recorded.perform run
      · contradiction
  | append instr =>
      simp only [Session.perform] at performed
      split at performed
      · rename_i admits
        cases performed
        exact recorded.append admits
      · contradiction

theorem Sound.foldlM {session session' : Session} {actions : List Action} (sound : session.Sound)
    (performed : actions.foldlM Session.perform session = some session') : session'.Sound := by
  induction actions generalizing session with
  | nil =>
      cases performed
      exact sound
  | cons action rest inductionHypothesis =>
      rw [List.foldlM_cons] at performed
      obtain ⟨next, first, others⟩ := Option.bind_eq_some_iff.mp performed
      exact inductionHypothesis (sound.perform first) others

/-- Whatever is done in a session, some table accounts for its code. -/
theorem sound_of_run {session : Session} {actions : List Action}
    (performed : run actions = some session) : session.Sound :=
  Sound.foldlM ⟨_, Draft.recorded_empty⟩ performed

end Session

end X64Backend
