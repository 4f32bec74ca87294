import X64Backend.Proofs.Lower.Comparisons
import X64Backend.Proofs.Lower.Division

/-!
Room for operators.  With two free registers in the pool every operator on variables is generated:
one register is taken for the left operand and one for the right operand, or for a value that has to
leave the accumulator.
-/

namespace X64Backend.Lower

open Machine X64Backend.Tree

variable {s s₁ s' : State} {x y result : Operand} {size : Size} {signed : Bool} {slot : Pool.Slot}

/-- A register of the pool is free. -/
def Vacant (s : State) (slot : Pool.Slot) : Prop := s.draft.pool.occupant? slot = none

/-- A computation ends well. -/
def Ends {α : Type} (action : Gen α) (s : State) : Prop := ∃ result s', action s = .ok result s'

theorem Ends.bind {α β : Type} {action : Gen α} {next : α → Gen β} {value : α}
    (run : action s = .ok value s₁) (ends : Ends (next value) s₁) : Ends (action >>= next) s := by
  obtain ⟨result, s', run'⟩ := ends
  exact ⟨result, s', Success.bind_ok.mpr ⟨value, s₁, run, run'⟩⟩

theorem ends_pure {α : Type} (value : α) : Ends (pure value : Gen α) s := ⟨value, s, rfl⟩

/-- Emitting leaves the pool alone. -/
theorem emit_works (instrs : List Instr) (s : State) :
    ∃ s', emit instrs s = .ok () s' ∧ ∀ slot, Vacant s slot → Vacant s' slot :=
  ⟨_, rfl, fun _ => id⟩

/-- A release ends well and leaves the free registers free. -/
theorem release_works (operand : Operand) (s : State) :
    ∃ s', release operand s = .ok () s' ∧ ∀ slot, Vacant s slot → Vacant s' slot := by
  have frees : ∃ freed draft, Drafting.free operand false s.draft = .ok freed draft ∧
      ∀ slot, s.draft.pool.occupant? slot = none → draft.pool.occupant? slot = none := by
    cases found : s.draft.slotOf? operand with
    | none =>
      refine ⟨false, s.draft, ?_, fun _ => id⟩
      simp only [Drafting.free, Success.bind_ok, Success.get_ok]
      exact ⟨_, _, ⟨rfl, rfl⟩, by simp only [found]; rfl⟩
    | some slot =>
      by_cases locked : s.draft.isLocked operand = true
      · refine ⟨false, s.draft, ?_, fun _ => id⟩
        simp only [Drafting.free, Success.bind_ok, Success.get_ok]
        exact ⟨_, _, ⟨rfl, rfl⟩, by simp only [found, locked]; rfl⟩
      · refine ⟨true, s.draft.refill slot none, ?_, ?_⟩
        · simp only [Drafting.free, Success.bind_ok, Success.get_ok]
          exact ⟨_, _, ⟨rfl, rfl⟩, by simp only [found, locked]; rfl⟩
        · intro other empty
          rw [Draft.occupant?_refill]
          split
          · rfl
          · exact empty
  obtain ⟨freed, draft, ran, kept⟩ := frees
  refine ⟨{ s with draft }, ?_, kept⟩
  unfold release
  rw [Success.bind_of_ok (drafting_ok.mpr ⟨draft, ran, rfl⟩)]
  rfl

/-- A register is handed out if one is free, and no other one is taken. -/
theorem nextRegister_works (vacant : Vacant s slot) (size : Size) :
    ∃ register s' taken, drafting (Drafting.nextRegister size) s = .ok register s' ∧
      ∀ other, other ≠ taken → Vacant s other → Vacant s' other := by
  have picks : ∃ taken, Drafting.nextRegister size s.draft =
      .ok ⟨.slot s.draft.timeline.count, size⟩ (s.draft.issue taken .used) := by
    unfold Drafting.nextRegister
    rw [Success.bind_of_ok (Success.get_ok.mpr ⟨rfl, rfl⟩)]
    cases found : Pool.savedSlots.find? fun slot => !s.draft.pool.isOccupied slot with
    | some taken => exact ⟨taken, Drafting.take_eq _ _ _ _⟩
    | none =>
      have last : slot = Pool.accumulator := by
        by_contra saved
        have occupied := List.find?_eq_none.mp found slot (Pool.mem_savedSlots.mpr saved)
        rw [Vacant] at vacant
        simp [Pool.isOccupied, vacant] at occupied
      have free : s.draft.pool.isOccupied Pool.accumulator = false := by
        rw [Pool.isOccupied, ← last, vacant]
        rfl
      refine ⟨Pool.accumulator, ?_⟩
      dsimp only
      rw [free]
      exact Drafting.take_eq _ _ _ _
  obtain ⟨taken, picks⟩ := picks
  refine ⟨_, _, taken, drafting_ok.mpr ⟨_, picks, rfl⟩, ?_⟩
  intro other apart empty
  exact (Draft.occupant?_issue s.draft taken other .used).trans ((if_neg apart).trans empty)

variable {spot spot' : Spot} {place place' : Handle → Option Phys}

theorem load_eq (plain : isTemp s.draft x = false) : load x size signed s = (do
    let register ← drafting (Drafting.nextRegister size)
    move (.reg register) x signed .lowFirst
    release x
    return register : Gen Register) s := by
  have temporary : temp x s = .ok false s := by rw [← plain]; rfl
  unfold load
  cases x <;> exact Success.bind_of_ok temporary

/-- An operand is loaded if a register is free, and no other one is taken. -/
theorem load_works (vacant : Vacant s slot) (plain : isTemp s.draft x = false)
    (sits : Sits place x spot) (size : Size) (signed : Bool) :
    ∃ register s' taken, load x size signed s = .ok register s' ∧
      ∀ other, other ≠ taken → Vacant s other → Vacant s' other := by
  obtain ⟨register, s₁, taken, allocated, kept⟩ := nextRegister_works vacant size
  obtain ⟨s₂, moved, kept'⟩ := emit_works [copying register x signed] s₁
  obtain ⟨s₃, released, kept''⟩ := release_works x s₂
  refine ⟨register, s₃, taken, ?_, fun other apart empty =>
    kept'' other (kept' other (kept other apart empty))⟩
  rw [load_eq plain, Success.bind_of_ok allocated, move_eq_emit sits, Success.bind_of_ok moved,
    Success.bind_of_ok released]
  rfl

/-- An operand is made ready if a register is free, and one is taken at most. -/
theorem operandFor_works (vacant : Vacant s slot) (plain : isTemp s.draft x = false)
    (sits : Sits place x spot) (size : Size) (signed : Bool) :
    ∃ result s' taken, operandFor x size signed s = .ok result s' ∧
      ∀ other, other ≠ taken → Vacant s other → Vacant s' other := by
  rw [operandFor_eq sits]
  by_cases same : x.size = size
  · rw [if_pos same]
    exact ⟨x, s, slot, rfl, fun _ _ => id⟩
  · rw [if_neg same]
    obtain ⟨register, s₁, taken, loaded, kept⟩ := load_works vacant plain sits size signed
    exact ⟨_, s₁, taken, (Success.bind_of_ok loaded).trans rfl, kept⟩

theorem storeCond_works (vacant : Vacant s slot) (cond : Cond) : Ends (storeCond cond) s := by
  obtain ⟨dst, s₁, _, allocated, _⟩ := nextRegister_works vacant .s8
  exact .bind allocated (.bind rfl (ends_pure _))

theorem callAlloc_ends (vacant : Vacant s Pool.accumulator) (size : Size) :
    Ends (drafting (Drafting.callAlloc size)) s := by
  have free : s.draft.pool.claim? Pool.accumulator = none := by
    rw [Pool.claim?, vacant]
    rfl
  have takes : Drafting.callAlloc size s.draft = .ok ⟨.slot s.draft.timeline.count, size⟩
      (s.draft.issue Pool.accumulator (.needed size)) := by
    unfold Drafting.callAlloc
    rw [Success.bind_of_ok (Success.get_ok.mpr ⟨rfl, rfl⟩), free]
    exact Drafting.take_eq _ _ _ _
  exact ⟨_, _, drafting_ok.mpr ⟨_, takes, rfl⟩⟩

/-- Two free registers are enough for an operator. -/
def Roomy (s : State) : Prop := ∃ first second, first ≠ second ∧ Vacant s first ∧ Vacant s second

theorem roomy_initial : Roomy .initial := ⟨0, 1, by decide, rfl, rfl⟩

/-- One register has been taken of two free ones. -/
theorem Roomy.left (roomy : Roomy s) {taken : Pool.Slot}
    (kept : ∀ other, other ≠ taken → Vacant s other → Vacant s₁ other) :
    ∃ slot, Vacant s₁ slot := by
  obtain ⟨first, second, apart, vacant, vacant'⟩ := roomy
  by_cases same : first = taken
  · exact ⟨second, kept second (fun same' => apart (same.trans same'.symm)) vacant'⟩
  · exact ⟨first, kept first same vacant⟩

section Operators

variable (tidy : s.draft.Tidy) (roomy : Roomy s)
include tidy roomy

/-- A variable is loaded, and another one is still none that may be overwritten. -/
theorem loads_first (operands : Operands s.draft size x y) (signed : Bool) :
    ∃ register s₁, load x size signed s = .ok register s₁ ∧ isTemp s₁.draft y = false ∧
      ∃ slot, Vacant s₁ slot := by
  obtain ⟨left, right, regular, leftRegular, rightRegular⟩ := operands
  obtain ⟨spot, sits, _⟩ := left.sits tidy leftRegular
  obtain ⟨first, _, _, vacant, _⟩ := id roomy
  have plain := left.plain tidy
  obtain ⟨register, s₁, taken, loaded, kept⟩ := load_works vacant plain sits size signed
  obtain ⟨_, _, lifts⟩ := lifts_load tidy left right regular leftRegular rightRegular loaded
  exact ⟨register, s₁, loaded, lifts.plain, roomy.left kept⟩

/-- An operator on variables of its own width. -/
theorem combine_ends {op : BinaryOp} {instr : Op} (operands : Operands s.draft size x y)
    (width : y.size = size) (signed : Bool) : Ends (combine op instr x y size signed) s := by
  obtain ⟨register, s₁, loaded, plain, slot, vacant⟩ := loads_first tidy roomy operands signed
  obtain ⟨spot, sits, _⟩ := operands.right.sits tidy operands.rightRegular
  unfold Ends
  rw [combine_rests (operands.right.plain tidy),
    operandFor_eq sits, if_pos width]
  refine Ends.bind loaded (Ends.bind rfl ?_)
  split
  · obtain ⟨wide, s₂, _, loaded', _⟩ := load_works vacant plain sits .s32 signed
    refine Ends.bind loaded' (Ends.bind rfl (Ends.bind rfl ?_))
    obtain ⟨s₃, released, _⟩ := release_works (.reg wide) _
    exact Ends.bind released (ends_pure _)
  · refine Ends.bind rfl ?_
    obtain ⟨s₃, released, _⟩ := release_works y _
    exact Ends.bind released (ends_pure _)

theorem compareOperands_ends (operands : Operands s.draft size x y) (width : x.size = size)
    (cond : Cond) (signed : Bool) : Ends (compareOperands cond x y size signed) s := by
  obtain ⟨spot, sits, _⟩ := operands.left.sits tidy operands.leftRegular
  obtain ⟨spot', sits', _⟩ := operands.right.sits tidy operands.rightRegular
  obtain ⟨first, _, _, vacant, _⟩ := id roomy
  have plain := operands.right.plain tidy
  rw [compareOperands_eq sits, operandFor_eq sits, if_pos width]
  refine Ends.bind rfl ?_
  have compares : ∃ second s₁ taken, comparand x y size signed s = .ok second s₁ ∧
      ∀ other, other ≠ taken → Vacant s other → Vacant s₁ other := by
    unfold comparand
    split
    · obtain ⟨register, s₁, taken, loaded, kept⟩ := load_works vacant plain sits' size signed
      exact ⟨_, s₁, taken, (Success.bind_of_ok loaded).trans rfl, kept⟩
    · exact operandFor_works vacant plain sits' size signed
  obtain ⟨second, s₁, taken, compares, kept⟩ := compares
  obtain ⟨s₂, emitted, kept₂⟩ := emit_works [.binary .cmp x second] s₁
  obtain ⟨s₃, released, kept₃⟩ := release_works x s₂
  obtain ⟨s₄, released', kept₄⟩ := release_works second s₃
  obtain ⟨slot, vacant'⟩ := roomy.left kept
  refine Ends.bind compares (Ends.bind emitted (Ends.bind released (Ends.bind released' ?_)))
  exact storeCond_works (kept₄ _ (kept₃ _ (kept₂ _ vacant'))) cond

omit roomy in
theorem change_ends {type : TypeRef} (vacant : Vacant s slot) (rests : Rests s.draft x)
    (regular : Regular x.size) (op : Op) : Ends (change op x type) s := by
  obtain ⟨spot, sits, _⟩ := rests.sits tidy regular
  have plain := rests.plain tidy
  obtain ⟨dst, s₁, _, loaded, _⟩ :=
    load_works vacant plain sits type.operandSize type.isSigned
  exact Ends.bind loaded (Ends.bind rfl (ends_pure _))

omit roomy in
theorem negate_ends (vacant : Vacant s slot) (rests : Rests s.draft x)
    (regular : Regular x.size) : Ends (negate x) s := by
  unfold Ends
  rw [negate_eq (rests.plain tidy), test_eq regular.sized]
  obtain ⟨s₁, tested, kept⟩ := emit_works [probe x] s
  obtain ⟨s₂, released, kept'⟩ := release_works x s₁
  exact Ends.bind tested (Ends.bind released (storeCond_works (kept' _ (kept _ vacant)) .e))

omit roomy in
/-- A shift by a count in a variable. -/
theorem shift_ends {op : Op} (vacant : Vacant s slot) (operands : Operands s.draft size x y)
    (signed : Bool) : Ends (shift op x y size signed) s := by
  obtain ⟨spot, sits, _⟩ := operands.left.sits tidy operands.leftRegular
  obtain ⟨spot', sits', _⟩ := operands.right.sits tidy operands.rightRegular
  have plain := operands.left.plain tidy
  obtain ⟨dst, s₁, _, loaded, _⟩ := load_works vacant plain sits size signed
  rw [shift_eq sits', move_eq_emit sits']
  refine Ends.bind loaded (Ends.bind rfl ?_)
  obtain ⟨s₃, released, _⟩ := release_works y _
  exact Ends.bind released (Ends.bind rfl (ends_pure _))

omit roomy in
/-- A shift by a literal count. -/
theorem shift_literal_ends {op : Op} {literal : Literal} (counts : isCount literal = true)
    (vacant : Vacant s slot) (rests : Rests s.draft x) (regular : Regular x.size) (signed : Bool) :
    Ends (shift op x (.lit literal) size signed) s := by
  obtain ⟨spot, sits, _⟩ := rests.sits tidy regular
  have plain := rests.plain tidy
  obtain ⟨dst, s₁, _, loaded, _⟩ := load_works vacant plain sits size signed
  refine Ends.bind loaded ?_
  dsimp only
  rw [if_pos counts]
  exact Ends.bind rfl (ends_pure _)

omit tidy in
/-- A value is moved out of the accumulator if another register is free. -/
theorem evacuate_works {occupant : Pool.Occupant}
    (occupied : s.draft.pool.occupant? Pool.accumulator = some occupant) :
    ∃ draft, Drafting.evacuate Pool.accumulator occupant s.draft = .ok () draft := by
  obtain ⟨slot, _, _, vacant, _⟩ := roomy
  rw [Vacant] at vacant
  have saved : slot ≠ Pool.accumulator := by
    rintro rfl
    rw [occupied] at vacant
    contradiction
  unfold Drafting.evacuate
  rw [Success.bind_of_ok (Success.get_ok.mpr ⟨rfl, rfl⟩)]
  cases found : Pool.savedSlots.find? fun other =>
      decide (other ≠ Pool.accumulator) && !s.draft.pool.isOccupied other with
  | some free => exact ⟨_, rfl⟩
  | none =>
    have occupied' := List.find?_eq_none.mp found slot (Pool.mem_savedSlots.mpr saved)
    simp [Pool.isOccupied, vacant, saved] at occupied'

omit tidy in
theorem reserve_ends : Ends (drafting Drafting.reserve) s := by
  suffices reserves : ∃ draft, Drafting.reserve s.draft = .ok () draft by
    obtain ⟨draft, reserves⟩ := reserves
    exact ⟨_, _, drafting_ok.mpr ⟨draft, reserves, rfl⟩⟩
  unfold Drafting.reserve
  rw [Success.bind_of_ok (Success.get_ok.mpr ⟨rfl, rfl⟩)]
  cases occupied : s.draft.pool.occupant? Pool.accumulator with
  | none => exact ⟨_, rfl⟩
  | some occupant =>
    dsimp only
    generalize (if occupant.claim = .used && !occupant.implicit then
      Drafting.renameTarget? s.draft occupant.handle else none) = target
    cases target with
    | some free => exact ⟨_, Drafting.rename_eq _ _ _⟩
    | none => exact evacuate_works roomy occupied

omit roomy in
theorem divideInto_ends (empty : s.draft.pool.occupant? Pool.accumulator = none)
    (operands : Operands s.draft size x y) (signed remainder : Bool) :
    Ends (divideInto x y size signed remainder) s := by
  obtain ⟨spot, sits, _⟩ := operands.left.sits tidy operands.leftRegular
  obtain ⟨spot', sits', _⟩ := operands.right.sits tidy operands.rightRegular
  have places : ∃ divisor s₁, placeDivisor y signed s = .ok divisor s₁ ∧
      Vacant s₁ Pool.accumulator := by
    unfold placeDivisor
    split
    · exact ⟨_, s, rfl, empty⟩
    · obtain ⟨s₁, moved, kept⟩ := emit_works [copying (.fix .rcx .s64) y signed] s
      refine ⟨.reg (.fix .rcx .s64), s₁, ?_, kept _ empty⟩
      dsimp only
      rw [move_eq_emit sits', Success.bind_of_ok moved]
      rfl
  obtain ⟨divisor, s₁, placed, vacant⟩ := places
  obtain ⟨s₂, moved, kept⟩ := emit_works [copying (.fix .rax .s64) x signed] s₁
  obtain ⟨target, s₃, allocated⟩ := callAlloc_ends (kept _ vacant) .s64
  refine Ends.bind placed ?_
  rw [move_eq_emit sits]
  refine Ends.bind moved (Ends.bind allocated (Ends.bind rfl ?_))
  obtain ⟨s₅, released, _⟩ := release_works x _
  obtain ⟨s₆, released', _⟩ := release_works y s₅
  refine Ends.bind released (Ends.bind released' ?_)
  cases remainder with
  | false => exact ends_pure _
  | true => exact Ends.bind rfl (ends_pure _)

theorem divide_ends (operands : Operands s.draft size x y) (signed remainder : Bool) :
    Ends (divide x y size signed remainder) s := by
  obtain ⟨spot, sits, _⟩ := operands.right.sits tidy operands.rightRegular
  rw [divide_eq sits]
  obtain ⟨_, s₁, reserved⟩ := reserve_ends roomy
  obtain ⟨⟨_, preserves⟩, empty⟩ := preserves_reserve tidy reserved
  have operands' : Operands s₁.draft size x y :=
    { operands with left := preserves.rests operands.left, right := preserves.rests operands.right }
  exact Ends.bind reserved (divideInto_ends preserves.tidy empty operands' signed remainder)

end Operators

end X64Backend.Lower
