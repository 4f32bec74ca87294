import X64Backend.Proofs.Lower.Calls
import X64Backend.Proofs.Lower.Passing
import X64Backend.Proofs.Lower.Fusion

/-!
The code that passes the arguments of a call, as the generator writes it.  Meanwhile no value is
moved: registers of the pool are handed out for single pushes, and arguments that have been passed
give theirs up.
-/

namespace X64Backend

/-- Appended instructions are stamped one after the other. -/
theorem Stream.stamped_append (stream : Stream) (instrs : List Instr) :
    ∃ added, (stream.append instrs).code = stream.code ++ added ∧ added.map Entry.instr = instrs ∧
      ∀ entry ∈ added, stream.clock ≤ entry.tick ∧ entry.tick < (stream.append instrs).clock := by
  induction instrs generalizing stream with
  | nil => exact ⟨[], by simp [append], rfl, by simp⟩
  | cons instr rest inductionHypothesis =>
      obtain ⟨added, same, spelled, stamped⟩ := inductionHypothesis (stream.emit instr)
      have later : stream.clock + 1 ≤ ((stream.emit instr).append rest).clock :=
        Lower.clock_append (stream.emit instr) rest
      refine ⟨⟨stream.clock, instr⟩ :: added, ?_, by simp [spelled], ?_⟩
      · change ((stream.emit instr).append rest).code = _
        simp [same]
      · intro entry member
        rcases List.mem_cons.mp member with rfl | older
        · exact ⟨Nat.le_refl _, later⟩
        · exact (stamped entry older).imp_left Nat.le_of_succ_le

theorem Operand.handle?_eq_some_iff {operand : Operand} {handle : Handle} :
    operand.handle? = some handle ↔
      ∃ register, operand.base? = some register ∧ register.place = .slot handle := by
  unfold Operand.handle?
  constructor
  · intro behind
    split at behind
    · rename_i base
      exact ⟨_, base, congrArg Place.slot (Option.some.inj behind)⟩
    · contradiction
  · rintro ⟨⟨place, size⟩, base, rfl⟩
    rw [base]

namespace Lower

open X64Backend.Tree

/-- Code is added while no value is moved.  Old values keep their registers, except that those among
the lost ones may give them up unless they are locked. -/
structure Extends (lost : Handle → Prop) (s s' : State) (code : List Entry) : Prop where
  appended : s'.draft.text.code = s.draft.text.code ++ code
  clock : s.draft.text.clock ≤ s'.draft.text.clock
  stamped : ∀ entry ∈ code, s.draft.text.clock ≤ entry.tick ∧ entry.tick < s'.draft.text.clock
  tidy : s'.draft.Tidy
  count : s.draft.timeline.count ≤ s'.draft.timeline.count
  history : ∀ handle, handle < s.draft.timeline.count →
    s'.draft.timeline.history? handle = s.draft.timeline.history? handle
  /-- A new value has never been moved. -/
  still : ∀ {handle history}, s.draft.timeline.count ≤ handle →
    s'.draft.timeline.history? handle = some history → history.moves = []
  gone : ∀ handle, handle < s.draft.timeline.count → s'.draft.Live handle → s.draft.Live handle
  kept : ∀ {handle locked}, s.draft.Carries handle locked → locked = true ∨ ¬ lost handle →
    s'.draft.Carries handle locked

namespace Extends

variable {lost : Handle → Prop} {s s₁ s' : State} {code code' : List Entry}

theorem of_quiet (tidy : s.draft.Tidy) (quiet : Quiet s s')
    (same : s'.draft.text.code = s.draft.text.code ++ code)
    (stamped : ∀ entry ∈ code, s.draft.text.clock ≤ entry.tick ∧
      entry.tick < s'.draft.text.clock) : Extends lost s s' code := by
  have pool := quiet.pool
  constructor
  · exact same
  · exact quiet.clock
  · exact stamped
  · exact quiet.tidy tidy
  · rw [quiet.timeline]
  · intro handle _
    rw [quiet.timeline]
  · intro handle history new issued
    rw [quiet.timeline] at issued
    exact absurd (Timeline.lt_count_of_history? issued) (Nat.not_lt_of_le new)
  · rintro handle _ ⟨slot, holds⟩
    rw [Draft.Holds, pool] at holds
    exact ⟨slot, holds⟩
  · rintro handle locked ⟨slot, occupant, occupied, rest⟩ _
    rw [← pool] at occupied
    exact ⟨slot, occupant, occupied, rest⟩

theorem refl (tidy : s.draft.Tidy) : Extends lost s s [] :=
  of_quiet tidy (Quiet.refl s) (List.append_nil _).symm (by simp)

theorem trans (first : Extends lost s s₁ code) (second : Extends lost s₁ s' code') :
    Extends lost s s' (code ++ code') := by
  have issued : ∀ handle, handle < s.draft.timeline.count → handle < s₁.draft.timeline.count :=
    fun handle old => Nat.lt_of_lt_of_le old first.count
  constructor
  · rw [second.appended, first.appended, List.append_assoc]
  · exact Nat.le_trans first.clock second.clock
  · intro entry member
    rcases List.mem_append.mp member with older | newer
    · exact (first.stamped entry older).imp_right fun before =>
        Nat.lt_of_lt_of_le before second.clock
    · exact (second.stamped entry newer).imp_left (Nat.le_trans first.clock)
  · exact second.tidy
  · exact Nat.le_trans first.count second.count
  · intro handle old
    rw [second.history handle (issued handle old), first.history handle old]
  · intro handle history new found
    by_cases middle : handle < s₁.draft.timeline.count
    · rw [second.history handle middle] at found
      exact first.still new found
    · exact second.still (Nat.le_of_not_lt middle) found
  · intro handle old live
    exact first.gone handle old (second.gone handle (issued handle old) live)
  · intro handle locked carries allowed
    exact second.kept (first.kept carries allowed) allowed

theorem mono {more : Handle → Prop} (extends' : Extends lost s s' code)
    (subset : ∀ handle, lost handle → more handle) : Extends more s s' code :=
  { extends' with
    kept := fun carries allowed => extends'.kept carries
      (allowed.imp_right fun outside within => outside (subset _ within)) }

/-- Losing what does not exist yet is no loss. -/
theorem of_new (tidy : s.draft.Tidy)
    (extends' : Extends (fun handle => lost handle ∨ s.draft.timeline.count ≤ handle) s s' code) :
    Extends lost s s' code :=
  { extends' with
    kept := by
      intro handle locked carries allowed
      obtain ⟨slot, holds⟩ := Draft.live_of_carries carries
      have old := tidy.lt_count_of_holds holds
      apply extends'.kept carries
      apply allowed.imp_right
      rintro outside (within | new)
      · exact outside within
      · exact Nat.not_le_of_lt old new }

/-- An old value has the register that it had. -/
theorem current (extends' : Extends lost s s' code) {handle : Handle}
    (old : handle < s.draft.timeline.count) :
    s'.draft.timeline.current handle = s.draft.timeline.current handle := by
  rw [Timeline.current, Timeline.current, extends'.history handle old]

end Extends

section Steps

variable {s s' : State} {u : Unit} (tidy : s.draft.Tidy)
include tidy

theorem extends_emit {instrs : List Instr} (lost : Handle → Prop)
    (run : emit instrs s = .ok u s') :
    ∃ code, code.map Entry.instr = instrs ∧ Extends lost s s' code ∧
      s'.draft.timeline = s.draft.timeline := by
  have quiet := plain_emit instrs s u s' run
  obtain ⟨code, same, spelled, stamped⟩ := s.draft.text.stamped_append instrs
  have text : s'.draft.text = s.draft.text.append instrs := by
    rw [← Success.modify_ok.mp run]
  refine ⟨code, spelled, .of_quiet tidy quiet ?_ ?_, quiet.timeline⟩
  · rw [text, same]
  · rw [text]
    exact stamped

theorem extends_tracking {action : Tracking String} (lost : Handle → Prop)
    (run : tracking action s = .ok u s') :
    Extends lost s s' [] ∧ s'.draft.timeline = s.draft.timeline := by
  have quiet := plain_tracking action s u s' run
  obtain ⟨message, s₁, tracked, logged⟩ := Success.bind_ok.mp run
  have text : s₁.draft.text = s.draft.text := by
    cases moved : action s.depth with
    | ok message depth =>
      simp only [moved] at tracked
      cases tracked
      rfl
    | error fault depth =>
      simp only [moved] at tracked
      cases tracked
  refine ⟨.of_quiet tidy quiet ?_ (by simp), quiet.timeline⟩
  rw [text_log logged, text, List.append_nil]

theorem extends_issue {slot : Pool.Slot} {claim : Pool.Claim} (lost : Handle → Prop)
    (empty : s.draft.pool.occupant? slot = none)
    (produces : claim ≠ .used → slot = Pool.accumulator) :
    Extends lost s { s with draft := s.draft.issue slot claim } [] := by
  have apart : ∀ {other occupant}, s.draft.pool.occupant? other = some occupant →
      other ≠ slot := by
    rintro other occupant occupied rfl
    rw [empty] at occupied
    contradiction
  constructor
  · exact (List.append_nil _).symm
  · exact Nat.le_refl _
  · simp
  · exact tidy.issue produces
  · simp
  · intro handle old
    rw [Draft.history?_issue, if_neg (Nat.ne_of_lt old)]
  · intro handle history new issued
    rw [Draft.history?_issue] at issued
    split at issued
    · cases issued
      rfl
    · exact absurd (Timeline.lt_count_of_history? issued) (Nat.not_lt_of_le new)
  · rintro handle old ⟨other, holds⟩
    unfold Draft.Holds at holds
    rw [Draft.occupant?_issue] at holds
    split at holds
    · cases holds
      exact absurd old (Nat.lt_irrefl _)
    · exact ⟨other, holds⟩
  · rintro handle locked ⟨other, occupant, occupied, rest⟩ _
    exact ⟨other, occupant, by rw [Draft.occupant?_issue, if_neg (apart occupied), occupied], rest⟩

/-- A register of the pool that is handed out was free. -/
theorem extends_nextRegister {size : Size} {register : Register} (lost : Handle → Prop)
    (run : drafting (Drafting.nextRegister size) s = .ok register s') :
    ∃ slot, s.draft.pool.occupant? slot = none ∧
      register = ⟨.slot s.draft.timeline.count, size⟩ ∧
      s'.draft.timeline.current s.draft.timeline.count = some (Pool.slotPhys slot) ∧
      s'.draft.timeline.count = s.draft.timeline.count + 1 ∧
      s'.draft.Carries s.draft.timeline.count false ∧ Extends lost s s' [] := by
  obtain ⟨draft, drafted, rfl⟩ := drafting_ok.mp run
  obtain ⟨slot, empty, _, rfl, rfl⟩ := Drafting.nextRegister_ok drafted
  refine ⟨slot, empty, rfl, ?_, Draft.count_issue _ _ _, ?_, ?_⟩
  · simp [Timeline.current, Draft.history?_issue, History.current]
  · exact ⟨slot, _, by rw [Draft.occupant?_issue, if_pos rfl], rfl, rfl⟩
  · exact extends_issue tidy lost empty fun impossible => absurd rfl impossible

theorem extends_callResult {size : Size} {result : Operand} (lost : Handle → Prop)
    (run : callResult size s = .ok result s') : Extends lost s s' [] := by
  simp only [callResult, Success.ite_apply] at run
  split at run
  · obtain ⟨_, rfl⟩ := Success.pure_ok.mp run
    exact .refl tidy
  · obtain ⟨register, s₁, allocated, returned⟩ := Success.bind_ok.mp run
    obtain ⟨_, rfl⟩ := Success.pure_ok.mp returned
    obtain ⟨draft, drafted, rfl⟩ := drafting_ok.mp allocated
    obtain ⟨empty, _, rfl⟩ := Drafting.callAlloc_ok drafted
    exact extends_issue tidy lost empty fun _ => rfl

theorem extends_modifyFrame {change : Frame → Frame} (lost : Handle → Prop)
    (run : modifyFrame change s = .ok u s') : Extends lost s s' [] := by
  obtain rfl := Success.modify_ok.mp run
  exact .of_quiet tidy ⟨rfl, rfl, Nat.le_refl _, rfl⟩ (List.append_nil _).symm (by simp)

theorem extends_reclaim {words : Nat} {wasLeaf : Bool} (lost : Handle → Prop)
    (run : reclaim words wasLeaf s = .ok u s') : ∃ code, Extends lost s s' code := by
  simp only [reclaim, Success.ite_apply] at run
  split at run
  · obtain ⟨_, rfl⟩ := Success.pure_ok.mp run
    exact ⟨[], .refl tidy⟩
  · split at run
    · obtain ⟨_, s₁, emitted, tracked⟩ := Success.bind_ok.mp run
      obtain ⟨code, _, first, _⟩ := extends_emit tidy lost emitted
      exact ⟨_, first.trans (extends_tracking first.tidy lost tracked).1⟩
    · exact ⟨[], extends_modifyFrame tidy lost run⟩

/-- A release drops an unlocked value, or changes nothing if there is none. -/
theorem release_ok {operand : Operand} (run : release operand s = .ok u s') :
    (s = s' ∧ ∀ handle, operand.handle? = some handle → ¬ s.draft.Carries handle false) ∨
      ∃ slot occupant, operand.handle? = some occupant.handle ∧
        s.draft.pool.occupant? slot = some occupant ∧ occupant.locked = false ∧
        { s with draft := s.draft.refill slot none } = s' := by
  obtain ⟨freed, middle, freeing, rest⟩ := Success.bind_ok.mp run
  obtain ⟨_, rfl⟩ := Success.pure_ok.mp rest
  obtain ⟨draft, drafted, rfl⟩ := drafting_ok.mp freeing
  by_cases owns : ∃ slot occupant, operand.handle? = some occupant.handle ∧
      s.draft.pool.occupant? slot = some occupant ∧ occupant.locked = false
  · obtain ⟨slot, occupant, behind, occupied, unlocked⟩ := owns
    have found : s.draft.slotOf? operand = some slot :=
      tidy.slotOf?_eq_some_iff.mpr ⟨_, behind, by simp [Draft.Holds, occupied]⟩
    have open' : s.draft.isLocked operand = false := by
      simp [Draft.isLocked, found, occupied, unlocked]
    have ran : Drafting.free operand false s.draft = .ok true (s.draft.refill slot none) := by
      simp only [Drafting.free, Success.bind_ok, Success.get_ok]
      refine ⟨_, _, ⟨rfl, rfl⟩, ?_⟩
      simp only [found, open', Bool.false_and, Bool.false_eq_true, if_false]
      rfl
    rw [ran] at drafted
    cases drafted
    exact .inr ⟨slot, occupant, behind, occupied, unlocked, rfl⟩
  · rcases Drafting.free_ok drafted with rfl | ⟨slot, found, unlocked, rfl⟩
    · refine .inl ⟨rfl, ?_⟩
      rintro _ behind ⟨slot, occupant, occupied, rfl, unlocked⟩
      exact owns ⟨slot, occupant, behind, occupied, unlocked⟩
    · obtain ⟨_, behind, holds⟩ := tidy.slotOf?_eq_some_iff.mp found
      obtain ⟨occupant, occupied, rfl⟩ := Option.map_eq_some_iff.mp holds
      refine absurd ⟨slot, occupant, behind, occupied, ?_⟩ owns
      simpa [Draft.isLocked, found, occupied] using unlocked

theorem extends_drop {slot : Pool.Slot} {occupant : Pool.Occupant} {lost : Handle → Prop}
    (occupied : s.draft.pool.occupant? slot = some occupant) (unlocked : occupant.locked = false)
    (own : lost occupant.handle) :
    Extends lost s { s with draft := s.draft.refill slot none } [] := by
  constructor
  · exact (List.append_nil _).symm
  · exact Nat.le_refl _
  · simp
  · exact tidy.drop slot
  · exact Nat.le_refl _
  · exact fun _ _ => rfl
  · intro other history new issued
    exact absurd (Timeline.lt_count_of_history? issued) (Nat.not_lt_of_le new)
  · rintro other _ ⟨place, there⟩
    unfold Draft.Holds at there
    rw [Draft.occupant?_refill] at there
    split at there
    · contradiction
    · exact ⟨place, there⟩
  · rintro _ _ ⟨place, second, occupied', rfl, rfl⟩ allowed
    have apart : place ≠ slot := by
      rintro rfl
      obtain rfl := Option.some.inj (occupied.symm.trans occupied')
      rcases allowed with locked | outside
      · rw [unlocked] at locked
        contradiction
      · exact outside own
    exact ⟨place, second, by rw [Draft.occupant?_refill, if_neg apart, occupied'], rfl, rfl⟩

/-- A value that is dropped is gone: it was in no other slot. -/
theorem not_live_drop {slot : Pool.Slot} {handle : Handle} (holds : s.draft.Holds slot handle) :
    ¬ (s.draft.refill slot none).Live handle := by
  rintro ⟨place, there⟩
  unfold Draft.Holds at there
  rw [Draft.occupant?_refill] at there
  split at there
  · contradiction
  · rename_i apart
    exact apart (tidy.slot_unique there holds)

/-- What is released gives up its register, unless it is locked. -/
theorem extends_release {operand : Operand} (run : release operand s = .ok u s') :
    Extends (fun handle => operand.handle? = some handle) s s' [] ∧
      s'.draft.timeline = s.draft.timeline ∧
      ∀ handle, operand.handle? = some handle → s.draft.Carries handle false →
        ¬ s'.draft.Live handle := by
  rcases release_ok tidy run with
    ⟨rfl, none⟩ | ⟨slot, occupant, behind, occupied, unlocked, rfl⟩
  · exact ⟨.refl tidy, rfl, fun handle behind carries => absurd carries (none handle behind)⟩
  · refine ⟨extends_drop tidy occupied unlocked behind, rfl, ?_⟩
    intro handle behind' _
    obtain rfl := Option.some.inj (behind.symm.trans behind')
    exact not_live_drop tidy (by simp [Draft.Holds, occupied])

end Steps

section Operands

variable {s s' : State} {u : Unit} {parameter : Variable} {argument : Operand}

/-- A literal that needs no more bytes than a width has is found to fit it. -/
theorem fits_of_noWider {literal : Literal} {size wide : Size} {fitting : Bool}
    (narrow : NoWider literal size) (wider : size.bytes ≤ wide.bytes)
    (run : fits literal wide s = .ok fitting s') : fitting = true ∧ s' = s := by
  obtain ⟨need, found, small⟩ := narrow
  have roomy : ¬ (wide ≠ .unsized && decide (wide.bytes < need)) = true := by
    simp only [Bool.and_eq_true, decide_eq_true_eq, not_and]
    intro _
    omega
  unfold fits at run
  rw [found] at run
  dsimp only at run
  rw [if_neg roomy] at run
  obtain ⟨rfl, rfl⟩ := Success.pure_ok.mp run
  exact ⟨rfl, rfl⟩

theorem storeLiteral_register {literal : Literal} {size : Size} {register : Register}
    (order : ChunkOrder) (narrow : NoWider literal size) (wider : size.bytes ≤ register.size.bytes)
    (run : storeLiteral (.reg register) literal order s = .ok u s') :
    emit [.binary .mov (.reg register) (.lit literal)] s = .ok u s' := by
  unfold storeLiteral at run
  obtain ⟨fitting, s₁, fitted, stored⟩ := Success.bind_ok.mp run
  obtain ⟨rfl, rfl⟩ := fits_of_noWider narrow wider fitted
  exact stored

theorem bytes_le_word (size : Size) : size.bytes ≤ Size.s64.bytes := by
  cases size <;> decide

theorem Variable.Scalar.bytes_lt_word (scalar : parameter.Scalar)
    (narrow : parameter.operandSize ≠ .s64) : parameter.operandSize.bytes < Size.s64.bytes := by
  have low := scalar.low
  revert narrow low
  cases parameter.operandSize <;> decide

/-- The instruction that passes an argument in a register. -/
theorem passInRegister_ok {phys : Phys} (fitting : Fitting parameter argument)
    (run : passInRegister parameter argument phys s = .ok u s') :
    emit [loadCode parameter argument phys] s = .ok u s' := by
  have exact' : ∀ {size : Size}, size.bytes ≤ size.bytes := fun {size} => Nat.le_refl _
  unfold passInRegister at run
  unfold loadCode
  cases fitting with
  | @reference pointer reference =>
    rw [if_pos reference] at run
    obtain ⟨cell, s₁, found, emitted⟩ := Success.bind_ok.mp run
    obtain ⟨rfl, rfl⟩ := Success.pure_ok.mp found
    rw [reference]
    exact emitted
  | @literal literal value narrow =>
    rw [if_neg (by simp [value])] at run
    rw [value]
    exact storeLiteral_register .lowFirst narrow exact' run
  | @register register value size =>
    rw [if_neg (by simp [value])] at run
    rw [value]
    change moveRegister (.fix phys parameter.operandSize) register _ s = _ at run
    unfold moveRegister at run
    rw [if_pos (by rw [size]; exact exact')] at run
    have same : register.resize (Register.fix phys parameter.operandSize).size = register := by
      rw [← size]
      rfl
    rw [same] at run
    exact run
  | @cell pointer value size =>
    rw [if_neg (by simp [value])] at run
    rw [value]
    change moveCell (.fix phys parameter.operandSize) pointer _ s = _ at run
    unfold moveCell at run
    rw [if_pos (by rw [size]; exact exact')] at run
    have same : pointer.resize (Register.fix phys parameter.operandSize).size = pointer := by
      rw [← size]
      rfl
    rw [same] at run
    exact run

/-- What is pushed for an argument that needs no register. -/
theorem pushable_direct {value word : Operand} {s₁ : State} (fitting : Fitting parameter argument)
    (direct : detours parameter argument = false) (register : Register)
    (found : stackArgument parameter argument s = .ok value s₁)
    (fitted : pushable parameter.type value s₁ = .ok word s') :
    s' = s ∧ word = pushed parameter argument register := by
  unfold stackArgument at found
  unfold pushed
  rw [if_neg (by simp [direct])]
  cases fitting with
  | reference reference => simp [detours, reference] at direct
  | @literal literal given narrow =>
    rw [if_neg (by simp [given])] at found
    obtain ⟨rfl, rfl⟩ := Success.pure_ok.mp found
    have short : literal.fitsImm32 = true := by simpa [detours] using direct
    unfold pushable at fitted
    dsimp only at fitted
    rw [if_pos short] at fitted
    obtain ⟨rfl, rfl⟩ := Success.pure_ok.mp fitted
    exact ⟨rfl, rfl⟩
  | register given size =>
    rw [if_neg (by simp [given])] at found
    obtain ⟨rfl, rfl⟩ := Success.pure_ok.mp found
    obtain ⟨rfl, rfl⟩ := Success.pure_ok.mp fitted
    exact ⟨rfl, rfl⟩
  | @cell pointer given size =>
    rw [if_neg (by simp [given])] at found
    obtain ⟨rfl, rfl⟩ := Success.pure_ok.mp found
    have whole : pointer.size = .s64 := by simpa [detours, given] using direct
    unfold pushable at fitted
    dsimp only at fitted
    rw [if_pos whole] at fitted
    obtain ⟨rfl, rfl⟩ := Success.pure_ok.mp fitted
    exact ⟨rfl, rfl⟩

/-- Loading a literal or a cell takes a fresh register. -/
theorem load_fresh {size : Size} {signed : Bool} {register : Register}
    (other : ∀ given, argument ≠ .reg given)
    (run : load argument size signed s = .ok register s') :
    ∃ s₁ s₂, drafting (Drafting.nextRegister size) s = .ok register s₁ ∧
      move (.reg register) argument signed .lowFirst s₁ = .ok () s₂ ∧
      release argument s₂ = .ok () s' := by
  simp only [load, Success.bind_ok, temp_ok] at run
  obtain ⟨temporary, _, ⟨known, rfl⟩, run⟩ := run
  split at run
  · rename_i given
    exact absurd rfl (other given)
  · simp only [Success.bind_ok] at run
    obtain ⟨chosen, s₁, allocated, _, s₂, moved, _, s₃, released, run⟩ := run
    obtain ⟨rfl, rfl⟩ := Success.pure_ok.mp run
    exact ⟨s₁, s₂, allocated, moved, released⟩

theorem register_of_nextRegister {size : Size} {register : Register}
    (run : drafting (Drafting.nextRegister size) s = .ok register s') :
    register = ⟨.slot s.draft.timeline.count, size⟩ := by
  obtain ⟨draft, drafted, _⟩ := drafting_ok.mp run
  obtain ⟨_, _, _, same, _⟩ := Drafting.nextRegister_ok drafted
  exact same

/-- The register that an argument is pushed from is fresh, and its first instruction is the one that
takes the argument there. -/
theorem pushable_detour {value word : Operand} {s₁ : State} (scalar : parameter.Scalar)
    (fitting : Fitting parameter argument) (takes : detours parameter argument = true)
    (found : stackArgument parameter argument s = .ok value s₁)
    (fitted : pushable parameter.type value s₁ = .ok word s') :
    ∃ register s₂ s₃, drafting (Drafting.nextRegister .s64) s = .ok register s₂ ∧
      emit [detour parameter argument register] s₂ = .ok () s₃ ∧ word = .reg register ∧
      (s₃ = s' ∨ release argument s₃ = .ok () s') := by
  cases fitting with
  | @reference pointer reference =>
    unfold stackArgument at found
    rw [if_pos reference] at found
    simp only [Success.bind_ok] at found
    obtain ⟨cell, _, referred, register, s₂, allocated, _, s₃, emitted, returned⟩ := found
    obtain ⟨rfl, rfl⟩ := Success.pure_ok.mp referred
    obtain ⟨rfl, rfl⟩ := Success.pure_ok.mp returned
    obtain rfl := register_of_nextRegister allocated
    obtain ⟨rfl, rfl⟩ := Success.pure_ok.mp fitted
    have loads : ∀ register, detour parameter (.mem pointer) register =
        .binary .lea (.reg register) (.mem (pointer.resize .unsized)) :=
      fun register => if_pos reference
    refine ⟨_, s₂, _, allocated, ?_, rfl, .inl rfl⟩
    rw [loads]
    exact emitted
  | @literal literal given narrow =>
    unfold stackArgument at found
    rw [if_neg (by simp [given])] at found
    obtain ⟨rfl, rfl⟩ := Success.pure_ok.mp found
    have long : ¬ literal.fitsImm32 = true := by simpa [detours] using takes
    unfold pushable at fitted
    dsimp only at fitted
    rw [if_neg long] at fitted
    obtain ⟨register, s₄, loaded, returned⟩ := Success.bind_ok.mp fitted
    obtain ⟨rfl, rfl⟩ := Success.pure_ok.mp returned
    obtain ⟨s₂, s₃, allocated, moved, released⟩ := load_fresh (by simp) loaded
    obtain rfl := register_of_nextRegister allocated
    refine ⟨_, s₂, s₃, allocated, ?_, rfl, .inr released⟩
    exact storeLiteral_register .lowFirst narrow (bytes_le_word _) moved
  | register given size => simp [detours] at takes
  | @cell pointer given size =>
    unfold stackArgument at found
    rw [if_neg (by simp [given])] at found
    obtain ⟨rfl, rfl⟩ := Success.pure_ok.mp found
    have narrow : pointer.size ≠ .s64 := by simpa [detours, given] using takes
    unfold pushable at fitted
    dsimp only at fitted
    rw [if_neg narrow] at fitted
    obtain ⟨register, s₄, loaded, returned⟩ := Success.bind_ok.mp fitted
    obtain ⟨rfl, rfl⟩ := Success.pure_ok.mp returned
    obtain ⟨s₂, s₃, allocated, moved, released⟩ := load_fresh (by simp) loaded
    obtain rfl := register_of_nextRegister allocated
    refine ⟨_, s₂, s₃, allocated, ?_, rfl, .inr released⟩
    have fewer : ¬ Size.s64.bytes ≤ pointer.size.bytes := by
      rw [size] at narrow ⊢
      exact Nat.not_le_of_lt (Variable.Scalar.bytes_lt_word scalar narrow)
    change moveCell _ pointer _ s₂ = _ at moved
    unfold moveCell at moved
    rw [if_neg fewer] at moved
    have widens : ∀ register, detour parameter (.mem pointer) register =
        widening register (.mem pointer) parameter.type.isSigned :=
      fun register => if_neg (by simp [given])
    rw [widens]
    exact moved

/-- The instruction that pushes a word, behind which the word is given up. -/
theorem pushWord_ok {word : Operand} {action : Tracking String} {s₁ s₂ : State} {u₁ u₂ : Unit}
    (tidy : s.draft.Tidy) (emitted : emit [.unary .push word] s = .ok u₁ s₁)
    (tracked : tracking action s₁ = .ok u₂ s₂) (released : release word s₂ = .ok u s') :
    ∃ code, code.map Entry.instr = [.unary .push word] ∧
      Extends (fun handle => word.handle? = some handle) s s' code ∧
      s'.draft.timeline = s.draft.timeline ∧
      ∀ handle, word.handle? = some handle → s.draft.Carries handle false →
        ¬ s'.draft.Live handle := by
  obtain ⟨code, spelled, first, same₁⟩ := extends_emit tidy (fun _ => False) emitted
  obtain ⟨second, same₂⟩ := extends_tracking first.tidy (fun _ => False) tracked
  obtain ⟨third, same₃, freed⟩ := extends_release second.tidy released
  have before := first.trans second
  rw [List.append_nil] at before
  refine ⟨code, spelled, ?_, by rw [same₃, same₂, same₁], ?_⟩
  · rw [← List.append_nil code]
    exact (before.mono fun _ => False.elim).trans third
  · intro handle behind carries
    exact freed handle behind (before.kept carries (.inr id))

theorem handle?_pushed {register : Register} (direct : detours parameter argument = false) :
    (pushed parameter argument register).handle? = argument.handle? := by
  unfold pushed
  rw [if_neg (by simp [direct])]
  cases argument with
  | reg given => exact Operand.handle?_resize given .s64
  | absent | lit literal | mem pointer => rfl

/-- What pushing an argument comes to.  An argument that has to go by way of a register takes one of
the pool that is free, for as long. -/
structure PushesOne (parameter : Variable) (argument : Operand) (s s' : State) (code : List Entry) :
    Prop where
  extended : Extends (fun handle => argument.handle? = some handle) s s' code
  spelled : code.map Entry.instr = pushCode parameter argument ⟨.slot s.draft.timeline.count, .s64⟩
  old : ∀ handle, s'.draft.Live handle → handle < s.draft.timeline.count
  free : detours parameter argument = true → s.draft.timeline.count < s'.draft.timeline.count ∧
    ∃ slot, s.draft.pool.occupant? slot = none ∧
      s'.draft.timeline.current s.draft.timeline.count = some (Pool.slotPhys slot)

theorem pushArgument_direct (tidy : s.draft.Tidy) (fitting : Fitting parameter argument)
    (direct : detours parameter argument = false)
    (run : pushArgument parameter argument s = .ok u s') :
    ∃ code, PushesOne parameter argument s s' code := by
  simp only [pushArgument, Success.bind_ok] at run
  obtain ⟨value, s₁, found, word, s₂, fitted, _, s₃, emitted, _, s₄, tracked, released⟩ := run
  obtain ⟨rfl, rfl⟩ :=
    pushable_direct fitting direct ⟨.slot s.draft.timeline.count, .s64⟩ found fitted
  obtain ⟨code, spelled, whole, same, _⟩ := pushWord_ok tidy emitted tracked released
  simp only [handle?_pushed direct] at whole
  refine ⟨code, whole, ?_, ?_, ?_⟩
  · rw [pushCode, if_neg (by simp [direct]), spelled]
    rfl
  · rintro handle ⟨place, holds⟩
    rw [← same]
    exact whole.tidy.lt_count_of_holds holds
  · intro takes
    rw [direct] at takes
    contradiction

theorem pushArgument_detour (tidy : s.draft.Tidy) (scalar : parameter.Scalar)
    (fitting : Fitting parameter argument) (takes : detours parameter argument = true)
    (issued : ∀ handle, argument.handle? = some handle → handle < s.draft.timeline.count)
    (run : pushArgument parameter argument s = .ok u s') :
    ∃ code, PushesOne parameter argument s s' code := by
  simp only [pushArgument, Success.bind_ok] at run
  obtain ⟨value, s₁, found, word, s₂, fitted, _, s₃, emitted, _, s₄, tracked, released⟩ := run
  obtain ⟨register, s₅, s₆, allocated, filled, rfl, given⟩ :=
    pushable_detour scalar fitting takes found fitted
  have through : pushed parameter argument ⟨.slot s.draft.timeline.count, .s64⟩ =
      .reg ⟨.slot s.draft.timeline.count, .s64⟩ := if_pos takes
  let own : Handle → Prop := fun handle => argument.handle? = some handle
  obtain ⟨slot, empty, rfl, here, count₁, carries, first⟩ := extends_nextRegister tidy own allocated
  obtain ⟨front, spelled, second, same₂⟩ := extends_emit first.tidy own filled
  obtain ⟨third, same₃⟩ : Extends own s₆ s₂ [] ∧ s₂.draft.timeline = s₆.draft.timeline := by
    rcases given with rfl | freed
    · exact ⟨.refl second.tidy, rfl⟩
    · obtain ⟨third, same₃, _⟩ := extends_release second.tidy freed
      exact ⟨third, same₃⟩
  have middle := second.trans third
  have before := first.trans middle
  rw [List.append_nil] at middle before
  rw [List.nil_append] at before
  obtain ⟨back, spelled', last, same₄, freed⟩ := pushWord_ok before.tidy emitted tracked released
  have total : s'.draft.timeline.count = s.draft.timeline.count + 1 := by
    rw [same₄, same₃, same₂, count₁]
  have whole : Extends own s s' (front ++ back) := by
    apply Extends.of_new tidy
    apply (before.mono fun _ => .inl).trans (last.mono _)
    intro handle behind
    cases behind
    exact .inr (Nat.le_refl _)
  -- nobody else has the register, so that the release behind the push empties it
  have fresh : s₂.draft.Carries s.draft.timeline.count false := by
    apply middle.kept carries
    exact .inr fun behind => Nat.lt_irrefl _ (issued _ behind)
  refine ⟨front ++ back, whole, ?_, ?_, fun _ => ⟨?_, slot, empty, ?_⟩⟩
  · rw [pushCode, if_pos takes, through, List.map_append, spelled, spelled']
  · intro handle live
    obtain ⟨place, holds⟩ := live
    have bound := whole.tidy.lt_count_of_holds holds
    rw [total] at bound
    apply Nat.lt_of_le_of_ne (Nat.le_of_lt_succ bound)
    rintro rfl
    exact freed _ rfl fresh ⟨place, holds⟩
  · rw [total]
    exact Nat.lt_succ_self _
  · have old : s.draft.timeline.count < s₅.draft.timeline.count := by
      rw [count₁]
      exact Nat.lt_succ_self _
    rw [last.current (Nat.lt_of_lt_of_le old middle.count), middle.current old, here]

theorem pushArgument_ok (tidy : s.draft.Tidy) (scalar : parameter.Scalar)
    (fitting : Fitting parameter argument)
    (issued : ∀ handle, argument.handle? = some handle → handle < s.draft.timeline.count)
    (run : pushArgument parameter argument s = .ok u s') :
    ∃ code, PushesOne parameter argument s s' code := by
  cases way : detours parameter argument with
  | false => exact pushArgument_direct tidy fitting way run
  | true => exact pushArgument_detour tidy scalar fitting way issued run

end Operands

/-- The register of an operand is the frame pointer, or it holds a value of the pool. -/
def Based (draft : Draft) (operand : Operand) : Prop :=
  ∀ register, operand.base? = some register → register.place = .fixed (some .rbp) ∨
    ∃ handle, register.place = .slot handle ∧ draft.Live handle

/-- Two arguments share a value only if it is locked. -/
def Apart (draft : Draft) (first second : Variable × Operand) : Prop :=
  ∀ handle, first.2.handle? = some handle → second.2.handle? = some handle →
    draft.Carries handle true

/-- The handles that some arguments may give up. -/
def Given (items : List (Variable × Operand)) (handle : Handle) : Prop :=
  ∃ item ∈ items, item.2.handle? = some handle

/-- Places of the handles in a stretch of code: new values are where they were put, and old ones too,
or else in a register that the code names for no new value. -/
structure Places (before after : Timeline) (code : List Entry) (place : Handle → Option Phys) :
    Prop where
  fresh : ∀ handle, before.count ≤ handle → handle < after.count →
    place handle = after.current handle
  old : ∀ handle, handle < before.count → place handle = before.current handle ∨
    ∀ entry ∈ code, ∀ new phys, entry.instr.Names new → before.count ≤ new →
      after.current new = some phys → place handle ≠ some phys

section Lists

variable {s s₁ s' : State} {u : Unit} {lost : Handle → Prop} {place : Handle → Option Phys}
  {front back code : List Entry} {list later : List (Variable × Operand)}

theorem current_eq_none {timeline : Timeline} {handle : Handle} (new : timeline.count ≤ handle) :
    timeline.current handle = none := by
  unfold Timeline.current
  cases issued : timeline.history? handle with
  | none => rfl
  | some history => exact absurd (Timeline.lt_count_of_history? issued) (Nat.not_lt_of_le new)

theorem Places.left {before middle after : Timeline} (places : Places before after code place)
    (count : middle.count ≤ after.count)
    (same : ∀ handle, handle < middle.count → after.current handle = middle.current handle)
    (subset : ∀ entry ∈ front, entry ∈ code) : Places before middle front place := by
  constructor
  · intro handle new issued
    rw [places.fresh handle new (Nat.lt_of_lt_of_le issued count), same handle issued]
  · intro handle old
    apply (places.old handle old).imp_right
    intro unnamed entry member new phys names later here
    by_cases issued : new < middle.count
    · apply unnamed entry (subset entry member) new phys names later
      rw [same new issued, here]
    · rw [current_eq_none (Nat.le_of_not_lt issued)] at here
      contradiction

theorem Based.issued (tidy : s.draft.Tidy) {operand : Operand} (based : Based s.draft operand)
    {handle : Handle} (behind : operand.handle? = some handle) :
    handle < s.draft.timeline.count := by
  obtain ⟨register, base, place⟩ := Operand.handle?_eq_some_iff.mp behind
  rcases based register base with fixed | ⟨other, here, slot, holds⟩
  · rw [place] at fixed
    contradiction
  · rw [place] at here
    cases here
    exact tidy.lt_count_of_holds holds

theorem slotPhys_ne_rbp (slot : Pool.Slot) : Pool.slotPhys slot ≠ .rbp := by
  revert slot
  decide

/-- A value stays in the pool while arguments are passed that do not share it or have it locked. -/
theorem kept_live (item : Variable × Operand) {handle : Handle} (tidy : s.draft.Tidy)
    (passed : Extends (Given list) s s' code) (behind : item.2.handle? = some handle)
    (live : s.draft.Live handle) (apart : ∀ other ∈ list, Apart s.draft item other) :
    s'.draft.Live handle := by
  obtain ⟨slot, holds⟩ := live
  obtain ⟨locked, carries⟩ := Draft.carries_of_holds holds
  apply Draft.live_of_carries (passed.kept carries _)
  by_cases given : Given list handle
  · obtain ⟨other, member, behind'⟩ := given
    exact .inl (tidy.carries_unique carries (apart other member handle behind behind'))
  · exact .inr given

theorem named_of_pushCode {entries : List Entry} {parameter : Variable} {argument : Operand}
    {handle : Handle} (takes : detours parameter argument = true)
    (spelled : entries.map Entry.instr = pushCode parameter argument ⟨.slot handle, .s64⟩) :
    ∃ entry ∈ entries, entry.instr.Names handle := by
  have pushes : (.unary .push (.reg ⟨.slot handle, .s64⟩) : Instr) ∈ entries.map Entry.instr := by
    have through : pushed parameter argument ⟨.slot handle, .s64⟩ = .reg ⟨.slot handle, .s64⟩ :=
      if_pos takes
    rw [spelled, pushCode, through]
    exact List.mem_append_right _ List.mem_cons_self
  obtain ⟨entry, member, same⟩ := List.mem_map.mp pushes
  refine ⟨entry, member, ⟨.slot handle, .s64⟩, ?_, rfl⟩
  rw [same]
  simp [Instr.registers, Instr.operands, Operand.base?]

/-- The register that an argument is pushed from holds none of the operands that are passed later. -/
theorem locate_ne_free {item : Variable × Operand} {after : Timeline} {slot : Pool.Slot}
    {register : Register} (tidy : s.draft.Tidy) (passed : Extends (Given list) s s' front)
    (places : Places s.draft.timeline after code place)
    (empty : s'.draft.pool.occupant? slot = none)
    (fresh : after.current s'.draft.timeline.count = some (Pool.slotPhys slot))
    (named : ∃ entry ∈ code, entry.instr.Names s'.draft.timeline.count)
    (based : Based s.draft item.2) (apart : ∀ other ∈ list, Apart s.draft item other)
    (base : item.2.base? = some register) :
    locate place register ≠ some (Pool.slotPhys slot) := by
  intro located
  rcases based register base with fixed | ⟨handle, slotted, live⟩
  · have home : locate place register = some .rbp := by
      unfold locate
      rw [fixed]
    rw [home] at located
    exact slotPhys_ne_rbp slot (Option.some.inj located).symm
  · have older := tidy.lt_count_of_holds live.choose_spec
    have home : locate place register = place handle := by
      unfold locate
      rw [slotted]
    rw [home] at located
    -- a value of old stands where it was, and then it is live and the free register is another one
    rcases places.old handle older with same | unnamed
    · obtain ⟨other, holds⟩ := kept_live item tidy passed
        (Operand.handle?_eq_some_iff.mpr ⟨register, base, slotted⟩) live apart
      rw [same, ← passed.current older, passed.tidy.current_of_holds holds] at located
      cases Pool.slotPhys_injective (Option.some.inj located)
      simp [Draft.Holds, empty] at holds
    · obtain ⟨entry, among, names⟩ := named
      exact unnamed entry among _ _ names passed.count fresh located

/-- The code that pushes a list of arguments. -/
theorem pushes_ok (tidy : s.draft.Tidy) (suited : Suited list)
    (based : ∀ item ∈ later ++ list, Based s.draft item.2)
    (apart : ∀ item ∈ later, ∀ other ∈ list, Apart s.draft item other)
    (each : list.Pairwise (Apart s.draft))
    (run : list.reverse.forM (fun item => pushArgument item.1 item.2) s = .ok u s') :
    ∃ code, Extends (Given list) s s' code ∧
      (∀ handle, s'.draft.Live handle → handle < s.draft.timeline.count) ∧
      ∀ place, Places s.draft.timeline s'.draft.timeline code place →
        Pushes place later list code := by
  induction list generalizing later s' with
  | nil =>
    obtain ⟨_, rfl⟩ := Success.pure_ok.mp run
    refine ⟨[], .refl tidy, ?_, fun _ _ => .nil⟩
    rintro handle ⟨slot, holds⟩
    exact tidy.lt_count_of_holds holds
  | cons item rest inductionHypothesis =>
    obtain ⟨parameter, argument⟩ := item
    -- the others are pushed in front of this one, which is still to be passed meanwhile
    rw [List.reverse_cons, List.forM_eq_forM, List.forM_append] at run
    obtain ⟨_, s₁, ran, last⟩ := Success.bind_ok.mp run
    obtain ⟨_, s₂, pushing, done⟩ := Success.bind_ok.mp last
    obtain ⟨_, rfl⟩ := Success.pure_ok.mp done
    rw [List.pairwise_cons] at each
    have shared : ∀ item ∈ (parameter, argument) :: later, ∀ other ∈ rest,
        Apart s.draft item other := by
      intro item member other among
      rcases List.mem_cons.mp member with rfl | old
      · exact each.1 other among
      · exact apart item old other (List.mem_cons_of_mem _ among)
    obtain ⟨front, first, old, places⟩ := @inductionHypothesis _ ((parameter, argument) :: later)
      (fun other member => suited other (List.mem_cons_of_mem _ member))
      (by
        intro other member
        apply based other
        simp only [List.mem_append, List.mem_cons] at member ⊢
        tauto)
      shared each.2 ran
    have own := suited _ List.mem_cons_self
    have issued : ∀ handle, argument.handle? = some handle →
        handle < s₁.draft.timeline.count := by
      intro handle behind
      apply Nat.lt_of_lt_of_le _ first.count
      exact (based (parameter, argument) (by simp)).issued tidy behind
    obtain ⟨entries, second, spelled, newer, free⟩ :=
      pushArgument_ok first.tidy own.1 own.2 issued pushing
    have whole : Extends (Given ((parameter, argument) :: rest)) s s₂ (front ++ entries) := by
      apply (first.mono _).trans (second.mono _)
      · rintro handle ⟨other, member, behind⟩
        exact ⟨other, List.mem_cons_of_mem _ member, behind⟩
      · intro handle behind
        exact ⟨_, List.mem_cons_self, behind⟩
    refine ⟨front ++ entries, whole, ?_, ?_⟩
    · intro handle live
      have before := newer handle live
      exact old handle (second.gone handle before live)
    · intro place placed
      apply Pushes.cons (places place (placed.left second.count (fun _ => second.current)
        fun _ => List.mem_append_left _)) spelled
      intro takes
      obtain ⟨grown, slot, empty, here⟩ := free takes
      have there : place s₁.draft.timeline.count = some (Pool.slotPhys slot) := by
        rw [placed.fresh _ first.count grown, here]
      obtain ⟨entry, among, names⟩ := named_of_pushCode takes spelled
      refine ⟨slot, there, ?_⟩
      intro item member register base
      exact locate_ne_free tidy first placed empty here
        ⟨entry, List.mem_append_right _ among, names⟩ (based item (by simp [member]))
        (shared item (List.mem_cons_of_mem _ member)) base

/-- The code that loads the argument registers. -/
theorem loads_ok {items : List (Variable × Operand)} {registers : List Phys} (tidy : s.draft.Tidy)
    (suited : Suited items)
    (run : (items.zip registers).forM
      (fun item => passInRegister item.1.1 item.1.2 item.2) s = .ok u s') :
    ∃ code, code.map Entry.instr =
        (items.zip registers).map (fun ((parameter, argument), phys) =>
          loadCode parameter argument phys) ∧
      Extends lost s s' code ∧ s'.draft.timeline = s.draft.timeline := by
  induction registers generalizing items s with
  | nil =>
    rw [List.zip_nil_right] at run
    obtain ⟨_, rfl⟩ := Success.pure_ok.mp run
    exact ⟨[], by rw [List.zip_nil_right]; rfl, .refl tidy, rfl⟩
  | cons phys registers inductionHypothesis =>
    cases items with
    | nil =>
      obtain ⟨_, rfl⟩ := Success.pure_ok.mp run
      exact ⟨[], rfl, .refl tidy, rfl⟩
    | cons item items =>
      obtain ⟨_, s₁, passed, run⟩ := Success.bind_ok.mp run
      obtain ⟨front, spelled, first, same⟩ := extends_emit tidy lost
        (passInRegister_ok (suited item List.mem_cons_self).2 passed)
      obtain ⟨back, spelled', second, same'⟩ := inductionHypothesis first.tidy
        (fun other member => suited other (List.mem_cons_of_mem _ member)) run
      refine ⟨front ++ back, ?_, first.trans second, same'.trans same⟩
      rw [List.map_append, spelled, spelled']
      rfl

/-- Releasing operands writes no code. -/
theorem releases_ok {operands : List Operand} (tidy : s.draft.Tidy)
    (run : operands.forM release s = .ok u s') :
    Extends (fun handle => ∃ operand ∈ operands, operand.handle? = some handle) s s' [] ∧
      s'.draft.timeline = s.draft.timeline := by
  induction operands generalizing s with
  | nil =>
    obtain ⟨_, rfl⟩ := Success.pure_ok.mp run
    exact ⟨.refl tidy, rfl⟩
  | cons operand rest inductionHypothesis =>
    obtain ⟨_, s₁, released, run⟩ := Success.bind_ok.mp run
    obtain ⟨first, same, _⟩ := extends_release tidy released
    obtain ⟨second, same'⟩ := inductionHypothesis first.tidy run
    refine ⟨?_, same'.trans same⟩
    apply (first.mono _).trans (second.mono _)
    · intro handle behind
      exact ⟨operand, List.mem_cons_self, behind⟩
    · rintro handle ⟨other, member, behind⟩
      exact ⟨other, List.mem_cons_of_mem _ member, behind⟩

/-- The instruction that keeps the stack aligned. -/
theorem padding_ok {count : Nat} (tidy : s.draft.Tidy)
    (run : (if count % 2 = 1 then padStack else pure ()) s = .ok u s') :
    ∃ code, code.map Entry.instr = padCode count ∧ Extends lost s s' code ∧
      s'.draft.timeline = s.draft.timeline := by
  unfold padCode
  by_cases odd : count % 2 = 1
  · rw [if_pos odd] at run ⊢
    obtain ⟨_, s₁, emitted, tracked⟩ := Success.bind_ok.mp run
    obtain ⟨code, spelled, first, same⟩ := extends_emit tidy lost emitted
    obtain ⟨second, same'⟩ := extends_tracking first.tidy lost tracked
    refine ⟨code, spelled, ?_, same'.trans same⟩
    rw [← List.append_nil code]
    exact first.trans second
  · rw [if_neg odd] at run ⊢
    obtain ⟨_, rfl⟩ := Success.pure_ok.mp run
    exact ⟨[], rfl, .refl tidy, rfl⟩

theorem Based.kept {operand : Operand} (based : Based s.draft operand)
    (kept : Extends (fun _ => False) s s' code) : Based s'.draft operand := by
  intro register base
  apply (based register base).imp_right
  rintro ⟨handle, place, slot, holds⟩
  obtain ⟨locked, carries⟩ := Draft.carries_of_holds holds
  exact ⟨handle, place, Draft.live_of_carries (kept.kept carries (.inr id))⟩

/-- Passing arguments writes the code that passes them, and gives up no other registers than
theirs. -/
theorem passArguments_ok {params : List Variable} {arguments : List Operand} {words : Nat}
    (tidy : s.draft.Tidy) (suited : Suited (params.zip arguments))
    (based : ∀ item ∈ params.zip arguments, Based s.draft item.2)
    (each : (params.zip arguments).Pairwise (Apart s.draft))
    (run : passArguments params arguments s = .ok words s') :
    words = stackWords (params.zip arguments).length ∧
      ∃ code,
        Extends (fun handle => ∃ argument ∈ arguments, argument.handle? = some handle) s s' code ∧
        (∀ handle, s'.draft.Live handle → handle < s.draft.timeline.count) ∧
        ∀ place, Places s.draft.timeline s'.draft.timeline code place →
          PassCode place (params.zip arguments) code := by
  generalize zipped : params.zip arguments = items at suited based each
  have among : ∀ {handle}, Given (items.drop Function.registerArgs) handle →
      ∃ argument ∈ arguments, argument.handle? = some handle := by
    rintro handle ⟨item, member, behind⟩
    refine ⟨item.2, ?_, behind⟩
    rw [← zipped] at member
    exact (List.of_mem_zip (List.mem_of_mem_drop member)).2
  obtain ⟨s₁, s₂, s₃, padded, pushed, loaded, released, rfl⟩ :=
    passArguments_parts run zipped (show _ = items.drop Function.registerArgs from rfl)
  obtain ⟨padding, pads, first, same₁⟩ := @padding_ok s s₁ _ (fun _ => False) _ tidy padded
  have count : (items.drop Function.registerArgs).length = items.length - Function.registerArgs :=
    List.length_drop
  have halves : items.take Function.registerArgs ++ items.drop Function.registerArgs = items :=
    List.take_append_drop _ _
  have kept : ∀ first second, Apart s.draft first second → Apart s₁.draft first second :=
    fun one other apart handle here there => first.kept (apart handle here there) (.inl rfl)
  have split := each
  rw [← halves, List.pairwise_append] at split
  obtain ⟨pushes, second, old, placed⟩ := @pushes_ok s₁ s₂ () (items.drop Function.registerArgs)
    (items.take Function.registerArgs) first.tidy
    (fun item member => suited item (List.mem_of_mem_drop member))
    (by
      rw [halves]
      exact fun item member => (based item member).kept first)
    (fun item member other member' => kept _ _ (split.2.2 item member other member'))
    (split.2.1.imp fun apart => kept _ _ apart) pushed
  obtain ⟨loads, loading, third, same₃⟩ := loads_ok second.tidy suited loaded
  obtain ⟨fourth, same₄⟩ := releases_ok third.tidy released
  refine ⟨by rw [stackWords, count], padding ++ pushes ++ loads, ?_, ?_, ?_⟩
  · rw [← List.append_nil (padding ++ pushes ++ loads)]
    apply Extends.trans _ fourth
    apply (Extends.trans _ (second.mono fun _ => among)).trans third
    exact first.mono fun _ => False.elim
  · rintro handle ⟨slot, holds⟩
    have issued := fourth.tidy.lt_count_of_holds holds
    rw [same₄] at issued
    have live₃ := fourth.gone handle issued ⟨slot, holds⟩
    rw [same₃] at issued
    rw [← same₁]
    exact old handle (third.gone handle issued live₃)
  · intro place places
    refine ⟨padding, pushes, loads, rfl, ?_, ?_, loading⟩
    · rw [← count]
      exact pads
    · apply placed
      rw [same₄, same₃] at places
      rw [same₁]
      apply places.left (Nat.le_refl _) (fun _ _ => rfl)
      intro entry member
      exact List.mem_append_left _ (List.mem_append_right _ member)

end Lists

/-- What clearing the accumulator leaves of the code and of the places of the values: the one in the
accumulator goes on elsewhere, or it has been elsewhere all along, in a register that the code does not
name since the value was born. -/
structure Clears (draft draft' : Draft) (code : List Entry) : Prop where
  appended : draft'.text.code = draft.text.code ++ code
  clock : draft.text.clock ≤ draft'.text.clock
  stamped : ∀ entry ∈ code, draft.text.clock ≤ entry.tick ∧ entry.tick < draft'.text.clock
  tidy : draft'.Tidy
  count : draft'.timeline.count = draft.timeline.count
  others : ∀ {handle}, ¬ draft.Holds Pool.accumulator handle →
    draft'.timeline.history? handle = draft.timeline.history? handle
  occupant : ∀ {handle}, draft.Holds Pool.accumulator handle →
    (∀ tick, draft.timeline.born handle ≤ tick → tick < draft.text.clock →
      draft'.timeline.placeAt handle tick = draft.timeline.placeAt handle tick) ∨
    ∃ slot, (∀ tick, draft'.timeline.placeAt handle tick = some (Pool.slotPhys slot)) ∧
      draft.text.references draft.timeline (some (Pool.slotPhys slot))
        (draft.timeline.born handle) = false
  moves : ∀ entry ∈ code, ∃ handle slot, entry.instr = Draft.moveOut handle Pool.accumulator ∧
    draft'.timeline.placeAt handle entry.tick = some (Pool.slotPhys slot)

theorem reserve_clears {draft draft' : Draft} {u : Unit} (tidy : draft.Tidy)
    (run : Drafting.reserve draft = .ok u draft') : ∃ code, Clears draft draft' code := by
  have after : draft'.Tidy := tidy.steps (Draft.steps_reserve run)
  rcases Drafting.reserve_ok run with ⟨empty, rfl⟩ |
    ⟨occupant, free, message, occupied, empty, saved, ⟨ordinary, unnamed, rfl⟩ | rfl⟩
  · refine ⟨[], (List.append_nil _).symm, Nat.le_refl _, by simp, after, rfl, fun _ => rfl, ?_,
      by simp⟩
    intro handle holds
    simp [Draft.Holds, empty] at holds
  · have own : ∀ {handle}, draft.Holds Pool.accumulator handle ↔ handle = occupant.handle := by
      intro handle
      simp [Draft.Holds, occupied, eq_comm]
    refine ⟨[], (List.append_nil _).symm, Nat.le_refl _, by simp, after,
      Draft.count_renamed _ _ _, ?_, ?_, by simp⟩
    · intro handle other
      exact (Draft.history?_renamed draft free occupant handle).trans
        (if_neg fun same => other (own.mpr same))
    · intro handle holds
      obtain ⟨history, known⟩ := tidy.issued_of_holds holds
      obtain rfl := own.mp holds
      refine .inr ⟨free, ?_, unnamed⟩
      intro tick
      change (draft.renamed free occupant).timeline.placeAt _ _ = _
      simp [Timeline.placeAt, Draft.history?_renamed, known]
  · have own : ∀ {handle}, draft.Holds Pool.accumulator handle ↔ handle = occupant.handle := by
      intro handle
      simp [Draft.Holds, occupied, eq_comm]
    refine ⟨[⟨draft.text.clock, Draft.moveOut occupant.handle Pool.accumulator⟩],
      Stream.code_emit _ _, Nat.le_succ _, ?_, after,
      Draft.count_shift draft Pool.accumulator free occupant, ?_, ?_, ?_⟩
    · intro entry member
      rw [List.mem_singleton.mp member]
      exact ⟨Nat.le_refl _, Nat.lt_succ_self _⟩
    · intro handle other
      exact (Draft.history?_shift draft Pool.accumulator free occupant handle).trans
        (if_neg fun same => other (own.mpr same))
    · intro handle holds
      exact .inl fun tick born earlier =>
        Draft.placeAt_shift draft Pool.accumulator free occupant born earlier
    · intro entry member
      rw [List.mem_singleton.mp member]
      obtain ⟨history, known⟩ := tidy.issued_of_holds (own.mpr rfl)
      refine ⟨occupant.handle, free, rfl, ?_⟩
      change (draft.shift Pool.accumulator free occupant).timeline.placeAt _ _ = _
      simp [Timeline.placeAt, Draft.history?_shift, known, History.placeAt_relocate_now]

/-- From its last move on a value is where it is now. -/
theorem Draft.Tidy.placeAt_of_le_succ {draft : Draft} (tidy : draft.Tidy) {tick : Nat}
    (handle : Handle) (reached : draft.text.clock ≤ tick + 1) :
    draft.timeline.placeAt handle tick = draft.timeline.current handle := by
  unfold Timeline.placeAt Timeline.current
  cases issued : draft.timeline.history? handle with
  | none => rfl
  | some history =>
    have past := (tidy.past issued).2
    simp only [Option.bind_some, History.placeAt, History.current]
    cases moves : history.moves with
    | nil => rfl
    | cons move earlier =>
      have before := past move (by simp [moves])
      simp [Nat.le_of_lt_succ (Nat.lt_of_lt_of_le before reached)]

theorem Draft.Tidy.placeAt_of_le {draft : Draft} (tidy : draft.Tidy) {tick : Nat}
    (handle : Handle) (reached : draft.text.clock ≤ tick) :
    draft.timeline.placeAt handle tick = draft.timeline.current handle :=
  Draft.Tidy.placeAt_of_le_succ tidy handle (Nat.le_succ_of_le reached)

/-- While arguments are passed every value is in one place. -/
theorem Extends.placeAt {lost : Handle → Prop} {s s' : State} {code : List Entry}
    (extends' : Extends lost s s' code) (tidy : s.draft.Tidy) {tick : Nat} (handle : Handle)
    (reached : s.draft.text.clock ≤ tick) :
    s'.draft.timeline.placeAt handle tick = s'.draft.timeline.current handle := by
  by_cases old : handle < s.draft.timeline.count
  · rw [extends'.current old, ← Draft.Tidy.placeAt_of_le tidy handle reached, Timeline.placeAt,
      Timeline.placeAt, extends'.history handle old]
  · unfold Timeline.placeAt Timeline.current
    cases issued : s'.draft.timeline.history? handle with
    | none => rfl
    | some history =>
      have unmoved := extends'.still (Nat.le_of_not_lt old) issued
      simp [History.placeAt, History.current, unmoved]

/-- The newest entries are all looked at in the search for a register since a tick that they have
reached. -/
theorem not_named_of_newest {timeline : Timeline} {phys : Option Phys} {since : Nat}
    {newest older : List Entry} (recent : ∀ entry ∈ newest, since ≤ entry.tick)
    (unnamed : Stream.namedSince timeline phys since (newest ++ older) = false) :
    ∀ entry ∈ newest, Stream.entryNames timeline phys entry = false := by
  induction newest with
  | nil => simp
  | cons first rest inductionHypothesis =>
    have reached := recent first List.mem_cons_self
    rw [List.cons_append, Stream.namedSince] at unnamed
    simp only [reached, decide_true, Bool.true_and, Bool.or_eq_false_iff] at unnamed
    intro entry member
    rcases List.mem_cons.mp member with rfl | among
    · exact unnamed.1
    · exact inductionHypothesis (fun other member => recent other (List.mem_cons_of_mem _ member))
        unnamed.2 entry among

/-- Where a value is when the code of a call begins, as the histories tell when the call is done. -/
def startPlace (s s' : State) (handle : Handle) : Option Phys :=
  s'.draft.timeline.placeAt handle s.draft.text.clock

/-- The code of a call: the arguments are passed, the accumulator is cleared, and control is
transferred.  While the arguments are passed every value stays where it was at first. -/
structure CallCode (s s' : State) (items : List (Variable × Operand)) (transferring : List Instr)
    (passing clearing calling : List Entry) : Prop where
  appended : ∃ rest, s'.draft.text.code =
    s.draft.text.code ++ (passing ++ clearing ++ calling ++ rest)
  stamped : ∀ entry ∈ passing ++ clearing ++ calling,
    s.draft.text.clock ≤ entry.tick ∧ entry.tick < s'.draft.text.clock
  passes : PassCode (startPlace s s') items passing
  still : ∀ entry ∈ passing, ∀ handle,
    s'.draft.timeline.placeAt handle entry.tick = startPlace s s' handle
  homes : items ≠ [] → ∀ handle, s.draft.Live handle →
    ∃ slot, startPlace s s' handle = some (Pool.slotPhys slot)
  clears : ∀ entry ∈ clearing, ∃ handle slot,
    entry.instr = Draft.moveOut handle Pool.accumulator ∧
      s'.draft.timeline.placeAt handle entry.tick = some (Pool.slotPhys slot)
  calls : calling.map Entry.instr = transferring

theorem PassCode.of_empty {place place' : Handle → Option Phys} {code : List Entry}
    (passes : PassCode place [] code) : PassCode place' [] code := by
  obtain ⟨padding, pushes, loads, same, pads, pushing, loading⟩ := passes.parts
  cases pushing
  exact ⟨padding, [], loads, same, pads, .nil, loading⟩

section Calls

variable {s s₁ s' : State} {lost : Handle → Prop} {passing clearing : List Entry} {draft : Draft}

/-- Clearing the accumulator behind the arguments leaves a value where it is while they are passed, or
it takes it all the time to a register that their code does not name. -/
theorem Clears.placeAt (clears : Clears s₁.draft draft clearing) (tidy : s.draft.Tidy)
    (passed : Extends lost s s₁ passing)
    (old : ∀ handle, s₁.draft.Live handle → handle < s.draft.timeline.count) (handle : Handle) :
    (∀ tick, s.draft.text.clock ≤ tick → tick < s₁.draft.text.clock →
      draft.timeline.placeAt handle tick = s₁.draft.timeline.current handle) ∨
    handle < s.draft.timeline.count ∧ ∃ slot,
      (∀ tick, draft.timeline.placeAt handle tick = some (Pool.slotPhys slot)) ∧
      ∀ entry ∈ passing,
        Stream.entryNames s₁.draft.timeline (some (Pool.slotPhys slot)) entry = false := by
  by_cases holds : s₁.draft.Holds Pool.accumulator handle
  · have older := old handle ⟨_, holds⟩
    have born : s₁.draft.timeline.born handle ≤ s.draft.text.clock := by
      rw [Timeline.born, passed.history handle older]
      exact tidy.born_le_clock handle
    rcases clears.occupant holds with same | ⟨slot, always, unnamed⟩
    · left
      intro tick reached earlier
      rw [same tick (Nat.le_trans born reached) earlier, passed.placeAt tidy handle reached]
    · refine .inr ⟨older, slot, always, ?_⟩
      -- the value is older than the code, so the search for its new register went through all of it
      have newestFirst : s₁.draft.text.entries.toListRev =
          passing.reverse ++ s.draft.text.code.reverse := by
        have appended := congrArg List.reverse passed.appended
        rw [List.reverse_append] at appended
        simpa [Stream.code] using appended
      rw [Stream.references, newestFirst] at unnamed
      intro entry member
      apply not_named_of_newest _ unnamed entry (List.mem_reverse.mpr member)
      intro other among
      exact Nat.le_trans born (passed.stamped other (List.mem_reverse.mp among)).1
  · left
    intro tick reached _
    rw [Timeline.placeAt, clears.others holds, ← Timeline.placeAt,
      passed.placeAt tidy handle reached]

/-- The places of the values in the code that passes the arguments. -/
theorem Clears.places (clears : Clears s₁.draft draft clearing) (tidy : s.draft.Tidy)
    (passed : Extends lost s s₁ passing)
    (old : ∀ handle, s₁.draft.Live handle → handle < s.draft.timeline.count)
    (some' : s.draft.text.clock < s₁.draft.text.clock) :
    Places s.draft.timeline s₁.draft.timeline passing
      fun handle => draft.timeline.placeAt handle s.draft.text.clock := by
  constructor
  · intro handle new _
    rcases clears.placeAt tidy passed old handle with same | ⟨older, _⟩
    · exact same _ (Nat.le_refl _) some'
    · exact absurd older (Nat.not_lt_of_le new)
  · intro handle older
    rcases clears.placeAt tidy passed old handle with same | ⟨_, slot, always, unnamed⟩
    · left
      rw [same _ (Nat.le_refl _) some', passed.current older]
    · right
      rintro entry member new phys ⟨register, among, slotted⟩ _ here there
      rw [always] at there
      cases there
      apply Stream.not_resolved_of_entryNames (unnamed entry member) register among
      rw [Timeline.resolve, slotted]
      exact (passed.placeAt tidy new (passed.stamped entry member).1).trans here

theorem Places.congr {before after : Timeline} {code : List Entry}
    {place place' : Handle → Option Phys} (places : Places before after code place)
    (count : before.count ≤ after.count)
    (same : ∀ handle, handle < after.count → place' handle = place handle) :
    Places before after code place' := by
  constructor
  · intro handle new issued
    rw [same handle issued]
    exact places.fresh handle new issued
  · intro handle old
    rw [same handle (Nat.lt_of_lt_of_le old count)]
    exact places.old handle old

theorem PassCode.ne_nil {place : Handle → Option Phys} {items : List (Variable × Operand)}
    {code : List Entry} (passes : PassCode place items code) (some' : items ≠ []) : code ≠ [] := by
  rintro rfl
  obtain ⟨padding, pushes, loads, same, _, _, loading⟩ := passes.parts
  have none : loads = [] := (List.append_eq_nil_iff.mp same.symm).2
  subst none
  cases items with
  | nil => exact some' rfl
  | cons item rest => contradiction

theorem lt_count_of_placeAt {timeline : Timeline} {handle : Handle} {tick : Nat} {phys : Phys}
    (placed : timeline.placeAt handle tick = some phys) : handle < timeline.count := by
  obtain ⟨history, issued, _⟩ := Option.bind_eq_some_iff.mp placed
  exact Timeline.lt_count_of_history? issued

/-- What is done behind some code does not change where the values of old were in it. -/
theorem Extends.placeAt_old {code : List Entry} (extends' : Extends lost s s' code)
    {handle : Handle} (issued : handle < s.draft.timeline.count) (tick : Nat) :
    s'.draft.timeline.placeAt handle tick = s.draft.timeline.placeAt handle tick := by
  rw [Timeline.placeAt, Timeline.placeAt, extends'.history handle issued]

section Behind

variable {lost' : Handle → Prop} {rest : List Entry} {items : List (Variable × Operand)}
  (clears : Clears s₁.draft draft clearing) (tidy : s.draft.Tidy)
  (passed : Extends lost s s₁ passing)
  (old : ∀ handle, s₁.draft.Live handle → handle < s.draft.timeline.count)
  (behind : Extends lost' { s₁ with draft } s' rest)
include clears tidy passed old behind

/-- While the arguments are passed every value stays where it is at first. -/
theorem startPlace_eq {handle : Handle} {tick : Nat} (reached : s.draft.text.clock ≤ tick)
    (earlier : tick < s₁.draft.text.clock) :
    s'.draft.timeline.placeAt handle tick = startPlace s s' handle := by
  unfold startPlace
  by_cases issued : handle < draft.timeline.count
  · rw [behind.placeAt_old issued, behind.placeAt_old issued]
    rcases clears.placeAt tidy passed old handle with same | ⟨_, slot, always, _⟩
    · exact (same tick reached earlier).trans
        (same _ (Nat.le_refl _) (Nat.lt_of_le_of_lt reached earlier)).symm
    · exact (always _).trans (always _).symm
  · unfold Timeline.placeAt
    cases known : s'.draft.timeline.history? handle with
    | none => rfl
    | some history =>
      have unmoved := behind.still (Nat.le_of_not_lt issued) known
      simp [History.placeAt, unmoved]

/-- A value of the pool is in one of its registers when the code begins. -/
theorem startPlace_of_live (moved : s.draft.text.clock < s₁.draft.text.clock) {handle : Handle}
    (live : s.draft.Live handle) : ∃ slot, startPlace s s' handle = some (Pool.slotPhys slot) := by
  obtain ⟨slot, holds⟩ := live
  have older := tidy.lt_count_of_holds holds
  have issued : handle < draft.timeline.count :=
    clears.count ▸ Nat.lt_of_lt_of_le older passed.count
  rw [startPlace, behind.placeAt_old issued]
  rcases clears.placeAt tidy passed old handle with same | ⟨_, other, always, _⟩
  · refine ⟨slot, (same _ (Nat.le_refl _) moved).trans ?_⟩
    rw [passed.current older, tidy.current_of_holds holds]
  · exact ⟨other, always _⟩

/-- The code that passes the arguments, with the values where they are when it begins. -/
theorem passCode_startPlace
    (passes : ∀ place, Places s.draft.timeline s₁.draft.timeline passing place →
      PassCode place items passing)
    (moved : items ≠ [] → s.draft.text.clock < s₁.draft.text.clock) :
    PassCode (startPlace s s') items passing := by
  by_cases empty : items = []
  · subst empty
    exact (passes s₁.draft.timeline.current
      ⟨fun _ _ _ => rfl, fun handle older => .inl (passed.current older)⟩).of_empty
  · apply passes
    apply (clears.places tidy passed old (moved empty)).congr passed.count
    intro handle issued
    exact behind.placeAt_old (clears.count ▸ issued) _

end Behind

/-- Passing arguments takes time. -/
theorem clock_lt_passing {items : List (Variable × Operand)} (passed : Extends lost s s₁ passing)
    (passes : ∀ place, Places s.draft.timeline s₁.draft.timeline passing place →
      PassCode place items passing) (some' : items ≠ []) :
    s.draft.text.clock < s₁.draft.text.clock := by
  have current : Places s.draft.timeline s₁.draft.timeline passing s₁.draft.timeline.current :=
    ⟨fun _ _ _ => rfl, fun handle older => .inl (passed.current older)⟩
  obtain ⟨entry, member⟩ := List.exists_mem_of_ne_nil _ ((passes _ current).ne_nil some')
  have bounds := passed.stamped entry member
  exact Nat.lt_of_le_of_lt bounds.1 bounds.2

/-- The code of a call, as it is found when the call is done. -/
theorem emitCall_code {fn : Function} {arguments : List Operand} {isVirtual : Bool}
    {result : Operand} (tidy : s.draft.Tidy) (suited : Suited (fn.args.zip arguments))
    (based : ∀ item ∈ fn.args.zip arguments, Based s.draft item.2)
    (each : (fn.args.zip arguments).Pairwise (Apart s.draft))
    (run : emitCall fn arguments isVirtual s = .ok result s') :
    ∃ passing clearing calling,
      CallCode s s' (fn.args.zip arguments) (transfer fn isVirtual) passing clearing calling := by
  simp only [emitCall, Success.bind_ok, Success.get_ok, Success.pure_ok] at run
  obtain ⟨words, s₁, passed, _, _, ⟨rfl, rfl⟩, _, s₂, reserved, _, s₃, allocated, _, s₄, tracked,
    _, s₅, emitted, _, s₆, changed, _, s₇, reclaimed, rfl, rfl⟩ := run
  obtain ⟨_, passing, first, old, passes⟩ := passArguments_ok tidy suited based each passed
  obtain ⟨draft, drafted, rfl⟩ := drafting_ok.mp reserved
  obtain ⟨clearing, clears⟩ := reserve_clears first.tidy drafted
  have third := @extends_callResult { s₁ with draft } s₃ clears.tidy _ _ (fun _ => False) allocated
  have fourth := (extends_tracking third.tidy (fun _ => False) tracked).1
  obtain ⟨calling, spelled, fifth, _⟩ := extends_emit fourth.tidy (fun _ => False) emitted
  have sixth := extends_modifyFrame fifth.tidy (fun _ => False) changed
  obtain ⟨rest, seventh⟩ := extends_reclaim sixth.tidy (fun _ => False) reclaimed
  have before := third.trans fourth
  have behind := (fifth.trans sixth).trans seventh
  have whole := before.trans behind
  rw [List.append_nil] at before behind
  have moved := clock_lt_passing first passes
  have clock : s₁.draft.text.clock ≤ draft.text.clock := clears.clock
  have clock' : draft.text.clock ≤ s₄.draft.text.clock := before.clock
  have clock'' : draft.text.clock ≤ s₇.draft.text.clock := whole.clock
  refine ⟨passing, clearing, calling, ⟨rest, ?_⟩, ?_,
    passCode_startPlace clears tidy first old whole passes moved, ?_, ?_, ?_, spelled⟩
  · rw [whole.appended]
    simp only [clears.appended, first.appended, List.append_assoc, List.nil_append]
  · intro entry member
    have start := first.clock
    rcases List.mem_append.mp member with front | last
    · rcases List.mem_append.mp front with early | middle
      · have bounds := first.stamped entry early
        omega
      · have bounds := clears.stamped entry middle
        omega
    · have bounds := behind.stamped entry (List.mem_append_left _ last)
      omega
  · intro entry member handle
    have bounds := first.stamped entry member
    exact startPlace_eq clears tidy first old whole bounds.1 bounds.2
  · intro some' handle live
    exact startPlace_of_live clears tidy first old whole (moved some') live
  · intro entry member
    obtain ⟨handle, slot, moves, placed⟩ := clears.moves entry member
    refine ⟨handle, slot, moves, ?_⟩
    rw [whole.placeAt_old (lt_count_of_placeAt placed), placed]

end Calls

end Lower

end X64Backend
