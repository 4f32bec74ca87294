import X64Backend.Proofs.Machine.Coupling
import X64Backend.Proofs.Machine.Private
import X64Backend.Proofs.Pool.Tables

/-!
A machine whose slots hold private registers, beside the machine of the private registers.  Where
the operands of an instruction are found in the slots, both machines do the same.
-/

namespace X64Backend.Machine

open Pool

/-- The slots of a machine hold the words of the private registers, and all else is shared. -/
structure Mirrors (contents : Slot → Option Cell) (state : State) (other : Private) : Prop where
  cells : ∀ {slot cell}, contents slot = some cell →
    state.registers.get (slotPhys slot) = other.words cell
  outside : ∀ {phys}, slotOfPhys? phys = none →
    state.registers.get phys = other.state.registers.get phys
  memory : state.memory = other.state.memory
  flags : state.flags = other.state.flags
  heap : state.heap = other.state.heap
  frames : state.frames = other.state.frames
  exit : state.exit = other.state.exit

theorem slotPhys_ne_outside {phys : Phys} (outside : slotOfPhys? phys = none) (slot : Slot) :
    slotPhys slot ≠ phys := by
  rintro rfl
  rw [slotOfPhys?_slotPhys] at outside
  contradiction

/-- The pairing of the slots with the seats of the private registers in them. -/
def pairing (contents : Slot → Option Cell) (seats : Seats) (lacking : Phys → Prop)
    (apart : ∀ {slot other cell}, contents slot = some cell → contents other = some cell →
      slot = other) : Pairing where
  paired first second :=
    (∃ slot cell, first = slotPhys slot ∧ contents slot = some cell ∧
      (seats.rax = some cell ∧ second = .rax ∨
        seats.rax ≠ some cell ∧ seats.rbx = some cell ∧ second = .rbx)) ∨
    slotOfPhys? first = none ∧ second = first
  kept first := ∃ slot, first = slotPhys slot ∧ ∀ cell, contents slot = some cell →
    seats.rax ≠ some cell ∧ seats.rbx ≠ some cell
  lacking := lacking
  unique := by
    intro first second first' second' paired paired'
    rcases paired with ⟨slot, cell, rfl, holds, seat⟩ | ⟨outside, rfl⟩ <;>
      rcases paired' with ⟨slot', cell', rfl, holds', seat'⟩ | ⟨outside', rfl⟩
    · constructor
      · intro same
        have slots := slotPhys_injective same
        subst slots
        rw [holds] at holds'
        cases holds'
        rcases seat with ⟨_, rfl⟩ | ⟨unseated, _, rfl⟩ <;>
          rcases seat' with ⟨_, rfl⟩ | ⟨unseated', _, rfl⟩
        · rfl
        · contradiction
        · contradiction
        · rfl
      · intro same
        rcases seat with ⟨seated, rfl⟩ | ⟨_, seated, rfl⟩ <;>
          rcases seat' with ⟨seated', rfl⟩ | ⟨_, seated', rfl⟩
        · rw [seated] at seated'
          cases seated'
          rw [apart holds holds']
        · contradiction
        · contradiction
        · rw [seated] at seated'
          cases seated'
          rw [apart holds holds']
    · have different := slotPhys_ne_outside outside'
      refine ⟨fun same => absurd same (different slot), fun same => ?_⟩
      rcases seat with ⟨_, rfl⟩ | ⟨_, _, rfl⟩
      · exact absurd same (different accumulator)
      · exact absurd same (different 1)
    · have different := slotPhys_ne_outside outside
      refine ⟨fun same => absurd same.symm (different slot'), fun same => ?_⟩
      rcases seat' with ⟨_, rfl⟩ | ⟨_, _, rfl⟩
      · exact absurd same.symm (different accumulator)
      · exact absurd same.symm (different 1)
    · exact Iff.rfl
  apart := by
    rintro first second ⟨slot, rfl, unseated⟩ (⟨slot', cell, same, holds, seat⟩ | ⟨outside, _⟩)
    · rw [← slotPhys_injective same] at holds
      rcases seat with ⟨seated, _⟩ | ⟨_, seated, _⟩
      · exact (unseated cell holds).1 seated
      · exact (unseated cell holds).2 seated
    · exact slotPhys_ne_outside outside slot rfl
  outside := fun outside => .inr ⟨outside, rfl⟩
  upper := by
    rintro first second (⟨slot, cell, rfl, _, ⟨_, rfl⟩ | ⟨_, _, rfl⟩⟩ | ⟨_, rfl⟩) has
    · rfl
    · rfl
    · exact has

namespace Seats

variable (seats : Seats) (words : Cell → UInt64) (registers : Registers)

theorem get_seat_rax {cell : Cell} (seated : seats.rax = some cell) :
    (seats.seat words registers).get .rax = words cell := by
  unfold seat
  rw [seated]
  cases seats.rbx <;> simp

theorem get_seat_rbx {cell : Cell} (seated : seats.rbx = some cell) :
    (seats.seat words registers).get .rbx = words cell := by
  unfold seat
  rw [seated]
  simp

theorem get_seat_outside {phys : Phys} (outside : slotOfPhys? phys = none) :
    (seats.seat words registers).get phys = registers.get phys := by
  have first : phys ≠ .rax := Ne.symm (slotPhys_ne_outside outside accumulator)
  have second : phys ≠ .rbx := Ne.symm (slotPhys_ne_outside outside 1)
  unfold seat
  cases seats.rax <;> cases seats.rbx <;> simp [first, second]

end Seats

variable {contents : Slot → Option Cell} {state : State} {other : Private}

/-- The machine of the private registers, with an instruction's registers in their seats, is a twin
of the machine with slots. -/
theorem Mirrors.twin (mirrors : Mirrors contents state other) (seats : Seats)
    (lacking : Phys → Prop)
    (apart : ∀ {slot other cell}, contents slot = some cell → contents other = some cell →
      slot = other) :
    Twin (pairing contents seats lacking apart) state.registers.get state
      { other.state with registers := seats.seat other.words other.state.registers } where
  registers := by
    rintro phys second (⟨slot, cell, rfl, holds, ⟨seated, rfl⟩ | ⟨_, seated, rfl⟩⟩ | ⟨outside, rfl⟩)
    · rw [mirrors.cells holds]
      exact (seats.get_seat_rax _ _ seated).symm
    · rw [mirrors.cells holds]
      exact (seats.get_seat_rbx _ _ seated).symm
    · rw [mirrors.outside outside]
      exact (seats.get_seat_outside _ _ outside).symm
  kept := fun _ => rfl
  memory := mirrors.memory
  flags := mirrors.flags
  heap := mirrors.heap
  frames := mirrors.frames
  exit := mirrors.exit

/-- Taking the private registers back from their seats gives a mirror again. -/
theorem Twin.mirrors (mirrors : Mirrors contents state other) {seats : Seats}
    {lacking : Phys → Prop}
    {apart : ∀ {slot other cell}, contents slot = some cell → contents other = some cell →
      slot = other} {after after' : State}
    (twin : Twin (pairing contents seats lacking apart) state.registers.get after after') :
    Mirrors contents after ⟨seats.unseat other.words after'.registers, after'⟩ where
  cells := by
    intro slot cell holds
    unfold Seats.unseat
    dsimp only
    split
    · rename_i seated
      exact twin.registers (.inl ⟨slot, cell, rfl, holds, .inl ⟨seated, rfl⟩⟩)
    · rename_i unseated
      split
      · rename_i seated
        exact twin.registers (.inl ⟨slot, cell, rfl, holds, .inr ⟨unseated, seated, rfl⟩⟩)
      · rename_i unseated'
        rw [← mirrors.cells holds]
        refine twin.kept ⟨slot, rfl, ?_⟩
        intro cell' holds'
        rw [holds] at holds'
        cases holds'
        exact ⟨unseated, unseated'⟩
  outside := fun outside => twin.registers (.inr ⟨outside, rfl⟩)
  memory := twin.memory
  flags := twin.flags
  heap := twin.heap
  frames := twin.frames
  exit := twin.exit

section Seating

variable {cell : Handle → Cell} {period : Nat} {instr : Instr}

/-- An instruction works on two private registers at most. -/
theorem length_involved_le : (involved cell period instr).length ≤ 2 := by
  have named : ∀ operands : List Operand,
      ((operands.filterMap Operand.base?).filterMap (cellOf? cell period)).length ≤
        operands.length := fun operands =>
    Nat.le_trans (List.length_filterMap_le _ _) (List.length_filterMap_le _ _)
  unfold involved Instr.registers
  rw [List.length_append]
  cases instr with
  | binary op dst src =>
      have bound := named [dst, src]
      simpa [Instr.operands, Instr.impliesAccumulator] using bound
  | unary op operand =>
      have bound := named [operand]
      have implied : (if (Instr.unary op operand).impliesAccumulator then
          [Cell.raw period] else []).length ≤ 1 := by
        split <;> simp
      simp only [Instr.operands, List.length_singleton] at bound ⊢
      omega
  | nullary op =>
      have implied : (if (Instr.nullary op).impliesAccumulator then
          [Cell.raw period] else []).length ≤ 1 := by
        split <;> simp
      simp only [Instr.operands, List.filterMap_nil, List.length_nil]
      omega
  | absent => simp [Instr.operands, Instr.impliesAccumulator]
  | globalName name => simp [Instr.operands, Instr.impliesAccumulator]
  | sectionName name => simp [Instr.operands, Instr.impliesAccumulator]
  | label name procedure => simp [Instr.operands, Instr.impliesAccumulator]
  | data item => simp [Instr.operands, Instr.impliesAccumulator]
  | comment text => simp [Instr.operands, Instr.impliesAccumulator]

theorem seats_rax_of_raw (uses : .raw period ∈ involved cell period instr) :
    (seats cell period instr).rax = some (.raw period) := by
  simp [seats, uses]

/-- Of two private registers, the one that does not sit in the first seat gets the second. -/
theorem find?_other {cells : List Cell} (bound : cells.length ≤ 2) {seat target : Cell}
    (seated : seat ∈ cells) (uses : target ∈ cells) (different : target ≠ seat) :
    cells.find? (fun cell => some cell ≠ some seat) = some target := by
  match cells, bound with
  | [], _ => simp at uses
  | [only], _ =>
      rw [List.mem_singleton] at seated uses
      exact absurd (uses.trans seated.symm) different
  | [one, two], _ =>
      simp only [List.mem_cons, List.not_mem_nil, or_false] at seated uses
      rcases uses with rfl | rfl
      · simp [different]
      · rcases seated with rfl | rfl
        · simp [different]
        · exact absurd rfl different

/-- Every private register of an instruction has a seat. -/
theorem seated_of_involved {target : Cell} (uses : target ∈ involved cell period instr) :
    (seats cell period instr).rax = some target ∨
      (seats cell period instr).rax ≠ some target ∧
        (seats cell period instr).rbx = some target := by
  obtain ⟨seat, membership, first⟩ : ∃ seat ∈ involved cell period instr,
      (seats cell period instr).rax = some seat := by
    by_cases raw : .raw period ∈ involved cell period instr
    · exact ⟨.raw period, raw, seats_rax_of_raw raw⟩
    · obtain ⟨seat, rest, shape⟩ := List.exists_cons_of_ne_nil (List.ne_nil_of_mem uses)
      refine ⟨seat, by simp [shape], ?_⟩
      simp only [seats, if_neg raw]
      rw [shape, List.head?_cons]
  by_cases same : target = seat
  · exact .inl (same ▸ first)
  · refine .inr ⟨?_, ?_⟩
    · rw [first]
      exact fun equal => same (Option.some.inj equal).symm
    · have second := find?_other length_involved_le membership uses same
      rw [← first] at second
      exact second

theorem involved_of_seated {target : Cell}
    (seated : (seats cell period instr).rax = some target ∨
      (seats cell period instr).rbx = some target) :
    target ∈ involved cell period instr := by
  unfold seats at seated
  rcases seated with first | second
  · simp only at first
    split at first
    · rename_i uses
      cases first
      exact uses
    · exact List.mem_of_head? first
  · exact List.mem_of_find?_eq_some second

end Seating

/-- An instruction asks for the upper byte of a handle whose register has none. -/
def Lacks (timeline : Timeline) (tick : Nat) (instr : Instr) (phys : Phys) : Prop :=
  ∃ handle, ⟨.slot handle, .high8⟩ ∈ instr.registers ∧
    timeline.placeAt handle tick = some phys ∧ phys.hasHigh8 = false

/-- The operands of an instruction are found in the slots. -/
structure Seen (timeline : Timeline) (cell : Handle → Cell) (period : Nat) (tick : Nat)
    (contents : Slot → Option Cell) (instr : Instr) : Prop where
  straight : instr.isStraight = true
  named : ∀ handle, instr.Names handle → ∃ slot,
    timeline.placeAt handle tick = some (slotPhys slot) ∧ contents slot = some (cell handle)
  fixed : ∀ register ∈ instr.registers, ∀ slot,
    register.place = .fixed (some (slotPhys slot)) → slot = accumulator
  raw : instr.usesAccumulator = true → contents accumulator = some (.raw period)

namespace Seen

variable {image : Image} {cell : Handle → Cell} {period tick : Nat} {instr : Instr}
  (seen : Seen image.timeline cell period tick contents instr)
include seen

theorem contents_of_involved {target : Cell} (uses : target ∈ involved cell period instr) :
    ∃ slot, contents slot = some target := by
  unfold involved at uses
  rcases List.mem_append.mp uses with named | implied
  · obtain ⟨register, membership, found⟩ := List.mem_filterMap.mp named
    unfold cellOf? at found
    split at found
    · rename_i handle place
      cases found
      obtain ⟨slot, _, holds⟩ := seen.named handle ⟨register, membership, place⟩
      exact ⟨slot, holds⟩
    · rename_i place
      cases found
      refine ⟨accumulator, seen.raw ?_⟩
      simp only [Instr.usesAccumulator, Bool.or_eq_true, List.any_eq_true]
      exact .inr ⟨register, membership, by simp [place]⟩
    · contradiction
  · split at implied
    · rename_i implies
      have same : target = .raw period := by simpa using implied
      subst same
      exact ⟨accumulator, seen.raw (by simp [Instr.usesAccumulator, implies])⟩
    · simp at implied

theorem paired_rax {lacking : Phys → Prop} {apart : ∀ {slot other cell},
      contents slot = some cell → contents other = some cell → slot = other}
    (uses : .raw period ∈ involved cell period instr) (raw : instr.usesAccumulator = true) :
    (pairing contents (seats cell period instr) lacking apart).paired .rax .rax :=
  .inl ⟨accumulator, .raw period, rfl, seen.raw raw, .inl ⟨seats_rax_of_raw uses, rfl⟩⟩

theorem matching {apart : ∀ {slot other cell}, contents slot = some cell →
      contents other = some cell → slot = other} (register : Register)
    (membership : register ∈ instr.registers) :
    Matches (pairing contents (seats cell period instr) (Lacks image.timeline tick instr) apart)
      image tick 0 register ((seats cell period instr).register cell register) := by
  unfold Seats.register
  split
  · rename_i handle place
    refine ⟨rfl, .inl ?_⟩
    obtain ⟨slot, placed, holds⟩ := seen.named handle ⟨register, membership, place⟩
    have uses : cell handle ∈ involved cell period instr := by
      refine List.mem_append_left _ (List.mem_filterMap.mpr ⟨register, membership, ?_⟩)
      simp [cellOf?, place]
    refine ⟨slotPhys slot, _, ?_, rfl, .inl ⟨slot, cell handle, rfl, holds, ?_⟩, ?_⟩
    · simpa [Timeline.resolve, place] using placed
    · rcases seated_of_involved uses with first | ⟨unseated, second⟩
      · exact .inl ⟨first, if_pos first⟩
      · exact .inr ⟨unseated, second, if_neg unseated⟩
    · intro upper missing
      have named : (⟨.slot handle, .high8⟩ : Register) = register := by rw [← place, ← upper]
      exact .inl ⟨handle, named ▸ membership, placed, missing⟩
  · rename_i phys place
    refine ⟨rfl, ?_⟩
    have resolved : ∀ tick, image.timeline.resolve register tick = phys := by
      intro tick
      simp [Timeline.resolve, place]
    cases phys with
    | none => exact .inr ⟨resolved tick, resolved 0, rfl⟩
    | some phys =>
        refine .inl ⟨phys, phys, resolved tick, resolved 0, ?_, fun _ _ => .inr rfl⟩
        cases pooled : slotOfPhys? phys with
        | none => exact .inr ⟨pooled, rfl⟩
        | some slot =>
            have same := slotPhys_of_slotOfPhys? pooled
            subst same
            have first := seen.fixed register membership slot place
            subst first
            have uses : .raw period ∈ involved cell period instr := by
              refine List.mem_append_left _ (List.mem_filterMap.mpr ⟨register, membership, ?_⟩)
              simp [cellOf?, place, slotPhys, accumulator]
            refine seen.paired_rax uses ?_
            simp only [Instr.usesAccumulator, Bool.or_eq_true, List.any_eq_true]
            exact .inr ⟨register, membership, by simp [place, slotPhys, accumulator]⟩

/-- The machine with slots and the machine of the private registers execute an instruction alike. -/
theorem step (checked : Bool) (index : Nat)
    (apart : ∀ {slot other cell}, contents slot = some cell → contents other = some cell →
      slot = other) (mirrors : Mirrors contents state other) :
    Follows (Lacks image.timeline tick instr) (fun _ _ => True) (Mirrors contents)
      (Machine.step image checked index ⟨tick, instr⟩ state)
      (Private.step image checked cell period instr other) := by
  have implied : instr.impliesAccumulator = true →
      (pairing contents (seats cell period instr) (Lacks image.timeline tick instr) apart).paired
        .rax .rax := by
    intro implies
    refine seen.paired_rax ?_ (by simp [Instr.usesAccumulator, implies])
    exact List.mem_append_right _ (by simp [implies])
  have agree : Agree
      (pairing contents (seats cell period instr) (Lacks image.timeline tick instr) apart)
      state.registers.get _ _ :=
    Agree.execute checked seen.straight
      (fun register membership => seen.matching register membership) implied
  have begun : Mirrors contents
      { state with recent := (index :: state.recent).take recentCount } other := { mirrors with }
  have executed := agree _ _ (begun.twin (seats cell period instr) _ apart)
  unfold Private.step
  simp only [Machine.step, bind, EStateM.bind, Success.modify_eq]
  cases ran : execute ⟨image, tick⟩ checked instr
      { state with recent := (index :: state.recent).take recentCount } with
  | ok next after =>
      rw [ran] at executed
      obtain ⟨_, after', ran', _, twin⟩ := executed
      rw [ran']
      have mirrored := twin.mirrors begun
      cases next with
      | finished => exact ⟨(), _, rfl, trivial, mirrored⟩
      | following => exact ⟨(), _, rfl, trivial, { mirrored with }⟩
      | index ip => exact ⟨(), _, rfl, trivial, { mirrored with }⟩
  | error fault after =>
      rw [ran] at executed
      rcases executed with missing | ⟨after', ran'⟩
      · exact .inl missing
      · rw [ran']
        exact .inr ⟨_, rfl⟩

end Seen

end X64Backend.Machine
