import X64Backend.Proofs.Machine.Memory
import X64Backend.Proofs.Machine.Runs

/-!
Operands on the machine.  An operand refers to a spot: a hardware register, or the cell at a
displacement from one.  What the generator emits to copy, extend, test and push values reads and
writes spots, whatever operand names them; a spot that is written reads back what was written, and
spots that are apart keep their words.
-/

namespace X64Backend.Machine

section Words

theorem or_and_distrib (first second cover : UInt64) :
    (first ||| second) &&& cover = first &&& cover ||| second &&& cover := by
  apply UInt64.toBitVec_inj.mp
  simp [BitVec.and_or_distrib_right]

/-- The covered bits of a word as a number. -/
theorem toNat_and_mask (word : UInt64) {size : Size} (sized : size ≠ .unsized) :
    (word &&& mask size).toNat = word.toNat % 256 ^ size.bytes := by
  rw [UInt64.toNat_and]
  cases size with
  | unsized => contradiction
  | s8 | high8 => exact Nat.and_two_pow_sub_one_eq_mod _ 8
  | s16 => exact Nat.and_two_pow_sub_one_eq_mod _ 16
  | s32 => exact Nat.and_two_pow_sub_one_eq_mod _ 32
  | s64 => exact Nat.and_two_pow_sub_one_eq_mod _ 64

/-- The part of a register that was written reads back. -/
theorem readPart_writePart (word value : UInt64) {size : Size} (low : size ≠ .high8) :
    readPart (writePart word size value) size = value &&& mask size := by
  have part : ∀ cover : UInt64,
      (word &&& ~~~ cover ||| value &&& cover) &&& cover = value &&& cover := by
    intro cover
    rw [or_and_distrib, UInt64.and_assoc, UInt64.not_and_self, UInt64.and_zero, UInt64.zero_or,
      UInt64.and_assoc, UInt64.and_self]
  cases size with
  | high8 => contradiction
  | s64 => rfl
  | s32 =>
    change value &&& 0xFFFFFFFF &&& 0xFFFFFFFF = value &&& 0xFFFFFFFF
    rw [UInt64.and_assoc, UInt64.and_self]
  | s8 | s16 | unsized => exact part _

/-- What is written depends on the low bytes of the word only. -/
theorem Memory.store_congr {memory : Memory} {address word word' : UInt64} {count : Nat}
    (same : word.toNat % 256 ^ count = word'.toNat % 256 ^ count) :
    memory.store address count word = memory.store address count word' := by
  induction count generalizing memory address word word' with
  | zero => rfl
  | succ count inductionHypothesis =>
    have low : ∀ other : UInt64, other.toUInt8.toNat = other.toNat % 256 ^ (count + 1) % 256 := by
      intro other
      rw [Nat.pow_succ', Nat.mod_mul_right_mod]
      exact UInt64.toNat_toUInt8 other
    have high : ∀ other : UInt64,
        (other >>> 8).toNat % 256 ^ count = other.toNat % 256 ^ (count + 1) / 256 := by
      intro other
      rw [Nat.pow_succ', Nat.mod_mul_right_div_self, UInt64.toNat_shiftRight]
      exact congrArg (· % 256 ^ count) (Nat.shiftRight_eq_div_pow _ 8)
    have first : word.toUInt8 = word'.toUInt8 := by
      apply UInt8.toNat_inj.mp
      rw [low, low, same]
    rw [Memory.store, Memory.store, first]
    apply inductionHypothesis
    rw [high, high, same]

theorem Memory.load_store (memory : Memory) (address word : UInt64) {size : Size}
    (sized : size ≠ .unsized) :
    (memory.store address size.bytes word).load address size.bytes = word &&& mask size := by
  apply UInt64.toNat_inj.mp
  rw [Memory.toNat_load_store, toNat_and_mask word sized]
  cases size <;> decide

/-- The covered bits of a word in memory are in its first bytes. -/
theorem Memory.load_and_mask (memory : Memory) (address : UInt64) {size : Size}
    (sized : size ≠ .unsized) :
    memory.load address 8 &&& mask size = memory.load address size.bytes := by
  have few : size.bytes ≤ 8 := by cases size <;> decide
  apply UInt64.toNat_inj.mp
  rw [toNat_and_mask _ sized]
  exact Memory.toNat_load_mod memory address few (Nat.le_refl 8)

end Words

/-- Where an operand is: in a register of the hardware, or in the cell at a displacement from one. -/
inductive Spot where
  | register (phys : Phys)
  | cell (base : Phys) (disp : Int32)
  deriving DecidableEq

namespace Spot

/-- The register that a spot is or depends on. -/
def phys : Spot → Phys
  | register phys => phys
  | cell base _ => base

/-- The address of the cell at a displacement from a register. -/
def address (view : View) (base : Phys) (disp : Int32) : UInt64 :=
  view.get base + Literal.wordOfInt disp.toInt

/-- The word in a spot, as far as a width goes. -/
def read (view : View) (size : Size) : Spot → UInt64
  | register phys => readPart (view.get phys) size
  | cell base disp => view.memory.load (address view base disp) size.bytes

/-- The view with the part of a spot that a width names overwritten. -/
def write (view : View) (size : Size) (word : UInt64) : Spot → View
  | register phys => view.set phys (writePart (view.get phys) size word)
  | cell base disp =>
      { view with memory := view.memory.store (address view base disp) size.bytes word }

variable {view : View} {spot : Spot} {size : Size} {word : UInt64}

theorem flags_write : (spot.write view size word).flags = view.flags := by
  cases spot <;> rfl

/-- A spot reads back what was written. -/
theorem read_write (sized : size ≠ .unsized) (low : size ≠ .high8) :
    spot.read (spot.write view size word) size = word &&& mask size := by
  cases spot with
  | register phys =>
    rw [read, write, View.get_set, if_pos rfl]
    exact readPart_writePart _ _ low
  | cell base disp => exact Memory.load_store _ _ _ sized

/-- Only the covered bits of a word count. -/
theorem write_mask (sized : size ≠ .unsized) (low : size ≠ .high8) :
    spot.write view size (word &&& mask size) = spot.write view size word := by
  cases spot with
  | register phys =>
    rw [write, write]
    congr 1
    cases size with
    | unsized | high8 => contradiction
    | s64 => exact and_mask_word word
    | s8 | s16 | s32 =>
      simp only [writePart, mask, UInt64.and_assoc, UInt64.and_self]
  | cell base disp =>
    rw [write, write, @Memory.store_congr _ _ _ word]
    rw [toNat_and_mask word sized, Nat.mod_mod]

end Spot

/-- An operand refers to a spot in the instructions of a scope. -/
inductive Finds (scope : Scope) : Operand → Spot → Prop where
  | register {register : Register} {phys : Phys} :
      scope.image.timeline.resolve register scope.tick = some phys → register.size ≠ .high8 →
      Finds scope (.reg register) (.register phys)
  | cell {pointer : Pointer} {base : Phys} :
      scope.image.timeline.resolve pointer.base scope.tick = some base →
      pointer.base.size ≠ .high8 → Finds scope (.mem pointer) (.cell base pointer.disp)

variable {scope : Scope} {checked : Bool} {view : View} {dst src operand : Operand}
  {spot target : Spot}

theorem Finds.fixed (phys : Phys) {size : Size} (low : size ≠ .high8) :
    Finds scope (.reg (.fix phys size)) (.register phys) :=
  .register rfl low

/-- The word that a literal stands for: its bits, or the address of a label. -/
inductive Stands (image : Image) (literal : Literal) : UInt64 → Prop where
  | number {word : UInt64} : literal.isLabel = false → literal.bits = .ok word →
      Stands image literal word
  | symbol {word : UInt64} : literal.isLabel = true →
      symbolValue? image.labels image.data literal.text = some word → Stands image literal word

namespace Yields

theorem readSpot (found : Finds scope operand spot) (size : Size) :
    Yields (scope.read operand size) view (spot.read view operand.size) view := by
  cases found with
  | register place low => exact readReg place low size
  | cell place low => exact (address place low).bind (load _ _)

theorem writeSpot (found : Finds scope operand spot) (word : UInt64) :
    Yields (scope.write operand word) view () (spot.write view operand.size word) := by
  cases found with
  | register place low => exact writeReg place low word
  | cell place low => exact (address place low).bind (store _ _ word)

theorem readSymbol {literal : Literal} {word : UInt64} (label : literal.isLabel = true)
    (known : symbolValue? scope.image.labels scope.image.data literal.text = some word)
    (size : Size) : Yields (scope.read (.lit literal) size) view word view := by
  unfold Scope.read
  simp only [label, if_true]
  unfold Scope.symbol
  simp only [known]
  exact pure word

end Yields

namespace Does

theorem movSpot (into : Finds scope dst target) (out : Finds scope src spot)
    (sized : dst.size ≠ .unsized) (direct : (dst.isMem && src.isMem) = false) :
    Does scope checked (.binary .mov dst src) view
      (target.write view dst.size (spot.read view src.size)) := by
  apply binary
  unfold Machine.binary
  dsimp only
  rw [if_neg sized, direct]
  exact (Yields.readSpot out _).bind (Yields.writeSpot into _)

theorem movStanding {literal : Literal} {word : UInt64} (into : Finds scope dst target)
    (stands : Stands scope.image literal word) (sized : dst.size ≠ .unsized)
    (low : dst.size ≠ .high8) :
    Does scope checked (.binary .mov dst (.lit literal)) view (target.write view dst.size word) := by
  have direct : (dst.isMem && (Operand.lit literal).isMem) = false := Bool.and_false _
  apply binary
  unfold Machine.binary
  dsimp only
  rw [if_neg sized, direct]
  cases stands with
  | number value bits =>
    refine (Yields.readLit value bits _).bind ?_
    rw [← Spot.write_mask sized low]
    exact Yields.writeSpot into _
  | symbol label known => exact (Yields.readSymbol label known _).bind (Yields.writeSpot into _)

theorem leaSpot {pointer : Pointer} {base : Phys} (into : Finds scope dst target)
    (out : Finds scope (.mem pointer) (.cell base pointer.disp)) (wide : dst.size = .s64)
    (inRegister : dst.isMem = false) :
    Does scope checked (.binary .lea dst (.mem pointer)) view
      (target.write view .s64 (Spot.address view base pointer.disp)) := by
  cases out with
  | cell place low =>
    apply binary
    unfold Machine.binary
    dsimp only
    rw [if_neg (by simp [wide]), inRegister, wide]
    refine (Yields.address place low).bind ?_
    rw [and_mask_word, ← wide]
    exact Yields.writeSpot into _

/-- Extending a narrow value with zeros. -/
theorem movzxSpot (into : Finds scope dst target) (out : Finds scope src spot)
    (sized : dst.size ≠ .unsized) (low : dst.size ≠ .high8)
    (direct : (dst.isMem && src.isMem) = false) :
    Does scope checked (.binary .movzx dst src) view
      (target.write view dst.size (spot.read view src.size)) := by
  apply binary
  unfold Machine.binary
  dsimp only
  rw [if_neg sized, direct]
  refine (Yields.readSpot out _).bind ?_
  rw [← Spot.write_mask sized low]
  exact Yields.writeSpot into _

/-- Extending a narrow value by its sign. -/
theorem movsxSpot {op : Op} (widens : op = .movsx ∨ op = .movsxd) (into : Finds scope dst target)
    (out : Finds scope src spot) (sized : dst.size ≠ .unsized) (low : dst.size ≠ .high8)
    (direct : (dst.isMem && src.isMem) = false) :
    Does scope checked (.binary op dst src) view
      (target.write view dst.size (signExtend (spot.read view src.size) src.size)) := by
  apply binary
  unfold Machine.binary
  dsimp only
  rw [if_neg sized, direct]
  rw [← Spot.write_mask sized low]
  rcases widens with rfl | rfl
  · exact (Yields.readSpot out _).bind (Yields.writeSpot into _)
  · exact (Yields.readSpot out _).bind (Yields.writeSpot into _)

theorem pushSpot (out : Finds scope operand spot) :
    Does scope checked (.unary .push operand) view (view.push (spot.read view operand.size)) := by
  apply unary
  cases out with
  | register place low =>
    exact (Yields.readReg place low _).bind ((Yields.push _).bind (.pure _))
  | cell place low =>
    exact (Yields.readSpot (.cell place low) _).bind ((Yields.push _).bind (.pure _))

end Does

end X64Backend.Machine
