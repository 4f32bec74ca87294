import Mathlib.Algebra.Group.Int.Even
import X64Backend.Lower.Move
import X64Backend.Proofs.Machine.Spots
import X64Backend.Proofs.Numeral.Digits
import X64Backend.Proofs.Pool.Steps

/-!
Literals in registers and memory.  A literal that fits the width of its destination is stored there
exactly, in one instruction or in two halves in either order, and nothing else changes.  One that
does not fit is reported and leaves no instruction.
-/

namespace X64Backend

namespace Machine

section Words

/-- The first bytes of a range are the low part of the number in it. -/
theorem Memory.toNat_load_add (memory : Memory) (address : UInt64) {front back : Nat}
    (bound : front + back ≤ 8) : (memory.load address (front + back)).toNat =
      256 ^ front * (memory.load (address + .ofNat front) back).toNat +
        (memory.load address front).toNat := by
  induction front generalizing address with
  | zero =>
    have here : address + UInt64.ofNat 0 = address := UInt64.add_zero address
    rw [here, Nat.zero_add, Nat.pow_zero, Nat.one_mul]
    rfl
  | succ front inductionHypothesis =>
    have rest := inductionHypothesis (address + 1) (by omega)
    have further : address + 1 + UInt64.ofNat front = address + UInt64.ofNat (front + 1) := by
      rw [UInt64.ofNat_add, UInt64.add_assoc, UInt64.add_comm 1]
      rfl
    rw [further] at rest
    rw [Nat.add_right_comm, Memory.toNat_load_succ _ _ (by omega) (toNat_load_lt _ _ (by omega)),
      rest, Memory.toNat_load_succ _ _ (by omega) (toNat_load_lt _ _ (by omega)), Nat.pow_succ',
      Nat.mul_add, Nat.mul_assoc, Nat.add_assoc]

/-- What is read is not changed by writing to bytes apart from it. -/
theorem Memory.load_store_apart {memory : Memory} {address other word : UInt64} {count more : Nat}
    (bound : more ≤ 8)
    (apart : ∀ byte : UInt64, (byte - other).toNat < more → count ≤ (byte - address).toNat) :
    (memory.store address count word).load other more = memory.load other more :=
  load_congr bound fun byte inside => get_store_of_le (apart byte inside)

/-- The upper byte of a register that was written reads back. -/
theorem readPart_writePart_high8 (word value : UInt64) :
    readPart (writePart word .high8 value) .high8 = value &&& mask .high8 := by
  have cleared : (word &&& ~~~ (0xFF00 : UInt64)) >>> 8 &&& 0xFF = 0 := by
    have none : (~~~ (0xFF00 : UInt64)) >>> 8 &&& 0xFF = 0 := by decide
    rw [UInt64.shiftRight_and, UInt64.and_assoc, none, UInt64.and_zero]
  have moved : (value &&& 0xFF) <<< 8 >>> 8 = value &&& 0xFF := by
    have small : (value &&& 0xFF).toNat = value.toNat % 256 :=
      @toNat_and_mask value .s8 (by decide)
    apply UInt64.toNat_inj.mp
    rw [UInt64.toNat_shiftRight, UInt64.toNat_shiftLeft, small]
    change ((value.toNat % 256) <<< 8 % 2 ^ 64) >>> 8 = _
    rw [Nat.shiftLeft_eq, Nat.shiftRight_eq_div_pow]
    omega
  change ((word &&& ~~~ (0xFF00 : UInt64) ||| (value &&& 0xFF) <<< 8) >>> 8) &&& 0xFF =
    value &&& 0xFF
  rw [UInt64.shiftRight_or, or_and_distrib, cleared, moved, UInt64.zero_or, UInt64.and_assoc,
    UInt64.and_self]

end Words

/-- An operand refers to a spot in the instructions of a scope.  The upper byte of a register is an
operand too, where the hardware has one. -/
inductive Locates (scope : Scope) : Operand → Spot → Prop where
  | register {register : Register} {phys : Phys} :
      scope.image.timeline.resolve register scope.tick = some phys →
      (register.size = .high8 → phys.hasHigh8 = true) →
      Locates scope (.reg register) (.register phys)
  | cell {pointer : Pointer} {base : Phys} :
      scope.image.timeline.resolve pointer.base scope.tick = some base →
      (pointer.base.size = .high8 → base.hasHigh8 = true) →
      Locates scope (.mem pointer) (.cell base pointer.disp)

variable {scope : Scope} {image : Image} {checked : Bool} {view view' : View} {dst : Operand}
  {spot : Spot} {size : Size} {word : UInt64}

theorem Yields.physOf {register : Register} {phys : Phys}
    (place : scope.image.timeline.resolve register scope.tick = some phys)
    (has : register.size = .high8 → phys.hasHigh8 = true) :
    Yields (scope.phys register) view phys view := by
  unfold Scope.phys
  rw [place]
  dsimp only
  rw [if_neg (by
    simp only [Bool.and_eq_true, decide_eq_true_eq, Bool.not_eq_true', not_and,
      Bool.not_eq_false]
    exact has)]
  exact pure _

theorem Yields.writeLocated (located : Locates scope dst spot) (word : UInt64) :
    Yields (scope.write dst word) view () (spot.write view dst.size word) := by
  cases located with
  | @register register phys place has =>
    exact (Yields.physOf place has).bind ((getReg phys).bind (setReg phys _))
  | @cell pointer base place has =>
    have address : Yields (scope.address pointer) view (Spot.address view base pointer.disp) view :=
      (Yields.physOf place has).bind ((getReg base).bind (pure _))
    exact address.bind (store _ _ word)

/-- A number is stored as far as the width of its destination goes. -/
theorem Does.movNumber {literal : Literal} (located : Locates scope dst spot)
    (value : literal.isLabel = false) (bits : literal.bits = .ok word)
    (sized : dst.size ≠ .unsized) :
    Does scope checked (.binary .mov dst (.lit literal)) view
      (spot.write view dst.size (word &&& mask dst.size)) := by
  have direct : (dst.isMem && (Operand.lit literal).isMem) = false := Bool.and_false _
  apply binary
  unfold Machine.binary
  dsimp only
  rw [if_neg sized, direct]
  exact (Yields.readLit value bits _).bind (Yields.writeLocated located _)

/-- The byte at an address belongs to a spot. -/
def Spot.Covers (view : View) (size : Size) (address : UInt64) : Spot → Prop
  | register _ => False
  | cell base disp => (address - Spot.address view base disp).toNat < size.bytes

/-- A number has been stored in a spot, and nothing else has changed. -/
structure Stores (spot : Spot) (size : Size) (word : UInt64) (view view' : View) : Prop where
  value : (spot.read view' size).toNat = word.toNat % 2 ^ (8 * size.bytes)
  registers : ∀ phys, spot ≠ .register phys → view'.get phys = view.get phys
  memory : ∀ address, ¬ spot.Covers view size address →
    view'.memory.get address = view.memory.get address
  flags : view'.flags = view.flags
  heap : view'.heap = view.heap
  frames : view'.frames = view.frames

theorem pow_bytes (size : Size) : 256 ^ size.bytes = 2 ^ (8 * size.bytes) := by
  rw [Nat.pow_mul]

theorem stores_write (sized : size ≠ .unsized) :
    Stores spot size word view (spot.write view size (word &&& mask size)) := by
  have twice : word &&& mask size &&& mask size = word &&& mask size := by
    rw [UInt64.and_assoc, UInt64.and_self]
  cases spot with
  | register phys =>
    refine ⟨?_, ?_, fun _ _ => rfl, rfl, rfl, rfl⟩
    · have back : readPart (writePart (view.get phys) size (word &&& mask size)) size =
          word &&& mask size := by
        by_cases upper : size = .high8
        · rw [upper, readPart_writePart_high8, ← upper, twice]
        · rw [readPart_writePart _ _ upper, twice]
      rw [Spot.read, Spot.write, View.get_set, if_pos rfl, back, toNat_and_mask word sized,
        pow_bytes]
    · intro other apart
      have different : other ≠ phys := fun same => apart (congrArg Spot.register same.symm)
      exact (View.get_set view phys other _).trans (if_neg different)
  | cell base disp =>
    refine ⟨?_, fun _ _ => rfl, ?_, rfl, rfl, rfl⟩
    · change ((view.memory.store _ size.bytes (word &&& mask size)).load
        (Spot.address view base disp) size.bytes).toNat = _
      rw [Memory.load_store _ _ _ sized, twice, toNat_and_mask word sized, pow_bytes]
    · intro address outside
      exact Memory.get_store_of_le (Nat.le_of_not_lt outside)

/-- The upper half of a cell is four bytes above the lower one. -/
theorem address_offset (view : View) (base : Phys) {disp : Int32}
    (near : disp.toInt ≤ 2 ^ 31 - 5) :
    Spot.address view base (disp + 4) = Spot.address view base disp + 4 := by
  have least := disp.le_toInt
  have sum : (disp + 4).toInt = disp.toInt + 4 := by
    rw [Int32.toInt_add]
    change (disp.toInt + 4).bmod (2 ^ 32) = _
    apply Int.bmod_eq_of_le <;> omega
  rw [Spot.address, Spot.address, sum, UInt64.add_assoc]
  congr 1
  unfold Literal.wordOfInt
  rw [Int64.ofInt_add]
  rfl

/-- How far a byte is from the upper half of a cell. -/
theorem toNat_sub_add_four (address byte : UInt64) :
    (byte - (address + 4)).toNat = (2 ^ 64 - 4 + (byte - address).toNat) % 2 ^ 64 := by
  have regrouped : byte - (address + 4) = byte - address - 4 := by grind
  rw [regrouped, UInt64.toNat_sub]
  rfl

section Halves

variable {address : UInt64} {base : Phys} {disp : Int32} {memory : Memory}

theorem lower_apart (byte : UInt64) (inside : (byte - address).toNat < 4) :
    4 ≤ (byte - (address + 4)).toNat := by
  rw [toNat_sub_add_four]
  omega

theorem upper_apart (byte : UInt64) (inside : (byte - (address + 4)).toNat < 4) :
    4 ≤ (byte - address).toNat := by
  have limit := (byte - address).toNat_lt
  rw [toNat_sub_add_four] at inside
  omega

/-- Memory that has the halves of a word in a cell, and is otherwise as it was, stores the word. -/
theorem stores_of_halves (here : Spot.address view base disp = address)
    (lower : (memory.load address 4).toNat = word.toNat % 256 ^ 4)
    (upper : (memory.load (address + 4) 4).toNat = word.toNat / 256 ^ 4)
    (outside : ∀ byte : UInt64, 4 ≤ (byte - address).toNat → 4 ≤ (byte - (address + 4)).toNat →
      memory.get byte = view.memory.get byte) :
    Stores (.cell base disp) .s64 word view { view with memory } := by
  have bound := word.toNat_lt
  refine ⟨?_, fun _ _ => rfl, ?_, rfl, rfl, rfl⟩
  · have parts : (memory.load address 8).toNat =
        256 ^ 4 * (memory.load (address + 4) 4).toNat + (memory.load address 4).toNat :=
      memory.toNat_load_add address (show 4 + 4 ≤ 8 by decide)
    change (memory.load (Spot.address view base disp) 8).toNat = word.toNat % 2 ^ 64
    rw [here, parts, lower, upper]
    omega
  · intro byte uncovered
    have far : 8 ≤ (byte - address).toNat := by
      rw [← here]
      exact Nat.le_of_not_lt uncovered
    have limit := (byte - address).toNat_lt
    apply outside byte (by omega)
    rw [toNat_sub_add_four]
    omega

/-- Where a cell is does not depend on what is in the memory. -/
theorem address_memory (view : View) (memory : Memory) (base : Phys) (disp : Int32) :
    Spot.address { view with memory } base disp = Spot.address view base disp := rfl

theorem write_cell (view : View) (base : Phys) (disp : Int32) (size : Size) (word : UInt64) :
    (Spot.cell base disp).write view size word = { view with
      memory := view.memory.store (Spot.address view base disp) size.bytes word } := rfl

variable (near : disp.toInt ≤ 2 ^ 31 - 5)
include near

theorem stores_lowFirst :
    Stores (.cell base disp) .s64 word view
      ((Spot.cell base (disp + 4)).write
        ((Spot.cell base disp).write view .s32 (word &&& 0xFFFFFFFF)) .s32 (word >>> 32)) := by
  have bound := word.toNat_lt
  have bytes : Size.s32.bytes = 4 := rfl
  simp only [write_cell, address_memory, address_offset view base near, bytes]
  apply stores_of_halves rfl
  · rw [Memory.load_store_apart (by decide) lower_apart,
      Memory.toNat_load_store _ _ _ (by decide), Literal.toNat_lower, Nat.mod_mod]
  · rw [Memory.toNat_load_store _ _ _ (by decide), Literal.toNat_upper]
    omega
  · intro byte low high
    exact (Memory.get_store_of_le high).trans (Memory.get_store_of_le low)

theorem stores_highFirst :
    Stores (.cell base disp) .s64 word view
      ((Spot.cell base disp).write
        ((Spot.cell base (disp + 4)).write view .s32 (word >>> 32)) .s32
        (word &&& 0xFFFFFFFF)) := by
  have bound := word.toNat_lt
  have bytes : Size.s32.bytes = 4 := rfl
  simp only [write_cell, address_memory, address_offset view base near, bytes]
  apply stores_of_halves rfl
  · rw [Memory.toNat_load_store _ _ _ (by decide), Literal.toNat_lower, Nat.mod_mod]
  · rw [Memory.load_store_apart (by decide) upper_apart,
      Memory.toNat_load_store _ _ _ (by decide), Literal.toNat_upper]
    omega
  · intro byte low high
    exact (Memory.get_store_of_le low).trans (Memory.get_store_of_le high)

end Halves

end Machine

namespace Literal

/-- The kinds of literals that stand for an integer or a truth value. -/
def Kind.isIntegral : Kind → Bool
  | int | uint | hex | binary | bool => true
  | _ => false

variable {literal : Literal} {word : UInt64}

theorem isLabel_of_isIntegral (integral : literal.kind.isIntegral = true) :
    literal.isLabel = false := by
  unfold isLabel
  cases kind : literal.kind <;> simp_all [Kind.isIntegral]

/-- A literal with bits needs a number of bytes. -/
theorem minSize_of_bits (integral : literal.kind.isIntegral = true)
    (bits : literal.bits = .ok word) : ∃ need, literal.minSize = .ok need := by
  unfold minSize
  unfold Literal.bits at bits ⊢
  cases kind : literal.kind with
  | int =>
    rw [kind] at bits
    dsimp only at bits ⊢
    cases value : intValue literal.text with
    | ok value => exact ⟨_, rfl⟩
    | error fault =>
      rw [value] at bits
      contradiction
  | bool => exact ⟨1, rfl⟩
  | uint | hex | binary =>
    rw [kind] at bits
    dsimp only at bits ⊢
    rw [bits]
    exact ⟨_, rfl⟩
  | _ => simp [kind, Kind.isIntegral] at integral

/-- A literal made from a word needs the bytes that hold the word. -/
theorem minSize_ofWord (word : UInt64) : (ofWord word).minSize = .ok (unsignedSize word) := by
  have kind : (ofWord word).kind = .hex := rfl
  unfold minSize
  rw [kind]
  dsimp only
  rw [bits_ofWord, isNegative_ofWord]
  simp [Except.map]

end Literal

namespace Lower

open Machine

variable {dst : Operand} {literal : Literal} {word : UInt64} {need : Nat} {s : State}

theorem fits_of_le (least : literal.minSize = .ok need) (room : need ≤ dst.size.bytes) :
    fits literal dst.size s = .ok true s := by
  unfold fits
  rw [least]
  dsimp only
  rw [if_neg (by simp [Nat.not_lt_of_le room])]
  rfl

/-- The state behind a report. -/
def reported (s : State) (problem : Problem) : State :=
  { s with
    draft := s.draft.traced ("codegen: " ++ problem.message)
    collector := s.collector.add (.ofProblem problem s.location) }

theorem report_eq (problem : Problem) : report problem s = .ok () (reported s problem) := rfl

/-- A literal that is wider than its destination is reported, once, and nothing is emitted. -/
theorem storeLiteral_of_lt (order : ChunkOrder) (sized : dst.size ≠ .unsized)
    (least : literal.minSize = .ok need) (wider : dst.size.bytes < need) :
    storeLiteral dst literal order s =
      .ok () (reported s (.literalOverflow literal.text need dst.size.bytes)) := by
  have refused : fits literal dst.size s =
      .ok false (reported s (.literalOverflow literal.text need dst.size.bytes)) := by
    unfold fits
    rw [least]
    dsimp only
    rw [if_pos (by simp [sized, wider]), Success.bind_of_ok (report_eq _)]
    rfl
  unfold storeLiteral
  rw [Success.bind_of_ok refused]
  rfl

/-- The state behind some instructions and trace messages. -/
def extended (s : State) (instrs : List Instr) (trace : List String) : State :=
  { s with draft := { s.draft with text := s.draft.text.append instrs, trace } }

/-- Instructions that store a number in the spot of a destination and change nothing else. -/
def StoreCode (dst : Operand) (word : UInt64) (instrs : List Instr) : Prop :=
  ∀ (image : Image) (checked : Bool) (entries : List Entry) (spot : Spot) (view : View),
    entries.map Entry.instr = instrs →
    (∀ entry ∈ entries, Locates ⟨image, entry.tick⟩ dst spot) →
    ∃ view', Straight image checked entries view view' ∧ Stores spot dst.size word view view'

theorem storeCode_direct (value : literal.isLabel = false) (bits : literal.bits = .ok word)
    (sized : dst.size ≠ .unsized) : StoreCode dst word [.binary .mov dst (.lit literal)] := by
  intro image checked entries spot view spelled located
  obtain ⟨⟨tick, _⟩, rest, rfl, rfl, empty⟩ := List.map_eq_cons_iff.mp spelled
  obtain rfl := List.map_eq_nil_iff.mp empty
  have here := located _ List.mem_cons_self
  exact ⟨_, ⟨_, Does.movNumber here value bits sized, rfl⟩, stores_write sized⟩

/-- The instructions that store two halves in a cell. -/
def halfCode (cell : Pointer) (low high : Literal) (order : ChunkOrder) : List Instr :=
  let storeLow : Instr := .binary .mov (.mem ⟨cell.base, cell.disp, .s32⟩) (.lit low)
  let storeHigh : Instr := .binary .mov (.mem ⟨cell.base, cell.disp + 4, .s32⟩) (.lit high)
  match order with
  | .lowFirst => [storeLow, storeHigh]
  | .highFirst => [storeHigh, storeLow]

theorem storeHalves_eq {low high : Literal} (cell : Pointer)
    (split : literal.halves = .ok (low, high)) (order : ChunkOrder) :
    ∃ trace, storeHalves cell literal order s =
      .ok () (extended s (halfCode cell low high order) trace) := by
  have upper : (cell.resize .s32).offset 4 = ⟨cell.base, cell.disp + 4, .s32⟩ := rfl
  have lower : ((cell.resize .s32).offset 4).offset (-4) = ⟨cell.base, cell.disp, .s32⟩ := by
    have back : cell.disp + 4 + -4 = cell.disp := by
      rw [Int32.add_assoc]
      exact Int32.add_zero _
    change (⟨cell.base, cell.disp + 4 + -4, .s32⟩ : Pointer) = _
    rw [back]
  unfold storeHalves
  rw [split]
  dsimp only
  rw [lower, upper]
  cases order with
  | lowFirst => exact ⟨_, rfl⟩
  | highFirst => exact ⟨_, rfl⟩

/-- The instruction that stores a number in 32 bits of a cell. -/
theorem does_half {scope : Scope} {checked : Bool} {view : View} {cell : Pointer} {base : Phys}
    {half : UInt64} (disp : Int32) (located : Locates scope (.mem cell) (.cell base cell.disp)) :
    Does scope checked (.binary .mov (.mem ⟨cell.base, disp, .s32⟩) (.lit (.ofWord half))) view
      ((Spot.cell base disp).write view .s32 half) := by
  cases located with
  | cell place has =>
    have there : Locates scope (.mem ⟨cell.base, disp, .s32⟩) (.cell base disp) := .cell place has
    have does : Does scope checked
        (.binary .mov (.mem ⟨cell.base, disp, .s32⟩) (.lit (.ofWord half))) view _ :=
      Does.movNumber there rfl (Literal.bits_ofWord half) (show Size.s32 ≠ .unsized by decide)
    rw [← Spot.write_mask (by decide) (by decide)]
    exact does

/-- The halves of a word make up the word, in whichever order they are stored. -/
theorem storeCode_halves {cell : Pointer} (wide : cell.size = .s64)
    (near : cell.disp.toInt ≤ 2 ^ 31 - 5) (word : UInt64) (order : ChunkOrder) :
    StoreCode (.mem cell) word
      (halfCode cell (.ofWord (word &&& 0xFFFFFFFF)) (.ofWord (word >>> 32)) order) := by
  intro image checked entries spot view spelled located
  obtain ⟨⟨first, _⟩, ⟨second, _⟩, rfl⟩ : ∃ first second, entries = [first, second] := by
    have two : entries.length = 2 := by
      rw [← List.length_map, spelled]
      cases order <;> rfl
    exact List.length_eq_two.mp two
  obtain ⟨base, rfl⟩ : ∃ base, spot = .cell base cell.disp := by
    cases located _ List.mem_cons_self
    exact ⟨_, rfl⟩
  have here := located _ List.mem_cons_self
  have there := located _ (List.mem_cons_of_mem _ List.mem_cons_self)
  change ∃ view', _ ∧ Stores _ cell.size word view view'
  rw [wide]
  cases order with
  | lowFirst =>
    simp only [halfCode, List.map_cons, List.map_nil, List.cons.injEq, and_true] at spelled
    obtain ⟨rfl, rfl⟩ := spelled
    exact ⟨_, ⟨_, does_half cell.disp here, _, does_half (cell.disp + 4) there, rfl⟩,
      stores_lowFirst near⟩
  | highFirst =>
    simp only [halfCode, List.map_cons, List.map_nil, List.cons.injEq, and_true] at spelled
    obtain ⟨rfl, rfl⟩ := spelled
    exact ⟨_, ⟨_, does_half (cell.disp + 4) here, _, does_half cell.disp there, rfl⟩,
      stores_highFirst near⟩

/-- A literal that fits its destination is stored by some instructions, and nothing but the code and
the trace changes. -/
theorem storeLiteral_of_le (order : ChunkOrder) (value : literal.isLabel = false)
    (bits : literal.bits = .ok word) (sized : dst.size ≠ .unsized)
    (near : ∀ cell, dst = .mem cell → cell.disp.toInt ≤ 2 ^ 31 - 5)
    (least : literal.minSize = .ok need) (room : need ≤ dst.size.bytes) :
    ∃ instrs trace, storeLiteral dst literal order s = .ok () (extended s instrs trace) ∧
      StoreCode dst word instrs := by
  have direct := storeCode_direct value bits sized
  unfold storeLiteral
  rw [Success.bind_of_ok (fits_of_le least room), if_pos rfl]
  cases dst with
  | absent | lit => exact absurd rfl sized
  | reg register => exact ⟨_, s.draft.trace, rfl, direct⟩
  | mem cell =>
    by_cases short : (cell.size ≠ .s64 || literal.fitsImm32) = true
    · simp only [short, if_true]
      exact ⟨_, s.draft.trace, rfl, direct⟩
    · simp only [Bool.not_eq_true] at short
      have wide : cell.size = .s64 := by
        simp only [Bool.or_eq_false_iff, decide_eq_false_iff_not, not_not] at short
        exact short.1
      have split : literal.halves =
          .ok (.ofWord (word &&& 0xFFFFFFFF), .ofWord (word >>> 32)) := by
        unfold Literal.halves
        rw [bits]
        rfl
      obtain ⟨trace, stored⟩ := @storeHalves_eq literal s _ _ cell split order
      simp only [short, Bool.false_eq_true, if_false]
      exact ⟨_, trace, stored, storeCode_halves wide (near cell rfl) word order⟩

/-- Literals are stored exactly.  Where the literal fits, the instructions put its bits into the
destination, as far as its width goes, and change no other byte and no other register; where it does
not, no instruction is emitted, and the one problem reported names the literal and the width. -/
theorem storeLiteral_exact (order : ChunkOrder) (integral : literal.kind.isIntegral = true)
    (bits : literal.bits = .ok word) (sized : dst.size ≠ .unsized)
    (near : ∀ cell, dst = .mem cell → cell.disp.toInt ≤ 2 ^ 31 - 5) (s : State) :
    ∃ need, literal.minSize = .ok need ∧
      (need ≤ dst.size.bytes → ∃ instrs trace,
        storeLiteral dst literal order s = .ok () (extended s instrs trace) ∧
          StoreCode dst word instrs) ∧
      (dst.size.bytes < need → storeLiteral dst literal order s =
        .ok () (reported s (.literalOverflow literal.text need dst.size.bytes))) := by
  obtain ⟨need, least⟩ := Literal.minSize_of_bits integral bits
  have value := Literal.isLabel_of_isIntegral integral
  exact ⟨need, least, storeLiteral_of_le order value bits sized near least,
    storeLiteral_of_lt order sized least⟩

/-- A word that does not extend from 32 bits is stored in a cell of the frame by its halves. -/
theorem wideWord_stored : ∃ instrs trace,
    storeLiteral (.mem (frameCell (-8) .s64)) (.ofWord 0x123456789ABCDEF0) .highFirst
        State.initial = .ok () (extended State.initial instrs trace) ∧
      StoreCode (.mem (frameCell (-8) .s64)) 0x123456789ABCDEF0 instrs := by
  obtain ⟨need, least, stores, _⟩ := @storeLiteral_exact (.mem (frameCell (-8) .s64))
    (.ofWord 0x123456789ABCDEF0) 0x123456789ABCDEF0 .highFirst rfl (Literal.bits_ofWord _)
    (by decide) (by rintro _ ⟨⟩; decide) State.initial
  rw [Literal.minSize_ofWord] at least
  cases least
  exact stores (by decide)

end Lower

end X64Backend
