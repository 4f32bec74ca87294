import X64Backend.Lower.Fold
import X64Backend.Proofs.Code.Magnitudes
import X64Backend.Proofs.Lower.Passing

/-!
Words cut to a width and extended again, as numbers.  What the folder of constants wraps is what the
machine extends.
-/

namespace X64Backend.Machine

variable {size : Size} {word other first second : UInt64} {signed : Bool}

/-- The covered bits of a word, extended to the full word by their sign or with zeros. -/
def extend (word : UInt64) (size : Size) (signed : Bool) : UInt64 :=
  if signed then signExtend word size else word &&& mask size

@[simp]
theorem and_mask_and_mask (word : UInt64) (size : Size) :
    word &&& mask size &&& mask size = word &&& mask size := by
  rw [UInt64.and_assoc, UInt64.and_self]

@[simp]
theorem extend_and_mask (word : UInt64) (size : Size) (signed : Bool) :
    extend word size signed &&& mask size = word &&& mask size := by
  cases signed with
  | true => exact Lower.signExtend_and_mask word size
  | false => exact and_mask_and_mask word size

/-- Only the covered bits count. -/
theorem extend_congr (same : word &&& mask size = other &&& mask size) (signed : Bool) :
    extend word size signed = extend other size signed := by
  unfold extend signExtend
  rw [same]

@[simp]
theorem extend_mask (word : UInt64) (size : Size) (signed : Bool) :
    extend (word &&& mask size) size signed = extend word size signed :=
  extend_congr (and_mask_and_mask word size) signed

@[simp]
theorem extend_extend (word : UInt64) (size : Size) (signed other : Bool) :
    extend (extend word size signed) size other = extend word size other :=
  extend_congr (extend_and_mask word size signed) other

theorem extend_inj : extend word size signed = extend other size signed ↔
    word &&& mask size = other &&& mask size := by
  refine ⟨fun same => ?_, fun same => extend_congr same signed⟩
  rw [← extend_and_mask word size signed, same, extend_and_mask]

section Numbers

/-- The number of bits that an operand of a width covers. -/
def bits (size : Size) : Nat := 8 * size.bytes

theorem toNat_low (word : UInt64) (sized : size ≠ .unsized) :
    (word &&& mask size).toNat = word.toNat % 2 ^ bits size := by
  rw [toNat_and_mask word sized, bits, Nat.pow_mul]

theorem toNat_signBit (sized : size ≠ .unsized) : (signBit size).toNat = 2 ^ (bits size - 1) := by
  cases size with
  | unsized => contradiction
  | s8 | high8 | s16 | s32 | s64 => rfl

/-- The words of a width lie below this number, half of them below the sign. -/
theorem two_pow_bits (sized : size ≠ .unsized) : 2 ^ bits size = 2 * 2 ^ (bits size - 1) := by
  cases size with
  | unsized => contradiction
  | s8 | high8 | s16 | s32 | s64 => rfl

theorem toNat_low_lt (word : UInt64) (sized : size ≠ .unsized) :
    (word &&& mask size).toNat < 2 ^ bits size := by
  rw [toNat_low word sized]
  exact Nat.mod_lt _ (Nat.two_pow_pos _)

theorem isNegative_low (word : UInt64) (sized : size ≠ .unsized) :
    isNegative (word &&& mask size) size =
      decide (2 ^ (bits size - 1) ≤ (word &&& mask size).toNat) := by
  have small := toNat_low_lt word sized
  generalize (word &&& mask size) = low at small
  have double := two_pow_bits sized
  have positive := Nat.two_pow_pos (bits size - 1)
  have bit : (low &&& signBit size).toNat = low.toNat &&& 2 ^ (bits size - 1) := by
    rw [UInt64.toNat_and, toNat_signBit sized]
  rw [Nat.and_two_pow, Nat.testBit_eq_decide_div_mod_eq] at bit
  unfold isNegative
  by_cases high : 2 ^ (bits size - 1) ≤ low.toNat
  · have quotient : low.toNat / 2 ^ (bits size - 1) = 1 := by
      apply Nat.div_eq_of_lt_le <;> omega
    rw [quotient] at bit
    have set : low &&& signBit size ≠ 0 := by
      intro none
      rw [none] at bit
      simp at bit
      omega
    simp [high, set]
  · have quotient : low.toNat / 2 ^ (bits size - 1) = 0 := Nat.div_eq_of_lt (by omega)
    rw [quotient] at bit
    have none : low &&& signBit size = 0 := UInt64.toNat_inj.mp (by simpa using bit)
    simp [high, none]

theorem toInt_of_lt {word : UInt64} (small : word.toNat < 2 ^ 63) :
    Literal.intOfWord word = word.toNat := by
  rw [Literal.intOfWord_eq, if_pos small]

theorem toInt_of_le {word : UInt64} (great : 2 ^ 63 ≤ word.toNat) :
    Literal.intOfWord word = (word.toNat : Int) - 2 ^ 64 := by
  rw [Literal.intOfWord_eq, if_neg (Nat.not_lt.mpr great)]

/-- A word with all bits above a width set. -/
theorem toNat_or_not_mask (word : UInt64) (sized : size ≠ .unsized) :
    (word &&& mask size ||| ~~~ mask size).toNat =
      (word &&& mask size).toNat + (2 ^ 64 - 2 ^ bits size) := by
  have small := toNat_low_lt word sized
  generalize (word &&& mask size) = low at small
  have upper : (~~~ mask size).toNat = 2 ^ bits size * (2 ^ (64 - bits size) - 1) := by
    cases size with
    | unsized => contradiction
    | s8 | high8 | s16 | s32 | s64 => rfl
  have product : 2 ^ bits size * (2 ^ (64 - bits size) - 1) = 2 ^ 64 - 2 ^ bits size := by
    cases size with
    | unsized => contradiction
    | s8 | high8 | s16 | s32 | s64 => rfl
  rw [UInt64.toNat_or, upper, Nat.or_comm, ← Nat.two_pow_add_eq_or_of_lt small, product, Nat.add_comm]

/-- A word extended by its sign, as a number. -/
theorem toInt_signExtend (word : UInt64) (sized : size ≠ .unsized) :
    Literal.intOfWord (signExtend word size) =
      if 2 ^ (bits size - 1) ≤ (word &&& mask size).toNat then
        ((word &&& mask size).toNat : Int) - (2 ^ bits size : Nat)
      else (word &&& mask size).toNat := by
  have small := toNat_low_lt word sized
  have double := two_pow_bits sized
  have negative := isNegative_low word sized
  have upper := toNat_or_not_mask word sized
  unfold signExtend
  dsimp only
  rw [negative]
  generalize (word &&& mask size) = low at small upper
  by_cases whole : size = .s64
  · subst whole
    rw [if_neg (by simp)]
    change low.toNat < 2 ^ 64 at small
    change _ = if 2 ^ 63 ≤ low.toNat then (low.toNat : Int) - (2 ^ 64 : Nat) else (low.toNat : Int)
    split
    · rename_i high
      exact toInt_of_le high
    · rename_i high
      exact toInt_of_lt (by omega)
  · have narrow : bits size ≤ 32 := by
      cases size with
      | unsized | s64 => contradiction
      | s8 | high8 | s16 | s32 => decide
    have below : 2 ^ bits size ≤ 2 ^ 32 := Nat.pow_le_pow_right (by decide) narrow
    by_cases high : 2 ^ (bits size - 1) ≤ low.toNat
    · rw [if_pos (by simp [whole, high]), if_pos high, toInt_of_le (by omega), upper]
      omega
    · rw [if_neg (by simp [high]), if_neg high, toInt_of_lt (by omega)]

/-- Moved to the top of the word, the covered bits are the number times the distance. -/
theorem toNat_shiftLeft_low (word : UInt64) (sized : size ≠ .unsized) :
    (word <<< (64 - bits size).toUInt64).toNat =
      (word &&& mask size).toNat * 2 ^ (64 - bits size) := by
  have count : (64 - bits size).toUInt64.toNat % 64 = 64 - bits size := by
    cases size with
    | unsized => contradiction
    | s8 | high8 | s16 | s32 | s64 => rfl
  have whole : 2 ^ 64 = 2 ^ bits size * 2 ^ (64 - bits size) := by
    cases size with
    | unsized => contradiction
    | s8 | high8 | s16 | s32 | s64 => rfl
  rw [UInt64.toNat_shiftLeft, count, Nat.shiftLeft_eq, toNat_low word sized, whole,
    Nat.mul_mod_mul_right]

theorem smod_of_lt {count : BitVec 64} (small : count.toNat < 64) : count.smod 64#64 = count := by
  have positive : count.msb = false := by
    rw [BitVec.msb_eq_decide]
    simp
    omega
  have positive' : (64#64).msb = false := by decide
  rw [BitVec.smod_eq, positive, positive']
  apply BitVec.eq_of_toNat_eq
  rw [BitVec.umod_eq, BitVec.toNat_umod]
  exact Nat.mod_eq_of_lt small

/-- Moving the bits of a word down with its sign divides the number. -/
theorem toInt_sar (word : UInt64) {count : UInt64} (small : count.toNat < 64) :
    Literal.intOfWord (word.toInt64 >>> count.toInt64).toUInt64 =
      Literal.intOfWord word / (2 ^ count.toNat : Nat) := by
  change (word.toBitVec.sshiftRight' (count.toBitVec.smod 64#64)).toInt = _
  rw [smod_of_lt small, BitVec.sshiftRight'.eq_1, BitVec.toInt_sshiftRight,
    Int.shiftRight_eq_div_pow]
  rfl

theorem intOfWord_inj : Literal.intOfWord first = Literal.intOfWord second ↔ first = second := by
  refine ⟨fun same => ?_, fun same => congrArg _ same⟩
  exact UInt64.toBitVec_inj.mp (BitVec.eq_of_toInt_eq same)

/-- Words below the sign stay as they are. -/
theorem extend_of_lt (sized : size ≠ .unsized) (signed : Bool)
    (small : word.toNat < 2 ^ (bits size - 1)) : extend word size signed = word := by
  have double := two_pow_bits sized
  have below : word.toNat < 2 ^ 63 := by
    have bound : 2 ^ (bits size - 1) ≤ 2 ^ 63 := by
      apply Nat.pow_le_pow_right (by decide)
      cases size <;> decide
    omega
  have low : word &&& mask size = word := by
    apply UInt64.toNat_inj.mp
    rw [toNat_low word sized]
    exact Nat.mod_eq_of_lt (by omega)
  cases signed with
  | false => exact low
  | true =>
    apply intOfWord_inj.mp
    rw [extend, if_pos rfl, toInt_signExtend word sized, low, if_neg (by omega),
      toInt_of_lt below]

/-- A word is unchanged by the extension of its low part exactly if its number is in range. -/
theorem extend_eq_self_iff (sized : size ≠ .unsized) (signed : Bool) :
    extend word size signed = word ↔
      if signed then -(2 ^ (bits size - 1) : Nat) ≤ Literal.intOfWord word ∧
        Literal.intOfWord word < (2 ^ (bits size - 1) : Nat)
      else word.toNat < 2 ^ bits size := by
  have double := two_pow_bits sized
  have below := toNat_low_lt word sized
  cases signed with
  | false =>
    change word &&& mask size = word ↔ word.toNat < 2 ^ bits size
    rw [← UInt64.toNat_inj, toNat_low word sized]
    exact ⟨fun same => by rw [← same]; exact Nat.mod_lt _ (Nat.two_pow_pos _), Nat.mod_eq_of_lt⟩
  | true =>
    have number := toInt_signExtend word sized
    refine ⟨fun same => ?_, ?_⟩
    · rw [if_pos rfl, ← same, extend, if_pos rfl, number]
      split <;> omega
    · rintro ⟨least, greatest⟩
      have low := toNat_low word sized
      have bound := word.toNat_lt
      apply intOfWord_inj.mp
      rw [extend, if_pos rfl, number]
      generalize (word &&& mask size).toNat = part at low below
      rcases Nat.lt_or_ge word.toNat (2 ^ 63) with small | great
      · rw [toInt_of_lt small] at least greatest ⊢
        have whole : part = word.toNat := low.trans (Nat.mod_eq_of_lt (by omega))
        rw [if_neg (by omega), whole]
      · rw [toInt_of_le great] at least greatest ⊢
        obtain ⟨turns, total⟩ : ∃ turns, 2 ^ 64 = 2 ^ bits size + 2 ^ bits size * turns := by
          cases size with
          | unsized => contradiction
          | s8 | high8 => exact ⟨2 ^ 56 - 1, rfl⟩
          | s16 => exact ⟨2 ^ 48 - 1, rfl⟩
          | s32 => exact ⟨2 ^ 32 - 1, rfl⟩
          | s64 => exact ⟨0, rfl⟩
        have upper : part = word.toNat + 2 ^ bits size - 2 ^ 64 := by
          have split' : word.toNat =
              word.toNat + 2 ^ bits size - 2 ^ 64 + 2 ^ bits size * turns := by omega
          rw [low, split', Nat.add_mul_mod_self_left, Nat.mod_eq_of_lt (by omega)]
          omega
        rw [if_pos (by omega), upper]
        omega

/-- A word extended from a width is within every larger one. -/
theorem extend_extend_of_le {wide : Size} (sized : size ≠ .unsized) (sized' : wide ≠ .unsized)
    (narrow : size.bytes ≤ wide.bytes) (signed : Bool) :
    extend (extend word size signed) wide signed = extend word size signed := by
  have within := (extend_eq_self_iff sized signed).mp (extend_extend word size signed signed)
  have less : 2 ^ bits size ≤ 2 ^ bits wide :=
    Nat.pow_le_pow_right (by decide) (Nat.mul_le_mul_left 8 narrow)
  have double := two_pow_bits sized
  have double' := two_pow_bits sized'
  apply (extend_eq_self_iff sized' signed).mpr
  cases signed with
  | true =>
    rw [if_pos rfl] at within ⊢
    omega
  | false =>
    rw [if_neg Bool.false_ne_true] at within ⊢
    omega

/-- Moving the covered bits of a word up and down again extends them by their sign. -/
theorem sar_shiftLeft (word : UInt64) (sized : size ≠ .unsized) :
    ((word <<< (64 - bits size).toUInt64).toInt64 >>>
      (64 - bits size).toUInt64.toInt64).toUInt64 = signExtend word size := by
  have few : 8 ≤ bits size ∧ bits size ≤ 64 := by
    cases size with
    | unsized => contradiction
    | s8 | high8 | s16 | s32 | s64 => decide
  have count : (64 - bits size).toUInt64.toNat = 64 - bits size := by
    cases size with
    | unsized => contradiction
    | s8 | high8 | s16 | s32 | s64 => rfl
  have shifted := toNat_shiftLeft_low word sized
  have whole : 2 ^ 64 = 2 ^ bits size * 2 ^ (64 - bits size) := by
    rw [← Nat.pow_add]
    congr 1
    omega
  have half : 2 ^ 63 = 2 ^ (bits size - 1) * 2 ^ (64 - bits size) := by
    rw [← Nat.pow_add]
    congr 1
    omega
  have positive := Nat.two_pow_pos (64 - bits size)
  have apart : ((2 ^ (64 - bits size) : Nat) : Int) ≠ 0 := by omega
  apply intOfWord_inj.mp
  rw [toInt_sar _ (by omega), toInt_signExtend word sized, count]
  by_cases high : 2 ^ (bits size - 1) ≤ (word &&& mask size).toNat
  · have great : 2 ^ 63 ≤ (word <<< (64 - bits size).toUInt64).toNat := by
      rw [shifted, half]
      exact Nat.mul_le_mul_right _ high
    have factored : ((word <<< (64 - bits size).toUInt64).toNat : Int) - 2 ^ 64 =
        ((word &&& mask size).toNat - (2 ^ bits size : Nat)) * (2 ^ (64 - bits size) : Nat) := by
      have total : (2 ^ 64 : Int) = (2 ^ bits size * 2 ^ (64 - bits size) : Nat) :=
        congrArg Int.ofNat whole
      rw [shifted, Int.sub_mul, total, Int.natCast_mul, Int.natCast_mul]
    rw [if_pos high, toInt_of_le great, factored, Int.mul_ediv_cancel _ apart]
  · have less : (word <<< (64 - bits size).toUInt64).toNat < 2 ^ 63 := by
      rw [shifted, half]
      exact Nat.mul_lt_mul_of_pos_right (Nat.lt_of_not_le high) positive
    rw [if_neg high, toInt_of_lt less, shifted, Int.natCast_mul, Int.mul_ediv_cancel _ apart]

/-- What the folder of constants wraps is what the machine extends. -/
theorem wrap_eq_extend (word : UInt64) (size : Size) (signed : Bool) :
    Lower.wrap word size signed = extend word size signed := by
  by_cases whole : size = .unsized ∨ size = .s64
  · have cover : mask size = mask .s64 := by rcases whole with rfl | rfl <;> rfl
    have low : word &&& mask size = word := by rw [cover, and_mask_word]
    have above : ~~~ mask size = 0 := by rw [cover]; decide
    have same : extend word size signed = word := by simp [extend, signExtend, low, above]
    rw [same]
    rcases whole with rfl | rfl <;> rfl
  · have sized : size ≠ .unsized := fun same => whole (.inl same)
    have narrow : ¬ (bits size = 0 ∨ 64 ≤ bits size) := by
      revert whole
      cases size <;> decide
    have width : size.bytes * 8 = bits size := Nat.mul_comm _ _
    unfold Lower.wrap
    dsimp only
    rw [width, if_neg narrow]
    cases signed with
    | false =>
      change word &&& (1 <<< (bits size).toUInt64 - 1) = word &&& mask size
      congr 1
      revert whole
      cases size <;> decide
    | true => exact sar_shiftLeft word sized

end Numbers

end X64Backend.Machine
