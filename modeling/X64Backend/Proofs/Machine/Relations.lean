import X64Backend.Proofs.Machine.Arithmetic

/-!
What conditions mean.  Behind a comparison a condition holds exactly if the relation that it names
holds between the operands, cut to the width of the comparison.
-/

namespace X64Backend

namespace Cond

variable {width : Nat} {first second : BitVec width}

/-- The relation between two words of one width that a condition names.  Less and greater go by the
sign of the words, below and above do not. -/
def Relates (cond : Cond) (first second : BitVec width) : Prop :=
  match cond with
  | e => first = second
  | ne => first ≠ second
  | l => first.toInt < second.toInt
  | le => first.toInt ≤ second.toInt
  | g => second.toInt < first.toInt
  | ge => second.toInt ≤ first.toInt
  | b => first.toNat < second.toNat
  | be => first.toNat ≤ second.toNat
  | a => second.toNat < first.toNat
  | ae => second.toNat ≤ first.toNat

instance (cond : Cond) (first second : BitVec width) : Decidable (cond.Relates first second) :=
  match cond with
  | e => inferInstanceAs (Decidable (first = second))
  | ne => inferInstanceAs (Decidable (first ≠ second))
  | l => inferInstanceAs (Decidable (first.toInt < second.toInt))
  | le => inferInstanceAs (Decidable (first.toInt ≤ second.toInt))
  | g => inferInstanceAs (Decidable (second.toInt < first.toInt))
  | ge => inferInstanceAs (Decidable (second.toInt ≤ first.toInt))
  | b => inferInstanceAs (Decidable (first.toNat < second.toNat))
  | be => inferInstanceAs (Decidable (first.toNat ≤ second.toNat))
  | a => inferInstanceAs (Decidable (second.toNat < first.toNat))
  | ae => inferInstanceAs (Decidable (second.toNat ≤ first.toNat))

theorem relates_negate (cond : Cond) : cond.negate.Relates first second ↔
    ¬ cond.Relates first second := by
  cases cond with
  | e => exact Iff.rfl
  | ne => exact not_not.symm
  | l | g => exact Int.not_lt.symm
  | le | ge => exact Int.not_le.symm
  | b | a => exact Nat.not_lt.symm
  | be | ae => exact Nat.not_le.symm

theorem relates_swap (cond : Cond) : cond.swap.Relates second first ↔
    cond.Relates first second := by
  cases cond with
  | e => exact eq_comm
  | ne => exact ne_comm
  | _ => exact Iff.rfl

end Cond

namespace Machine

variable {first second : UInt64} {size : Size}

/-- The flags behind a comparison of two words. -/
def compared (first second : UInt64) (size : Size) : Flags :=
  .ofSub first second (first - second) size

/-- The covered bits of a word, as a signed number. -/
theorem toInt_low (word : UInt64) (sized : size ≠ .unsized) :
    (low size word).toInt = Literal.intOfWord (signExtend word size) := by
  have double := two_pow_bits sized
  have below := toNat_low_lt word sized
  rw [toInt_signExtend word sized, BitVec.toInt_eq_toNat_cond, low_toNat word sized]
  split <;> split <;> omega

theorem zero_compared (sized : size ≠ .unsized) :
    (compared first second size).zero = decide (low size first = low size second) := by
  rw [compared, zero_ofSub sized true, Bool.beq_eq_decide_eq, decide_eq_decide, extend_inj,
    low_inj sized]

theorem carry_compared (sized : size ≠ .unsized) : (compared first second size).carry =
    decide ((low size first).toNat < (low size second).toNat) := by
  rw [compared, carry_ofSub, decide_eq_decide, low_toNat first sized, low_toNat second sized]
  exact UInt64.lt_iff_toNat_lt

theorem sign_compared (sized : size ≠ .unsized) :
    ((compared first second size).sign != (compared first second size).overflow) =
      decide ((low size first).toInt < (low size second).toInt) := by
  rw [compared, sign_ofSub sized, decide_eq_decide, toInt_low first sized, toInt_low second sized]
  exact Int64.lt_iff_toInt_lt

/-- The flags behind a comparison tell whether the relation that a condition names holds. -/
theorem holds_compared (sized : size ≠ .unsized) (cond : Cond) :
    (compared first second size).holds cond = true ↔
      cond.Relates (low size first) (low size second) := by
  have zero := @zero_compared first second size sized
  have carry := @carry_compared first second size sized
  have less := @sign_compared first second size sized
  have same : ((compared first second size).sign == (compared first second size).overflow) =
      !decide ((low size first).toInt < (low size second).toInt) := by
    rw [← less, bne, Bool.not_not]
  cases cond with
  | e => simp [Flags.holds, Cond.Relates, zero]
  | ne => simp [Flags.holds, Cond.Relates, zero]
  | l => simp [Flags.holds, Cond.Relates, less]
  | ge => simp [Flags.holds, Cond.Relates, same]
  | le =>
    simp only [Flags.holds, Cond.Relates, zero, less, ← BitVec.toInt_inj, Bool.or_eq_true,
      decide_eq_true_eq]
    omega
  | g =>
    simp only [Flags.holds, Cond.Relates, zero, same, ← BitVec.toInt_inj, Bool.and_eq_true,
      Bool.not_eq_true', decide_eq_false_iff_not]
    omega
  | b => simp [Flags.holds, Cond.Relates, carry]
  | ae => simp [Flags.holds, Cond.Relates, carry]
  | be =>
    simp only [Flags.holds, Cond.Relates, zero, carry, ← BitVec.toNat_inj, Bool.or_eq_true,
      decide_eq_true_eq]
    omega
  | a =>
    simp only [Flags.holds, Cond.Relates, zero, carry, ← BitVec.toNat_inj, Bool.and_eq_true,
      Bool.not_eq_true', decide_eq_false_iff_not]
    omega

/-- A comparison changes the flags only, whatever its operands are read from. -/
theorem binary_cmp {scope : Scope} {dst src : Operand} {state : State} {given : UInt64}
    (sized : dst.size ≠ .unsized) (direct : (dst.isMem && src.isMem) = false)
    (left : scope.read dst dst.size state = .ok first state)
    (right : scope.read src dst.size state = .ok given state)
    (taken : Does.sourceWord src dst.size given = second) :
    binary scope .cmp dst src state =
      .ok () { state with flags := compared first second dst.size } := by
  subst taken
  unfold binary
  dsimp only
  rw [if_neg sized, direct]
  apply (Success.bind_of_ok right).trans
  rw [if_neg (by decide)]
  apply (Success.bind_of_ok left).trans
  rw [if_neg (by decide)]
  rfl

/-- Behind a comparison of two words, in registers, memory or a literal, a condition holds exactly
if the words are related as it says, by their covered bits.  So its negation tells the contrary, and
with the operands exchanged it is the swapped condition that holds. -/
theorem cmp_relates (first second : UInt64) (sized : size ≠ .unsized) (cond : Cond) :
    ((compared first second size).holds cond = true ↔
        cond.Relates (low size first) (low size second)) ∧
      (compared first second size).holds cond.negate = !(compared first second size).holds cond ∧
      (compared second first size).holds cond.swap = (compared first second size).holds cond ∧
      ∀ {scope dst src state given}, dst.size = size → (dst.isMem && src.isMem) = false →
        scope.read dst size state = .ok first state →
        scope.read src size state = .ok given state → Does.sourceWord src size given = second →
        binary scope .cmp dst src state =
          .ok () { state with flags := compared first second size } := by
  have holds := @holds_compared first second size sized
  refine ⟨holds cond, ?_, ?_, ?_⟩
  · rw [Bool.eq_iff_iff, holds, Cond.relates_negate, ← holds]
    simp
  · rw [Bool.eq_iff_iff, holds, holds_compared sized, Cond.relates_swap]
  · rintro scope dst src state given rfl direct left right taken
    exact binary_cmp sized direct left right taken

/-- The least signed byte is less than one, though the difference overflows, and it is above one. -/
theorem leastByte_relates : Size.s8 ≠ .unsized ∧ (compared 0x80 1 .s8).holds .l = true ∧
    (compared 0x80 1 .s8).holds (Cond.negate .l) = false ∧
    (compared 1 0x80 .s8).holds (Cond.swap .l) = true ∧
    (compared 0x80 1 .s8).holds .a = true := by
  obtain ⟨less, negated, swapped, -⟩ := @cmp_relates .s8 0x80 1 (by decide) .l
  have holds := less.mpr (by decide)
  refine ⟨by decide, holds, ?_, ?_, (cmp_relates 0x80 1 (by decide) .a).1.mpr (by decide)⟩
  · rw [negated, holds]
    rfl
  · rw [swapped, holds]

end Machine

end X64Backend
