import X64Backend.Proofs.Lower.Folding

/-!
Shifts of literals and of variables.  The machine turns by the lowest five or six bits of a count,
as many as the width asks for, and the folder always by six.  They agree on the counts below what
the machine can reach at the width, whether a count is in a variable or a literal.
-/

namespace X64Backend.Lower

open Machine X64Backend.Tree

variable {s s' : State} {x y result : Operand} {type : TypeRef} {literal : Literal}
  {first second value : UInt64} {left : Bool}

/-- The operator of a shift. -/
def shiftOperator (left : Bool) : BinaryOp := if left then .shl else .shr

theorem foldWords_shift {signed : Bool} :
    ∃ value, foldWords (shiftOperator left) first second signed = .word value := by
  cases left with
  | false => exact ⟨_, rfl⟩
  | true => exact ⟨_, rfl⟩

theorem evaluate_shift {other : TypeRef} {spot : Spot} {place : Handle → Option Phys}
    (sits : Sits place x spot) : evaluate (shiftOperator left) x y type other =
      shift (shiftOp left type.isSigned) x y type.operandSize type.isSigned := by
  have folds := @fold_variable x y (shiftOperator left) spot place sits type.operandSize
    type.isSigned
  unfold evaluate arith
  dsimp only
  rw [folds]
  cases left <;> rfl

section Code

variable (operand : Varies s.draft type x) (regular : Regular type.operandSize)
  (tidy : s.draft.Tidy) (within : extend first type.operandSize type.isSigned = first)
include operand regular tidy within

/-- The code of a shift by a count in a variable computes what the folder makes of the bits of the
count that the machine looks at. -/
theorem computes_shift (count : Varies s.draft type y)
    (narrow : extend second type.operandSize type.isSigned = second)
    (folds : foldWords (shiftOperator left) first (shiftCount type.operandSize second)
      type.isSigned = .word value)
    (run : evaluate (shiftOperator left) x y type type s = .ok result s') :
    result.size = type.operandSize ∧ Computes s s' [(x, first), (y, second)] result
      (extend value type.operandSize type.isSigned) := by
  obtain ⟨spot, sits, _⟩ := operand.rests.sits tidy (operand.width ▸ regular)
  rw [evaluate_shift sits] at run
  obtain ⟨width, adds⟩ := adds_shift tidy (operands_of_varies operand count regular regular) run
  refine ⟨width, adds.computes (held_binary operand count regular regular first second) tidy ?_⟩
  intro view view' becomes holds
  obtain ⟨word, folds', shows'⟩ := becomes first second
    (holds (x, first) (by simp)) (holds (y, second) (by simp))
  rw [operand.width, count.width, within, within, narrow] at folds'
  obtain rfl := Folded.word.inj (folds.symm.trans folds')
  apply shows'.congr
  rw [width, extend_and_mask]

/-- The code of a shift by a literal count likewise. -/
theorem computes_shift_literal (number : numeric? literal = some second) (small : second ≤ 63)
    (folds : foldWords (shiftOperator left) first (shiftCount type.operandSize second)
      type.isSigned = .word value)
    (run : evaluate (shiftOperator left) x (.lit literal) type type s = .ok result s') :
    result.size = type.operandSize ∧ Computes s s' [(x, first)] result
      (extend value type.operandSize type.isSigned) := by
  obtain ⟨spot, sits, _⟩ := operand.rests.sits tidy (operand.width ▸ regular)
  obtain ⟨proper, _, bits⟩ := bits_of_numeric number
  rw [evaluate_shift sits] at run
  obtain ⟨width, adds⟩ := adds_shift_literal proper bits small tidy operand.rests regular
    (operand.width ▸ regular) run
  refine ⟨width, adds.computes (held_unary operand regular first) tidy ?_⟩
  intro view view' becomes holds
  obtain ⟨word, folds', shows'⟩ := becomes first (holds (x, first) (by simp))
  rw [operand.width, within, within] at folds'
  obtain rfl := Folded.word.inj (folds.symm.trans folds')
  apply shows'.congr
  rw [width, extend_and_mask]

end Code

/-- Folding agrees with the generated shifts for the counts that the machine can reach, in a
variable or as a literal. -/
theorem shifts_agree {left right : Literal} (known : type.kind ≠ .void) (leftward : Bool)
    (fits : Fits type left first) (fits' : Fits type right second)
    (few : second.toNat < reach type.operandSize) : ∃ folded word,
      Constant (evaluate (shiftOperator leftward) (.lit left) (.lit right) type type) folded ∧
        Denotes type.operandSize folded word ∧
        ∀ {s x}, s.draft.Tidy → Varies s.draft type x →
          (∀ {y}, Varies s.draft type y →
            Delivers s (evaluate (shiftOperator leftward) x y type type)
              [(x, first), (y, second)] type.operandSize word) ∧
          Delivers s (evaluate (shiftOperator leftward) x (.lit right) type type)
            [(x, first)] type.operandSize word := by
  have regular := regular_operandSize known
  obtain ⟨value, folds⟩ := @foldWords_shift first second leftward type.isSigned
  refine ⟨_, _, constant_of_word fits fits' folds, denotes_word regular.sized value, ?_⟩
  intro s x tidy operand
  rw [← @shiftCount_of_lt type.operandSize second few] at folds
  obtain ⟨spot, sits, _⟩ := operand.rests.sits tidy (operand.width ▸ regular)
  refine ⟨fun count => ?_, ?_⟩
  · refine ⟨?_, computes_shift operand regular tidy fits.within count fits'.within folds⟩
    rintro ⟨slot, _, _, vacant, _⟩
    rw [evaluate_shift sits]
    exact shift_ends tidy vacant (operands_of_varies operand count regular regular) _
  · have small : second ≤ 63 := by
      have bound : reach type.operandSize ≤ 64 := by
        unfold reach
        split <;> decide
      rw [UInt64.le_iff_toNat_le]
      exact Nat.le_of_lt_succ (Nat.lt_of_lt_of_le few bound)
    obtain ⟨_, _, bits⟩ := bits_of_numeric fits'.value
    have counts : isCount right = true := by simp [isCount, bits, small]
    refine ⟨?_, computes_shift_literal operand regular tidy fits.within fits'.value small folds⟩
    rintro ⟨slot, _, _, vacant, _⟩
    rw [evaluate_shift sits]
    exact shift_literal_ends tidy counts vacant operand.rests (operand.width ▸ regular) _

end X64Backend.Lower
