import Mathlib.Algebra.Group.Int.Defs
import Mathlib.Algebra.Group.Nat.Defs
import Mathlib.Order.Bounds.Basic
import X64Backend.Proofs.Numeral.Digits

/-!
Widths of integer literals.  The width that a literal asks for is the least one that holds its bits,
and a literal asks for a width exactly when it has bits.
-/

namespace X64Backend.Literal

variable {literal : Literal} {word : UInt64} {value : Int} {count : Nat}

/-- The literal stands for a signed number. -/
def IsSigned (literal : Literal) : Prop :=
  literal.kind = .int ∨
    (literal.kind = .hex ∨ literal.kind = .binary) ∧ isNegative literal.text = true

instance (literal : Literal) : Decidable literal.IsSigned :=
  inferInstanceAs (Decidable (_ ∨ _ ∧ _))

/-- The word is the sign extension of its low bytes. -/
def Extends (word : UInt64) (count : Nat) : Prop :=
  (word.toBitVec.setWidth (8 * count)).signExtend 64 = word.toBitVec

/-- So many bytes hold the bits of a literal: as an unsigned number, or else as a signed one if the
literal stands for a signed number. -/
def HeldIn (literal : Literal) (word : UInt64) (count : Nat) : Prop :=
  word.toNat < 2 ^ (8 * count) ∨ literal.IsSigned ∧ Extends word count

/-- The widths that the instructions know, in bytes. -/
def widths : List Nat := [1, 2, 4, 8]

section Words

/-- A word extends its low bytes exactly when its number lies in their signed range. -/
theorem extends_iff (positive : 0 < count) (most : count ≤ 8) :
    Extends word count ↔
      -2 ^ (8 * count - 1) ≤ intOfWord word ∧ intOfWord word < 2 ^ (8 * count - 1) := by
  have low : ((word.toBitVec.setWidth (8 * count)).signExtend 64).toInt =
      (intOfWord word).bmod (2 ^ (8 * count)) := by
    change _ = word.toBitVec.toInt.bmod _
    rw [BitVec.toInt_signExtend_of_le (by omega), BitVec.toInt_setWidth,
      BitVec.toInt_eq_toNat_bmod word.toBitVec, Int.bmod_bmod_of_dvd (Nat.pow_dvd_pow 2 (by omega))]
  have double : 2 ^ (8 * count) = 2 * 2 ^ (8 * count - 1) := by
    rw [← Nat.pow_succ', show (8 * count - 1).succ = 8 * count by omega]
  have cast : ((2 ^ (8 * count) : Nat) : Int) = 2 * 2 ^ (8 * count - 1) := by
    rw [double]
    norm_cast
  unfold Extends
  rw [← BitVec.toInt_inj, low]
  change _ = intOfWord word ↔ _
  rw [Int.bmod_eq_iff (Nat.two_pow_pos _), cast, Int.sub_self]
  constructor
  · rintro ⟨least, greatest, -⟩
    omega
  · rintro ⟨least, greatest⟩
    exact ⟨by omega, by omega, Int.dvd_zero _⟩

/-- The number of a word, by the half of the range that the word lies in. -/
theorem intOfWord_eq (word : UInt64) : intOfWord word =
    if word.toNat < 2 ^ 63 then (word.toNat : Int) else word.toNat - 2 ^ 64 := by
  change word.toBitVec.toInt = _
  rw [BitVec.toInt_eq_toNat_cond]
  change (if 2 * word.toNat < 2 ^ 64 then (word.toNat : Int) else word.toNat - 2 ^ 64) = _
  split <;> split <;> omega

theorem intOfWord_wordOfInt (least : -2 ^ 63 ≤ value) (greatest : value < 2 ^ 63) :
    intOfWord (wordOfInt value) = value :=
  Int64.toInt_ofInt_of_le least greatest

end Words

section Ladders

/-- Trying the widths in turn finds the least one that will do. -/
theorem isLeast_ladder {suits : Nat → Prop} {first second third : Prop} [Decidable first]
    [Decidable second] [Decidable third] (one : first ↔ suits 1) (two : second ↔ suits 2)
    (four : third ↔ suits 4) (eight : suits 8) :
    IsLeast {count | count ∈ widths ∧ suits count}
      (if first then 1 else if second then 2 else if third then 4 else 8) := by
  have each {count : Nat} (member : count ∈ widths) :
      count = 1 ∨ count = 2 ∨ count = 4 ∨ count = 8 := by
    simpa [widths] using member
  split_ifs with holds1 holds2 holds4
  · refine ⟨⟨by decide, one.mp holds1⟩, ?_⟩
    rintro count ⟨member, -⟩
    have := each member
    omega
  · refine ⟨⟨by decide, two.mp holds2⟩, ?_⟩
    rintro count ⟨member, fits⟩
    rcases each member with rfl | rfl | rfl | rfl
    · exact absurd (one.mpr fits) holds1
    all_goals decide
  · refine ⟨⟨by decide, four.mp holds4⟩, ?_⟩
    rintro count ⟨member, fits⟩
    rcases each member with rfl | rfl | rfl | rfl
    · exact absurd (one.mpr fits) holds1
    · exact absurd (two.mpr fits) holds2
    all_goals decide
  · refine ⟨⟨by decide, eight⟩, ?_⟩
    rintro count ⟨member, fits⟩
    rcases each member with rfl | rfl | rfl | rfl
    · exact absurd (one.mpr fits) holds1
    · exact absurd (two.mpr fits) holds2
    · exact absurd (four.mpr fits) holds4
    · exact le_refl 8

/-- Eight bytes hold every word. -/
theorem heldIn_eight (literal : Literal) (word : UInt64) : literal.HeldIn word 8 :=
  .inl word.toNat_lt

theorem isLeast_unsignedSize (unsigned : ¬ literal.IsSigned) :
    IsLeast {count | count ∈ widths ∧ literal.HeldIn word count} (unsignedSize word) := by
  have fits (count : Nat) : literal.HeldIn word count ↔ word.toNat < 2 ^ (8 * count) :=
    or_iff_left fun ⟨signed, _⟩ => unsigned signed
  exact isLeast_ladder (fits 1).symm (fits 2).symm (fits 4).symm (heldIn_eight literal word)

/-- The widths of a signed literal are those of its number, read either way. -/
theorem heldIn_iff (signed : literal.IsSigned) (count : Nat) (positive : 0 < count)
    (less : count < 8) : literal.HeldIn word count ↔
      -2 ^ (8 * count - 1) ≤ intOfWord word ∧ intOfWord word < 2 ^ (8 * count) := by
  have double : (2 : Int) ^ (8 * count) = 2 * 2 ^ (8 * count - 1) := by
    rw [← Int.pow_succ', show 8 * count - 1 + 1 = 8 * count by omega]
  have cast : word.toNat < 2 ^ (8 * count) ↔ (word.toNat : Int) < 2 ^ (8 * count) := by
    norm_cast
  have small : (2 : Int) ^ (8 * count - 1) ≤ 2 ^ 55 := by
    exact_mod_cast Nat.pow_le_pow_right (by decide) (show 8 * count - 1 ≤ 55 by omega)
  have bound := word.toNat_lt
  unfold HeldIn
  rw [and_iff_right signed, extends_iff positive (by omega), cast, double, intOfWord_eq]
  split <;> omega

theorem isLeast_signedSize (signed : literal.IsSigned) :
    IsLeast {count | count ∈ widths ∧ literal.HeldIn word count} (signedSize (intOfWord word)) :=
  isLeast_ladder (heldIn_iff signed 1 (by decide) (by decide)).symm
    (heldIn_iff signed 2 (by decide) (by decide)).symm
    (heldIn_iff signed 4 (by decide) (by decide)).symm (heldIn_eight literal word)

end Ladders

section Texts

theorem readInteger_range {text : List Char} (read : Numeral.readInteger .byLead text = .ok value) :
    -2 ^ 63 ≤ value ∧ value < 2 ^ 63 := by
  unfold Numeral.readInteger at read
  dsimp only at read
  cases magnitude : Numeral.readMagnitude .byLead (Numeral.splitSign text).2 with
  | error cause =>
    rw [magnitude] at read
    contradiction
  | ok number =>
    rw [magnitude] at read
    dsimp only at read
    split_ifs at read <;> injection read with same <;> omega

/-- A signed text has a signed 64-bit number. -/
theorem intValue_range {text : String} (read : intValue text = .ok value) :
    -2 ^ 63 ≤ value ∧ value < 2 ^ 63 := by
  apply @readInteger_range _ text.toList
  unfold intValue Numeral.readSigned at read
  cases outcome : Numeral.readInteger .byLead text.toList with
  | ok number =>
    rw [outcome] at read
    injection read with same
    rw [same]
  | error cause =>
    rw [outcome] at read
    contradiction

/-- The width of a word under a literal that is or is not signed. -/
def sizeUnder (literal : Literal) (word : UInt64) : Nat :=
  if literal.IsSigned then signedSize (intOfWord word) else unsignedSize word

theorem sizeUnder_radix (radix : literal.kind = .hex ∨ literal.kind = .binary) :
    literal.sizeUnder = fun word =>
      if isNegative literal.text then signedSize (intOfWord word) else unsignedSize word := by
  have notInt : literal.kind ≠ .int := by
    rcases radix with kind | kind <;> simp [kind]
  have sign : literal.IsSigned ↔ isNegative literal.text = true :=
    (or_iff_right notInt).trans (and_iff_right radix)
  exact funext fun _ => if_congr sign rfl rfl

/-- A signed literal is measured by its text, which has the number of its bits. -/
theorem minSize_eq_map (integral : literal.kind ∈ [.int, .uint, .hex, .binary]) :
    literal.minSize = literal.bits.map literal.sizeUnder := by
  obtain ⟨kind, text⟩ := literal
  cases kind with
  | int =>
    have signed : IsSigned ⟨.int, text⟩ := .inl rfl
    change (intValue text).map signedSize = ((intValue text).map wordOfInt).map _
    cases read : intValue text with
    | error fault => rfl
    | ok value =>
      obtain ⟨least, greatest⟩ := intValue_range read
      change Except.ok (signedSize value) = .ok (sizeUnder ⟨.int, text⟩ (wordOfInt value))
      rw [sizeUnder, if_pos signed, intOfWord_wordOfInt least greatest]
  | uint =>
    have unsigned : ¬ IsSigned ⟨.uint, text⟩ := by simp [IsSigned]
    have size : sizeUnder ⟨.uint, text⟩ = unsignedSize := funext fun _ => if_neg unsigned
    rw [size]
    rfl
  | hex =>
    rw [sizeUnder_radix (.inl rfl)]
    rfl
  | binary =>
    rw [sizeUnder_radix (.inr rfl)]
    rfl
  | _ => simp at integral

theorem isLeast_sizeUnder (literal : Literal) (word : UInt64) :
    IsLeast {count | count ∈ widths ∧ literal.HeldIn word count} (literal.sizeUnder word) := by
  unfold sizeUnder
  split
  · exact isLeast_signedSize ‹_›
  · exact isLeast_unsignedSize ‹_›

end Texts

/-- An integer literal asks for a width exactly when it has bits, and then for the least one that
holds them. -/
theorem minSize_isLeast (integral : literal.kind ∈ [.int, .uint, .hex, .binary]) :
    (∀ fault, literal.minSize = .error fault ↔ literal.bits = .error fault) ∧
    ∀ word, literal.bits = .ok word → ∃ count, literal.minSize = .ok count ∧
      IsLeast {count | count ∈ widths ∧ literal.HeldIn word count} count := by
  rw [minSize_eq_map integral]
  refine ⟨fun fault => ?_, fun word bits => ⟨literal.sizeUnder word, ?_, isLeast_sizeUnder _ _⟩⟩
  · cases literal.bits <;> simp [Except.map]
  · rw [bits]
    rfl

/-- A negated pattern that wraps around to a small number. -/
theorem minSize_isLeast_wrapped :
    (⟨.hex, "-0xFFFF_FFFF_FFFF_FF80"⟩ : Literal).kind ∈ [Kind.int, .uint, .hex, .binary] ∧
    ∃ count, (⟨.hex, "-0xFFFF_FFFF_FFFF_FF80"⟩ : Literal).minSize = .ok count ∧
      IsLeast {count | count ∈ widths ∧
        HeldIn ⟨.hex, "-0xFFFF_FFFF_FFFF_FF80"⟩ 0x80 count} count :=
  have bits : (⟨.hex, "-0xFFFF_FFFF_FFFF_FF80"⟩ : Literal).bits = .ok 0x80 := by decide +kernel
  ⟨by decide, (minSize_isLeast (by decide)).2 0x80 bits⟩

end X64Backend.Literal
