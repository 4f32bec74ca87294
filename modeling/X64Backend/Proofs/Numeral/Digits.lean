import Mathlib.Algebra.Group.Int.Defs
import Mathlib.Algebra.Group.Nat.Defs
import X64Backend.Code.Literal

/-!
Numerals that were written by the library are read back.  The digits of a number in a radix are read
as that number, decimal numerals name no other radix by their lead, and the literals made from
numbers have these numbers as their bits, whole or in two halves.
-/

namespace X64Backend

namespace Numeral

section Digits

variable {base : Nat} {underscores : Bool} {write : Char → Char}

/-- Reading goes on behind the first digits with their value. -/
theorem readDigits_append {front rest : List Char} {value middle : Nat}
    (read : readDigits base underscores front value = .ok middle) :
    readDigits base underscores (front ++ rest) value =
      readDigits base underscores rest middle := by
  induction front generalizing value with
  | nil =>
      cases read
      rfl
  | cons c front inductionHypothesis =>
      rw [List.cons_append, readDigits]
      rw [readDigits] at read
      by_cases skipped : (underscores && decide (c = '_')) = true
      · rw [if_pos skipped] at read ⊢
        exact inductionHypothesis read
      · rw [if_neg skipped] at read ⊢
        cases found : digitValue? c with
        | none => simp [found] at read
        | some digit =>
            rw [found] at read
            dsimp only at read ⊢
            by_cases large : base ≤ digit
            · simp [large] at read
            · by_cases exceeds : wordLimit ≤ value * base + digit
              · simp [large, exceeds] at read
              · rw [if_neg large, if_neg exceeds] at read ⊢
                exact inductionHypothesis read

/-- How the digits of a radix are written: each as a character that is read as that digit. -/
def Writes (base : Nat) (write : Char → Char) : Prop :=
  ∀ digit < base, digitValue? (write digit.digitChar) = some digit

theorem Writes.ne_underscore (writes : Writes base write) {digit : Nat} (small : digit < base) :
    write digit.digitChar ≠ '_' := by
  intro same
  have read := writes digit small
  rw [same] at read
  cases read

theorem readDigits_digit (writes : Writes base write) {value digit : Nat} (small : digit < base)
    (fits : value * base + digit < wordLimit) :
    readDigits base underscores [write digit.digitChar] value = .ok (value * base + digit) := by
  simp [readDigits, writes.ne_underscore small, writes digit small, Nat.not_le.mpr small,
    Nat.not_le.mpr fits]

/-- The digits of a number are read as the number. -/
theorem readDigits_toDigits (writes : Writes base write) (radix : 1 < base) {n : Nat}
    (fits : n < wordLimit) :
    readDigits base underscores ((Nat.toDigits base n).map write) 0 = .ok n := by
  induction n using Nat.base_induction base radix with
  | single digit small =>
      rw [Nat.toDigits_of_lt_base small, List.map_singleton,
        readDigits_digit writes small (by simpa using fits), Nat.zero_mul, Nat.zero_add]
  | digit front digit small positive inductionHypothesis =>
      have smaller : front ≤ base * front := Nat.le_mul_of_pos_left front (by omega)
      rw [← Nat.toDigits_append_toDigits radix positive small, List.map_append,
        readDigits_append (inductionHypothesis (by omega)), Nat.toDigits_of_lt_base small,
        List.map_singleton, readDigits_digit writes small (by rwa [Nat.mul_comm]), Nat.mul_comm]

theorem mem_map_toDigits (radix : 1 < base) {n : Nat} {c : Char}
    (member : c ∈ (Nat.toDigits base n).map write) :
    ∃ digit < base, c = write digit.digitChar := by
  induction n using Nat.base_induction base radix with
  | single digit small =>
      rw [Nat.toDigits_of_lt_base small] at member
      exact ⟨digit, small, by simpa using member⟩
  | digit front digit small positive inductionHypothesis =>
      rw [← Nat.toDigits_append_toDigits radix positive small, List.map_append,
        Nat.toDigits_of_lt_base small] at member
      rcases List.mem_append.mp member with member | member
      · exact inductionHypothesis member
      · exact ⟨digit, small, by simpa using member⟩

/-- A number other than zero has no leading zero. -/
theorem head_toDigits (radix : 1 < base) {n : Nat} (positive : 0 < n) :
    ∃ digit rest, Nat.toDigits base n = digit.digitChar :: rest ∧ 0 < digit ∧ digit < base := by
  induction n using Nat.base_induction base radix with
  | single digit small => exact ⟨digit, [], Nat.toDigits_of_lt_base small, positive, small⟩
  | digit front digit small some inductionHypothesis =>
      obtain ⟨first, rest, same, bounds⟩ := inductionHypothesis some
      rw [← Nat.toDigits_append_toDigits radix some small, same]
      exact ⟨first, rest ++ Nat.toDigits base digit, rfl, bounds⟩

end Digits

/-- The decimal digits as they are, and the hexadecimal ones in upper case. -/
theorem writes_decimal : Writes 10 id := by
  unfold Writes
  decide

theorem writes_hexUpper : Writes 16 Char.toUpper := by
  unfold Writes
  decide

section Decimal

variable {n : Nat}

/-- The characters of a decimal numeral. -/
theorem isDigit_of_mem_repr {c : Char} (member : c ∈ n.repr.toList) : c.isDigit = true := by
  rw [Nat.toList_repr] at member
  exact Nat.isDigit_of_mem_toDigits (by decide) (by decide) member

theorem repr_toList_ne_nil : n.repr.toList ≠ [] := by
  rw [Nat.toList_repr]
  exact Nat.toDigits_ne_nil

theorem not_contains_underscore : n.repr.toList.contains '_' = false := by
  rw [Nat.toList_repr, Bool.eq_false_iff]
  simp

/-- The lead of a decimal numeral names no other radix; the digits of zero are the lead. -/
theorem splitLead_repr :
    splitLead n.repr.toList = if n = 0 then (8, []) else (10, n.repr.toList) := by
  rw [Nat.toList_repr]
  split
  · rename_i zero
    subst zero
    rfl
  · rename_i some
    have ten : 1 < 10 := by decide
    obtain ⟨digit, rest, same, positive, -⟩ := head_toDigits ten (Nat.pos_of_ne_zero some)
    have lead : digit.digitChar ≠ '0' := by
      rw [Ne, Nat.digitChar_eq_zero]
      omega
    rw [same]
    unfold splitLead
    split
    · rename_i cons
      exact absurd (List.cons.inj cons).1 lead
    · rename_i cons
      exact absurd (List.cons.inj cons).1 lead
    · rfl

theorem readMagnitude_repr (fits : n < wordLimit) :
    readMagnitude .byLead n.repr.toList = .ok n := by
  have read : readDigits 10 true n.repr.toList 0 = .ok n := by
    rw [Nat.toList_repr, ← List.map_id (Nat.toDigits 10 n)]
    exact readDigits_toDigits writes_decimal (by decide) fits
  unfold readMagnitude
  rw [if_neg repr_toList_ne_nil]
  dsimp only
  rw [splitLead_repr]
  by_cases zero : n = 0
  · subst zero
    rfl
  · rw [if_neg zero]
    dsimp only
    rw [read]
    dsimp only
    rw [not_contains_underscore]
    rfl

/-- A decimal numeral has no sign. -/
theorem splitSign_repr : splitSign n.repr.toList = (false, n.repr.toList) := by
  unfold splitSign
  split
  · rename_i cons
    exact absurd (isDigit_of_mem_repr (cons ▸ List.mem_cons_self)) (by decide)
  · rename_i cons
    exact absurd (isDigit_of_mem_repr (cons ▸ List.mem_cons_self)) (by decide)
  · rfl

/-- A decimal numeral of a signed word is read as its value. -/
theorem readInteger_repr (fits : n < 0x8000000000000000) :
    readInteger .byLead n.repr.toList = .ok n := by
  have inWord : n < wordLimit := Nat.lt_trans fits (by decide)
  simp only [readInteger, splitSign_repr, readMagnitude_repr inWord]
  rw [if_neg Bool.false_ne_true, if_neg (Nat.not_le.mpr fits)]

/-- The same behind a minus sign, down to the least signed word. -/
theorem readInteger_neg_repr (fits : n ≤ 0x8000000000000000) :
    readInteger .byLead ('-' :: n.repr.toList) = .ok (-(n : Int)) := by
  have inWord : n < wordLimit := Nat.lt_of_le_of_lt fits (by decide)
  simp only [readInteger, splitSign, readMagnitude_repr inWord]
  rw [if_pos trivial, if_neg (Nat.not_lt.mpr fits)]

/-- Every signed word is read as it was written. -/
theorem readInteger_toString {value : Int} (least : -0x8000000000000000 ≤ value)
    (greatest : value < 0x8000000000000000) :
    readInteger .byLead (toString value).toList = .ok value := by
  rw [Int.toString_eq_repr, Int.repr_eq_if]
  split
  · rw [readInteger_repr (by omega), Int.toNat_of_nonneg (by assumption)]
  · rw [String.toList_append]
    change readInteger .byLead ('-' :: (-value).toNat.repr.toList) = _
    rw [readInteger_neg_repr (by omega), Int.toNat_of_nonneg (by omega), Int.neg_neg]

end Decimal

section Hexadecimal

variable {n : Nat}

theorem hexUpper_toList : (Text.hexUpper n).toList = (Nat.toDigits 16 n).map Char.toUpper := by
  simp [Text.hexUpper]

theorem hexUpper_toList_ne_nil : (Text.hexUpper n).toList ≠ [] := by
  rw [hexUpper_toList, Ne, List.map_eq_nil_iff]
  exact Nat.toDigits_ne_nil

/-- The characters of a hexadecimal numeral. -/
theorem mem_hexUpper {c : Char} (member : c ∈ (Text.hexUpper n).toList) :
    ∃ digit < 16, c = digit.digitChar.toUpper := by
  rw [hexUpper_toList] at member
  exact mem_map_toDigits (by decide) member

theorem readMagnitude_hexUpper (fits : n < wordLimit) :
    readMagnitude (.fixed 16) (Text.hexUpper n).toList = .ok n := by
  unfold readMagnitude
  rw [if_neg hexUpper_toList_ne_nil]
  dsimp only
  rw [hexUpper_toList]
  exact readDigits_toDigits writes_hexUpper (by decide) fits

theorem readUnsigned_ok {radix : Radix} {text : String}
    (read : readMagnitude radix text.toList = .ok n) :
    readUnsigned radix text = .ok n.toUInt64 := by
  simp only [readUnsigned, read]

end Hexadecimal

end Numeral

namespace Literal

/-- A signed literal has the bits of its value. -/
theorem bits_ofInt {value : Int} (least : -0x8000000000000000 ≤ value)
    (greatest : value < 0x8000000000000000) : (ofInt value).bits = .ok (wordOfInt value) := by
  simp only [bits, ofInt, intValue, Numeral.readSigned,
    Numeral.readInteger_toString least greatest]
  rfl

/-- An unsigned literal has the bits of its value. -/
theorem bits_ofNat {value : Nat} (fits : value < Numeral.wordLimit) :
    (ofNat value).bits = .ok value.toUInt64 := by
  have read : Numeral.readUnsigned .byLead (toString value) = .ok value.toUInt64 :=
    Numeral.readUnsigned_ok (Numeral.readMagnitude_repr fits)
  simp only [bits, ofNat, read]

section Words

variable (word : UInt64)

theorem toList_ofWord :
    (ofWord word).text.toList = '0' :: 'x' :: (Text.hexUpper word.toNat).toList :=
  String.toList_append

theorem isNegative_ofWord : isNegative (ofWord word).text = false := by
  rw [isNegative, toList_ofWord]
  rfl

/-- The digits behind the lead of a hexadecimal literal. -/
theorem bareDigits_ofWord : bareDigits 'x' (ofWord word).text = Text.hexUpper word.toNat := by
  have digits : (Text.hexUpper word.toNat).toList.filter (· ≠ '_') =
      (Text.hexUpper word.toNat).toList := by
    refine List.filter_eq_self.mpr fun c member => ?_
    obtain ⟨digit, small, rfl⟩ := Numeral.mem_hexUpper member
    simpa using Numeral.writes_hexUpper.ne_underscore small
  simp only [bareDigits, isNegative_ofWord, toList_ofWord, Bool.false_eq_true, if_false]
  rw [if_pos (by decide), digits, String.ofList_toList]

/-- A literal made from a word has that word as its bits. -/
theorem bits_ofWord : (ofWord word).bits = .ok word := by
  change radixBits .hex 'x' 16 (ofWord word).text = _
  have fits : word.toNat < Numeral.wordLimit := word.toNat_lt
  have digits := Numeral.readUnsigned_ok (Numeral.readMagnitude_hexUpper fits)
  unfold radixBits
  rw [bareDigits_ofWord, digits]
  simp only [isNegative_ofWord, Bool.false_eq_true, if_false]
  exact congrArg Except.ok UInt64.ofNat_toNat

end Words

section Halves

variable {literal : Literal} {word : UInt64}

/-- The bits of a signed number are the number modulo the count of words. -/
theorem toNat_wordOfInt (value : Int) : ((wordOfInt value).toNat : Int) = value % 2 ^ 64 := by
  change ((BitVec.ofInt 64 value).toNat : Int) = _
  rw [BitVec.toNat_ofInt]
  exact Int.toNat_of_nonneg (Int.emod_nonneg value (by decide))

/-- The lower half of a word has its four lower bytes. -/
theorem toNat_lower (word : UInt64) : (word &&& 0xFFFFFFFF).toNat = word.toNat % 256 ^ 4 := by
  rw [UInt64.toNat_and]
  exact Nat.and_two_pow_sub_one_eq_mod word.toNat 32

/-- The upper half of a word has its four upper bytes. -/
theorem toNat_upper (word : UInt64) : (word >>> 32).toNat = word.toNat / 256 ^ 4 := by
  rw [UInt64.toNat_shiftRight]
  exact Nat.shiftRight_eq_div_pow _ 32

/-- A literal with bits has halves of four bytes each, which make up the bits. -/
theorem halves_of_bits (bits : literal.bits = .ok word) :
    ∃ low high lowWord highWord, literal.halves = .ok (low, high) ∧
      low.bits = .ok lowWord ∧ high.bits = .ok highWord ∧
      lowWord.toNat < 2 ^ 32 ∧ highWord.toNat < 2 ^ 32 ∧
      lowWord.toNat + 2 ^ 32 * highWord.toNat = word.toNat := by
  have bound := word.toNat_lt
  refine ⟨_, _, _, _, by rw [halves, bits]; rfl, bits_ofWord _, bits_ofWord _, ?_, ?_, ?_⟩
  · rw [toNat_lower]
    omega
  · rw [toNat_upper]
    omega
  · rw [toNat_lower, toNat_upper]
    omega

/-- The text of a literal encodes its value.  A signed number has itself modulo the count of words
as its bits, an unsigned number has itself in decimal as in hexadecimal, and what has bits is split
into two literals that have the lower and the upper four bytes of them. -/
theorem text_encodes_value :
    (∀ value : Int64, ∃ word, (ofInt value.toInt).bits = .ok word ∧
      (word.toNat : Int) = value.toInt % 2 ^ 64) ∧
    (∀ value : UInt64, (ofNat value.toNat).bits = .ok value ∧ (ofWord value).bits = .ok value) ∧
    ∀ (literal : Literal) (word : UInt64), literal.bits = .ok word →
      ∃ low high lowWord highWord, literal.halves = .ok (low, high) ∧
        low.bits = .ok lowWord ∧ high.bits = .ok highWord ∧
        lowWord.toNat < 2 ^ 32 ∧ highWord.toNat < 2 ^ 32 ∧
        lowWord.toNat + 2 ^ 32 * highWord.toNat = word.toNat := by
  refine ⟨fun value => ?_, fun value => ⟨?_, bits_ofWord value⟩, fun _ _ => halves_of_bits⟩
  · exact ⟨_, bits_ofInt value.le_toInt value.toInt_lt, toNat_wordOfInt value.toInt⟩
  · rw [bits_ofNat value.toNat_lt]
    exact congrArg Except.ok UInt64.ofNat_toNat

/-- The halves of minus two: all bits are set but the lowest. -/
theorem halves_of_minus_two : (ofInt (-2)).bits = .ok 0xFFFFFFFFFFFFFFFE ∧
    ∃ low high lowWord highWord, (ofInt (-2)).halves = .ok (low, high) ∧
      low.bits = .ok lowWord ∧ high.bits = .ok highWord ∧
      lowWord.toNat < 2 ^ 32 ∧ highWord.toNat < 2 ^ 32 ∧
      lowWord.toNat + 2 ^ 32 * highWord.toNat = 0xFFFFFFFFFFFFFFFE := by
  have bits : (ofInt (-2)).bits = .ok 0xFFFFFFFFFFFFFFFE :=
    bits_ofInt (by decide) (by decide)
  exact ⟨bits, text_encodes_value.2.2 _ _ bits⟩

end Halves

end Literal

end X64Backend
