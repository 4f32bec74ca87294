import Mathlib.Data.Nat.Basic
import X64Backend.Proofs.Text.Bytes
import X64Backend.Text.Quoted

/-!
Quoted texts read back.  Between double quotes each character stands for its own bytes, whether it
is shown or escaped, so what is read from a quoted text are the bytes of the text.
-/

namespace X64Backend.Text

section Hexadecimal

variable {count more value middle n : Nat} {front rest : List Char}

theorem hexNumber?_append (read : hexNumber? count front value = some (middle, [])) :
    hexNumber? (count + more) (front ++ rest) value = hexNumber? more rest middle := by
  induction count generalizing front value with
  | zero =>
      obtain ⟨rfl, rfl⟩ := Prod.mk.inj (Option.some.inj read)
      rw [Nat.zero_add, List.nil_append]
  | succ count inductionHypothesis =>
      cases front with
      | nil => contradiction
      | cons c front =>
          rw [hexNumber?] at read
          rw [Nat.add_right_comm, List.cons_append, hexNumber?]
          cases digit : hexValue? c with
          | none => simp [digit] at read
          | some number =>
              rw [digit] at read
              exact inductionHypothesis read

theorem hexNumber?_digit {digit : Nat} (small : digit < 16) (value : Nat) :
    hexNumber? 1 [digit.digitChar] value = some (value * 16 + digit, []) := by
  have digits : ∀ digit < 16, hexValue? digit.digitChar = some digit := by decide
  simp [hexNumber?, digits digit small]

/-- The digits of a number are read as the number. -/
theorem hexNumber?_toDigits :
    hexNumber? (Nat.toDigits 16 n).length (Nat.toDigits 16 n) 0 = some (n, []) := by
  induction n using Nat.base_induction 16 (by decide) with
  | single digit small =>
      rw [Nat.toDigits_of_lt_base small]
      exact (hexNumber?_digit small 0).trans (by rw [Nat.zero_mul, Nat.zero_add])
  | digit front digit small positive inductionHypothesis =>
      rw [← Nat.toDigits_append_toDigits (by decide) positive small, List.length_append,
        hexNumber?_append inductionHypothesis, Nat.toDigits_of_lt_base small]
      exact (hexNumber?_digit small front).trans (by rw [Nat.mul_comm])

theorem hexNumber?_zeros (count : Nat) :
    hexNumber? count (List.replicate count '0') 0 = some (0, []) := by
  induction count with
  | zero => rfl
  | succ count inductionHypothesis => exact inductionHypothesis

/-- Leading zeros change nothing. -/
theorem hexNumber?_padZeros (width : Nat) (wide : 0 < width) (fits : n < 16 ^ width)
    (rest : List Char) :
    hexNumber? width ((padZeros width (hexLower n)).toList ++ rest) 0 = some (n, rest) := by
  have short : (Nat.toDigits 16 n).length ≤ width :=
    (Nat.length_toDigits_le_iff (by decide) wide).mpr fits
  have spelled : (padZeros width (hexLower n)).toList =
      List.replicate (width - (Nat.toDigits 16 n).length) '0' ++ Nat.toDigits 16 n := by
    simp [padZeros, repeated, hexLower]
  have number : hexNumber? ((Nat.toDigits 16 n).length + 0) (Nat.toDigits 16 n ++ rest) 0 =
      hexNumber? 0 rest n := hexNumber?_append hexNumber?_toDigits
  rw [spelled, List.append_assoc, ← Nat.sub_add_cancel short, Nat.add_sub_cancel,
    hexNumber?_append (hexNumber?_zeros _)]
  exact number

end Hexadecimal

section Characters

variable {c : Char} {rest : List Char}

theorem bytes_toString (c : Char) : bytes c.toString = String.utf8EncodeChar c := by
  rw [bytes_eq_flatMap, Char.toString, String.toList_singleton, List.flatMap_singleton]

theorem utf8EncodeChar_of_lt (ascii : c.toNat < 0x80) :
    String.utf8EncodeChar c = [c.toNat.toUInt8] := by
  have small : c.val.toNat ≤ 0x7F := Nat.le_of_lt_succ ascii
  rw [String.utf8EncodeChar, if_pos small]
  rfl

theorem isCodePoint (c : Char) : c.toNat < 0xD800 ∨ (0xDFFF < c.toNat ∧ c.toNat ≤ 0x10FFFF) := by
  rcases c.valid with low | high
  · exact .inl low
  · exact .inr ⟨high.1, Nat.le_of_lt_succ high.2⟩

theorem codePointBytes?_toNat (c : Char) :
    codePointBytes? c.toNat = some (String.utf8EncodeChar c) := by
  rw [codePointBytes?, if_pos (isCodePoint c), Char.ofNat_toNat, bytes_toString]

/-- An escape by the number of a character reads as the bytes of the character. -/
theorem unescape?_number (c : Char) (rest : List Char) :
    (c.toNat < 0x80 → unescape? '"' ('x' :: (padZeros 2 (hexLower c.toNat)).toList ++ rest) =
      some (String.utf8EncodeChar c, rest)) ∧
    (c.toNat < 0x10000 → unescape? '"' ('u' :: (padZeros 4 (hexLower c.toNat)).toList ++ rest) =
      some (String.utf8EncodeChar c, rest)) ∧
    unescape? '"' ('U' :: (padZeros 8 (hexLower c.toNat)).toList ++ rest) =
      some (String.utf8EncodeChar c, rest) := by
  refine ⟨fun ascii => ?_, fun short => ?_, ?_⟩
  · have number := hexNumber?_padZeros (n := c.toNat) 2 (by decide) (by omega) rest
    rw [List.cons_append, unescape?, number, utf8EncodeChar_of_lt ascii]
    rfl
  · have number := hexNumber?_padZeros (n := c.toNat) 4 (by decide) (by omega) rest
    rw [List.cons_append, unescape?, number]
    simp [codePointBytes?_toNat]
  · have valid := isCodePoint c
    have number := hexNumber?_padZeros (n := c.toNat) 8 (by decide) (by omega) rest
    rw [List.cons_append, unescape?, number]
    simp [codePointBytes?_toNat]

/-- A quoted character reads as its bytes. -/
theorem unquoteChar?_quoteChar (c : Char) (rest : List Char) :
    unquoteChar? '"' (quoteChar c ++ rest) = some (String.utf8EncodeChar c, rest) := by
  have escaped : ∀ behind, unquoteChar? '"' ('\\' :: behind) = unescape? '"' behind := fun _ => rfl
  unfold quoteChar
  by_cases marked : c = '"' ∨ c = '\\'
  · rcases marked with rfl | rfl
    · rfl
    · rfl
  obtain ⟨open', plain⟩ := not_or.mp marked
  rw [if_neg (by simpa using marked)]
  by_cases shown : isPrintable c = true
  · have line : c ≠ '\n' := by
      rintro rfl
      exact absurd shown (by decide +kernel)
    rw [if_pos shown, List.singleton_append, unquoteChar?, if_neg (not_or.mpr ⟨open', line⟩),
      if_neg plain, bytes_toString]
  rw [if_neg shown]
  have named : ∀ {n}, c.toNat = n → c = Char.ofNat n := fun same =>
    same ▸ (Char.ofNat_toNat c).symm
  split
  case h_8 =>
    obtain ⟨byte, short, long⟩ := unescape?_number c rest
    split_ifs with ascii below
    · simp only [Bool.or_eq_true, decide_eq_true_eq] at ascii
      exact byte (by omega)
    · exact short below
    · exact long
  all_goals
    rename_i same
    rw [named same]
    rfl

/-- A character that stands between double quotes does not end the text. -/
theorem quoteChar_cons (c : Char) : ∃ first rest, quoteChar c = first :: rest ∧ first ≠ '"' := by
  unfold quoteChar
  split_ifs with marked shown
  · exact ⟨_, _, rfl, by decide⟩
  · refine ⟨_, _, rfl, ?_⟩
    rintro rfl
    exact marked rfl
  · split
    case h_8 =>
      split_ifs
      all_goals exact ⟨_, _, rfl, by decide⟩
    all_goals exact ⟨_, _, rfl, by decide⟩

end Characters

/-- Between double quotes, characters read as their bytes up to the closing quote. -/
theorem unquoteBody?_flatMap {chars : List Char} {steps : Nat} (enough : chars.length ≤ steps) :
    unquoteBody? '"' steps (chars.flatMap quoteChar ++ ['"']) =
      some (chars.flatMap String.utf8EncodeChar) := by
  induction chars generalizing steps with
  | nil => cases steps <;> rfl
  | cons c chars inductionHypothesis =>
      obtain ⟨steps, rfl⟩ : ∃ fewer, steps = fewer + 1 :=
        ⟨steps - 1, (Nat.sub_add_cancel (Nat.le_trans (Nat.succ_pos _) enough)).symm⟩
      obtain ⟨first, more, spelled, inner⟩ := quoteChar_cons c
      have read := unquoteChar?_quoteChar c (chars.flatMap quoteChar ++ ['"'])
      rw [List.flatMap_cons, List.append_assoc]
      rw [spelled, List.cons_append] at read ⊢
      rw [unquoteBody?, if_neg inner, read, List.flatMap_cons]
      simp [inductionHypothesis (Nat.le_of_succ_le_succ enough)]

theorem length_le_flatMap_quoteChar (chars : List Char) :
    chars.length ≤ (chars.flatMap quoteChar).length := by
  induction chars with
  | nil => exact Nat.le_refl 0
  | cons c chars inductionHypothesis =>
      obtain ⟨first, more, spelled, _⟩ := quoteChar_cons c
      rw [List.flatMap_cons, spelled, List.length_append, List.length_cons, List.length_cons]
      omega

/-- A quoted text reads back as its bytes. -/
@[simp]
theorem unquote?_quote (text : String) : unquote? (quote text) = some (bytes text) := by
  have enough : text.toList.length ≤ (text.toList.flatMap quoteChar ++ ['"']).length := by
    rw [List.length_append]
    exact Nat.le_add_right_of_le (length_le_flatMap_quoteChar _)
  rw [unquote?, quote, String.toList_ofList, List.cons_append]
  dsimp only
  rw [if_pos rfl, unquoteBody?_flatMap enough, bytes_eq_flatMap]

end X64Backend.Text
