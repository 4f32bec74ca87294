import Mathlib.Data.String.Basic
import X64Backend.Text.Lines

/-!
Texts as bytes.  The bytes of a text are those of its characters one after the other, and texts are
in the order of their bytes.
-/

namespace X64Backend.Text

theorem toList_loop (bytes : ByteArray) (index : Nat) (front : List UInt8) :
    ByteArray.toList.loop bytes index front = front.reverse ++ bytes.data.toList.drop index := by
  induction index, front using ByteArray.toList.loop.induct bytes with
  | case1 index front inside inductionHypothesis =>
      have inside' : index < bytes.data.toList.length := inside
      have next : bytes.get! index = bytes.data.toList[index] :=
        getElem!_pos bytes.data index inside
      rw [ByteArray.toList.loop, if_pos inside, inductionHypothesis, List.reverse_cons,
        List.append_assoc, next, List.drop_eq_getElem_cons inside', List.singleton_append]
  | case2 index front outside =>
      have outside' : bytes.data.toList.length ≤ index := Nat.le_of_not_lt outside
      rw [ByteArray.toList.loop, if_neg outside, List.drop_of_length_le outside', List.append_nil]

theorem bytes_eq_flatMap (text : String) :
    bytes text = text.toList.flatMap String.utf8EncodeChar := by
  rw [bytes, String.toUTF8_eq_toByteArray, ByteArray.toList, toList_loop, List.drop_zero,
    ← String.utf8Encode_toList]
  exact List.toList_data_toByteArray

section Order

variable {front back : List UInt8}

theorem ofNat_cons_lt {first second : Nat} (byte : second < 256) (less : first < second) :
    UInt8.ofNat first :: front < UInt8.ofNat second :: back := by
  rw [List.cons_lt_cons_iff, UInt8.lt_iff_toNat_lt, UInt8.toNat_ofNat', UInt8.toNat_ofNat']
  exact .inl (by omega)

theorem ofNat_cons_lt_of_eq {first second : Nat} (same : first = second) (less : front < back) :
    UInt8.ofNat first :: front < UInt8.ofNat second :: back := by
  rw [List.cons_lt_cons_iff, same]
  exact .inr ⟨rfl, less⟩

/-- Of two characters, the first byte that differs is in their order.  A longer one has the larger
first byte; those of one length differ in their digits to the base of 64. -/
theorem utf8EncodeChar_lt {c d : Char} (less : c < d) (front back : List UInt8) :
    String.utf8EncodeChar c ++ front < String.utf8EncodeChar d ++ back := by
  have below : c.val.toNat < d.val.toNat := less
  have limit : d.val.toNat < 0x110000 := by
    rcases d.valid with valid | valid
    · omega
    · omega
  unfold String.utf8EncodeChar
  generalize c.val.toNat = m at below
  generalize d.val.toNat = n at below limit
  dsimp only
  by_cases one : m ≤ 0x7f
  · rw [if_pos one]
    split
    · exact ofNat_cons_lt (by omega) (by omega)
    · split
      · exact ofNat_cons_lt (by omega) (by omega)
      · split
        · exact ofNat_cons_lt (by omega) (by omega)
        · exact ofNat_cons_lt (by omega) (by omega)
  rw [if_neg one, if_neg (show ¬ n ≤ 0x7f by omega)]
  by_cases two : m ≤ 0x7ff
  · rw [if_pos two]
    split
    · rcases Nat.lt_or_ge (m / 64) (n / 64) with high | high
      · exact ofNat_cons_lt (by omega) (by omega)
      · exact ofNat_cons_lt_of_eq (by omega) (ofNat_cons_lt (by omega) (by omega))
    · split
      · exact ofNat_cons_lt (by omega) (by omega)
      · exact ofNat_cons_lt (by omega) (by omega)
  rw [if_neg two, if_neg (show ¬ n ≤ 0x7ff by omega)]
  by_cases three : m ≤ 0xffff
  · rw [if_pos three]
    split
    · rcases Nat.lt_or_ge (m / 4096) (n / 4096) with high | high
      · exact ofNat_cons_lt (by omega) (by omega)
      refine ofNat_cons_lt_of_eq (by omega) ?_
      rcases Nat.lt_or_ge (m / 64) (n / 64) with next | next
      · exact ofNat_cons_lt (by omega) (by omega)
      · exact ofNat_cons_lt_of_eq (by omega) (ofNat_cons_lt (by omega) (by omega))
    · exact ofNat_cons_lt (by omega) (by omega)
  rw [if_neg three, if_neg (show ¬ n ≤ 0xffff by omega)]
  rcases Nat.lt_or_ge (m / 262144) (n / 262144) with top | top
  · exact ofNat_cons_lt (by omega) (by omega)
  refine ofNat_cons_lt_of_eq (by omega) ?_
  rcases Nat.lt_or_ge (m / 4096) (n / 4096) with high | high
  · exact ofNat_cons_lt (by omega) (by omega)
  refine ofNat_cons_lt_of_eq (by omega) ?_
  rcases Nat.lt_or_ge (m / 64) (n / 64) with next | next
  · exact ofNat_cons_lt (by omega) (by omega)
  · exact ofNat_cons_lt_of_eq (by omega) (ofNat_cons_lt (by omega) (by omega))

theorem append_lt_append_left {chars : List UInt8} (less : front < back) :
    chars ++ front < chars ++ back := by
  induction chars with
  | nil => exact less
  | cons byte rest inductionHypothesis =>
      exact List.cons_lt_cons_iff.mpr (.inr ⟨rfl, inductionHypothesis⟩)

theorem flatMap_utf8EncodeChar_lt {first second : List Char} (less : first < second) :
    first.flatMap String.utf8EncodeChar < second.flatMap String.utf8EncodeChar := by
  induction less with
  | nil =>
      rename_i c rest
      rw [List.flatMap_nil, List.flatMap_cons]
      obtain ⟨byte, others, same⟩ :=
        List.exists_cons_of_ne_nil (String.utf8EncodeChar_ne_nil (c := c))
      rw [same]
      exact List.nil_lt_cons _ _
  | rel smaller => exact utf8EncodeChar_lt smaller _ _
  | cons _ inductionHypothesis => exact append_lt_append_left inductionHypothesis

/-- Texts are in the order of their bytes. -/
theorem bytes_lt_iff {first second : String} : bytes first < bytes second ↔ first < second := by
  rw [bytes_eq_flatMap, bytes_eq_flatMap, String.lt_iff]
  constructor
  · intro less
    rcases lt_trichotomy first.toList second.toList with before | same | behind
    · exact before
    · rw [same] at less
      exact absurd less (List.lt_irrefl _)
    · exact absurd (flatMap_utf8EncodeChar_lt behind) (List.lt_asymm less)
  · exact flatMap_utf8EncodeChar_lt

end Order

end X64Backend.Text
