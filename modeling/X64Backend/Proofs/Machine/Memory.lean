import Mathlib.Algebra.Group.Nat.Even
import X64Backend.Machine.Memory

/-!
The memory read after a write.  Addresses wrap around, so how far one address is above another is
their difference as a word.
-/

namespace X64Backend.Machine.Memory

@[simp]
theorem get_set (memory : Memory) (address other : UInt64) (byte : UInt8) :
    (memory.set address byte).get other = if other = address then byte else memory.get other := by
  unfold get set
  rw [Std.HashMap.getD_insert]
  by_cases same : other = address
  · simp [same]
  · simp [same, Ne.symm same]

/-- Every address but the first of a range is one step nearer to the rest of the range. -/
theorem toNat_sub_succ {address other : UInt64} (apart : other ≠ address) :
    (other - (address + 1)).toNat = (other - address).toNat - 1 := by
  have different : other.toNat ≠ address.toNat := fun same => apart (UInt64.toNat_inj.mp same)
  have bound := other.toNat_lt
  have bound' := address.toNat_lt
  simp only [UInt64.toNat_sub, UInt64.toNat_add, UInt64.toNat_one]
  omega

theorem toNat_sub_pos {address other : UInt64} (apart : other ≠ address) :
    0 < (other - address).toNat := by
  have different : other.toNat ≠ address.toNat := fun same => apart (UInt64.toNat_inj.mp same)
  have bound := other.toNat_lt
  have bound' := address.toNat_lt
  simp only [UInt64.toNat_sub]
  omega

/-- Bytes outside the range that is written keep their values. -/
theorem get_store_of_le {memory : Memory} {address other : UInt64} {count : Nat} {word : UInt64}
    (outside : count ≤ (other - address).toNat) :
    (memory.store address count word).get other = memory.get other := by
  induction count generalizing memory address word with
  | zero => rfl
  | succ count inductionHypothesis =>
      have apart : other ≠ address := by
        rintro rfl
        simp at outside
      have further : count ≤ (other - (address + 1)).toNat := by
        rw [toNat_sub_succ apart]
        omega
      rw [store, inductionHypothesis further, get_set, if_neg apart]

/-- What is read depends on the bytes of the range only. -/
theorem load_congr {memory memory' : Memory} {address : UInt64} {count : Nat} (bound : count ≤ 8)
    (same : ∀ other, (other - address).toNat < count → memory.get other = memory'.get other) :
    memory.load address count = memory'.load address count := by
  induction count generalizing address with
  | zero => rfl
  | succ count inductionHypothesis =>
      have first : memory.get address = memory'.get address := same address (by simp)
      have rest : memory.load (address + 1) count = memory'.load (address + 1) count := by
        refine inductionHypothesis (by omega) fun other near => ?_
        by_cases here : other = address
        · rw [here, first]
        · have before := toNat_sub_succ here
          have := toNat_sub_pos here
          exact same other (by omega)
      rw [load, load, first, rest]

/-- The bytes of a range as a number: the first byte is the lowest. -/
theorem toNat_load_succ (memory : Memory) (address : UInt64) {count : Nat} (bound : count < 8)
    (small : (memory.load (address + 1) count).toNat < 256 ^ count) :
    (memory.load address (count + 1)).toNat =
      256 * (memory.load (address + 1) count).toNat + (memory.get address).toNat := by
  have byte : (memory.get address).toNat < 2 ^ 8 := (memory.get address).toNat_lt
  have power : 256 ^ count ≤ 2 ^ 56 := by
    calc 256 ^ count ≤ 256 ^ 7 := Nat.pow_le_pow_right (by decide) (by omega)
      _ = 2 ^ 56 := by decide
  have shifted : (memory.load (address + 1) count).toNat <<< 8 % 2 ^ 64 =
      2 ^ 8 * (memory.load (address + 1) count).toNat := by
    rw [Nat.shiftLeft_eq, Nat.mod_eq_of_lt (by omega), Nat.mul_comm]
  rw [load, UInt64.toNat_or, UInt64.toNat_shiftLeft]
  change _ <<< 8 % 2 ^ 64 ||| _ = _
  rw [shifted]
  exact (Nat.two_pow_add_eq_or_of_lt byte _).symm

theorem toNat_load_lt (memory : Memory) (address : UInt64) {count : Nat} (bound : count ≤ 8) :
    (memory.load address count).toNat < 256 ^ count := by
  induction count generalizing address with
  | zero => simp [load]
  | succ count inductionHypothesis =>
      have small := inductionHypothesis (address + 1) (by omega)
      have byte : (memory.get address).toNat < 256 := (memory.get address).toNat_lt
      rw [toNat_load_succ memory address (by omega) small, Nat.pow_succ]
      omega

/-- The low bytes of what is read are what is read from fewer bytes. -/
theorem toNat_load_mod (memory : Memory) (address : UInt64) {count more : Nat} (fewer : count ≤ more)
    (bound : more ≤ 8) : (memory.load address more).toNat % 256 ^ count =
      (memory.load address count).toNat := by
  induction count generalizing address more with
  | zero => simp [load, Nat.mod_one]
  | succ count inductionHypothesis =>
      obtain ⟨more, rfl⟩ := Nat.exists_eq_add_of_lt (Nat.lt_of_lt_of_le (Nat.succ_pos count) fewer)
      rw [Nat.zero_add] at fewer bound ⊢
      have byte : (memory.get address).toNat < 256 := (memory.get address).toNat_lt
      have rest := @inductionHypothesis (address + 1) more (by omega) (by omega)
      have quotient : (256 * (memory.load (address + 1) more).toNat +
          (memory.get address).toNat) / 256 = (memory.load (address + 1) more).toNat := by omega
      rw [toNat_load_succ _ _ (by omega) (toNat_load_lt _ _ (by omega)),
        toNat_load_succ _ _ (by omega) (toNat_load_lt _ _ (by omega)), ← rest, Nat.pow_succ',
        Nat.mod_mul, quotient]
      omega

/-- What was written is read back, as far as the range goes. -/
theorem toNat_load_store (memory : Memory) (address word : UInt64) {count : Nat}
    (bound : count ≤ 8) :
    ((memory.store address count word).load address count).toNat = word.toNat % 256 ^ count := by
  induction count generalizing memory address word with
  | zero => simp [load, Nat.mod_one]
  | succ count inductionHypothesis =>
      have rest := inductionHypothesis (memory.set address word.toUInt8) (address + 1) (word >>> 8)
        (by omega)
      have first : ((memory.set address word.toUInt8).store (address + 1) count (word >>> 8)).get
          address = word.toUInt8 := by
        rw [get_store_of_le, get_set, if_pos rfl]
        have behind : (address - (address + 1)).toNat = 2 ^ 64 - 1 := by
          have limit := address.toNat_lt
          simp only [UInt64.toNat_sub, UInt64.toNat_add, UInt64.toNat_one]
          omega
        omega
      have low : word.toUInt8.toNat = word.toNat % 256 := UInt64.toNat_toUInt8 word
      have high : (word >>> 8).toNat = word.toNat / 256 := by
        rw [UInt64.toNat_shiftRight]
        exact Nat.shiftRight_eq_div_pow _ 8
      rw [store, toNat_load_succ _ _ (by omega) (toNat_load_lt _ _ (by omega)), rest, first, low,
        high, Nat.pow_succ', Nat.mod_mul]
      omega

/-- A whole word is read back. -/
@[simp]
theorem load_store_word (memory : Memory) (address word : UInt64) :
    (memory.store address 8 word).load address 8 = word := by
  refine UInt64.toNat_inj.mp ?_
  rw [toNat_load_store _ _ _ (Nat.le_refl 8)]
  exact Nat.mod_eq_of_lt word.toNat_lt

end X64Backend.Machine.Memory
