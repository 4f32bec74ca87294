import X64Backend.Lower.Arith
import X64Backend.Proofs.Machine.Extension

/-!
Operators and their instructions.  What an operator makes of two words depends, in the bits of a
width, on the same bits of the words, except for divisions and shifts to the right; the flags of a
difference tell how the words compare.  The instructions that compute do the same on spots.
-/

namespace X64Backend.Machine

variable {size : Size} {word other first second : UInt64} {signed : Bool}

theorem bits_le (size : Size) : bits size ≤ 64 := by
  cases size <;> decide

/-- The covered bits of a word, on their own. -/
def low (size : Size) (word : UInt64) : BitVec (bits size) :=
  word.toBitVec.setWidth (bits size)

theorem low_toNat (word : UInt64) (sized : size ≠ .unsized) :
    (low size word).toNat = (word &&& mask size).toNat := by
  rw [toNat_low word sized, low, BitVec.toNat_setWidth]
  rfl

theorem low_inj (sized : size ≠ .unsized) :
    low size first = low size second ↔ first &&& mask size = second &&& mask size := by
  rw [← UInt64.toNat_inj, ← low_toNat first sized, ← low_toNat second sized, BitVec.toNat_inj]

@[simp]
theorem low_add : low size (first + second) = low size first + low size second :=
  BitVec.setWidth_add _ _ (bits_le size)

@[simp]
theorem low_mul : low size (first * second) = low size first * low size second :=
  BitVec.setWidth_mul _ _ (bits_le size)

@[simp]
theorem low_sub : low size (first - second) = low size first - low size second := by
  unfold low
  rw [UInt64.toBitVec_sub, BitVec.sub_eq_add_neg, BitVec.setWidth_add _ _ (bits_le size),
    BitVec.setWidth_neg_of_le (bits_le size), ← BitVec.sub_eq_add_neg]

@[simp]
theorem low_and : low size (first &&& second) = low size first &&& low size second :=
  BitVec.setWidth_and

@[simp]
theorem low_or : low size (first ||| second) = low size first ||| low size second :=
  BitVec.setWidth_or

@[simp]
theorem low_xor : low size (first ^^^ second) = low size first ^^^ low size second :=
  BitVec.setWidth_xor

@[simp]
theorem low_not : low size (~~~ word) = ~~~ low size word :=
  BitVec.setWidth_not (bits_le size)

@[simp]
theorem low_shiftLeft (count : UInt64) :
    low size (word <<< count) = low size word <<< (count.toNat % 64) := by
  unfold low
  rw [UInt64.toBitVec_shiftLeft, BitVec.shiftLeft_eq',
    BitVec.setWidth_shiftLeft_of_le (bits_le size)]
  rfl

/-- A difference wraps around at the width. -/
theorem toNat_sub_low (sized : size ≠ .unsized) :
    ((first - second) &&& mask size).toNat =
      if (second &&& mask size).toNat ≤ (first &&& mask size).toNat then
        (first &&& mask size).toNat - (second &&& mask size).toNat
      else 2 ^ bits size + (first &&& mask size).toNat - (second &&& mask size).toNat := by
  have below := toNat_low_lt first sized
  have below' := toNat_low_lt second sized
  rw [← low_toNat _ sized, low_sub, BitVec.toNat_sub, low_toNat _ sized, low_toNat _ sized]
  split
  · rename_i less
    have regrouped : 2 ^ bits size - (second &&& mask size).toNat + (first &&& mask size).toNat =
        2 ^ bits size + ((first &&& mask size).toNat - (second &&& mask size).toNat) := by omega
    rw [regrouped, Nat.add_mod_left]
    exact Nat.mod_eq_of_lt (by omega)
  · have regrouped : 2 ^ bits size - (second &&& mask size).toNat + (first &&& mask size).toNat =
        2 ^ bits size + (first &&& mask size).toNat - (second &&& mask size).toNat := by omega
    rw [regrouped]
    exact Nat.mod_eq_of_lt (by omega)

theorem zero_ofSub (sized : size ≠ .unsized) (signed : Bool) :
    (Flags.ofSub first second (first - second) size).zero =
      (extend first size signed == extend second size signed) := by
  have difference := @toNat_sub_low size first second sized
  have below := toNat_low_lt first sized
  have below' := toNat_low_lt second sized
  change decide ((first - second) &&& mask size = 0) = _
  rw [Bool.beq_eq_decide_eq, decide_eq_decide, extend_inj, ← UInt64.toNat_inj, ← UInt64.toNat_inj,
    difference]
  change _ = 0 ↔ _
  split <;> omega

/-- The carry of a difference tells which word is less. -/
theorem carry_ofSub : (Flags.ofSub first second (first - second) size).carry =
    decide (extend first size false < extend second size false) := rfl

/-- The number that some bits below twice a half stand for, the upper half being negative. -/
def signedNumber (half low : Nat) : Int :=
  if half ≤ low then (low : Int) - (2 * half : Nat) else low

/-- A difference that wraps around has the wrong sign exactly if the signs of the operands differ
and the sign of the first one is lost. -/
theorem sign_of_difference {half low low' difference : Nat} (below : low < 2 * half)
    (below' : low' < 2 * half)
    (wraps : difference = if low' ≤ low then low - low' else 2 * half + low - low') :
    (decide (half ≤ difference) != (decide (half ≤ low) != decide (half ≤ low') &&
      decide (half ≤ difference) != decide (half ≤ low))) =
      decide (signedNumber half low < signedNumber half low') := by
  unfold signedNumber
  subst wraps
  by_cases high : half ≤ low <;> by_cases high' : half ≤ low' <;> by_cases order : low' ≤ low <;>
    simp [high, high', order] <;> omega

/-- The sign of a difference, corrected by the overflow, tells which signed number is less. -/
theorem sign_ofSub (sized : size ≠ .unsized) :
    ((Flags.ofSub first second (first - second) size).sign !=
      (Flags.ofSub first second (first - second) size).overflow) =
      decide ((extend first size true).toInt64 < (extend second size true).toInt64) := by
  have below := toNat_low_lt first sized
  have below' := toNat_low_lt second sized
  have number : ∀ word : UInt64, Literal.intOfWord (signExtend word size) =
      signedNumber (2 ^ (bits size - 1)) (word &&& mask size).toNat := by
    intro word
    rw [toInt_signExtend word sized, two_pow_bits sized]
    rfl
  have less : (extend first size true).toInt64 < (extend second size true).toInt64 ↔
      Literal.intOfWord (signExtend first size) < Literal.intOfWord (signExtend second size) :=
    Int64.lt_iff_toInt_lt
  rw [number, number] at less
  rw [two_pow_bits sized] at below below'
  rw [decide_eq_decide.mpr less, ← sign_of_difference below below' rfl]
  change (isNegative ((first - second) &&& mask size) size !=
    (isNegative (first &&& mask size) size != isNegative (second &&& mask size) size &&
      isNegative ((first - second) &&& mask size) size !=
        isNegative (first &&& mask size) size)) = _
  rw [isNegative_low first sized, isNegative_low second sized,
    isNegative_low (first - second) sized, toNat_sub_low sized, two_pow_bits sized]

/-- A comparison finds two words less, equal or greater. -/
theorem lessThan_or_eq (first second : UInt64) (signed : Bool) :
    (Lower.lessThan first second signed || first == second) =
      !Lower.lessThan second first signed := by
  unfold Lower.lessThan
  cases signed with
  | true =>
    have order : (first == second) = decide (first.toInt64.toInt = second.toInt64.toInt) := by
      rw [Bool.beq_eq_decide_eq, decide_eq_decide]
      exact intOfWord_inj.symm
    simp only [if_true, Int64.lt_iff_toInt_lt, order]
    grind
  | false =>
    have order : (first == second) = decide (first.toNat = second.toNat) := by
      rw [Bool.beq_eq_decide_eq, decide_eq_decide]
      exact UInt64.toNat_inj.symm
    simp only [Bool.false_eq_true, if_false, UInt64.lt_iff_toNat_lt, order]
    grind

/-- The flags of a difference tell how the words compare, as far as their width goes. -/
theorem holds_comparisonCond {op : Tree.BinaryOp} (sized : size ≠ .unsized)
    (comparison : op.isComparison = true) (signed : Bool) :
    Lower.foldWords op (extend first size signed) (extend second size signed) signed =
      .truth ((Flags.ofSub first second (first - second) size).holds
        (Lower.comparisonCond op signed)) := by
  have zero := @zero_ofSub size first second sized signed
  have less : Lower.lessThan (extend first size signed) (extend second size signed) signed =
      if signed then (Flags.ofSub first second (first - second) size).sign !=
        (Flags.ofSub first second (first - second) size).overflow
      else (Flags.ofSub first second (first - second) size).carry := by
    cases signed with
    | true => exact (sign_ofSub sized).symm
    | false => exact carry_ofSub.symm
  have greater : Lower.lessThan (extend second size signed) (extend first size signed) signed =
      !(Lower.lessThan (extend first size signed) (extend second size signed) signed ||
        extend first size signed == extend second size signed) := by
    rw [lessThan_or_eq, Bool.not_not]
  rw [less, ← zero] at greater
  cases op with
  | eq | ne =>
    cases signed <;> simp [Lower.foldWords, Lower.comparisonCond, Flags.holds, zero, bne]
  | lt | ge =>
    rw [Lower.foldWords, less]
    cases signed <;> simp [Lower.comparisonCond, Flags.holds, bne]
  | le | gt =>
    rw [Lower.foldWords, greater]
    cases signed <;> simp [Lower.comparisonCond, Flags.holds, Bool.or_comm, Bool.and_comm, bne]
  | _ => contradiction

theorem low_signExtend {wide : Size} (cover : mask size &&& mask wide = mask size) :
    signExtend word wide &&& mask size = word &&& mask size := by
  rw [← cover, UInt64.and_comm (mask size), ← UInt64.and_assoc, ← UInt64.and_assoc,
    Lower.signExtend_and_mask]

/-- What an operator makes of two words and what its instruction makes of them, at the same or a
larger width, agree on the bits of the width, which depend on the same bits of the words only. -/
theorem arithmetic?_of_arithOp {op : Tree.BinaryOp} {instr : Op} {wide : Size}
    (known : Lower.arithOp? op = some instr) (sized : size ≠ .unsized)
    (cover : mask size &&& mask wide = mask size) (flags : Flags)
    (left : word &&& mask size = first &&& mask size)
    (right : other &&& mask size = second &&& mask size) (signed : Bool) :
    ∃ folded value flags', Lower.foldWords op first second signed = .word folded ∧
      arithmetic? instr wide flags word other = some (some value, flags') ∧
      value &&& mask size = folded &&& mask size := by
  have left' := (low_inj sized).mpr left
  have right' := (low_inj sized).mpr right
  have extended : ∀ word : UInt64, low size (signExtend word wide) = low size word :=
    fun word => (low_inj sized).mpr (low_signExtend cover)
  cases op with
  | add | sub | mul | and | or | xor =>
    obtain rfl := Option.some.inj known
    refine ⟨_, _, _, rfl, rfl, ?_⟩
    apply (low_inj sized).mp
    simp only [low_add, low_sub, low_mul, low_and, low_or, low_xor, extended, left', right']
  | _ => contradiction

theorem negated_low (sized : size ≠ .unsized) (same : word &&& mask size = first &&& mask size) :
    (0 - word) &&& mask size = (0 - first) &&& mask size := by
  have same' := (low_inj sized).mpr same
  apply (low_inj sized).mp
  rw [low_sub, low_sub, same']

theorem complement_low (sized : size ≠ .unsized)
    (same : word &&& mask size = first &&& mask size) :
    ~~~ word &&& mask size = ~~~ first &&& mask size := by
  have same' := (low_inj sized).mpr same
  apply (low_inj sized).mp
  rw [low_not, low_not, same']

/-- The number of bits that a shift at a width can go. -/
def reach (size : Size) : Nat := if size = .s64 then 64 else 32

/-- What the machine looks at of the count of a shift. -/
def shiftCount (size : Size) (count : UInt64) : UInt64 :=
  if size = .s64 then count &&& 63 else count &&& 31

theorem shiftCount_of_lt {count : UInt64} (few : count.toNat < reach size) :
    shiftCount size count = count := by
  unfold reach at few
  unfold shiftCount
  apply UInt64.toNat_inj.mp
  split
  · rename_i whole
    rw [if_pos whole] at few
    rw [UInt64.toNat_and]
    exact (Nat.and_two_pow_sub_one_eq_mod _ 6).trans (Nat.mod_eq_of_lt few)
  · rename_i narrow
    rw [if_neg narrow] at few
    rw [UInt64.toNat_and]
    exact (Nat.and_two_pow_sub_one_eq_mod _ 5).trans (Nat.mod_eq_of_lt few)

@[simp]
theorem shiftCount_and (size : Size) (count : UInt64) :
    shiftCount size count &&& 63 = shiftCount size count := by
  unfold shiftCount
  split <;> exact UInt64.and_assoc _ _ _

/-- The machine looks at the lowest byte of a count. -/
theorem shiftCount_congr {count count' : UInt64} (same : count &&& mask .s8 = count' &&& mask .s8) :
    shiftCount size count = shiftCount size count' := by
  have cut : ∀ word bound : UInt64, mask .s8 &&& bound = bound →
      word &&& bound = word &&& mask .s8 &&& bound := by
    intro word bound within
    rw [UInt64.and_assoc, within]
  unfold shiftCount
  rw [cut count 63 rfl, cut count 31 rfl, cut count' 63 rfl, cut count' 31 rfl, same]

/-- The instruction of a shift. -/
def shiftOp (left signed : Bool) : Op :=
  if left then .shl else if signed then .sar else .shr

/-- A shift and its instruction agree, for the count that the machine looks at. -/
theorem arithmetic?_of_shift (sized : size ≠ .unsized) (left signed : Bool) (flags : Flags)
    (word count : UInt64) :
    ∃ folded value flags',
      Lower.foldWords (if left then .shl else .shr) (extend word size signed)
        (shiftCount size count) signed = .word folded ∧
      arithmetic? (shiftOp left signed) size flags word count = some (some value, flags') ∧
      value &&& mask size = folded &&& mask size := by
  have low' : low size (extend word size signed) = low size word :=
    (low_inj sized).mpr (extend_and_mask word size signed)
  cases left with
  | true =>
    refine ⟨_, _, _, rfl, rfl, ?_⟩
    rw [shiftCount_and]
    apply (low_inj sized).mp
    rw [low_shiftLeft, low_shiftLeft, low']
    rfl
  | false =>
    cases signed with
    | true =>
      refine ⟨_, _, _, rfl, rfl, ?_⟩
      rw [shiftCount_and]
      rfl
    | false =>
      refine ⟨_, _, _, rfl, rfl, ?_⟩
      rw [shiftCount_and]
      rfl

/-- The upper half of a signed dividend. -/
def signWord (word : UInt64) : UInt64 := if word.toInt64 < 0 then 0xFFFFFFFFFFFFFFFF else 0

namespace Yields

variable {scope : Scope} {view : View} {dst : Operand} {into : Spot}

/-- What is computed from the flags and an operand in place. -/
theorem modifyOperand {change : Flags → UInt64 → UInt64 × Flags} (found : Finds scope dst into)
    (sized : dst.size ≠ .unsized) (low : dst.size ≠ .high8) :
    Yields (Machine.modifyOperand scope dst change) view ()
      (into.write { view with flags := (change view.flags (into.read view dst.size)).2 } dst.size
        (change view.flags (into.read view dst.size)).1) := by
  refine (Yields.readSpot found _).bind (Yields.look fun state same => ?_)
  have seen : state.flags = view.flags := by rw [← same]; rfl
  rw [seen]
  refine (Yields.setFlags _).bind ?_
  rw [← Spot.write_mask sized low]
  exact Yields.writeSpot found _

end Yields

namespace Does

variable {scope : Scope} {checked : Bool} {view : View} {dst src : Operand} {into spot : Spot}

/-- What an instruction takes from the word that its source yields: a literal has 32 bits at most. -/
def sourceWord (src : Operand) (size : Size) (given : UInt64) : UInt64 :=
  match src with
  | .lit literal => if !literal.isLabel && size = .s64 then signExtend given .s32 else given
  | _ => given

/-- The destination takes what is computed, where that is more than flags. -/
def settle (scope : Scope) (dst : Operand) : Option UInt64 → Exec Unit
  | some value => scope.write dst (value &&& mask dst.size)
  | none => return ()

/-- An instruction that computes a value, or only flags, from its destination and its source. -/
theorem computingFrom {op : Op} {given second : UInt64} {outcome : Option UInt64} {flags : Flags}
    {view' : View} (found : Finds scope dst into)
    (read : Yields (scope.read src dst.size) view given view) (sized : dst.size ≠ .unsized)
    (direct : (dst.isMem && src.isMem) = false) (taken : sourceWord src dst.size given = second)
    (computes : arithmetic? op dst.size view.flags (into.read view dst.size) second =
      some (outcome, flags))
    (ends : Yields (settle scope dst outcome) { view with flags } () view') :
    Does scope checked (.binary op dst src) view view' := by
  subst taken
  have here := @Yields.readSpot scope view dst into found dst.size
  have same : ∀ {state : State}, state.view = view → state.flags = view.flags := by
    rintro state rfl
    rfl
  apply Does.binary
  unfold Machine.binary
  dsimp only
  rw [if_neg sized, direct]
  cases op with
  | add | sub | cmp | and | test | or | xor | imul | shl | shr | sar =>
    refine read.bind ?_
    rw [if_neg (by decide)]
    refine here.bind ?_
    rw [if_neg (by decide)]
    refine Yields.look fun state looks => ?_
    rw [same looks]
    -- in the goal the word of the source is spelled out
    erw [computes]
    exact (Yields.setFlags _).bind ends
  | _ => simp [arithmetic?] at computes

/-- The source is in a spot. -/
theorem computing {op : Op} {outcome : Option UInt64} {flags : Flags} {view' : View}
    (found : Finds scope dst into) (out : Finds scope src spot) (sized : dst.size ≠ .unsized)
    (direct : (dst.isMem && src.isMem) = false)
    (computes : arithmetic? op dst.size view.flags (into.read view dst.size)
      (spot.read view src.size) = some (outcome, flags))
    (ends : Yields (settle scope dst outcome) { view with flags } () view') :
    Does scope checked (.binary op dst src) view view' := by
  refine computingFrom found (Yields.readSpot out _) sized direct ?_ computes ends
  cases out <;> rfl

theorem arithmetic {op : Op} {value : UInt64} {flags : Flags} (checked : Bool)
    (found : Finds scope dst into) (out : Finds scope src spot) (sized : dst.size ≠ .unsized)
    (low : dst.size ≠ .high8) (direct : (dst.isMem && src.isMem) = false)
    (computes : arithmetic? op dst.size view.flags (into.read view dst.size)
      (spot.read view src.size) = some (some value, flags)) :
    Does scope checked (.binary op dst src) view
      (into.write { view with flags } dst.size value) := by
  apply computing found out sized direct computes
  rw [← Spot.write_mask sized low]
  exact Yields.writeSpot found _

/-- A literal is the count of a shift. -/
theorem shift {literal : Literal} {count value : UInt64} {flags : Flags} (checked : Bool)
    (left signed : Bool) (number : literal.isLabel = false) (value' : literal.bits = .ok count)
    (small : count ≤ 63) (found : Finds scope dst into) (sized : dst.size ≠ .unsized)
    (low : dst.size ≠ .high8)
    (computes : arithmetic? (shiftOp left signed) dst.size view.flags (into.read view dst.size)
      count = some (some value, flags)) :
    Does scope checked (.binary (shiftOp left signed) dst (.lit literal)) view
      (into.write { view with flags } dst.size value) := by
  have bound : count.toNat < 64 := Nat.lt_succ_of_le (UInt64.le_iff_toNat_le.mp small)
  have octet : 2 ^ 7 ≤ 2 ^ (bits dst.size - 1) := by
    generalize dst.size = size at sized
    cases size with
    | unsized => contradiction
    | _ => decide
  have whole : count &&& mask dst.size = count :=
    @extend_of_lt dst.size count sized false (by omega)
  have short : signExtend count .s32 = count :=
    @extend_of_lt .s32 count (by decide) true (Nat.lt_trans bound (by decide))
  have read : Yields (scope.read (.lit literal) dst.size) view count view := by
    have yields := @Yields.readLit view scope literal count number value' dst.size
    rwa [whole] at yields
  refine computingFrom found read sized (Bool.and_false _) ?_ computes ?_
  · rw [sourceWord, short, ite_self]
  · rw [← Spot.write_mask sized low]
    exact Yields.writeSpot found _

/-- A comparison changes the flags only. -/
theorem compare (checked : Bool) (found : Finds scope dst into) (out : Finds scope src spot)
    (sized : dst.size ≠ .unsized) (direct : (dst.isMem && src.isMem) = false)
    {first second : UInt64} (left : into.read view dst.size = first)
    (right : spot.read view src.size = second) :
    Does scope checked (.binary .cmp dst src) view
      { view with flags := .ofSub first second (first - second) dst.size } := by
  subst left right
  exact computing found out sized direct rfl (.pure ())

theorem negate (checked : Bool) (found : Finds scope dst into) (sized : dst.size ≠ .unsized)
    (low : dst.size ≠ .high8) : ∃ flags, Does scope checked (.unary .neg dst) view
      (into.write { view with flags } dst.size (0 - into.read view dst.size)) :=
  ⟨_, Does.unary ((Yields.modifyOperand found sized low).bind (.pure none))⟩

theorem complement (checked : Bool) (found : Finds scope dst into) (sized : dst.size ≠ .unsized)
    (low : dst.size ≠ .high8) : Does scope checked (.unary .not dst) view
      (into.write view dst.size (~~~ into.read view dst.size)) :=
  Does.unary ((Yields.modifyOperand found sized low).bind (.pure none))

theorem signDividend (checked : Bool) :
    Does scope checked (.nullary .cqo) view (view.set .rdx (signWord (view.get .rax))) :=
  (Yields.getReg .rax).bind ((Yields.setReg .rdx _).bind (.pure _))

theorem clearDividend (checked : Bool) : ∃ flags, Does scope checked
    (.binary .xor (.reg (.fix .rdx .s32)) (.reg (.fix .rdx .s32))) view
      { view.set .rdx 0 with flags } := by
  have found : Finds scope (.reg (.fix .rdx .s32)) (.register .rdx) := Finds.fixed _ (by decide)
  have computes : arithmetic? .xor .s32 view.flags (readPart (view.get .rdx) .s32)
      (readPart (view.get .rdx) .s32) = some (some 0, .ofLogic 0 .s32) := by
    rw [arithmetic?]
    simp only [UInt64.xor_self]
  exact ⟨_, Does.arithmetic checked found found (by decide) (by decide) rfl computes⟩

end Does

/-- The view behind a division. -/
def View.divided (view : View) (quotient remainder : UInt64) : View :=
  (view.set .rax quotient).set .rdx remainder

/-- What a division makes of two words. -/
def quotient (first second : UInt64) (signed : Bool) : UInt64 :=
  if signed then (first.toInt64 / second.toInt64).toUInt64 else first / second

/-- What a division leaves of two words. -/
def remainder (first second : UInt64) (signed : Bool) : UInt64 :=
  if signed then (first.toInt64 % second.toInt64).toUInt64 else first % second

/-- A division, where the upper half of the dividend is as it has to be. -/
theorem Does.divide {scope : Scope} {view : View} {src : Operand} {spot : Spot}
    {first second : UInt64} {signed : Bool} (checked : Bool) (found : Finds scope src spot)
    (wide : src.size = .s64) (divisor : spot.read view .s64 = second) (some' : second ≠ 0)
    (low : view.get .rax = first) (high : view.get .rdx = if signed then signWord first else 0) :
    Does scope checked (.unary (if signed then .idiv else .div) src) view
      (view.divided (quotient first second signed) (remainder first second signed)) := by
  have read := @Yields.readSpot scope view src spot found .s64
  rw [wide, divisor] at read
  have divides : Yields (Machine.divide scope signed (if signed then .idiv else .div) src) view ()
      (view.divided (quotient first second signed) (remainder first second signed)) := by
    unfold Machine.divide
    rw [if_neg (not_not.mpr wide)]
    refine read.bind ?_
    rw [if_neg some']
    refine (Yields.getReg .rax).bind ((Yields.getReg .rdx).bind ?_)
    rw [low, high]
    cases signed with
    | true =>
      simp only [if_true, signWord, ne_eq, not_true_eq_false, if_false]
      exact (Yields.setReg .rax _).bind (Yields.setReg .rdx _)
    | false => exact (Yields.setReg .rax _).bind (Yields.setReg .rdx _)
  cases signed <;> exact Does.unary (divides.bind (.pure none))

end X64Backend.Machine
