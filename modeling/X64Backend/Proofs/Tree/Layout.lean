import Mathlib.Tactic.Linarith
import X64Backend.Tree.Function

/-!
Where the arguments of a function are in its frame.  Those that arrive in registers have cells below
the frame pointer, each below the one before; the others are eight bytes apart above the return
address.
-/

namespace X64Backend.Tree

/-- A variable that holds a word of one, two, four or eight bytes. -/
structure Variable.Scalar (v : Variable) : Prop where
  sized : v.operandSize ≠ .unsized
  low : v.operandSize ≠ .high8
  stored : v.storage.toInt = v.operandSize.bytes

/-- References and values of the types that every program knows are scalars. -/
theorem Variable.scalar_of_predefined {v : Variable} (known : v.type ∈ TypeRef.predefined)
    (valued : v.byRef = true ∨ v.type ≠ .void) : v.Scalar := by
  by_cases reference : v.byRef = true
  · constructor
    · simp [operandSize, reference]
    · simp [operandSize, reference]
    · simp only [storage, operandSize, reference, if_true]
      rfl
  · have values : ∀ type ∈ TypeRef.predefined, type ≠ .void →
        type.operandSize ≠ .unsized ∧ type.operandSize ≠ .high8 ∧
          type.storage.toInt = type.operandSize.bytes := by decide
    obtain ⟨sized, low, stored⟩ := values v.type known (valued.resolve_left reference)
    constructor
    · simpa [operandSize, reference] using sized
    · simpa [operandSize, reference] using low
    · simpa only [storage, operandSize, reference, Bool.false_eq_true, if_false] using stored

theorem Variable.Scalar.bytes {v : Variable} (scalar : v.Scalar) :
    0 < v.operandSize.bytes ∧ v.operandSize.bytes ≤ 8 := by
  have sized := scalar.sized
  cases size : v.operandSize with
  | unsized => contradiction
  | s8 | s16 | s32 | s64 | high8 => exact ⟨by decide, by decide⟩

/-- What decides how much room a variable takes. -/
def Variable.shape (v : Variable) : TypeRef × Bool := (v.type, v.byRef)

theorem Variable.Scalar.congr {v other : Variable} (scalar : v.Scalar)
    (same : other.shape = v.shape) : other.Scalar := by
  obtain ⟨type, reference⟩ := Prod.mk.inj same
  have width : other.operandSize = v.operandSize := by
    rw [operandSize, operandSize, type, reference]
  have room : other.storage = v.storage := by
    rw [storage, storage, type, reference]
  exact ⟨width ▸ scalar.sized, width ▸ scalar.low, by rw [room, width, scalar.stored]⟩

/-- Where nothing wraps around, aligning is rounding up to a multiple. -/
theorem toInt_alignUp_eq {number size : Int64} (least : 0 ≤ number.toInt) (positive : 0 < size.toInt)
    (greatest : number.toInt + size.toInt < 2 ^ 62) :
    (alignUp number size).toInt = (number.toInt + size.toInt - 1) / size.toInt * size.toInt := by
  unfold alignUp
  by_cases single : size ≤ 1
  · have unit : size.toInt = 1 := by
      have small : size.toInt ≤ 1 := Int64.le_iff_toInt_le.mp single
      omega
    rw [if_pos single, unit]
    omega
  · have top : (number + size - 1).toInt = number.toInt + size.toInt - 1 := by
      have sum : (number + size).toInt = number.toInt + size.toInt := by
        rw [Int64.toInt_add]
        exact Int.bmod_eq_of_le (by omega) (by omega)
      rw [Int64.toInt_sub, sum]
      exact Int.bmod_eq_of_le (by simp; omega) (by simp; omega)
    have nonnegative : 0 ≤ number.toInt + size.toInt - 1 := by omega
    have below := Int.ediv_mul_le (number.toInt + size.toInt - 1) (Int.ne_of_gt positive)
    have least := Int.ediv_nonneg nonnegative (Int.le_of_lt positive)
    have quotient : ((number + size - 1) / size).toInt =
        (number.toInt + size.toInt - 1) / size.toInt := by
      have small := Int.ediv_le_self size.toInt nonnegative
      rw [Int64.toInt_div, top, Int.tdiv_eq_ediv_of_nonneg nonnegative]
      exact Int.bmod_eq_of_le (by omega) (by omega)
    have product := Int.mul_nonneg least (Int.le_of_lt positive)
    rw [if_neg single, Int64.toInt_mul, quotient]
    exact Int.bmod_eq_of_le (by omega) (by omega)

/-- The next multiple of a size is less than that size away. -/
theorem toInt_alignUp {number size : Int64} (least : 0 ≤ number.toInt) (positive : 0 < size.toInt)
    (greatest : number.toInt + size.toInt < 2 ^ 62) :
    number.toInt ≤ (alignUp number size).toInt ∧
      (alignUp number size).toInt < number.toInt + size.toInt := by
  have below := Int.ediv_mul_le (number.toInt + size.toInt - 1) (Int.ne_of_gt positive)
  have above := Int.lt_ediv_add_one_mul_self (number.toInt + size.toInt - 1) positive
  rw [Int.add_mul, Int.one_mul] at above
  rw [toInt_alignUp_eq least positive greatest]
  exact ⟨by omega, by omega⟩

theorem dvd_alignUp {number size : Int64} (least : 0 ≤ number.toInt) (positive : 0 < size.toInt)
    (greatest : number.toInt + size.toInt < 2 ^ 62) :
    size.toInt ∣ (alignUp number size).toInt := by
  rw [toInt_alignUp_eq least positive greatest]
  exact Int.dvd_mul_left _ _

namespace Function

/-- The cells of variables are below a depth, each below the one before, with little between them. -/
def Descends : (depth : Int) → List Variable → Prop
  | _, [] => True
  | depth, v :: rest =>
      depth + v.operandSize.bytes ≤ -v.offset.toInt ∧ -v.offset.toInt < depth + 16 ∧
        Descends (-v.offset.toInt) rest

/-- Where nothing wraps around, the next free place is right below a depth, but for the padding that
aligns it. -/
theorem toInt_placed {depth size : Int64} (least : 0 ≤ depth.toInt) (positive : 0 < size.toInt)
    (greatest : depth.toInt + 2 * size.toInt < 2 ^ 62) :
    depth.toInt + size.toInt ≤ (alignUp (depth + size) size).toInt ∧
      (alignUp (depth + size) size).toInt < depth.toInt + 2 * size.toInt ∧
      size.toInt ∣ (alignUp (depth + size) size).toInt ∧
      (-alignUp (depth + size) size).toInt = -(alignUp (depth + size) size).toInt := by
  have sum : (depth + size).toInt = depth.toInt + size.toInt := by
    rw [Int64.toInt_add]
    exact Int.bmod_eq_of_le (by omega) (by omega)
  obtain ⟨deeper, near⟩ := @toInt_alignUp (depth + size) size (by omega) positive (by omega)
  have aligned := @dvd_alignUp (depth + size) size (by omega) positive (by omega)
  refine ⟨by omega, by omega, aligned, ?_⟩
  rw [Int64.toInt_neg]
  exact Int.bmod_eq_of_le (by omega) (by omega)

theorem descends_placeBelow {depth : Int64} {vars : List Variable}
    (scalar : ∀ v ∈ vars, v.Scalar) (least : 0 ≤ depth.toInt)
    (greatest : depth.toInt + 16 * vars.length ≤ 2 ^ 32) :
    Descends depth.toInt (placeBelow depth vars).1 := by
  induction vars generalizing depth with
  | nil => trivial
  | cons v rest inductionHypothesis =>
    have width := (scalar v List.mem_cons_self).bytes
    have stored := (scalar v List.mem_cons_self).stored
    rw [List.length_cons] at greatest
    obtain ⟨deeper, near, _, negated⟩ :=
      @toInt_placed depth v.storage least (by omega) (by omega)
    rw [placeBelow]
    refine ⟨?_, ?_, ?_⟩
    · change depth.toInt + v.operandSize.bytes ≤ -(-alignUp (depth + v.storage) v.storage).toInt
      omega
    · change -(-alignUp (depth + v.storage) v.storage).toInt < depth.toInt + 16
      omega
    · change Descends (-(-alignUp (depth + v.storage) v.storage).toInt) _
      rw [negated, Int.neg_neg]
      apply inductionHypothesis
      · exact fun other member => scalar other (List.mem_cons_of_mem _ member)
      · omega
      · omega

theorem map_shape_placeBelow (depth : Int64) (vars : List Variable) :
    (placeBelow depth vars).1.map Variable.shape = vars.map Variable.shape := by
  induction vars generalizing depth with
  | nil => rfl
  | cons v rest inductionHypothesis =>
    rw [placeBelow, List.map_cons, List.map_cons, inductionHypothesis]
    rfl

theorem map_shape_placeAbove (count : Nat) (vars : List Variable) :
    (placeAbove count vars).map Variable.shape = vars.map Variable.shape := by
  induction vars generalizing count with
  | nil => rfl
  | cons v rest inductionHypothesis =>
    rw [placeAbove, List.map_cons, List.map_cons, inductionHypothesis]
    rfl

theorem getElem?_placeAbove (count index : Nat) (vars : List Variable) :
    (placeAbove count vars)[index]? =
      vars[index]?.map fun v => { v with offset := 16 + 8 * .ofNat (count + index) } := by
  induction vars generalizing count index with
  | nil => rfl
  | cons v rest inductionHypothesis =>
    cases index with
    | zero => rfl
    | succ index =>
      rw [placeAbove, List.getElem?_cons_succ, List.getElem?_cons_succ, inductionHypothesis]
      rw [Nat.add_assoc, Nat.add_comm 1]

/-- The arguments of a function, as parameters. -/
def arriving (fn : Function) : List Variable :=
  fn.args.map fun v => { v with param := true }

theorem args_layoutFrame (fn : Function) : fn.layoutFrame.args =
    (placeBelow 0 (fn.arriving.take registerArgs)).1 ++
      placeAbove 0 (fn.arriving.drop registerArgs) := by
  unfold layoutFrame
  change _ = (placeBelow 0 ((fn.args.map fun v => { v with param := true }).take registerArgs)).1 ++
    placeAbove 0 ((fn.args.map fun v => { v with param := true }).drop registerArgs)
  dsimp only
  cases receiver : fn.receiver with
  | none =>
    rw [args]
    rfl
  | some this =>
    rw [args, args, receiver]
    split
    · rename_i first rest same
      exact same.symm
    · rename_i none
      simp [registerArgs, CallingConvention.argumentRegisters, placeBelow] at none

theorem map_shape_args_layoutFrame (fn : Function) :
    fn.layoutFrame.args.map Variable.shape = fn.args.map Variable.shape := by
  rw [args_layoutFrame, List.map_append, map_shape_placeBelow, map_shape_placeAbove,
    ← List.map_append, List.take_append_drop, arriving, List.map_map]
  rfl

theorem length_args_layoutFrame (fn : Function) :
    fn.layoutFrame.args.length = fn.args.length := by
  have lengths := congrArg List.length fn.map_shape_args_layoutFrame
  rwa [List.length_map, List.length_map] at lengths

/-- The arguments that arrive in registers are placed below the frame pointer. -/
theorem take_args_layoutFrame (fn : Function) : fn.layoutFrame.args.take registerArgs =
    (placeBelow 0 (fn.arriving.take registerArgs)).1 := by
  have total : fn.arriving.length = fn.args.length := List.length_map _
  have front := congrArg List.length (map_shape_placeBelow 0 (fn.arriving.take registerArgs))
  rw [List.length_map, List.length_map, List.length_take, total] at front
  rw [args_layoutFrame]
  by_cases many : registerArgs ≤ fn.args.length
  · exact List.take_left' (front.trans (Nat.min_eq_left many))
  · have none : fn.arriving.drop registerArgs = [] :=
      List.drop_eq_nil_of_le (by rw [total]; exact Nat.le_of_not_le many)
    rw [none, placeAbove, List.append_nil]
    exact List.take_of_length_le (by rw [front]; exact Nat.min_le_left _ _)

/-- The other arguments are eight bytes apart behind the return address. -/
theorem offset_of_args_layoutFrame {fn : Function} (few : fn.args.length ≤ 2 ^ 27) {index : Nat}
    {v : Variable} (found : fn.layoutFrame.args[registerArgs + index]? = some v) :
    v.offset.toInt = 16 + 8 * index := by
  have total : fn.arriving.length = fn.args.length := List.length_map _
  have front := congrArg List.length (map_shape_placeBelow 0 (fn.arriving.take registerArgs))
  rw [List.length_map, List.length_map, List.length_take, total] at front
  have inside := (List.getElem?_eq_some_iff.mp found).1
  rw [length_args_layoutFrame] at inside
  rw [args_layoutFrame, List.getElem?_append_right (by rw [front]; omega), front,
    Nat.min_eq_left (by omega), Nat.add_sub_cancel_left, getElem?_placeAbove] at found
  obtain ⟨declared, _, rfl⟩ := Option.map_eq_some_iff.mp found
  have count : (Int64.ofNat (0 + index)).toInt = index := by
    rw [Nat.zero_add]
    exact Int64.toInt_ofNat_of_lt (by omega)
  have scaled : (8 * Int64.ofNat (0 + index)).toInt = 8 * index := by
    rw [Int64.toInt_mul, count]
    exact Int.bmod_eq_of_le (by simp; omega) (by simp; omega)
  change (16 + 8 * Int64.ofNat (0 + index)).toInt = _
  rw [Int64.toInt_add, scaled]
  exact Int.bmod_eq_of_le (by simp; omega) (by simp; omega)

/-- Where the arguments of a function are, seen from the frame pointer. -/
structure Arranged (args : List Variable) : Prop where
  scalar : ∀ v ∈ args, v.Scalar
  below : Descends 0 (args.take registerArgs)
  above : ∀ {index v}, args[registerArgs + index]? = some v → v.offset.toInt = 16 + 8 * index

/-- The layout of a function arranges its arguments. -/
theorem arranged_layoutFrame {fn : Function} (scalar : ∀ v ∈ fn.args, v.Scalar)
    (few : fn.args.length ≤ 2 ^ 27) : Arranged fn.layoutFrame.args := by
  have scalar' : ∀ v ∈ fn.arriving, v.Scalar := by
    intro v member
    obtain ⟨declared, among, rfl⟩ := List.mem_map.mp member
    exact (scalar declared among).congr rfl
  refine ⟨fun v member => ?_, ?_, fun found => offset_of_args_layoutFrame few found⟩
  · have among := @List.mem_map_of_mem _ _ _ _ Variable.shape member
    rw [map_shape_args_layoutFrame] at among
    obtain ⟨declared, here, same⟩ := List.mem_map.mp among
    exact (scalar declared here).congr same.symm
  · have short : (fn.arriving.take registerArgs).length ≤ 6 := List.length_take_le _ _
    have descends : Descends (0 : Int64).toInt
        (placeBelow 0 (fn.arriving.take registerArgs)).1 := by
      apply descends_placeBelow
      · exact fun v member => scalar' v (List.mem_of_mem_take member)
      · exact Int.le_refl 0
      · change (0 : Int) + _ ≤ _
        omega
    rw [take_args_layoutFrame]
    exact descends

end Function

end X64Backend.Tree
