import X64Backend.Proofs.Lower.Frames
import X64Backend.Proofs.Machine.Spots
import X64Backend.Proofs.Tree.Layout

/-!
Where a procedure finds its arguments.  The prologue and the stores behind it turn what the calling
convention promises, registers and words above the return address, into cells at the offsets that
the layout of the frame has given to the parameters.
-/

namespace X64Backend.Lower

open Machine X64Backend.Tree X64Backend.Tree.Function

/-- The arguments of a call are in their registers, and the others are in words from an address up. -/
structure Passed (params : List Variable) (words : List UInt64) (base : UInt64) (view : View) :
    Prop where
  inRegister : ∀ {index : Nat} {v : Variable} {word : UInt64} {phys : Phys},
    params[index]? = some v → words[index]? = some word →
    CallingConvention.argumentRegisters[index]? = some phys →
    view.get phys &&& mask v.operandSize = word
  onStack : ∀ {index : Nat} {v : Variable} {word : UInt64},
    params[registerArgs + index]? = some v →
    words[registerArgs + index]? = some word →
    view.memory.load (base + 8 * UInt64.ofNat index) 8 &&& mask v.operandSize = word

/-- The address of a variable in the frame. -/
def cellAddress (view : View) (v : Variable) : UInt64 :=
  view.get .rbp + v.offset.toUInt64

/-- Every parameter holds its word, at its own width. -/
def Received (params : List Variable) (words : List UInt64) (view : View) : Prop :=
  ∀ {index : Nat} {v : Variable} {word : UInt64}, params[index]? = some v →
    words[index]? = some word → view.memory.load (cellAddress view v) v.operandSize.bytes = word

section Addresses

variable {number : Int64}

theorem toNat_of_negative (negative : number.toInt < 0) :
    (number.toUInt64.toNat : Int) = number.toInt + 2 ^ 64 := by
  change number.toBitVec.toInt < 0 at negative
  change (number.toBitVec.toNat : Int) = number.toBitVec.toInt + 2 ^ 64
  have bound := number.toBitVec.isLt
  rw [BitVec.toInt_eq_toNat_cond] at negative ⊢
  split at negative
  · omega
  · rename_i high
    rw [if_neg high]
    omega

theorem address_frameCell (view : View) {v : Variable} (least : -2 ^ 31 ≤ v.offset.toInt)
    (greatest : v.offset.toInt < 2 ^ 31) :
    Spot.address view .rbp v.offset.toInt32 = cellAddress view v := by
  rw [Spot.address, wordOfInt_toInt32 least greatest]
  rfl

end Addresses

theorem readPart_and_mask (word : UInt64) {size : Size} (low : size ≠ .high8) :
    readPart word size &&& mask size = word &&& mask size := by
  cases size with
  | high8 => contradiction
  | unsized | s8 | s16 | s32 | s64 => exact (UInt64.and_assoc _ _ _).trans (by rw [UInt64.and_self])

variable {image : Image} {checked : Bool} {view entry : View}

/-- The store of one argument that arrived in a register. -/
theorem does_spill {v : Variable} (scalar : v.Scalar) (phys : Phys)
    (least : -2 ^ 31 ≤ v.offset.toInt) (greatest : v.offset.toInt < 2 ^ 31) (tick : Nat) :
    Does ⟨image, tick⟩ checked (.binary .mov (.mem (frameCell v.offset v.operandSize))
        (.reg (.fix phys v.operandSize))) view
      { view with
        memory := view.memory.store (cellAddress view v) v.operandSize.bytes
          (readPart (view.get phys) v.operandSize) } := by
  have into : Finds ⟨image, tick⟩ (.mem (frameCell v.offset v.operandSize))
      (.cell .rbp v.offset.toInt32) := by
    apply Finds.cell
    · rfl
    · simp [frameCell, Pointer.ofBase, Register.resize]
  have out : Finds ⟨image, tick⟩ (.reg (.fix phys v.operandSize)) (.register phys) :=
    Finds.fixed phys scalar.low
  have stores : Does ⟨image, tick⟩ checked (.binary .mov (.mem (frameCell v.offset v.operandSize))
      (.reg (.fix phys v.operandSize))) view _ := Does.movSpot into out scalar.sized rfl
  rw [Spot.write, address_frameCell view least greatest] at stores
  exact stores

/-- The stores of the arguments that arrived in registers write below the frame pointer, from a depth
on, and each cell keeps what was stored in it. -/
theorem acts_spills {params : List Variable} {registers : List Phys} {depth : Int}
    (scalar : ∀ v ∈ params, v.Scalar) (descends : Descends depth (params.take registers.length))
    (least : 0 ≤ depth) (greatest : depth + 16 * registers.length ≤ 2 ^ 31) :
    ∃ memory : Memory, Acts image checked ((params.zip registers).map fun (v, phys) =>
        .binary .mov (.mem (frameCell v.offset v.operandSize))
          (.reg (.fix phys v.operandSize))) view { view with memory } ∧
      (∀ {index : Nat} {v : Variable} {phys : Phys}, params[index]? = some v → registers[index]? = some phys →
        memory.load (cellAddress view v) v.operandSize.bytes =
          view.get phys &&& mask v.operandSize) ∧
      ∀ address, ((view.get .rbp - address).toNat : Int) ≤ depth ∨
        2 ^ 31 < (view.get .rbp - address).toNat →
        memory.get address = view.memory.get address := by
  induction registers generalizing params depth view with
  | nil =>
    refine ⟨view.memory, ?_, ?_, fun _ _ => rfl⟩
    · rw [List.zip_nil_right]
      exact .nil
    · intro index v phys _ impossible
      contradiction
  | cons phys rest inductionHypothesis =>
    cases params with
    | nil =>
      refine ⟨view.memory, .nil, ?_, fun _ _ => rfl⟩
      intro index v phys impossible _
      contradiction
    | cons v others =>
      obtain ⟨deeper, near, descends⟩ := descends
      have width := (scalar v List.mem_cons_self).bytes
      rw [List.length_cons] at greatest
      have offset := toNat_of_negative (show v.offset.toInt < 0 by omega)
      let spilled : View :=
        { view with
          memory := view.memory.store (cellAddress view v) v.operandSize.bytes
            (readPart (view.get phys) v.operandSize) }
      have single : Acts image checked [.binary .mov (.mem (frameCell v.offset v.operandSize))
          (.reg (.fix phys v.operandSize))] view spilled :=
        .single fun tick => does_spill (scalar v List.mem_cons_self) phys (by omega) (by omega) tick
      obtain ⟨memory, acts, cells, outside⟩ := @inductionHypothesis spilled others _
        (fun other member => scalar other (List.mem_cons_of_mem _ member)) descends
        (by omega) (by omega)
      change ∀ address, ((view.get .rbp - address).toNat : Int) ≤ _ ∨ _ < (view.get .rbp - _).toNat →
        memory.get address = spilled.memory.get address at outside
      refine ⟨memory, single.append acts, ?_, ?_⟩
      · intro index w other found among
        cases index with
        | zero =>
          cases found
          cases among
          have kept : memory.load (cellAddress view v) v.operandSize.bytes =
              spilled.memory.load (cellAddress view v) v.operandSize.bytes := by
            apply Memory.load_congr width.2
            intro address inside
            apply outside
            left
            unfold cellAddress at inside
            have bound := address.toNat_lt
            simp only [UInt64.toNat_sub, UInt64.toNat_add] at inside ⊢
            omega
          rw [kept]
          exact (Memory.load_store _ _ _ (scalar v List.mem_cons_self).sized).trans
            (readPart_and_mask _ (scalar v List.mem_cons_self).low)
        | succ index => exact cells found among
      · intro address apart
        rw [outside address (apart.imp_left fun near => by omega)]
        apply Memory.get_store_of_le
        unfold cellAddress
        have bound := address.toNat_lt
        simp only [UInt64.toNat_sub, UInt64.toNat_add] at apart ⊢
        omega

/-- What the calling convention promises becomes the cells of the parameters. -/
theorem acts_receive {plan : FramePlan} {size : Nat} {redZone : Int} {fn : Function}
    {words : List UInt64} (fits : plan.Fits size redZone) (framed : plan.hasFrame = true)
    (arranged : Arranged fn.args) (few : fn.args.length ≤ 2 ^ 27)
    (passed : Passed fn.args words (entry.get .rsp + 8) entry) :
    ∃ start, Acts image checked (plan.prologue ++ spillArguments fn) entry start ∧
      Received fn.args words start := by
  obtain ⟨raised, prologue, upright⟩ := acts_prologue image checked fits entry
  have base : raised.get .rbp = entry.get .rsp - 8 := by
    rw [upright.base, if_pos framed]
  obtain ⟨memory, spills, cells, outside⟩ := @acts_spills image checked raised fn.args
    CallingConvention.argumentRegisters 0 arranged.scalar arranged.below (Int.le_refl 0) (by decide)
  refine ⟨{ raised with memory }, prologue.append spills, ?_⟩
  intro index v word found given
  change memory.load (cellAddress raised v) v.operandSize.bytes = word
  have scalar := arranged.scalar v (List.mem_of_getElem? found)
  by_cases early : index < registerArgs
  · have arrives : ∃ phys, CallingConvention.argumentRegisters[index]? = some phys :=
      ⟨_, List.getElem?_eq_getElem early⟩
    obtain ⟨phys, arrives⟩ := arrives
    have apart : ∀ phys ∈ CallingConvention.argumentRegisters, phys ≠ .rsp ∧ phys ≠ .rbp := by
      decide
    obtain ⟨notRsp, notRbp⟩ := apart phys (List.mem_of_getElem? arrives)
    rw [cells found arrives, upright.registers phys notRsp notRbp]
    exact passed.inRegister found given arrives
  · obtain ⟨position, rfl⟩ := Nat.exists_eq_add_of_le (Nat.le_of_not_lt early)
    have inside := (List.getElem?_eq_some_iff.mp found).1
    have offset := arranged.above found
    have distance : v.offset.toUInt64 = 16 + 8 * UInt64.ofNat position := by
      apply UInt64.toNat_inj.mp
      have same := @toInt_eq_toNat v.offset (by omega)
      simp only [UInt64.toNat_add, UInt64.toNat_mul, UInt64.toNat_ofNat', UInt64.reduceToNat]
      omega
    have address : cellAddress raised v = entry.get .rsp + 8 + 8 * UInt64.ofNat position := by
      rw [cellAddress, base, distance]
      grind
    rw [address, ← passed.onStack found given, Memory.load_and_mask _ _ scalar.sized]
    apply Memory.load_congr scalar.bytes.2
    intro other inside
    have bound := other.toNat_lt
    have bound' := (entry.get .rsp).toNat_lt
    have width := scalar.bytes.2
    rw [outside other, upright.above other]
    · simp only [UInt64.toNat_sub, UInt64.toNat_add, UInt64.toNat_mul, UInt64.toNat_ofNat',
        UInt64.reduceToNat] at inside ⊢
      omega
    · right
      rw [base]
      simp only [UInt64.toNat_sub, UInt64.toNat_add, UInt64.toNat_mul, UInt64.toNat_ofNat',
        UInt64.reduceToNat] at inside ⊢
      omega

end X64Backend.Lower
