import Mathlib.Data.Nat.Bitwise
import X64Backend.Proofs.Lower.Procedures
import X64Backend.Proofs.Machine.Memory
import X64Backend.Proofs.Machine.Runs
import X64Backend.Proofs.Numeral.Digits

/-!
The prologue and the epilogue of a procedure on the machine.  Whatever the body needed, the epilogue
takes down what the prologue has set up: the stack pointer and the registers to restore come back,
and the return address is where the call has put it.
-/

namespace X64Backend

open Machine

/-- Instructions that stay in line wherever they stand, with their effect on what code can see. -/
def Acts (image : Image) (checked : Bool) (instrs : List Instr) (view view' : View) : Prop :=
  ∀ entries : List Entry, entries.map Entry.instr = instrs →
    Straight image checked entries view view'

namespace Acts

variable {image : Image} {checked : Bool} {view view₁ view' : View} {instrs instrs' : List Instr}

theorem nil : Acts image checked [] view view := by
  intro entries same
  rw [List.map_eq_nil_iff.mp same]
  rfl

theorem single {instr : Instr}
    (does : ∀ tick, Does ⟨image, tick⟩ checked instr view view') :
    Acts image checked [instr] view view' := by
  intro entries same
  obtain ⟨entry, rest, rfl, rfl, none⟩ := List.map_eq_cons_iff.mp same
  rw [List.map_eq_nil_iff.mp none]
  exact ⟨view', does entry.tick, rfl⟩

theorem append (first : Acts image checked instrs view view₁)
    (second : Acts image checked instrs' view₁ view') :
    Acts image checked (instrs ++ instrs') view view' := by
  intro entries same
  obtain ⟨front, back, rfl, here, there⟩ := List.map_eq_append_iff.mp same
  exact (first front here).append (second back there)

end Acts

namespace Machine

variable {memory memory' : Memory} {values : Phys → UInt64} {top : UInt64} {phys : Phys}
  {saved : List Phys} {view : View}

/-- The words of registers that were pushed one after the other from an address down. -/
def Stored (memory : Memory) (values : Phys → UInt64) : (top : UInt64) → List Phys → Prop
  | _, [] => True
  | top, phys :: rest =>
      memory.load (top - 8) 8 = values phys ∧ Stored memory values (top - 8) rest

/-- The view after registers have been pushed. -/
def View.pushAll (view : View) : List Phys → View
  | [] => view
  | phys :: rest => (view.push (view.get phys)).pushAll rest

namespace View

theorem get_push (word : UInt64) : (view.push word).get phys =
    if phys = .rsp then view.get .rsp - 8 else view.get phys := by
  change (view.registers.set .rsp (view.get .rsp - 8)).get phys = _
  exact Registers.get_set _ _ _ _

theorem memory_push (word : UInt64) :
    (view.push word).memory = view.memory.store (view.get .rsp - 8) 8 word := rfl

theorem get_pushAll_of_ne (other : phys ≠ .rsp) : (view.pushAll saved).get phys = view.get phys := by
  induction saved generalizing view with
  | nil => rfl
  | cons first rest inductionHypothesis =>
      rw [pushAll, inductionHypothesis, get_push, if_neg other]

theorem get_rsp_pushAll : (view.pushAll saved).get .rsp =
    view.get .rsp - 8 * UInt64.ofNat saved.length := by
  induction saved generalizing view with
  | nil => simp [pushAll]
  | cons first rest inductionHypothesis =>
      rw [pushAll, inductionHypothesis, get_push, if_pos rfl, List.length_cons, UInt64.ofNat_add]
      grind

theorem frames_pushAll : (view.pushAll saved).frames = view.frames := by
  induction saved generalizing view with
  | nil => rfl
  | cons first rest inductionHypothesis => exact inductionHypothesis

/-- Pushing registers writes below the stack pointer only. -/
theorem get_memory_pushAll {address : UInt64} (few : saved.length ≤ 5)
    (outside : 8 * saved.length ≤
      (address - (view.get .rsp - 8 * UInt64.ofNat saved.length)).toNat) :
    (view.pushAll saved).memory.get address = view.memory.get address := by
  induction saved generalizing view with
  | nil => rfl
  | cons first rest inductionHypothesis =>
      rw [List.length_cons] at few outside
      simp only [UInt64.toNat_sub, UInt64.toNat_mul, UInt64.toNat_ofNat', UInt64.reduceToNat]
        at outside
      rw [pushAll, inductionHypothesis (by omega)]
      · refine Memory.get_store_of_le ?_
        simp only [UInt64.toNat_sub, UInt64.reduceToNat]
        omega
      · rw [get_push, if_pos rfl]
        simp only [UInt64.toNat_sub, UInt64.toNat_mul, UInt64.toNat_ofNat', UInt64.reduceToNat]
        omega

end View

namespace Stored

/-- The words depend on the bytes below the address only. -/
theorem congr (few : saved.length ≤ 5) (same : ∀ address,
      (address - (top - 8 * UInt64.ofNat saved.length)).toNat < 8 * saved.length →
        memory.get address = memory'.get address)
    (stored : Stored memory values top saved) : Stored memory' values top saved := by
  induction saved generalizing top with
  | nil => trivial
  | cons first rest inductionHypothesis =>
      obtain ⟨here, others⟩ := stored
      rw [List.length_cons] at few same
      refine ⟨?_, inductionHypothesis (by omega) (fun address below => same address ?_) others⟩
      · rw [← here]
        refine (Memory.load_congr (Nat.le_refl 8) fun address within => same address ?_).symm
        simp only [UInt64.toNat_sub, UInt64.toNat_mul, UInt64.toNat_ofNat', UInt64.reduceToNat]
          at within ⊢
        omega
      · simp only [UInt64.toNat_sub, UInt64.toNat_mul, UInt64.toNat_ofNat', UInt64.reduceToNat]
          at below ⊢
        omega

theorem congr_values {values' : Phys → UInt64} (same : ∀ phys ∈ saved, values phys = values' phys)
    (stored : Stored memory values top saved) : Stored memory values' top saved := by
  induction saved generalizing top with
  | nil => trivial
  | cons first rest inductionHypothesis =>
      obtain ⟨here, others⟩ := stored
      refine ⟨here.trans (same first List.mem_cons_self), ?_⟩
      exact inductionHypothesis (fun phys member => same phys (List.mem_cons_of_mem _ member)) others

/-- Registers that were pushed are stored below the stack pointer. -/
theorem pushAll (few : saved.length ≤ 5) (general : ∀ phys ∈ saved, phys ≠ .rsp) :
    Stored (view.pushAll saved).memory view.get (view.get .rsp) saved := by
  induction saved generalizing view with
  | nil => trivial
  | cons first rest inductionHypothesis =>
      rw [List.length_cons] at few
      have remaining : ∀ phys ∈ rest, phys ≠ .rsp :=
        fun phys member => general phys (List.mem_cons_of_mem _ member)
      have others := @inductionHypothesis (view.push (view.get first)) (by omega) remaining
      rw [View.get_push, if_pos rfl] at others
      have kept : ((view.push (view.get first)).pushAll rest).memory.load (view.get .rsp - 8) 8 =
          (view.push (view.get first)).memory.load (view.get .rsp - 8) 8 := by
        refine Memory.load_congr (Nat.le_refl 8) fun address within => ?_
        refine View.get_memory_pushAll (by omega) ?_
        rw [View.get_push, if_pos rfl]
        simp only [UInt64.toNat_sub, UInt64.toNat_mul, UInt64.toNat_ofNat', UInt64.reduceToNat]
          at within ⊢
        omega
      rw [View.memory_push, Memory.load_store_word] at kept
      refine ⟨kept, others.congr_values fun phys member => ?_⟩
      rw [View.get_push, if_neg (remaining phys member)]

end Stored

theorem acts_pushes (image : Image) (checked : Bool) (view : View) (saved : List Phys) :
    Acts image checked (saved.map fun phys => .unary .push (Lower.FramePlan.word phys)) view
      (view.pushAll saved) := by
  induction saved generalizing view with
  | nil => exact .nil
  | cons first rest inductionHypothesis =>
      exact (Acts.single fun _ => Does.push first).append (inductionHypothesis _)

/-- Registers have been popped from below an address, and nothing else has changed. -/
structure Popped (values : Phys → UInt64) (top : UInt64) (saved : List Phys) (view view' : View) :
    Prop where
  level : view'.get .rsp = top
  registers : ∀ phys, phys ≠ .rsp →
    view'.get phys = if phys ∈ saved then values phys else view.get phys
  memory : view'.memory = view.memory
  frames : view'.frames = view.frames

/-- Popping in the reverse order gives every register its word back. -/
theorem acts_pops {image : Image} {checked : Bool}
    (general : ∀ phys ∈ saved, phys ≠ .rsp) (stored : Stored view.memory values top saved)
    (level : view.get .rsp = top - 8 * UInt64.ofNat saved.length) :
    ∃ view', Acts image checked
        (saved.reverse.map fun phys => .unary .pop (Lower.FramePlan.word phys)) view view' ∧
      Popped values top saved view view' := by
  induction saved generalizing top with
  | nil =>
      refine ⟨view, .nil, ?_, fun phys _ => by simp, rfl, rfl⟩
      simpa using level
  | cons first rest inductionHypothesis =>
      obtain ⟨here, others⟩ := stored
      have below : view.get .rsp = top - 8 - 8 * UInt64.ofNat rest.length := by
        rw [level, List.length_cons, UInt64.ofNat_add]
        grind
      obtain ⟨middle, acts, popped⟩ := inductionHypothesis
        (fun phys member => general phys (List.mem_cons_of_mem _ member)) others below
      have proper := general first List.mem_cons_self
      refine ⟨middle.popTo first, ?_, ?_, fun phys other => ?_, popped.memory, popped.frames⟩
      · rw [List.reverse_cons, List.map_append]
        exact acts.append (Acts.single fun _ => Does.pop first)
      · rw [View.popTo, View.get_set, if_neg (Ne.symm proper), View.get_set, if_pos rfl,
          popped.level]
        grind
      · rw [View.popTo, View.get_set, View.get_set, if_neg other, popped.level, popped.memory, here]
        by_cases same : phys = first
        · simp [same]
        · rw [if_neg same, popped.registers phys other]
          simp [same]

end Machine

section Words

/-- The low half of a small word is extended to the word itself. -/
theorem signExtend_of_small {word : UInt64} (small : word.toNat < 2 ^ 31) :
    signExtend word .s32 = word := by
  have low : word &&& mask .s32 = word := by
    refine UInt64.toNat_inj.mp ?_
    rw [UInt64.toNat_and]
    change word.toNat &&& (2 ^ 32 - 1) = _
    rw [Nat.and_two_pow_sub_one_eq_mod, Nat.mod_eq_of_lt (by omega)]
  have positive : word &&& signBit .s32 = 0 := by
    refine UInt64.toNat_inj.mp ?_
    rw [UInt64.toNat_and]
    change word.toNat &&& 2 ^ 31 = 0
    rw [Nat.and_two_pow, Nat.testBit_lt_two_pow small]
    rfl
  unfold signExtend
  simp only [low, isNegative, positive]
  rfl

/-- A displacement keeps a word that extends from 32 bits. -/
theorem wordOfInt_toInt32 {number : Int64} (least : -2 ^ 31 ≤ number.toInt)
    (greatest : number.toInt < 2 ^ 31) :
    Literal.wordOfInt number.toInt32.toInt = number.toUInt64 := by
  rw [Int64.toInt_toInt32, Int.bmod_eq_of_le (by omega) (by omega), Literal.wordOfInt,
    Int64.ofInt_toInt]

/-- A signed word that is not negative is its own pattern. -/
theorem toInt_eq_toNat {number : Int64} (least : 0 ≤ number.toInt) :
    number.toInt = number.toUInt64.toNat := by
  change number.toBitVec.toInt = number.toBitVec.toNat
  change 0 ≤ number.toBitVec.toInt at least
  have bound := number.toBitVec.isLt
  rw [BitVec.toInt_eq_toNat_cond] at least ⊢
  split at least <;> omega

theorem toInt_of_toNat (number : Int64) (small : number.toUInt64.toNat < 2 ^ 63) :
    number.toInt = number.toUInt64.toNat := by
  change number.toBitVec.toInt = number.toBitVec.toNat
  change number.toBitVec.toNat < 2 ^ 63 at small
  rw [BitVec.toInt_eq_toNat_cond, if_pos (by omega)]

theorem and_not_fifteen (bits : BitVec 64) : bits &&& ~~~15#64 = (bits >>> 4) <<< 4 := by
  have kept : ∀ i : Fin 64, (~~~15#64)[i.val] = decide (4 ≤ i.val) := by decide
  ext i inside
  rw [BitVec.getElem_and, kept ⟨i, inside⟩, BitVec.getElem_shiftLeft]
  by_cases low : i < 4
  · simp [low]
  · simp [low, Nat.add_sub_cancel' (Nat.le_of_not_lt low), BitVec.getLsbD_eq_getElem inside,
      Nat.le_of_not_lt low]

theorem toNat_align16 {number : Int64} (small : number.toUInt64.toNat < 2 ^ 63) :
    (Lower.align16 number).toUInt64.toNat = (number.toUInt64.toNat + 15) / 16 * 16 := by
  have sum : (number + 15).toBitVec.toNat = number.toUInt64.toNat + 15 := by
    rw [Int64.toBitVec_add, BitVec.toNat_add]
    change (number.toUInt64.toNat + 15) % 2 ^ 64 = _
    omega
  change ((number + 15).toBitVec &&& ~~~15#64).toNat = _
  rw [and_not_fifteen, BitVec.toNat_shiftLeft, BitVec.toNat_ushiftRight, sum, Nat.shiftLeft_eq,
    Nat.shiftRight_eq_div_pow]
  omega

end Words

namespace Lower

/-- What a plan has to do with the bytes below the frame pointer that it is made for. -/
structure FramePlan.Fits (plan : FramePlan) (size : Nat) (redZone : Int) : Prop where
  bounded : size ≤ 2 ^ 31 - 64
  room : plan.room.toUInt64.toNat ≤ 2 ^ 31 - 56
  frameless : plan.hasFrame = false → size = 0 ∧ plan.leaf = true ∧ plan.room = 0
  aligned : plan.leaf = false → (plan.room.toUInt64.toNat + 8 * plan.saved.length) % 16 = 0
  covers : size ≤ plan.room.toUInt64.toNat ∨
    plan.leaf = true ∧ plan.saved = [] ∧ (size : Int) ≤ redZone
  few : plan.saved.length ≤ 5
  general : ∀ phys ∈ plan.saved, phys ≠ .rsp ∧ phys ≠ .rbp

/-- The room that is not left out holds the frame, and keeps the stack aligned. -/
theorem toNat_roomFor (stackSize : Int64) (leaf : Bool) (saved : Nat) (redZone : Int)
    (small : stackSize.toUInt64.toNat ≤ 2 ^ 31 - 64) :
    (FramePlan.roomFor stackSize leaf saved redZone).toUInt64.toNat =
        (stackSize.toUInt64.toNat + 15) / 16 * 16 + (if saved % 2 = 1 then 8 else 0) ∨
      leaf = true ∧ stackSize.toInt ≤ redZone ∧ saved = 0 ∧
        FramePlan.roomFor stackSize leaf saved redZone = 0 := by
  unfold FramePlan.roomFor
  split
  · rename_i within
    simp only [Bool.and_eq_true, decide_eq_true_eq] at within
    exact .inr ⟨within.1.1, within.1.2, within.2, rfl⟩
  · left
    have sum : ∀ a b : Int64, (a + b).toUInt64 = a.toUInt64 + b.toUInt64 := fun _ _ => rfl
    rw [sum, UInt64.toNat_add, toNat_align16 (by omega)]
    split
    · change (_ + 8) % 2 ^ 64 = _
      omega
    · change (_ + 0) % 2 ^ 64 = _
      omega

theorem fits_ofFrame {frame : Frame} {stackArguments : Bool} {saved : List Phys} {redZone : Int}
    (least : 0 ≤ frame.stackSize.toInt) (greatest : frame.stackSize.toInt ≤ 2 ^ 31 - 64)
    (few : saved.length ≤ 5) (general : ∀ phys ∈ saved, phys ≠ .rsp ∧ phys ≠ .rbp) :
    (FramePlan.ofFrame frame stackArguments saved redZone).Fits frame.stackSize.toUInt64.toNat
      redZone := by
  have size := toInt_eq_toNat least
  have room := toNat_roomFor frame.stackSize frame.leaf saved.length redZone (by omega)
  have zero : (0 : Int64).toUInt64.toNat = 0 := rfl
  by_cases framed : (FramePlan.ofFrame frame stackArguments saved redZone).hasFrame = true
  · have same : (FramePlan.ofFrame frame stackArguments saved redZone).room =
        FramePlan.roomFor frame.stackSize frame.leaf saved.length redZone := if_pos framed
    refine ⟨by omega, ?_, fun none => absurd framed (by simp [none]), fun calls => ?_, ?_, few,
      general⟩
    · rw [same]
      rcases room with padded | ⟨_, _, _, none⟩
      · rw [padded]
        split <;> omega
      · rw [none, zero]
        decide
    · rw [same]
      rcases room with padded | ⟨leaf, _⟩
      · rw [padded]
        change (_ + 8 * saved.length) % 16 = 0
        split <;> omega
      · exact absurd leaf (by simpa [FramePlan.ofFrame] using calls)
    · rw [same]
      rcases room with padded | ⟨leaf, within, none, _⟩
      · left
        rw [padded]
        omega
      · exact .inr ⟨leaf, List.eq_nil_of_length_eq_zero none, size ▸ within⟩
  · have same : (FramePlan.ofFrame frame stackArguments saved redZone).room = 0 := if_neg framed
    have unframed := framed
    simp only [FramePlan.ofFrame, Bool.or_eq_true, decide_eq_true_eq, Bool.not_eq_true',
      not_or, Bool.not_eq_true, Bool.not_eq_false] at unframed
    obtain ⟨⟨empty, _⟩, leaf⟩ := unframed
    have none : frame.stackSize.toUInt64.toNat = 0 := by
      rw [Int64.lt_iff_toInt_lt] at empty
      change ¬ 0 < _ at empty
      omega
    refine ⟨by omega, ?_, fun _ => ⟨none, leaf, same⟩, fun calls => absurd leaf ?_, ?_, few,
      general⟩
    · rw [same, zero]
      decide
    · simpa [FramePlan.ofFrame] using calls
    · left
      rw [none]
      exact Nat.zero_le _

/-- The address below which the prologue pushes the registers to restore. -/
def FramePlan.top (plan : FramePlan) (rsp : UInt64) : UInt64 :=
  if plan.hasFrame then rsp - 8 - plan.room.toUInt64 else rsp

theorem FramePlan.Fits.framed_or_empty {plan : FramePlan} {size : Nat} {redZone : Int}
    (fits : plan.Fits size redZone) :
    plan.hasFrame = true ∨ size = 0 ∧ plan.hasFrame = false := by
  cases framed : plan.hasFrame with
  | true => exact .inl rfl
  | false => exact .inr ⟨(fits.frameless framed).1, rfl⟩

/-- Where there is a frame, the cells of the registers to restore are below the room. -/
theorem FramePlan.Fits.le_of_within {plan : FramePlan} {size : Nat} {redZone : Int}
    (fits : plan.Fits size redZone) (framed : plan.hasFrame = true) {rsp address : UInt64}
    (within : (address - (rsp - 8)).toNat < 16) : 8 * plan.saved.length ≤
      (address - (plan.top rsp - 8 * UInt64.ofNat plan.saved.length)).toNat := by
  have small := fits.room
  have few := fits.few
  unfold FramePlan.top
  rw [if_pos framed]
  simp only [UInt64.toNat_sub, UInt64.toNat_mul, UInt64.toNat_ofNat', UInt64.reduceToNat]
    at within ⊢
  omega

/-- What a procedure sees where its prologue is done. -/
structure Raised (plan : FramePlan) (entry start : View) : Prop where
  base : start.get .rbp = if plan.hasFrame then entry.get .rsp - 8 else entry.get .rbp
  level : start.get .rsp =
    plan.top (entry.get .rsp) - 8 * UInt64.ofNat plan.saved.length
  stored : Stored start.memory entry.get (plan.top (entry.get .rsp)) plan.saved
  link : plan.hasFrame = true → start.memory.load (entry.get .rsp - 8) 8 = entry.get .rbp
  /-- The return address and what is above it are left alone. -/
  above : ∀ address, (address - entry.get .rsp).toNat < 2 ^ 63 →
    start.memory.get address = entry.memory.get address
  registers : ∀ phys, phys ≠ .rsp → phys ≠ .rbp → start.get phys = entry.get phys
  frames : start.frames = entry.frames

variable {plan : FramePlan} {size : Nat} {redZone : Int} {image : Image} {checked : Bool}

theorem FramePlan.Fits.toUInt64_eq_zero (fits : plan.Fits size redZone) (none : ¬ 0 < plan.room) :
    plan.room.toUInt64 = 0 := by
  have small := fits.room
  have value := toInt_of_toNat plan.room (by omega)
  rw [Int64.lt_iff_toInt_lt] at none
  change ¬ 0 < _ at none
  refine UInt64.toNat_inj.mp ?_
  change plan.room.toUInt64.toNat = 0
  omega

/-- Lowering the stack pointer by the room. -/
theorem acts_lower (fits : plan.Fits size redZone) (view : View) :
    ∃ view', Acts image checked
        (if 0 < plan.room then [.binary .sub (.reg rsp) (.lit (.ofInt plan.room.toInt))] else [])
        view view' ∧
      (∀ phys, view'.get phys =
        if phys = .rsp then view.get .rsp - plan.room.toUInt64 else view.get phys) ∧
      view'.memory = view.memory ∧ view'.frames = view.frames := by
  by_cases some : 0 < plan.room
  · have least := Int64.le_toInt plan.room
    have greatest := Int64.toInt_lt plan.room
    have bits : (Literal.ofInt plan.room.toInt).bits = .ok (Literal.wordOfInt plan.room.toInt) :=
      Literal.bits_ofInt (by omega) (by omega)
    have does : ∀ tick, Does ⟨image, tick⟩ checked _ view _ :=
      fun tick => Does.subLit .rsp rfl bits
    rw [Literal.wordOfInt, Int64.ofInt_toInt, signExtend_of_small (by have := fits.room; omega)]
      at does
    rw [if_pos some]
    exact ⟨_, .single does, fun phys => View.get_set view .rsp phys _, rfl, rfl⟩
  · rw [if_neg some, fits.toUInt64_eq_zero some]
    refine ⟨view, .nil, fun phys => ?_, rfl, rfl⟩
    split
    · rename_i same
      rw [same, UInt64.sub_zero]
    · rfl

/-- The prologue up to the registers to restore. -/
theorem acts_setup (fits : plan.Fits size redZone) (entry : View) :
    ∃ view, Acts image checked
        ((if plan.hasFrame then [.unary .push (.reg rbp), .binary .mov (.reg rbp) (.reg rsp)]
          else []) ++
        (if plan.hasFrame && 0 < plan.room then
          [.binary .sub (.reg rsp) (.lit (.ofInt plan.room.toInt))]
        else [])) entry view ∧
      (∀ phys, phys ≠ .rsp → phys ≠ .rbp → view.get phys = entry.get phys) ∧
      view.get .rbp = (if plan.hasFrame then entry.get .rsp - 8 else entry.get .rbp) ∧
      view.get .rsp = plan.top (entry.get .rsp) ∧
      view.memory = (if plan.hasFrame then
        entry.memory.store (entry.get .rsp - 8) 8 (entry.get .rbp) else entry.memory) ∧
      view.frames = entry.frames := by
  unfold FramePlan.top
  cases framed : plan.hasFrame with
  | false => exact ⟨entry, .nil, fun _ _ _ => rfl, rfl, rfl, rfl, rfl⟩
  | true =>
      let pushed : View := entry.push (entry.get .rbp)
      let linked : View := pushed.set .rbp (pushed.get .rsp)
      have link : Acts image checked
          [.unary .push (.reg rbp), .binary .mov (.reg rbp) (.reg rsp)] entry linked :=
        (Acts.single fun _ => Does.push .rbp).append (Acts.single fun _ => Does.mov .rbp .rsp)
      have seen : ∀ phys, linked.get phys = if phys = .rbp ∨ phys = .rsp then entry.get .rsp - 8
          else entry.get phys := by
        intro phys
        rw [View.get_set, View.get_push, View.get_push, if_pos rfl]
        by_cases first : phys = .rbp
        · simp [first]
        · simp [first]
      obtain ⟨view, lowered, registers, memory, frames⟩ := acts_lower fits linked
      refine ⟨view, ?_, fun phys notRsp notRbp => ?_, ?_, ?_, memory, frames⟩
      · simpa using link.append lowered
      · rw [registers, if_neg notRsp, seen, if_neg (by simp [notRsp, notRbp])]
      · rw [registers, if_neg (by decide), seen]
        simp
      · rw [registers, if_pos rfl, seen]
        simp

theorem acts_prologue (image : Image) (checked : Bool) (fits : plan.Fits size redZone)
    (entry : View) :
    ∃ start, Acts image checked plan.prologue entry start ∧ Raised plan entry start := by
  obtain ⟨view, setup, others, base, level, memory, frames⟩ := acts_setup fits entry
  have pushes := acts_pushes image checked view plan.saved
  refine ⟨view.pushAll plan.saved, setup.append pushes, ?_, ?_, ?_, ?_, ?_, ?_, ?_⟩
  · rw [View.get_pushAll_of_ne (by decide), base]
  · rw [View.get_rsp_pushAll, level]
  · have stored : Stored (view.pushAll plan.saved).memory view.get (view.get .rsp) plan.saved :=
      Stored.pushAll fits.few fun phys member => (fits.general phys member).1
    rw [level] at stored
    exact stored.congr_values fun phys member =>
      others phys (fits.general phys member).1 (fits.general phys member).2
  · intro framed
    rw [if_pos framed] at memory
    have kept : (view.pushAll plan.saved).memory.load (entry.get .rsp - 8) 8 =
        view.memory.load (entry.get .rsp - 8) 8 := by
      refine Memory.load_congr (Nat.le_refl 8) fun address within => ?_
      refine View.get_memory_pushAll fits.few ?_
      rw [level]
      exact fits.le_of_within framed (Nat.lt_of_lt_of_le within (by decide))
    rw [kept, memory]
    exact Memory.load_store_word _ _ _
  · intro address within
    have small := fits.room
    have few := fits.few
    have bound := (entry.get .rsp).toNat_lt
    have pushed : 8 * plan.saved.length ≤
        (address - (view.get .rsp - 8 * UInt64.ofNat plan.saved.length)).toNat := by
      rw [level]
      unfold FramePlan.top
      split
      · simp only [UInt64.toNat_sub, UInt64.toNat_mul, UInt64.toNat_ofNat', UInt64.reduceToNat]
          at within ⊢
        omega
      · simp only [UInt64.toNat_sub, UInt64.toNat_mul, UInt64.toNat_ofNat', UInt64.reduceToNat]
          at within ⊢
        omega
    rw [View.get_memory_pushAll few pushed, memory]
    split
    · refine Memory.get_store_of_le ?_
      simp only [UInt64.toNat_sub, UInt64.reduceToNat] at within ⊢
      omega
    · rfl
  · intro phys notRsp notRbp
    rw [View.get_pushAll_of_ne notRsp, others phys notRsp notRbp]
  · rw [View.frames_pushAll, frames]

/-- The cell of the register that was saved last, seen from the frame pointer. -/
theorem FramePlan.Fits.wordOfInt_lastSavedCell (fits : plan.Fits size redZone) :
    Literal.wordOfInt plan.lastSavedCell.disp.toInt =
      0 - plan.room.toUInt64 - 8 * UInt64.ofNat plan.saved.length := by
  have small := fits.room
  have few := fits.few
  have value := toInt_of_toNat plan.room (by omega)
  have count : (Int64.ofNat plan.saved.length).toInt = plan.saved.length :=
    Int64.toInt_ofNat_of_lt (by omega)
  have scaled : (8 * Int64.ofNat plan.saved.length).toInt = 8 * plan.saved.length := by
    rw [Int64.toInt_mul, count]
    exact Int.bmod_eq_of_le (by simp; omega) (by simp; omega)
  have negated : (-plan.room).toInt = -plan.room.toInt := by
    rw [Int64.toInt_neg]
    exact Int.bmod_eq_of_le (by omega) (by omega)
  have distance : (-plan.room - 8 * .ofNat plan.saved.length).toInt =
      -(plan.room.toInt + 8 * plan.saved.length) := by
    rw [Int64.toInt_sub, negated, scaled, Int.bmod_eq_of_le (by omega) (by omega)]
    omega
  exact wordOfInt_toInt32 (by omega) (by omega)

/-- What the epilogue finds: the frame pointer, if there is one, the stack pointer of a leaf, and the
registers to restore in their cells. -/
structure Standing (plan : FramePlan) (values : Phys → UInt64) (rsp : UInt64) (last : View) :
    Prop where
  base : plan.hasFrame = true → last.get .rbp = rsp - 8
  level : plan.leaf = true → last.get .rsp = plan.top rsp - 8 * UInt64.ofNat plan.saved.length
  stored : Stored last.memory values (plan.top rsp) plan.saved

/-- The registers to restore get their words back. -/
theorem acts_restore (image : Image) (checked : Bool) (fits : plan.Fits size redZone)
    {values : Phys → UInt64} {rsp₀ : UInt64} {last : View} (standing : Standing plan values rsp₀ last) :
    ∃ view, Acts image checked
        ((if plan.hasFrame && !plan.saved.isEmpty then
          [.binary .lea (.reg rsp) (.mem plan.lastSavedCell)] else []) ++
        plan.saved.reverse.map fun phys => .unary .pop (FramePlan.word phys)) last view ∧
      (∀ phys, phys ≠ .rsp →
        view.get phys = if phys ∈ plan.saved then values phys else last.get phys) ∧
      (plan.saved ≠ [] ∨ plan.leaf = true → view.get .rsp = plan.top rsp₀) ∧
      view.memory = last.memory ∧ view.frames = last.frames := by
  have general : ∀ phys ∈ plan.saved, phys ≠ .rsp :=
    fun phys member => (fits.general phys member).1
  by_cases none : plan.saved = []
  · rw [none]
    refine ⟨last, by simpa using Acts.nil, fun phys _ => by simp, ?_, rfl, rfl⟩
    rintro (some | leaf)
    · exact absurd rfl some
    · rw [standing.level leaf, none]
      simp
  · have pops : ∀ {view : View}, view.memory = last.memory →
        view.get .rsp = plan.top rsp₀ - 8 * UInt64.ofNat plan.saved.length →
        ∃ view', Acts image checked
          (plan.saved.reverse.map fun phys => .unary .pop (FramePlan.word phys)) view view' ∧
          Popped values (plan.top rsp₀) plan.saved view view' := by
      intro view memory level
      exact acts_pops general (memory ▸ standing.stored) level
    cases framed : plan.hasFrame with
    | false =>
        obtain ⟨view, acts, popped⟩ := pops rfl (standing.level (fits.frameless framed).2.1)
        exact ⟨view, acts, popped.registers, fun _ => popped.level, popped.memory, popped.frames⟩
    | true =>
        have lowered : ∀ tick, Does ⟨image, tick⟩ checked _ last _ :=
          fun tick => Does.lea .rsp .rbp plan.lastSavedCell.disp .unsized
        have address : last.get .rbp + Literal.wordOfInt plan.lastSavedCell.disp.toInt =
            plan.top rsp₀ - 8 * UInt64.ofNat plan.saved.length := by
          rw [fits.wordOfInt_lastSavedCell, standing.base framed, FramePlan.top, if_pos framed]
          grind
        rw [address] at lowered
        obtain ⟨view, acts, popped⟩ := @pops (last.set .rsp _) rfl
          ((View.get_set last .rsp .rsp _).trans (if_pos rfl))
        refine ⟨view, ?_, fun phys other => ?_, fun _ => popped.level, popped.memory, popped.frames⟩
        · have some : plan.saved.isEmpty = false := by simpa using none
          rw [some]
          exact (Acts.single lowered).append acts
        · rw [popped.registers phys other, View.get_set, if_neg other]

theorem FramePlan.epilogue_eq (plan : FramePlan) :
    plan.epilogue = plan.epilogue.dropLast ++ [.nullary .ret] := by
  rw [epilogue, List.dropLast_concat]

/-- The epilogue up to the return. -/
theorem acts_unwind (image : Image) (checked : Bool) (fits : plan.Fits size redZone)
    {values : Phys → UInt64} {rsp₀ : UInt64} {last : View} (standing : Standing plan values rsp₀ last) :
    ∃ view, Acts image checked plan.epilogue.dropLast last view ∧
      (∀ phys, phys ≠ .rsp → phys ≠ .rbp →
        view.get phys = if phys ∈ plan.saved then values phys else last.get phys) ∧
      view.get .rbp =
        (if plan.hasFrame then last.memory.load (rsp₀ - 8) 8 else last.get .rbp) ∧
      view.get .rsp = rsp₀ ∧ view.memory = last.memory ∧ view.frames = last.frames := by
  obtain ⟨view, restored, registers, level, memory, frames⟩ :=
    acts_restore image checked fits standing
  have notSaved : Phys.rbp ∉ plan.saved := fun member => (fits.general .rbp member).2 rfl
  have base : view.get .rbp = last.get .rbp := by
    rw [registers .rbp (by decide), if_neg notSaved]
  unfold FramePlan.epilogue
  rw [List.dropLast_concat]
  cases framed : plan.hasFrame with
  | false =>
      have leaf := (fits.frameless framed).2.1
      rw [framed] at restored
      refine ⟨view, by simpa using restored, fun phys notRsp _ => registers phys notRsp, base, ?_,
        memory, frames⟩
      rw [level (.inr leaf), FramePlan.top, framed]
      rfl
  | true =>
      rw [framed] at restored
      have raised : ∃ view', Acts image checked
          (if 0 < plan.room || !plan.leaf then [.binary .mov (.reg rsp) (.reg rbp)] else [])
          view view' ∧ (∀ phys, view'.get phys = if phys = .rsp then rsp₀ - 8 else view.get phys) ∧
          view'.memory = view.memory ∧ view'.frames = view.frames := by
        rw [← standing.base framed, ← base]
        split
        · exact ⟨_, .single fun _ => Does.mov .rsp .rbp, fun phys => View.get_set view .rsp phys _,
            rfl, rfl⟩
        · rename_i stays
          simp only [Bool.or_eq_true, decide_eq_true_eq, Bool.not_eq_true', not_or,
            Bool.not_eq_false] at stays
          refine ⟨view, .nil, fun phys => ?_, rfl, rfl⟩
          split
          · rename_i same
            rw [same, base, standing.base framed, level (.inr stays.2), FramePlan.top,
              if_pos framed, fits.toUInt64_eq_zero stays.1, UInt64.sub_zero]
          · rfl
      obtain ⟨view', mov, registers', memory', frames'⟩ := raised
      refine ⟨view'.popTo .rbp, ?_, fun phys notRsp notRbp => ?_, ?_, ?_, memory'.trans memory,
        frames'.trans frames⟩
      · have pop : Acts image checked [.unary .pop (.reg rbp)] view' (view'.popTo .rbp) :=
          Acts.single fun _ => Does.pop .rbp
        simpa using (restored.append mov).append pop
      · rw [View.popTo, View.get_set, if_neg notRbp, View.get_set, if_neg notRsp, registers',
          if_neg notRsp, registers phys notRsp]
      · rw [View.popTo, View.get_set, if_pos rfl, registers', if_pos rfl, memory', memory]
        rfl
      · rw [View.popTo, View.get_set, if_neg (by decide), View.get_set, if_pos rfl, registers',
          if_pos rfl]
        grind

/-- The addresses of a number of bytes from a lowest one on. -/
def Within (low size address : UInt64) : Prop :=
  (address - low).toNat < size.toNat

/-- What holds between the prologue and the epilogue of a frame of a size. -/
structure Upright (plan : FramePlan) (size : UInt64) (redZone : Int) (entry start : View) :
    Prop where
  aligned : plan.leaf = false → start.get .rsp % 16 = 0
  /-- The registers to restore are on top of the stack. -/
  stored : Stored start.memory entry.get
    (start.get .rsp + 8 * UInt64.ofNat plan.saved.length) plan.saved
  /-- The frame does not overlap them. -/
  apart : ∀ address, Within (start.get .rbp - size) size address →
    ¬ Within (start.get .rsp) (8 * UInt64.ofNat plan.saved.length) address
  /-- The frame is not below the stack pointer, unless a leaf has it in the red zone. -/
  above : ¬ (plan.leaf = true ∧ (size.toNat : Int) ≤ redZone) →
    ∀ address, Within (start.get .rbp - size) size address →
      Within (start.get .rsp) (start.get .rbp - start.get .rsp) address
  /-- The other registers and the calls in progress are those of the caller. -/
  registers : ∀ phys, phys ≠ .rsp → phys ≠ .rbp → start.get phys = entry.get phys
  frames : start.frames = entry.frames

/-- What a body may do: it keeps the frame pointer if the prologue sets it up, and the stack pointer
of a leaf.  Of the stack from the stack pointer to the return address it changes its frame only. -/
structure Respects (plan : FramePlan) (size : UInt64) (entry start last : View) : Prop where
  base : plan.hasFrame = true → last.get .rbp = start.get .rbp
  level : plan.leaf = true → last.get .rsp = start.get .rsp
  memory : ∀ address, Within (start.get .rsp) (entry.get .rsp + 8 - start.get .rsp) address →
    ¬ Within (start.get .rbp - size) size address →
    last.memory.get address = start.memory.get address

/-- The calls in progress where a body ends.  Where calls are checked, the innermost one is that of
the procedure, and the body keeps the registers that the epilogue does not restore. -/
structure Answers (checked : Bool) (plan : FramePlan) (entry last : View) (call : Machine.Frame)
    (outer : List Machine.Frame) : Prop where
  frames : last.frames = call :: outer
  rsp : checked = true → call.rsp = entry.get .rsp
  registers : checked = true → ∀ phys ∈ CallingConvention.calleeSaved,
    call.registers.get phys = entry.get phys ∧
      (phys = .rbp ∨ phys ∈ plan.saved ∨ last.get phys = entry.get phys)

/-- The caller has its registers back, and the return address is gone from the stack. -/
structure Unwound (plan : FramePlan) (entry final : View) : Prop where
  rsp : final.get .rsp = entry.get .rsp + 8
  rbp : final.get .rbp = entry.get .rbp
  saved : ∀ phys ∈ plan.saved, final.get phys = entry.get phys

variable {word : UInt64}

/-- The registers to restore are not in the frame. -/
theorem Raised.apart {entry start : View} (fits : plan.Fits word.toNat redZone)
    (raised : Raised plan entry start) {address : UInt64}
    (saved : Within (start.get .rsp) (8 * UInt64.ofNat plan.saved.length) address) :
    ¬ Within (start.get .rbp - word) word address := by
  intro inside
  have small := fits.room
  have few := fits.few
  obtain framed | ⟨none, _⟩ := fits.framed_or_empty
  · have covers := fits.covers
    have level := raised.level
    have base := raised.base
    rw [FramePlan.top, if_pos framed] at level
    rw [if_pos framed] at base
    rw [Within, base] at inside
    rw [Within, level] at saved
    simp only [UInt64.toNat_sub, UInt64.toNat_mul, UInt64.toNat_ofNat', UInt64.reduceToNat]
      at inside saved
    rcases covers with within | ⟨_, empty, _⟩
    · omega
    · rw [empty] at saved
      simp at saved
  · rw [Within, none] at inside
    omega

theorem Raised.upright {entry start : View} (fits : plan.Fits word.toNat redZone)
    (raised : Raised plan entry start) (aligned : entry.get .rsp % 16 = 8) :
    Upright plan word redZone entry start := by
  have small := fits.room
  have few := fits.few
  have bound := (entry.get .rsp).toNat_lt
  have top : start.get .rsp + 8 * UInt64.ofNat plan.saved.length = plan.top (entry.get .rsp) := by
    rw [raised.level]
    grind
  refine ⟨fun calls => ?_, top ▸ raised.stored, ?_, ?_, raised.registers, raised.frames⟩
  · have framed : plan.hasFrame = true := by
      by_contra none
      have leaf := (fits.frameless (by simpa using none)).2.1
      rw [calls] at leaf
      contradiction
    have whole := fits.aligned calls
    have low : (entry.get .rsp).toNat % 16 = 8 := by
      have same := congrArg UInt64.toNat aligned
      simpa using same
    refine UInt64.toNat_inj.mp ?_
    rw [raised.level, FramePlan.top, if_pos framed]
    simp only [UInt64.toNat_mod, UInt64.toNat_sub, UInt64.toNat_mul, UInt64.toNat_ofNat',
      UInt64.reduceToNat]
    omega
  · exact fun address inside saved => raised.apart fits saved inside
  · intro outside address inside
    obtain framed | ⟨none, _⟩ := fits.framed_or_empty
    · have level := raised.level
      have base := raised.base
      rw [FramePlan.top, if_pos framed] at level
      rw [if_pos framed] at base
      have covers := fits.covers.resolve_right fun ⟨leaf, _, zone⟩ => outside ⟨leaf, zone⟩
      rw [Within, base] at inside
      rw [Within, level, base]
      simp only [UInt64.toNat_sub, UInt64.toNat_mul, UInt64.toNat_ofNat', UInt64.reduceToNat]
        at inside ⊢
      omega
    · rw [Within, none] at inside
      omega

/-- What a body may change leaves the epilogue what it needs. -/
theorem Raised.standing {entry start last : View} (fits : plan.Fits word.toNat redZone)
    (raised : Raised plan entry start) (respects : Respects plan word entry start last) :
    Standing plan entry.get (entry.get .rsp) last ∧
      (plan.hasFrame = true → last.memory.load (entry.get .rsp - 8) 8 = entry.get .rbp) ∧
      last.memory.load (entry.get .rsp) 8 = entry.memory.load (entry.get .rsp) 8 := by
  have small := fits.room
  have few := fits.few
  have least := fits.bounded
  have bound := (entry.get .rsp).toNat_lt
  have level := raised.level
  have base := raised.base
  -- the words above the room: the frame pointer of the caller and the return address
  have outside : ∀ {address : UInt64}, ((address - entry.get .rsp).toNat < 8 ∨
      plan.hasFrame = true ∧ (address - (entry.get .rsp - 8)).toNat < 8) →
      last.memory.get address = start.memory.get address := by
    intro address within
    refine respects.memory address ?_ ?_
    · rw [Within, level, FramePlan.top]
      split
      · simp only [UInt64.toNat_sub, UInt64.toNat_add, UInt64.toNat_mul, UInt64.toNat_ofNat',
          UInt64.reduceToNat] at within ⊢
        omega
      · rename_i frameless
        replace within := within.resolve_right fun framed => frameless framed.1
        simp only [UInt64.toNat_sub, UInt64.toNat_add, UInt64.toNat_mul, UInt64.toNat_ofNat',
          UInt64.reduceToNat] at within ⊢
        omega
    · rw [Within, base]
      obtain framed | ⟨none, _⟩ := fits.framed_or_empty
      · rw [if_pos framed]
        simp only [UInt64.toNat_sub, UInt64.reduceToNat] at within ⊢
        omega
      · omega
  refine ⟨⟨fun framed => ?_, fun leaf => (respects.level leaf).trans level, ?_⟩,
    fun framed => ?_, ?_⟩
  · rw [respects.base framed, base, if_pos framed]
  · refine raised.stored.congr few fun address below => (respects.memory address ?_ ?_).symm
    · rw [FramePlan.top] at below
      rw [Within, level, FramePlan.top]
      split
      · rename_i framed
        rw [if_pos framed] at below
        simp only [UInt64.toNat_sub, UInt64.toNat_add, UInt64.toNat_mul, UInt64.toNat_ofNat',
          UInt64.reduceToNat] at below ⊢
        omega
      · rename_i frameless
        rw [if_neg frameless] at below
        simp only [UInt64.toNat_sub, UInt64.toNat_add, UInt64.toNat_mul, UInt64.toNat_ofNat',
          UInt64.reduceToNat] at below ⊢
        omega
    · refine raised.apart fits ?_
      have count : (8 * UInt64.ofNat plan.saved.length).toNat = 8 * plan.saved.length := by
        simp only [UInt64.toNat_mul, UInt64.toNat_ofNat', UInt64.reduceToNat]
        omega
      rwa [Within, level, count]
  · rw [← raised.link framed]
    exact Memory.load_congr (Nat.le_refl 8) fun address within => outside (.inr ⟨framed, within⟩)
  · refine Memory.load_congr (Nat.le_refl 8) fun address within => ?_
    rw [outside (.inl within), raised.above address (Nat.lt_trans within (by decide))]

/-- At most five registers have to be restored, none of them the stack or the frame pointer. -/
theorem usedSaved_general (pool : Pool) : pool.usedSaved.length ≤ 5 ∧
    ∀ phys ∈ pool.usedSaved, phys ≠ .rsp ∧ phys ≠ .rbp := by
  constructor
  · rw [Pool.usedSaved, List.length_map]
    exact List.length_filter_le _ Pool.savedSlots
  · intro phys member
    obtain ⟨slot, _, rfl⟩ := List.mem_map.mp member
    have apart : ∀ slot : Pool.Slot,
        Pool.slotPhys slot ≠ .rsp ∧ Pool.slotPhys slot ≠ .rbp := by decide
    exact apart slot

/-- What the end of a procedure puts in front of the body and behind it are inverse.  Between them
the stack is aligned for calls, and the frame is apart from the registers to restore.  A body that
keeps the frame pointer, and changes only its frame of what is on the stack, returns to its caller
with the stack pointer and the registers to restore as they were. -/
theorem finishProcedure_inverse {options : Options} {fn : Tree.Function} {frame : Frame}
    {s s' : State} {u : Unit} (run : finishProcedure options fn frame s = .ok u s')
    (least : 0 ≤ frame.stackSize.toInt) (greatest : frame.stackSize.toInt ≤ 2 ^ 31 - 64)
    {plan : FramePlan} (planned : s.plan options fn frame = plan) :
    s'.draft.text =
        ((closedText s.draft.text frame.exit frame.jumps).append plan.epilogue).insert frame.start
          plan.prologue ∧
      ∀ (image : Image) (checked : Bool) (entry : View), entry.get .rsp % 16 = 8 →
        ∃ start, Upright plan frame.stackSize.toUInt64 options.redZone entry start ∧
          (∀ index entries, image.Holds index entries →
            entries.map Entry.instr = plan.prologue →
            Runs image checked index entry (index + entries.length) start) ∧
          ∀ last call outer, Respects plan frame.stackSize.toUInt64 entry start last →
            last.get .rbp = start.get .rbp → Answers checked plan entry last call outer →
            ∃ final, Unwound plan entry final ∧
              ∀ index entries, image.Holds index entries →
                entries.map Entry.instr = plan.epilogue →
                Returns image checked index last (entry.memory.load (entry.get .rsp) 8) final := by
  obtain ⟨few, general⟩ := usedSaved_general s.draft.pool
  have fits : plan.Fits frame.stackSize.toUInt64.toNat options.redZone :=
    planned ▸ fits_ofFrame least greatest few general
  subst planned
  refine ⟨(finishProcedure_ok run).text, fun image checked entry aligned => ?_⟩
  obtain ⟨start, prologue, raised⟩ := acts_prologue image checked fits entry
  refine ⟨start, raised.upright fits aligned, fun index entries holds spelled =>
    Runs.of_straight holds (prologue entries spelled), ?_⟩
  intro last call outer respects kept answers
  obtain ⟨standing, link, address⟩ := raised.standing fits respects
  obtain ⟨view, unwind, registers, rbp, rsp, memory, frames⟩ :=
    acts_unwind image checked fits standing
  have base : view.get .rbp = entry.get .rbp := by
    rw [rbp]
    split
    · exact link ‹_›
    · rename_i frameless
      rw [kept, raised.base, if_neg frameless]
  have restored : checked = true → view.Restored call := by
    intro check
    refine ⟨rsp.trans (answers.rsp check).symm, fun phys member => ?_⟩
    obtain ⟨promised, keeps⟩ := answers.registers check phys member
    rw [promised]
    by_cases frames : phys = .rbp
    · rw [frames, base]
    · have proper : phys ≠ .rsp := by
        rintro rfl
        revert member
        decide
      rw [registers phys proper frames]
      split
      · rfl
      · rename_i other
        exact (keeps.resolve_left frames).resolve_left other
  refine ⟨{ view.set .rsp (view.get .rsp + 8) with frames := outer }, ⟨?_, ?_, ?_⟩, ?_⟩
  · change (view.set .rsp (view.get .rsp + 8)).get .rsp = _
    rw [View.get_set, if_pos rfl, rsp]
  · change (view.set .rsp (view.get .rsp + 8)).get .rbp = _
    rw [View.get_set, if_neg (by decide), base]
  · intro phys member
    obtain ⟨notRsp, notRbp⟩ := fits.general phys member
    change (view.set .rsp (view.get .rsp + 8)).get phys = _
    rw [View.get_set, if_neg notRsp, registers phys notRsp notRbp, if_pos member]
  · intro index entries holds spelled
    rw [FramePlan.epilogue_eq] at spelled
    obtain ⟨front, back, rfl, here, there⟩ := List.map_eq_append_iff.mp spelled
    obtain ⟨ret, rest, rfl, instr, _⟩ := List.map_eq_cons_iff.mp there
    have runs := Runs.of_straight holds.left (unwind front here)
    have returns := runs.returns holds.right.first instr (frames.trans answers.frames) restored
    have same : view.memory.load (view.get .rsp) 8 = entry.memory.load (entry.get .rsp) 8 := by
      rw [memory, rsp, address]
    rw [same] at returns
    exact returns

/-- A view with everything zero but the stack pointer, inside one call. -/
def viewAt (rsp : UInt64) : View :=
  let registers := Registers.zero.set .rsp rsp
  ⟨registers, .empty, .clear, 0, [⟨"leaf", rsp, registers⟩]⟩

/-- Code on its own, without data. -/
def imageOf (entries : List Entry) : Image :=
  ⟨.empty, entries.toArray, ∅, ∅, .empty⟩

/-- A procedure that calls, with a frame of 24 bytes and one register to restore. -/
def callingFrame : Frame :=
  { name := "f", fn := 0, start := 0, leaf := false, stackSize := 24, exit := ".L0", jumps := 0
    leaked := 0 }

/-- The state where the body of a procedure has used the second register of the pool. -/
def afterBody : State :=
  { State.initial with draft := { Draft.empty with pool := Pool.empty.touch ⟨1, by decide⟩ } }

theorem callingFrame_inverse : ∃ (s' : State) (entry start final : View) (index : Nat),
    finishProcedure .default default callingFrame afterBody = .ok () s' ∧
      entry.get .rsp % 16 = 8 ∧ start.get .rsp % 16 = 0 ∧
      let plan := afterBody.plan .default default callingFrame
      let image := imageOf (plan.prologue.map (Entry.mk 0) ++ plan.epilogue.map (Entry.mk 0))
      Runs image true 0 entry index start ∧
        Returns image true index start (entry.memory.load (entry.get .rsp) 8) final ∧
        Unwound plan entry final := by
  have succeeds : Success.succeeds
      (finishProcedure .default default callingFrame afterBody) = true := by
    decide +kernel
  obtain ⟨u, s', run⟩ := Success.exists_of_succeeds succeeds
  obtain ⟨_, inverse⟩ := finishProcedure_inverse run (by decide) (by decide) rfl
  let plan := afterBody.plan .default default callingFrame
  let front := plan.prologue.map (Entry.mk 0)
  let back := plan.epilogue.map (Entry.mk 0)
  have holds : (imageOf (front ++ back)).Holds 0 (front ++ back) := Image.Holds.of_code rfl
  have spelled : ∀ instrs : List Instr, (instrs.map (Entry.mk 0)).map Entry.instr = instrs := by
    intro instrs
    rw [List.map_map]
    exact List.map_id instrs
  let entry := viewAt 0x7FFFEFF8
  obtain ⟨start, upright, prologue, epilogue⟩ :=
    inverse (imageOf (front ++ back)) true entry (by decide)
  have answers : Answers true plan entry start ⟨"leaf", 0x7FFFEFF8, entry.registers⟩ [] := by
    refine ⟨upright.frames, fun _ => rfl, fun _ phys member => ⟨rfl, ?_⟩⟩
    by_cases base : phys = .rbp
    · exact .inl base
    · refine .inr (.inr (upright.registers phys ?_ base))
      rintro rfl
      revert member
      decide
  have respects : Respects plan 24 entry start start :=
    ⟨fun _ => rfl, fun _ => rfl, fun _ _ _ => rfl⟩
  obtain ⟨final, unwound, returns⟩ := epilogue start _ _ respects rfl answers
  exact ⟨s', entry, start, final, 0 + front.length, run, by decide, upright.aligned rfl,
    prologue 0 front holds.left (spelled _), returns _ back holds.right (spelled _), unwound⟩

/-- A leaf without a frame. -/
def bareFrame : Frame :=
  { name := "leaf", fn := 0, start := 0, leaf := true, stackSize := 0, exit := ".L0", jumps := 0
    leaked := 0 }

theorem bareFrame_base_lost : ∃ (s' : State) (entry last final : View) (image : Image),
    finishProcedure .default default bareFrame State.initial = .ok () s' ∧
      let plan := State.initial.plan .default default bareFrame
      plan.prologue = [] ∧ entry.get .rsp % 16 = 8 ∧
        Runs image false 0 entry 1 last ∧ Respects plan 0 entry entry last ∧
        (∃ call outer, Answers false plan entry last call outer) ∧
        (∃ entries, image.Holds 1 entries ∧ entries.map Entry.instr = plan.epilogue) ∧
        Returns image false 1 last (entry.memory.load (entry.get .rsp) 8) final ∧
        final.get .rbp ≠ entry.get .rbp := by
  have succeeds : Success.succeeds
      (finishProcedure .default default bareFrame State.initial) = true := by
    decide +kernel
  obtain ⟨u, s', run⟩ := Success.exists_of_succeeds succeeds
  let entry := viewAt 0x7FFFEFF8
  let last := entry.set .rbp 5
  let mov : Entry := ⟨0, .binary .mov (.reg rbp) (.lit (.ofInt 5))⟩
  let ret : Entry := ⟨0, .nullary .ret⟩
  let image := imageOf [mov, ret]
  have bits : (Literal.ofInt 5).bits = .ok 5 := Literal.bits_ofInt (by decide) (by decide)
  have does : Does ⟨image, mov.tick⟩ false mov.instr entry last := Does.movLit .rbp rfl bits
  have body : Runs image false 0 entry 1 last := Runs.of_does rfl does
  have stays : Runs image false 1 last 1 last := Runs.refl 1 last
  have fetched : image.code[1]? = some ret := rfl
  have returns := stays.returns fetched rfl rfl nofun
  have holds : image.Holds 0 [mov, ret] := Image.Holds.of_code rfl
  refine ⟨s', entry, last, _, image, run, rfl, by decide, body,
    ⟨nofun, fun _ => rfl, fun _ _ _ => rfl⟩, ⟨_, _, rfl, nofun, nofun⟩,
    ⟨[ret], holds.tail, rfl⟩, returns, ?_⟩
  change (last.set .rsp (last.get .rsp + 8)).get .rbp ≠ _
  rw [View.get_set, if_neg (by decide), View.get_set, if_pos rfl]
  decide

end Lower

end X64Backend
