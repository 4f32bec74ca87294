import X64Backend.Proofs.Lower.Frames
import X64Backend.Proofs.Machine.Levels

/-!
Pushes in the body of a procedure.  Where the prologue lowers the stack pointer below the frame, or
below registers to restore, whatever the body pushes is below the frame.  A leaf that saves nothing
and has its frame in the red zone leaves the stack pointer at the frame pointer, and the first word
that it pushes takes the place of the first word of the frame.
-/

namespace X64Backend

open Machine

namespace Lower

variable {plan : FramePlan} {word : UInt64} {redZone : Int} {entry start : View}

/-- The frame is in the red zone of a leaf that saves nothing: the stack pointer is not below it. -/
def FramePlan.Floating (plan : FramePlan) (size : Nat) (redZone : Int) : Prop :=
  plan.leaf = true ∧ plan.saved = [] ∧ (size : Int) ≤ redZone

instance (plan : FramePlan) (size : Nat) (redZone : Int) :
    Decidable (plan.Floating size redZone) :=
  inferInstanceAs (Decidable (_ ∧ _ ∧ _))

/-- The prologue sets up the frame pointer then, and does not lower the stack pointer. -/
theorem FramePlan.Floating.empty {options : Options} {fn : Tree.Function} {frame : Frame} {s : State}
    {size : Nat} (floating : plan.Floating size options.redZone)
    (planned : s.plan options fn frame = plan) (some : 0 < frame.stackSize.toInt)
    (same : frame.stackSize.toInt ≤ size) : plan.hasFrame = true ∧ plan.room = 0 := by
  obtain ⟨leaf, none, within⟩ := floating
  subst planned
  have positive : (0 : Int64) < frame.stackSize := Int64.lt_iff_toInt_lt.mpr some
  have framed : (s.plan options fn frame).hasFrame = true := by
    simp [State.plan, FramePlan.ofFrame, positive]
  have leaf : frame.leaf = true := leaf
  have none : s.draft.pool.usedSaved = [] := none
  refine ⟨framed, (if_pos framed).trans ?_⟩
  simp [FramePlan.roomFor, leaf, none, Int.le_trans same within]

/-- What is to be kept on the stack: the frame, the registers to restore, and what the caller has put
there. -/
def OnStack (size : UInt64) (start : View) (address : UInt64) : Prop :=
  Within (start.get .rbp - size) size address ∨ (address - start.get .rsp).toNat < 2 ^ 62

/-- The frame is at or above the stack pointer, unless it is in the red zone. -/
theorem Raised.above_level (fits : plan.Fits word.toNat redZone) (raised : Raised plan entry start)
    (lowered : ¬ plan.Floating word.toNat redZone) {address : UInt64}
    (kept : OnStack word start address) :
    (address - start.get .rsp).toNat < 2 ^ 62 := by
  refine kept.elim (fun inside => ?_) id
  have small := fits.room
  have few := fits.few
  obtain framed | ⟨none, _⟩ := fits.framed_or_empty
  · have covers := fits.covers.resolve_right lowered
    have level := raised.level
    have base := raised.base
    rw [FramePlan.top, if_pos framed] at level
    rw [if_pos framed] at base
    rw [Within, base] at inside
    rw [level]
    simp only [UInt64.toNat_sub, UInt64.toNat_mul, UInt64.toNat_ofNat', UInt64.reduceToNat]
      at inside ⊢
    omega
  · rw [Within, none] at inside
    omega

/-- A push below a level leaves what is above it alone. -/
theorem get_push_of_above {view : View} {level address pushed : UInt64} {depth : Nat}
    (lower : view.get .rsp = level - 8 * UInt64.ofNat depth) (few : depth < 2 ^ 32)
    (above : (address - level).toNat < 2 ^ 62) :
    (view.push pushed).memory.get address = view.memory.get address := by
  have bound := level.toNat_lt
  rw [View.memory_push]
  refine Memory.get_store_of_le ?_
  rw [lower]
  simp only [UInt64.toNat_sub, UInt64.toNat_mul, UInt64.toNat_ofNat', UInt64.reduceToNat] at above ⊢
  omega

/-- A push in a block of code.  The block begins some words below a level, and has taken none of them
off the stack. -/
inductive PushesBelow (image : Image) (checked : Bool) (level : UInt64) : View → View → Prop where
  | intro {front : List Entry} {begun before after : View} {tick below depth : Nat}
      {operand : Operand} : begun.get .rsp = level - 8 * UInt64.ofNat below →
      Straight image checked front begun before →
      (∀ entry ∈ front, Tame ⟨image, entry.tick⟩ entry.instr) →
      depth? 0 (front.map Entry.instr) = some depth → below + depth < 2 ^ 32 →
      Does ⟨image, tick⟩ checked (.unary .push operand) before after →
      PushesBelow image checked level before after

theorem PushesBelow.spares {image : Image} {checked : Bool} {level address : UInt64}
    {before after : View} (pushes : PushesBelow image checked level before after)
    (above : (address - level).toNat < 2 ^ 62) :
    after.memory.get address = before.memory.get address := by
  cases pushes with
  | @intro _ begun _ _ _ below depth _ lower straight tame counted few does =>
      obtain ⟨word, rfl⟩ := does.pushed
      have reached := (straight.level tame counted (by simp) :
        before.get .rsp = begun.get .rsp - 8 * UInt64.ofNat depth ∧ _).1
      refine get_push_of_above ?_ few above
      rw [reached, lower, UInt64.ofNat_add]
      grind

/-- Behind the prologue that a procedure gets, pushes in the blocks of its body change nothing that
is to be kept on the stack, unless its frame is in the red zone of a leaf that saves nothing. -/
theorem finishProcedure_pushes {options : Options} {fn : Tree.Function} {frame : Frame}
    {s s' : State} {u : Unit} (run : finishProcedure options fn frame s = .ok u s')
    (least : 0 ≤ frame.stackSize.toInt) (greatest : frame.stackSize.toInt ≤ 2 ^ 31 - 64)
    (planned : s.plan options fn frame = plan)
    (lowered : ¬ plan.Floating frame.stackSize.toUInt64.toNat options.redZone) :
    s'.draft.text =
        ((closedText s.draft.text frame.exit frame.jumps).append plan.epilogue).insert frame.start
          plan.prologue ∧
      ∀ (image : Image) (checked : Bool) (entry : View), ∃ start,
        (∀ index entries, image.Holds index entries → entries.map Entry.instr = plan.prologue →
          Runs image checked index entry (index + entries.length) start) ∧
        ∀ before after address, PushesBelow image checked (start.get .rsp) before after →
          OnStack frame.stackSize.toUInt64 start address →
          after.memory.get address = before.memory.get address := by
  obtain ⟨few, general⟩ := usedSaved_general s.draft.pool
  have fits : plan.Fits frame.stackSize.toUInt64.toNat options.redZone :=
    planned ▸ fits_ofFrame least greatest few general
  refine ⟨planned ▸ (finishProcedure_ok run).text, fun image checked entry => ?_⟩
  obtain ⟨start, prologue, raised⟩ := acts_prologue image checked fits entry
  refine ⟨start, fun index entries holds spelled => Runs.of_straight holds (prologue entries spelled),
    fun before after address pushes kept => ?_⟩
  exact pushes.spares (raised.above_level fits lowered kept)

/-- Behind the prologue of a leaf that saves nothing and has its frame in the red zone, the first
push takes the place of the first word of the frame. -/
theorem finishProcedure_overwrites {options : Options} {fn : Tree.Function} {frame : Frame}
    {s : State} (least : 8 ≤ frame.stackSize.toInt)
    (greatest : frame.stackSize.toInt ≤ 2 ^ 31 - 64) (planned : s.plan options fn frame = plan)
    (floating : plan.Floating frame.stackSize.toUInt64.toNat options.redZone) (image : Image)
    (checked : Bool) (entry : View) : ∃ start,
      (∀ index entries, image.Holds index entries → entries.map Entry.instr = plan.prologue →
        Runs image checked index entry (index + entries.length) start) ∧
      (∀ address, Within (start.get .rbp - 8) 8 address →
        Within (start.get .rbp - frame.stackSize.toUInt64) frame.stackSize.toUInt64 address) ∧
      ∀ before after tick operand, before.get .rsp = start.get .rsp →
        Does ⟨image, tick⟩ checked (.unary .push operand) before after →
        ∃ pushed, after = before.push pushed ∧
          after.memory.load (start.get .rbp - 8) 8 = pushed := by
  obtain ⟨few, general⟩ := usedSaved_general s.draft.pool
  have fits : plan.Fits frame.stackSize.toUInt64.toNat options.redZone :=
    planned ▸ fits_ofFrame (by omega) greatest few general
  have size := toInt_eq_toNat (show 0 ≤ frame.stackSize.toInt by omega)
  obtain ⟨start, prologue, raised⟩ := acts_prologue image checked fits entry
  have level : start.get .rsp = start.get .rbp := by
    obtain ⟨framed, empty⟩ := floating.empty planned (by omega) (by omega)
    rw [raised.level, raised.base, FramePlan.top, if_pos framed, if_pos framed, empty,
      floating.2.1]
    exact (UInt64.sub_zero _).trans (UInt64.sub_zero _)
  refine ⟨start, fun index entries holds spelled => Runs.of_straight holds (prologue entries spelled),
    fun address inside => ?_, fun before after tick operand same does => ?_⟩
  · rw [Within] at inside ⊢
    simp only [UInt64.toNat_sub, UInt64.reduceToNat] at inside ⊢
    omega
  · obtain ⟨pushed, rfl⟩ := does.pushed
    refine ⟨pushed, rfl, ?_⟩
    rw [View.memory_push, same, level, Memory.load_store_word]

example : (State.initial.plan .default default { bareFrame with stackSize := 8 }).Floating 8
    Options.default.redZone := by decide

end Lower

end X64Backend
