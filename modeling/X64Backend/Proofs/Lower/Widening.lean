import X64Backend.Proofs.Lower.Loads

/-!
Narrow arguments on their way to a callee.  A register for an argument and a word that is pushed
from a cell get the argument extended as the type of the parameter is signed, whatever the type of
the argument.  A register is pushed with whatever its upper bits hold.
-/

namespace X64Backend.Lower

open Machine X64Backend.Tree

variable {s s' : State} {u : Unit} {parameter : Variable} {argument : Operand} {pointer : Pointer}
  {register : Register}

/-- A word is pushed. -/
theorem adds_push {spot : Spot} (tidy : s.draft.Tidy)
    (sits : Sits s.draft.timeline.current argument spot) (lost : Handle → Prop)
    (run : emit [.unary .push argument] s = .ok u s') :
    Adds lost s s' fun view view' => Pushed [spot.read view argument.size] view view' := by
  refine (adds_instr tidy lost run ?_).1
  intro image tick checked view here
  exact ⟨_, Does.pushSpot (sits.finds here), pushed_push _ _⟩

/-- Behind a push the depth of the stack is kept, and the operand is given up. -/
theorem adds_pushed {word : Operand} {spot : Spot} (tidy : s.draft.Tidy)
    (sits : Sits s.draft.timeline.current word spot)
    (run : (do
      emit [.unary .push word]
      tracking (StackDepth.push parameter.name)
      release word) s = .ok u s') :
    Adds (fun _ => True) s s' fun view view' =>
      Pushed [spot.read view word.size] view view' := by
  obtain ⟨_, s₁, emitted, run⟩ := Success.bind_ok.mp run
  obtain ⟨_, s₂, tracked, released⟩ := Success.bind_ok.mp run
  have first := adds_push tidy sits (fun _ => True) emitted
  obtain ⟨_, added⟩ := first.extends
  obtain ⟨second, _⟩ := extends_tracking added.tidy (fun _ => True) tracked
  obtain ⟨third, _⟩ := (first.trans (.silent second)).released released
  refine third.mono (fun _ => id) ?_
  rintro view _ ⟨_, pushed, rfl⟩
  exact pushed

section Arguments

variable (tidy : s.draft.Tidy) (value : parameter.byRef = false)
include tidy value

/-- An argument register gets the argument, extended as the parameter is signed. -/
theorem adds_passInRegister {phys : Phys} (lost : Handle → Prop) (rests : Rests s.draft argument)
    (regular : Regular argument.size) (wide : Regular parameter.operandSize)
    (run : passInRegister parameter argument phys s = .ok u s') :
    Adds lost s s' fun view view' => Spares (· = phys) view view' ∧ ∀ word,
      Shows s.draft.timeline.current view argument word →
      view'.get phys &&& mask parameter.operandSize =
        extend word argument.size parameter.type.isSigned &&& mask parameter.operandSize := by
  obtain ⟨spot, sits, _⟩ := rests.sits tidy regular
  have target : ∀ place, Sits place (.reg (.fix phys parameter.operandSize)) (.register phys) :=
    fun _ => .register rfl wide.low
  unfold passInRegister at run
  rw [value] at run
  obtain ⟨adds, _⟩ := adds_move lost tidy sits (target _) wide regular .lowFirst run
  refine adds.mono (fun _ => id) ?_
  rintro view view' ⟨spares, moves⟩
  refine ⟨spares, fun word shows' => ?_⟩
  rw [← readPart_regular _ wide]
  exact (moves word shows').read (target _)

/-- A narrow cell is pushed as a word, extended as the parameter is signed. -/
theorem adds_pushArgument_cell (rests : Rests s.draft (.mem pointer))
    (regular : Regular pointer.size) (narrow : pointer.size ≠ .s64)
    (run : pushArgument parameter (.mem pointer) s = .ok u s') :
    Adds (fun _ => True) s s' fun view view' => ∃ view₁, Spares (Idle s.draft) view view₁ ∧
      ∃ full, Pushed [full] view₁ view' ∧ ∀ word,
        Shows s.draft.timeline.current view (.mem pointer) word →
        full = extend word pointer.size parameter.type.isSigned := by
  have whole : Regular .s64 := ⟨by decide, by decide⟩
  obtain ⟨spot, sits, _⟩ := rests.sits tidy regular
  unfold pushArgument stackArgument pushable at run
  simp only [value, Bool.false_eq_true, if_false, pure_bind, if_neg narrow, bind_assoc] at run
  obtain ⟨register, s₁, loaded, run⟩ := Success.bind_ok.mp run
  obtain ⟨slot, takes, first⟩ := adds_load tidy (rests.plain tidy) sits whole regular loaded
  obtain ⟨code, added⟩ := first.extends
  have into := takes.sits whole
  have second := adds_pushed added.tidy into run
  refine (first.any.trans second).mono (fun _ => id) ?_
  rintro view view' ⟨view₁, ⟨spares, loads⟩, pushed⟩
  refine ⟨view₁, takes.spares spares, _, pushed, fun word shows' => ?_⟩
  have own : (Operand.reg register).size = .s64 := congrArg Register.size takes.register
  rw [(loads word shows').read into, own, and_mask_word]
  rfl

/-- A register is pushed whole, whatever the width of the argument in it. -/
theorem adds_pushArgument_register (rests : Rests s.draft (.reg register))
    (regular : Regular register.size) (run : pushArgument parameter (.reg register) s = .ok u s') :
    ∃ phys, Sits s.draft.timeline.current (.reg register) (.register phys) ∧
      Adds (fun _ => True) s s' fun view view' => Pushed [view.get phys] view view' := by
  obtain ⟨spot, sits, _⟩ := rests.sits tidy regular
  cases sits with
  | @register _ phys located low =>
  have whole : Sits s.draft.timeline.current (.reg (register.resize .s64)) (.register phys) :=
    .register located (by simp [Register.resize])
  refine ⟨phys, .register located low, ?_⟩
  unfold pushArgument stackArgument pushable at run
  simp only [value, Bool.false_eq_true, if_false, pure_bind] at run
  refine (adds_pushed tidy whole run).mono (fun _ => id) ?_
  intro view view' pushed
  rw [← show (Spot.register phys).read view .s64 = view.get phys from readPart_word _]
  exact pushed

end Arguments

end X64Backend.Lower
