import X64Backend.Lower.Expansion
import X64Backend.Proofs.Pool.Placement

/-!
The part of code generation that leaves the register pool alone: instructions, labels, diagnostics
and the bookkeeping of the frame.
-/

namespace X64Backend.Lower

open X64Backend.Tree

/-- Neither the pool nor the histories nor the calls in progress change. -/
structure Quiet (s s' : State) : Prop where
  pool : s'.draft.pool = s.draft.pool
  timeline : s'.draft.timeline = s.draft.timeline
  clock : s.draft.text.clock ≤ s'.draft.text.clock
  activations : s'.activations = s.activations

namespace Quiet

theorem refl (s : State) : Quiet s s :=
  ⟨rfl, rfl, Nat.le_refl _, rfl⟩

theorem trans {s s' s'' : State} (first : Quiet s s') (second : Quiet s' s'') : Quiet s s'' :=
  ⟨second.pool.trans first.pool, second.timeline.trans first.timeline,
    Nat.le_trans first.clock second.clock, second.activations.trans first.activations⟩

theorem tidy {s s' : State} (quiet : Quiet s s') (tidy : s.draft.Tidy) : s'.draft.Tidy := by
  refine ⟨?_, ?_, ?_, ?_⟩
  · rw [quiet.pool, quiet.timeline]
    exact tidy.placed
  · rw [quiet.pool]
    exact tidy.produced
  · rw [quiet.pool, quiet.timeline]
    exact tidy.native
  · rw [quiet.timeline]
    intro handle history issued
    have past := tidy.past issued
    exact ⟨Nat.le_trans past.1 quiet.clock, fun move member =>
      Nat.lt_of_lt_of_le (past.2 move member) quiet.clock⟩

end Quiet

/-- A computation that never touches the pool. -/
def Plain {α : Type} (action : Gen α) : Prop :=
  ∀ s a s', action s = .ok a s' → Quiet s s'

namespace Plain

variable {α β : Type}

@[simp]
theorem pure (a : α) : Plain (Pure.pure a) := by
  intro s b s' run
  obtain ⟨_, rfl⟩ := Success.pure_ok.mp run
  exact .refl s

@[simp]
theorem throw (fault : Fault) : Plain (throw fault : Gen α) := by
  intro s a s' run
  simp at run

@[simp]
theorem get : Plain get := by
  intro s a s' run
  obtain ⟨_, rfl⟩ := Success.get_ok.mp run
  exact .refl s

@[simp]
theorem bind {first : Gen α} {next : α → Gen β} (plain : Plain first)
    (plain' : ∀ a, Plain (next a)) : Plain (first >>= next) := by
  intro s b s' run
  obtain ⟨a, middle, run, run'⟩ := Success.bind_ok.mp run
  exact (plain s a middle run).trans (plain' a middle b s' run')

@[simp]
theorem map {f : α → β} {action : Gen α} (plain : Plain action) : Plain (f <$> action) := by
  intro s b s' run
  obtain ⟨a, run, _⟩ := Success.map_ok.mp run
  exact plain s a s' run

@[simp]
theorem ite {c : Prop} [Decidable c] {first second : Gen α} (plain : Plain first)
    (plain' : Plain second) : Plain (if c then first else second) := by
  split
  · exact plain
  · exact plain'

theorem modify {change : State → State} (quiet : ∀ s, Quiet s (change s)) :
    Plain (modify change) := by
  intro s a s' run
  obtain rfl := Success.modify_ok.mp run
  exact quiet s

end Plain

theorem clock_append (stream : Stream) (instrs : List Instr) :
    stream.clock ≤ (stream.append instrs).clock := by
  induction instrs generalizing stream with
  | nil => exact Nat.le_refl _
  | cons instr rest inductionHypothesis =>
      exact Nat.le_trans (Nat.le_succ _) (inductionHypothesis (stream.emit instr))

@[simp]
theorem plain_log (message : String) : Plain (log message) := by
  intro s a s' run
  cases run
  exact ⟨rfl, rfl, Nat.le_refl _, rfl⟩

@[simp]
theorem plain_tracking (action : Tracking String) : Plain (tracking action) := by
  refine Plain.bind ?_ plain_log
  intro s a s' run
  cases tracked : action s.depth with
  | ok message depth =>
      simp only [tracked] at run
      cases run
      exact ⟨rfl, rfl, Nat.le_refl _, rfl⟩
  | error fault depth =>
      simp only [tracked] at run
      cases run

@[simp]
theorem plain_emit (instrs : List Instr) : Plain (emit instrs) := by
  apply Plain.modify
  intro s
  exact ⟨rfl, rfl, clock_append s.draft.text instrs, rfl⟩

@[simp]
theorem plain_replaceLast (instr : Instr) :
    Plain (modifyText fun text => text.replaceLast instr) := by
  apply Plain.modify
  intro s
  exact ⟨rfl, rfl, Nat.le_refl _, rfl⟩

@[simp]
theorem plain_removeLast : Plain (modifyText Stream.removeLast) := by
  apply Plain.modify
  intro s
  exact ⟨rfl, rfl, Nat.le_refl _, rfl⟩

@[simp]
theorem plain_modifyFrame (change : Frame → Frame) : Plain (modifyFrame change) := by
  apply Plain.modify
  intro s
  exact ⟨rfl, rfl, Nat.le_refl _, rfl⟩

@[simp]
theorem plain_newLabel : Plain newLabel := by
  intro s a s' run
  cases run
  exact ⟨rfl, rfl, Nat.le_refl _, rfl⟩

@[simp]
theorem plain_lastInstr : Plain lastInstr := by
  simp [lastInstr]

@[simp]
theorem plain_defineLabel (name : String) : Plain (defineLabel name) :=
  plain_emit _

@[simp]
theorem plain_jumpTo (label : String) : Plain (jumpTo label) :=
  plain_emit _

@[simp]
theorem plain_report (problem : Problem) : Plain (report problem) := by
  refine (plain_log _).bind fun _ => ?_
  apply Plain.modify
  intro s
  exact ⟨rfl, rfl, Nat.le_refl _, rfl⟩

@[simp]
theorem plain_stackTemp (size : Size) : Plain (stackTemp size) := by
  simp [stackTemp]

@[simp]
theorem plain_temp (operand : Operand) : Plain (temp operand) := by
  simp [temp]

@[simp]
theorem plain_fits (literal : Literal) (size : Size) : Plain (fits literal size) := by
  unfold fits
  cases literal.minSize with
  | error fault => simp
  | ok need => simp

@[simp]
theorem plain_storeHalves (cell : Pointer) (literal : Literal) (order : ChunkOrder) :
    Plain (storeHalves cell literal order) := by
  unfold storeHalves
  cases literal.halves with
  | error fault => simp
  | ok halves => cases order <;> simp

@[simp]
theorem plain_storeLiteral (dst : Operand) (literal : Literal) (order : ChunkOrder) :
    Plain (storeLiteral dst literal order) := by
  unfold storeLiteral
  cases dst <;> simp

@[simp]
theorem plain_widen (dst : Register) (src : Operand) (signed : Bool) :
    Plain (widen dst src signed) :=
  plain_emit _

@[simp]
theorem plain_moveRegister (dst src : Register) (signed : Bool) :
    Plain (moveRegister dst src signed) := by
  simp [moveRegister]

@[simp]
theorem plain_moveCell (dst : Register) (src : Pointer) (signed : Bool) :
    Plain (moveCell dst src signed) := by
  simp [moveCell]

@[simp]
theorem plain_lastSet? (location : Operand) : Plain (lastSet? location) := by
  simp [lastSet?]

@[simp]
theorem plain_test (operand : Operand) : Plain (test operand) := by
  cases operand <;> simp [test]

@[simp]
theorem plain_fold (op : BinaryOp) (left right : Operand) (size : Size) (signed : Bool) :
    Plain (fold op left right size signed) := by
  unfold fold
  split
  · unfold foldLiterals
    split
    · split <;> simp
    · simp
  · simp

@[simp]
theorem plain_literal (value : Literal) : Plain (literal value) := by
  unfold literal
  refine Plain.ite (Plain.pure _) (Plain.get.bind fun s => ?_)
  dsimp only
  split
  · simp
  · refine Plain.bind ?_ fun _ => Plain.pure _
    apply Plain.modify
    intro s
    exact ⟨rfl, rfl, Nat.le_refl _, rfl⟩

@[simp]
theorem plain_referent (parameter : Variable) (argument : Operand) :
    Plain (referent parameter argument) := by
  cases argument <;> simp [referent]

@[simp]
theorem plain_padStack : Plain padStack := by
  simp [padStack]

@[simp]
theorem plain_reclaim (words : Nat) (wasLeaf : Bool) : Plain (reclaim words wasLeaf) := by
  unfold reclaim
  refine Plain.ite (Plain.pure _) (Plain.ite ?_ ?_)
  · simp
  · simp

@[simp]
theorem plain_dropJump (label : String) (jumps : Nat) : Plain (dropJump label jumps) := by
  unfold dropJump
  refine plain_lastInstr.bind fun _ => Plain.ite ?_ ?_
  · simp
  · simp

@[simp]
theorem plain_closeExpansion (activation : Activation) : Plain (closeExpansion activation) := by
  unfold closeExpansion
  cases activation.exit <;> simp

@[simp]
theorem plain_takeLocals (callee : FnId) (fn : Function) : Plain (takeLocals callee fn) := by
  simp [takeLocals]

@[simp]
theorem plain_shouldExpand (env : Env) (callee : FnId) : Plain (shouldExpand env callee) := by
  unfold shouldExpand
  refine Plain.ite (Plain.pure _) (Plain.get.bind fun s => Plain.ite ?_ ?_)
  · simp
  · simp

end X64Backend.Lower
