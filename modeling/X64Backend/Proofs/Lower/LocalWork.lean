import X64Backend.Generate
import X64Backend.Proofs.Lower.Leaves

/-!
The larger pieces of work that leave the calls in progress alone: blocks of inline assembly, calls
with evaluated arguments, the beginnings and ends of expansions, and the ends of procedures.
-/

namespace X64Backend.Lower

open X64Backend.Tree Drafting StackDepth

section Blocks

variable {α β : Type}

/-- A part of a block of inline assembly that leaves the calls in progress alone. -/
def LocalPart (action : Replaying α) : Prop :=
  ∀ replay, Local (action replay)

namespace LocalPart

theorem pure (a : α) : LocalPart (Pure.pure a) :=
  fun _ => Leaves.pure _

theorem bind {first : Replaying α} {next : α → Replaying β} (ofFirst : LocalPart first)
    (ofNext : ∀ a, LocalPart (next a)) : LocalPart (first >>= next) :=
  fun replay => (ofFirst replay).bind fun pair => ofNext pair.1 pair.2

theorem lift {action : Gen α} (ofAction : Local action) :
    LocalPart (liftM action : Replaying α) :=
  fun _ => ofAction.bind fun _ => .pure _

theorem get : LocalPart (MonadState.get : Replaying Replay) :=
  fun _ => Leaves.pure _

theorem modify (change : Replay → Replay) : LocalPart (modify change : Replaying PUnit) :=
  fun _ => Leaves.pure _

theorem set (replay : Replay) : LocalPart (MonadStateOf.set replay : Replaying PUnit) :=
  fun _ => Leaves.pure _

theorem map {f : α → β} {action : Replaying α} (ofAction : LocalPart action) :
    LocalPart (f <$> action) := by
  rw [map_eq_pure_bind]
  exact ofAction.bind fun a => pure (f a)

theorem mapM {items : List β} {action : β → Replaying α}
    (each : ∀ item, LocalPart (action item)) : LocalPart (items.mapM action) := by
  induction items with
  | nil => exact pure _
  | cons item rest inductionHypothesis =>
      rw [List.mapM_cons]
      exact (each item).bind fun a => inductionHypothesis.bind fun _ => pure _

theorem foldlM {items : List β} {action : α → β → Replaying α} {a : α}
    (each : ∀ a item, LocalPart (action a item)) : LocalPart (items.foldlM action a) := by
  induction items generalizing a with
  | nil => exact pure a
  | cons item rest inductionHypothesis =>
      rw [List.foldlM_cons]
      exact (each a item).bind fun b => inductionHypothesis

theorem forM {items : List β} {action : β → Gen Unit} (each : ∀ item, Local (action item)) :
    LocalPart (items.forM fun item => (liftM (action item) : Replaying Unit)) := by
  induction items with
  | nil => exact pure ()
  | cons item rest inductionHypothesis =>
      exact (lift (each item)).bind fun _ => inductionHypothesis

end LocalPart

open Replaying

variable {site : BlockSite}

theorem local_lockedSlot (slot : Pool.Slot) (size : Size) : Local (lockedSlot slot size) :=
  (local_drafting (draws_claimSlot _ _)).bind fun _ => (local_lock _).bind fun _ => .pure _

theorem localPart_bindName (name : String) (register : Register) :
    LocalPart (bindName name register) :=
  .modify _

theorem localPart_alloc (declaration : Block.Alloc) : LocalPart (alloc site declaration) := by
  unfold alloc
  split
  · exact .pure ()
  · split
    · exact (LocalPart.lift (local_lockedSlot _ _)).bind fun _ =>
        (localPart_bindName _ _).bind fun _ => .lift (local_log _)
    · exact localPart_bindName _ _

theorem localPart_free (name : String) : LocalPart (Replaying.free site name) := by
  refine LocalPart.get.bind fun replay => ?_
  split
  · exact .pure ()
  · refine (LocalPart.modify _).bind fun _ => ?_
    split
    · exact .lift (local_settle _)
    · exact .lift (local_freeAnyway _)

theorem localPart_namedRegister (name : String) : LocalPart (namedRegister site name) := by
  refine LocalPart.get.bind fun replay => ?_
  split
  · exact .pure _
  · exact (LocalPart.lift (local_nextRegister _)).bind fun _ =>
      (LocalPart.lift (local_lock _)).bind fun _ => (localPart_bindName _ _).bind fun _ => .pure _

theorem localPart_hardwareRegister (phys : Option Phys) (size : Size) :
    LocalPart (hardwareRegister phys size) := by
  unfold hardwareRegister
  split
  · refine LocalPart.get.bind fun replay => ?_
    split
    · exact .pure _
    · exact (LocalPart.lift (local_lockedSlot _ _)).bind fun _ =>
        (LocalPart.modify _).bind fun _ => .pure _
  · exact .pure _

theorem localPart_register (ref : Block.RegRef) : LocalPart (register site ref) := by
  unfold register
  split
  · exact (localPart_namedRegister _).bind fun _ => .pure _
  · exact localPart_hardwareRegister _ _

theorem local_variableNamed (ref : Block.VarRef) : Local (variableNamed site ref) := by
  unfold variableNamed
  split
  · exact (local_variableOperand _ _).bind fun _ => .pure _
  · exact (local_report _).bind fun _ => .pure _

theorem localPart_materialize (value : Operand) (v : Option Variable) (written : Bool) :
    LocalPart (materialize value v written) := by
  refine (LocalPart.lift (local_nextRegister _)).bind fun _ =>
    (LocalPart.lift (local_move _ _ _ _)).bind fun _ => (LocalPart.modify _).bind fun _ => ?_
  split
  · exact (LocalPart.modify _).bind fun _ => .pure _
  · exact .pure _

theorem localPart_baseRegister (ref : Block.BaseRef) : LocalPart (baseRegister site ref) := by
  cases ref with
  | reg ref => exact localPart_register ref
  | var ref =>
      refine (LocalPart.lift (local_variableNamed ref)).bind fun pair =>
        (LocalPart.lift (local_base _)).bind fun found =>
          (LocalPart.lift (local_temp _)).bind fun mine => ?_
      split
      · exact (LocalPart.modify _).bind fun _ => .pure _
      · exact .pure _

theorem localPart_term (position : Block.Position) (operand : Block.Term) :
    LocalPart (term site position operand) := by
  cases operand with
  | reg ref => exact (localPart_register ref).map
  | lit pos value => exact .pure _
  | mem pos size ref disp => exact (localPart_baseRegister ref).bind fun _ => .pure _
  | var ref =>
      refine (LocalPart.lift (local_variableNamed ref)).bind fun pair => ?_
      dsimp only
      split
      · exact .pure _
      · exact localPart_materialize _ _ _

theorem localPart_splitCells (operands : List Operand) : LocalPart (splitCells operands) := by
  unfold splitCells
  split
  · exact (LocalPart.lift (local_nextRegister _)).bind fun _ =>
      (LocalPart.lift (local_emit _)).bind fun _ => (LocalPart.modify _).bind fun _ => .pure _
  · exact .pure _

theorem local_instrOf (instruction : Block.Instruction) (operands : List Operand) :
    Local (instrOf instruction operands) := by
  unfold instrOf
  split
  · exact .pure _
  · exact .pure _
  · exact .pure _
  · exact .throw nofun

theorem localPart_settleInstr : LocalPart settleInstr :=
  LocalPart.get.bind fun _ => (LocalPart.forM fun _ => local_move _ _ _ _).bind fun _ =>
    (LocalPart.forM fun _ => local_freeAnyway _).bind fun _ => .set _

theorem localPart_instr (instruction : Block.Instruction) : LocalPart (instr site instruction) :=
  (LocalPart.mapM fun _ => localPart_term _ _).bind fun _ => (localPart_splitCells _).bind fun _ =>
    (LocalPart.lift (local_instrOf _ _)).bind fun _ => (LocalPart.lift (local_emit _)).bind fun _ =>
      localPart_settleInstr.bind fun _ => .pure _

theorem localPart_statement (value : Operand) (part : Block.Statement) :
    LocalPart (Replaying.statement site value part) := by
  cases part with
  | alloc declaration => exact (localPart_alloc _).bind fun _ => .pure _
  | free pos name phys => exact (localPart_free _).bind fun _ => .pure _
  | instr instruction => exact (localPart_instr _).bind fun _ => .pure _
  | value pos operand => exact localPart_term _ _

theorem local_copyValue (value : Operand) (type : TypeRef) : Local (copyValue value type) := by
  unfold copyValue
  split
  · exact .pure _
  · exact (local_nextRegister _).bind fun _ => (local_move _ _ _ _).bind fun _ => .pure _

theorem local_ownValue (undeclared : List (Phys × Register)) (value : Operand) (type : TypeRef) :
    Local (ownValue undeclared value type) := by
  unfold ownValue
  split
  · exact .pure _
  · exact .pure _
  · exact local_copyValue _ _
  · refine (local_temp _).bind fun mine => ?_
    split
    · exact .pure _
    · exact local_copyValue _ _

theorem localPart_finish (value : Operand) : LocalPart (finish site value) := by
  refine LocalPart.get.bind fun replay => (LocalPart.lift (local_ownValue _ _ _)).bind fun owned =>
    (LocalPart.forM fun _ => local_freeAnyway _).bind fun _ =>
      (LocalPart.forM fun _ => local_freeAnyway _).bind fun _ => ?_
  split
  · exact (LocalPart.lift (local_release _)).bind fun _ => .pure _
  · split
    · exact (LocalPart.lift (local_report _)).bind fun _ => .pure _
    · exact .pure _

theorem local_asmBlock (site : BlockSite) : Local (asmBlock site) := by
  have replayed : LocalPart (do
      let value ← site.block.statements.foldlM (Replaying.statement site) .absent
      finish site value) :=
    (LocalPart.foldlM localPart_statement).bind fun value => localPart_finish value
  exact (replayed .start).bind fun _ => .pure _

end Blocks

section Arguments

theorem local_referent (parameter : Variable) (argument : Operand) :
    Local (referent parameter argument) := by
  unfold referent
  split
  · exact .pure _
  · exact .throw nofun

theorem local_stackArgument (parameter : Variable) (argument : Operand) :
    Local (stackArgument parameter argument) := by
  unfold stackArgument
  split
  · exact (local_referent _ _).bind fun _ => (local_nextRegister _).bind fun _ =>
      (local_emit _).bind fun _ => .pure _
  · exact .pure _

theorem local_pushable (type : TypeRef) (value : Operand) : Local (pushable type value) := by
  unfold pushable
  split
  · split
    · exact .pure _
    · exact local_loaded _ _ _
  · exact .pure _
  · split
    · exact .pure _
    · exact local_loaded _ _ _
  · exact .pure _

theorem local_pushArgument (parameter : Variable) (argument : Operand) :
    Local (pushArgument parameter argument) :=
  (local_stackArgument _ _).bind fun _ => (local_pushable _ _).bind fun _ =>
    (local_emit _).bind fun _ => (local_tracking (counts_push _)).bind fun _ => local_release _

theorem local_passInRegister (parameter : Variable) (argument : Operand) (phys : Phys) :
    Local (passInRegister parameter argument phys) := by
  unfold passInRegister
  split
  · exact (local_referent _ _).bind fun _ => local_emit _
  · exact local_move _ _ _ _

theorem local_padStack : Local padStack :=
  (local_emit _).bind fun _ => local_tracking (counts_sub _)

theorem local_reclaim (words : Nat) (wasLeaf : Bool) : Local (reclaim words wasLeaf) := by
  unfold reclaim
  dsimp only
  split
  · exact .pure ()
  · split
    · exact (local_emit _).bind fun _ => local_tracking (counts_add _)
    · exact local_modifyFrame _

theorem local_callResult (size : Size) : Local (callResult size) := by
  unfold callResult
  split
  · exact .pure _
  · exact (local_callAlloc _).bind fun _ => .pure _

theorem local_passArguments (params : List Variable) (arguments : List Operand) :
    Local (passArguments params arguments) := by
  have passed : ∀ padding : Nat, Local (do
      let pairs := params.zip arguments
      let onStack := pairs.drop CallingConvention.argumentRegisters.length
      onStack.reverse.forM fun pair => pushArgument pair.1 pair.2
      (pairs.zip CallingConvention.argumentRegisters).forM fun passed =>
        passInRegister passed.1.1 passed.1.2 passed.2
      arguments.forM release
      return onStack.length + padding) := fun padding =>
    (Leaves.forM fun _ _ => local_pushArgument _ _).bind fun _ =>
      (Leaves.forM fun _ _ => local_passInRegister _ _ _).bind fun _ =>
        (Leaves.forM fun _ _ => local_release _).bind fun _ => .pure _
  unfold passArguments
  dsimp only
  split
  · exact local_padStack.bind fun _ => passed _
  · exact passed _

theorem local_emitCall (fn : Function) (arguments : List Operand) (isVirtual : Bool) :
    Local (emitCall fn arguments isVirtual) :=
  (local_passArguments _ _).bind fun _ => Leaves.get.bind fun _ => local_reserve.bind fun _ =>
    (local_callResult _).bind fun _ => (local_tracking (counts_call _)).bind fun _ =>
      (local_emit _).bind fun _ => (local_modifyFrame _).bind fun _ =>
        (local_reclaim _ _).bind fun _ => .pure _

theorem local_allocateObject (c : Tree.Class) : Local (allocateObject c) := by
  refine local_reserve.bind fun _ => (local_callAlloc _).bind fun object =>
    (local_emit _).bind fun _ => (local_log _).bind fun _ => ?_
  split
  · exact (local_emit _).bind fun _ => .pure _
  · exact .pure _

theorem local_shouldExpand (env : Env) (callee : FnId) : Local (shouldExpand env callee) := by
  unfold shouldExpand
  dsimp only
  split
  · exact .pure _
  · refine Leaves.get.bind fun s => ?_
    split
    · exact (local_log _).bind fun _ => .pure _
    · split
      · exact (local_log _).bind fun _ => .pure _
      · exact .pure _

end Arguments

section Statements

theorem local_leaveLoop (keyword : String) (target : Loop → String) :
    Local (leaveLoop keyword target) := by
  refine Leaves.get.bind fun s => ?_
  split
  · exact local_report _
  · exact local_jumpTo _

theorem local_setResult (result : Operand) : Local (setResult result) :=
  Leaves.bind (local_modifyActivation (fun _ => rfl) fun _ => rfl) fun _ => local_lock _

theorem local_storeResult (result value : Operand) (size : Size) (signed : Bool) :
    Local (storeResult result value size signed) := by
  unfold storeResult
  split
  · refine Leaves.get.bind fun s => ?_
    split
    · exact local_setResult _
    · exact (local_stable _).bind fun _ => (local_setResult _).bind fun _ => local_store _ _ _ _
  · exact local_store _ _ _ _

theorem local_expansionExit (activation : Activation) : Local (expansionExit activation) := by
  unfold expansionExit
  split
  · exact .pure _
  · exact local_newLabel.bind fun _ =>
      Leaves.bind (local_modifyActivation (fun _ => rfl) fun _ => rfl) fun _ => .pure _

end Statements

section Expansions

theorem local_copyArgument (program : TypedProgram) (body : List Stmt) (id : VarId) (v : Variable)
    (argument : Operand) : Local (copyArgument program body id v argument) := by
  have copied : ∀ copy, Local (do
      move copy argument v.type.isSigned .lowFirst
      drafting (Drafting.lock copy)
      return copy) := fun copy =>
    (local_move _ _ _ _).bind fun _ => (local_lock _).bind fun _ => .pure _
  unfold copyArgument
  split
  · exact (local_stackTemp _).bind copied
  · exact (local_stable _).bind copied

theorem local_bindArgument (program : TypedProgram) (fn : Function) (body : List Stmt)
    (bound : Bound) (item : (VarId × Variable) × Operand) :
    Local (bindArgument program fn body bound item) := by
  unfold bindArgument
  dsimp only
  split
  · exact (local_copyArgument _ _ _ _ _).bind fun _ => .pure _
  · exact .pure _

theorem local_openExpansion (env : Env) (callee : FnId) (arguments : List Operand) :
    Local (openExpansion env callee arguments) := by
  refine local_reserveIfBusy.bind fun _ => Leaves.get.bind fun _ => ?_
  refine (local_drafting draws_lockLive).bind fun _ => ?_
  refine (Leaves.foldlM fun bound item _ => local_bindArgument _ _ _ bound item).bind fun _ => ?_
  refine Leaves.bind (Leaves.get.bind fun _ => (local_modifyFrame _).bind fun _ => .pure _)
    fun _ => ?_
  exact Leaves.get.bind fun _ => (local_log _).bind fun _ => .pure _

theorem local_dropJump (label : String) (jumps : Nat) : Local (dropJump label jumps) := by
  refine local_lastInstr.bind fun last => ?_
  split
  · exact (local_modifyText _).bind fun _ => (local_log _).bind fun _ => .pure _
  · exact .pure _

theorem local_closeExpansion (activation : Activation) : Local (closeExpansion activation) := by
  unfold closeExpansion
  split
  · exact .pure ()
  · refine (local_dropJump _ _).bind fun jumps => ?_
    split
    · exact local_defineLabel _
    · exact .pure ()

theorem local_closeOpening (fn : Function) (opening : Opening) (result : Operand) :
    Local (closeOpening fn opening result) := by
  refine (Leaves.forM fun _ _ => local_freeAnyway _).bind fun _ =>
    (Leaves.forM fun _ _ => local_freeAnyway _).bind fun _ =>
      (Leaves.forM fun _ _ => local_unlock _).bind fun _ => ?_
  unfold expansionValue
  split
  · exact .pure _
  · split
    · exact (local_report _).bind fun _ => .pure _
    · exact (local_settle _).bind fun _ => .pure _
    · exact .pure _

end Expansions

section Procedures

theorem local_finishProcedure (options : Options) (fn : Function) (frame : Frame) :
    Local (finishProcedure options fn frame) := by
  have closed : Local (closeBody frame) := by
    refine local_lastInstr.bind fun last => ?_
    have exit : ∀ jumps, Local (if 0 < jumps then defineLabel frame.exit else pure ()) := by
      intro jumps
      split
      · exact local_defineLabel _
      · exact .pure ()
    dsimp only
    split
    · exact (local_modifyText _).bind fun _ => exit _
    · exact exit _
  have checked : Local (checkBalance frame) := by
    refine Leaves.get.bind fun s => ?_
    dsimp only
    split
    · exact .throw nofun
    · exact .pure ()
  exact closed.bind fun _ => checked.bind fun _ => Leaves.get.bind fun _ =>
    (local_log _).bind fun _ => (local_emit _).bind fun _ => local_modifyText _

theorem local_entryPoint (env : Env) : Local (entryPoint env) := by
  refine (local_emit _).bind fun _ => ?_
  split
  · exact local_emit _
  · exact local_report _

end Procedures

end X64Backend.Lower
