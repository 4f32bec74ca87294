import X64Backend.Proofs.Lower.Expansions

/-!
Computations that leave the calls in progress alone.  Whatever the generator does on the draft, on
the depth of the stack, for a move or for an operator neither begins nor ends a call, files no text,
and never fails because expansions are nested too deeply.
-/

namespace X64Backend.Lower

open X64Backend.Tree

/-- A computation that leaves a part of the state as it is, also where it fails, and that fails for
other reasons than the depth of expansions. -/
structure Leaves {σ ν α : Type} (part : σ → ν) (action : EStateM Fault σ α) : Prop where
  ok : ∀ {s a s'}, action s = .ok a s' → part s' = part s
  error : ∀ {s fault s'}, action s = .error fault s' →
    part s' = part s ∧ fault ≠ .expansionDepth

namespace Leaves

variable {σ ν α β : Type} {part : σ → ν}

theorem pure (a : α) : Leaves part (Pure.pure a : EStateM Fault σ α) :=
  ⟨fun run => by cases run; rfl, nofun⟩

theorem throw {fault : Fault} (other : fault ≠ .expansionDepth) :
    Leaves part (throw fault : EStateM Fault σ α) :=
  ⟨nofun, fun run => by cases run; exact ⟨rfl, other⟩⟩

theorem get : Leaves part (MonadState.get : EStateM Fault σ σ) :=
  ⟨fun run => by cases run; rfl, nofun⟩

theorem modify {change : σ → σ} (same : ∀ s, part (change s) = part s) :
    Leaves part (modify change : EStateM Fault σ PUnit) :=
  ⟨fun run => by cases run; exact same _, nofun⟩

theorem bind {first : EStateM Fault σ α} {next : α → EStateM Fault σ β}
    (ofFirst : Leaves part first) (ofNext : ∀ a, Leaves part (next a)) :
    Leaves part (first >>= next) := by
  constructor
  · intro s b s' run
    obtain ⟨a, s₁, ran, run⟩ := Success.bind_ok.mp run
    exact ((ofNext a).ok run).trans (ofFirst.ok ran)
  · intro s fault s' run
    cases ran : first s with
    | error fault' s₁ =>
        rw [Success.bind_of_error ran] at run
        cases run
        exact ofFirst.error ran
    | ok a s₁ =>
        rw [Success.bind_of_ok ran] at run
        obtain ⟨same, other⟩ := (ofNext a).error run
        exact ⟨same.trans (ofFirst.ok ran), other⟩

theorem map {f : α → β} {action : EStateM Fault σ α} (leaves : Leaves part action) :
    Leaves part (f <$> action) := by
  rw [map_eq_pure_bind]
  exact leaves.bind fun a => pure (f a)

theorem forM {items : List α} {action : α → EStateM Fault σ Unit}
    (each : ∀ item ∈ items, Leaves part (action item)) : Leaves part (items.forM action) := by
  induction items with
  | nil => exact pure ()
  | cons item rest inductionHypothesis =>
      refine (each item (by simp)).bind fun _ => ?_
      exact inductionHypothesis fun other member => each other (by simp [member])

theorem foldlM {items : List β} {action : α → β → EStateM Fault σ α} {a : α}
    (each : ∀ a, ∀ item ∈ items, Leaves part (action a item)) :
    Leaves part (items.foldlM action a) := by
  induction items generalizing a with
  | nil => exact pure a
  | cons item rest inductionHypothesis =>
      rw [List.foldlM_cons]
      refine (each a item (by simp)).bind fun b => ?_
      exact inductionHypothesis fun a other member => each a other (by simp [member])

end Leaves

end X64Backend.Lower

namespace X64Backend.Drafting

open Lower

variable {ν : Type} {part : Draft → ν}

/-- A computation on the draft that fails for other reasons than the depth of expansions. -/
abbrev Draws {α : Type} (action : Drafting α) : Prop := Leaves (fun _ => ()) action

theorem draws_modify (change : Draft → Draft) : Draws (modify change : Drafting PUnit) :=
  .modify fun _ => rfl

theorem draws_log (message : String) : Draws (log message) :=
  draws_modify _

theorem draws_take (slot : Pool.Slot) (claim : Pool.Claim) (size : Size) :
    Draws (take slot claim size) :=
  ⟨fun _ => rfl, fun run => by rw [take_eq] at run; cases run⟩

theorem draws_set (draft : Draft) : Draws (set draft : Drafting PUnit) :=
  ⟨fun _ => rfl, nofun⟩

theorem draws_nextRegister (size : Size) : Draws (nextRegister size) := by
  refine Leaves.get.bind fun draft => ?_
  dsimp only
  split
  · exact draws_take _ _ _
  · split
    · exact draws_take _ _ _
    · exact (draws_log _).bind fun _ => .throw nofun

theorem draws_evacuate (slot : Pool.Slot) (occupant : Pool.Occupant) :
    Draws (evacuate slot occupant) := by
  refine Leaves.get.bind fun draft => ?_
  dsimp only
  split
  · exact (draws_log _).bind fun _ => .throw nofun
  · exact (draws_set _).bind fun _ => (draws_modify _).bind fun _ => draws_log _

theorem draws_reserve : Draws reserve := by
  refine Leaves.get.bind fun draft => ?_
  split
  · exact .pure ()
  · dsimp only
    split
    · exact Leaves.get.bind fun _ => (draws_set _).bind fun _ => draws_log _
    · exact draws_evacuate _ _

theorem draws_callAlloc (size : Size) : Draws (callAlloc size) := by
  refine Leaves.get.bind fun draft => ?_
  split
  · exact .throw nofun
  · exact draws_take _ _ _

theorem draws_claimSlot (slot : Pool.Slot) (size : Size) : Draws (claimSlot slot size) := by
  refine Leaves.bind (Leaves.get.bind fun draft => ?_) fun _ => draws_take _ _ _
  split
  · exact .pure ()
  · split
    · exact draws_reserve
    · exact draws_evacuate _ _

theorem draws_free (operand : Operand) (force : Bool) : Draws (free operand force) := by
  refine Leaves.get.bind fun draft => ?_
  split
  · exact .pure _
  · split
    · exact .pure _
    · exact (draws_set _).bind fun _ => .pure _

theorem draws_lockLive : Draws lockLive :=
  Leaves.get.bind fun _ => (draws_modify _).bind fun _ => .pure _

theorem draws_lock (operand : Operand) : Draws (lock operand) :=
  draws_modify _

theorem draws_unlock (operand : Operand) : Draws (unlock operand) :=
  draws_modify _

theorem draws_settle (register : Register) : Draws (settle register) :=
  draws_modify _

end X64Backend.Drafting

namespace X64Backend.StackDepth

open Lower

/-- A computation on the depth of the stack that fails for other reasons than the depth of
expansions. -/
abbrev Counts (action : Tracking String) : Prop := Leaves (fun _ => ()) action

theorem counts_record (operation : String) : Counts (record operation) :=
  ⟨fun _ => rfl, nofun⟩

theorem counts_move (words : Int64) : Leaves (fun _ => ()) (move words) :=
  .modify fun _ => rfl

theorem counts_push (what : String) : Counts (push what) :=
  (counts_move 1).bind fun _ => counts_record _

theorem counts_sub (amount : Int64) : Counts (sub amount) :=
  (counts_move _).bind fun _ => counts_record _

theorem counts_add (amount : Int64) : Counts (add amount) := by
  refine Leaves.get.bind fun depth => ?_
  dsimp only
  split
  · exact Leaves.bind (.throw nofun) fun _ => (counts_move _).bind fun _ => counts_record _
  · exact (counts_move _).bind fun _ => counts_record _

theorem counts_call (target : String) : Counts (call target) := by
  refine Leaves.get.bind fun depth => ?_
  dsimp only
  split
  · exact Leaves.bind (.throw nofun) fun _ => counts_record _
  · exact counts_record _

end X64Backend.StackDepth

namespace X64Backend.Lower

open X64Backend.Tree Drafting StackDepth

/-- The calls in progress, innermost first: the functions, and whether their bodies are being
expanded. -/
def State.calls (s : State) : List (Bool × FnId) :=
  s.activations.map fun activation => (activation.inlining, activation.fn)

/-- What most of the work leaves alone: the calls in progress, and the texts filed so far. -/
def State.standing (s : State) : List (Bool × FnId) × List String :=
  (s.calls, s.texts)

/-- A computation that leaves the calls in progress alone and files no text. -/
abbrev Local {α : Type} (action : Gen α) : Prop := Leaves State.standing action

section Basics

variable {α : Type}

theorem local_drafting {action : Drafting α} (draws : Draws action) : Local (drafting action) := by
  constructor
  · intro s a s' run
    unfold drafting at run
    cases ran : action s.draft with
    | ok b draft => rw [ran] at run; cases run; rfl
    | error fault draft => rw [ran] at run; cases run
  · intro s fault s' run
    unfold drafting at run
    cases ran : action s.draft with
    | ok b draft => rw [ran] at run; cases run
    | error fault draft => rw [ran] at run; cases run; exact ⟨rfl, (draws.error ran).2⟩

/-- A change of the state that touches neither the calls nor the texts. -/
theorem local_modify {change : State → State}
    (same : ∀ s, (change s).standing = s.standing) : Local (modify change) :=
  .modify same

theorem local_log (message : String) : Local (log message) :=
  local_drafting (draws_log message)

theorem local_tracking {action : Tracking String} (counts : Counts action) :
    Local (tracking action) := by
  refine Leaves.bind ⟨?_, ?_⟩ local_log
  · intro s message s' run
    cases ran : action s.depth with
    | ok b depth => simp only [ran] at run; cases run; rfl
    | error fault depth => simp only [ran] at run; cases run
  · intro s fault s' run
    cases ran : action s.depth with
    | ok b depth => simp only [ran] at run; cases run
    | error fault depth => simp only [ran] at run; cases run; exact ⟨rfl, (counts.error ran).2⟩

theorem local_emit (instrs : List Instr) : Local (emit instrs) :=
  local_modify fun _ => rfl

theorem local_modifyText (change : Stream → Stream) : Local (modifyText change) :=
  local_modify fun _ => rfl

theorem local_modifyFrame (change : Frame → Frame) : Local (modifyFrame change) :=
  local_modify fun _ => rfl

theorem local_lastInstr : Local lastInstr :=
  Leaves.get.bind fun _ => .pure _

theorem local_defineLabel (name : String) : Local (defineLabel name) :=
  local_emit _

theorem local_jumpTo (label : String) : Local (jumpTo label) :=
  local_emit _

theorem local_newLabel : Local newLabel :=
  ⟨fun run => by cases run; rfl, nofun⟩

theorem local_report (problem : Problem) : Local (report problem) :=
  (local_log _).bind fun _ => local_modify fun _ => rfl

/-- A change of the innermost call that does not make it another one. -/
theorem local_modifyActivation {change : Activation → Activation}
    (inlining : ∀ activation, (change activation).inlining = activation.inlining)
    (fn : ∀ activation, (change activation).fn = activation.fn) :
    Local (modifyActivation change) := by
  refine local_modify fun s => ?_
  cases found : s.activations with
  | nil => simp [State.standing, State.calls, found]
  | cons innermost outer => simp [State.standing, State.calls, found, inlining, fn]

theorem local_expansion? : Local expansion? := by
  refine Leaves.get.bind fun s => ?_
  split
  · exact .pure _
  · exact .pure _

theorem local_stackTemp (size : Size) : Local (stackTemp size) :=
  (local_modifyFrame _).bind fun _ => Leaves.get.bind fun _ => .pure _

end Basics

section Moves

theorem local_nextRegister (size : Size) : Local (drafting (nextRegister size)) :=
  local_drafting (draws_nextRegister size)

theorem local_reserve : Local (drafting reserve) :=
  local_drafting draws_reserve

theorem local_callAlloc (size : Size) : Local (drafting (callAlloc size)) :=
  local_drafting (draws_callAlloc size)

theorem local_lock (operand : Operand) : Local (drafting (lock operand)) :=
  local_drafting (draws_lock operand)

theorem local_unlock (operand : Operand) : Local (drafting (unlock operand)) :=
  local_drafting (draws_unlock operand)

theorem local_settle (register : Register) : Local (drafting (settle register)) :=
  local_drafting (draws_settle register)

theorem local_endStatement : Local endStatement :=
  local_drafting (draws_modify _)

theorem local_temp (operand : Operand) : Local (temp operand) :=
  Leaves.get.bind fun _ => .pure _

theorem local_release (operand : Operand) : Local (release operand) :=
  (local_drafting (draws_free _ _)).bind fun _ => .pure ()

theorem local_freeAnyway (operand : Operand) : Local (freeAnyway operand) :=
  (local_drafting (draws_free _ _)).bind fun _ => .pure ()

theorem local_fits (literal : Literal) (size : Size) : Local (fits literal size) := by
  unfold fits
  split
  · exact (local_report _).bind fun _ => .pure _
  · split
    · exact (local_report _).bind fun _ => .pure _
    · exact .pure _

theorem local_storeHalves (cell : Pointer) (literal : Literal) (order : ChunkOrder) :
    Local (storeHalves cell literal order) := by
  unfold storeHalves
  split
  · exact local_report _
  · refine (local_log _).bind fun _ => ?_
    split
    · exact local_emit _
    · exact local_emit _

theorem local_storeLiteral (dst : Operand) (literal : Literal) (order : ChunkOrder) :
    Local (storeLiteral dst literal order) := by
  refine (local_fits _ _).bind fun fitting => ?_
  split
  · split
    · split
      · exact local_emit _
      · exact local_storeHalves _ _ _
    · exact local_emit _
  · exact .pure ()

theorem local_moveRegister (dst src : Register) (signed : Bool) :
    Local (moveRegister dst src signed) := by
  unfold moveRegister
  split
  · exact local_emit _
  · exact local_emit _

theorem local_moveCell (dst : Register) (src : Pointer) (signed : Bool) :
    Local (moveCell dst src signed) := by
  unfold moveCell
  split
  · exact local_emit _
  · exact local_emit _

theorem local_viaTemp (dst : Operand) {fill : Register → Gen Unit}
    (ofFill : ∀ register, Local (fill register)) : Local (viaTemp dst fill) :=
  (local_nextRegister _).bind fun register => (ofFill register).bind fun _ =>
    (local_emit _).bind fun _ => local_freeAnyway _

theorem local_move (dst src : Operand) (signed : Bool) (order : ChunkOrder) :
    Local (move dst src signed order) := by
  unfold move
  split
  · exact .throw nofun
  · exact local_storeLiteral _ _ _
  · exact local_moveRegister _ _ _
  · split
    · exact local_emit _
    · exact local_viaTemp _ fun _ => local_emit _
  · exact local_moveCell _ _ _
  · exact local_viaTemp _ fun _ => local_moveCell _ _ _

theorem local_load (operand : Operand) (size : Size) (signed : Bool) :
    Local (load operand size signed) := by
  refine (local_temp operand).bind fun mine => ?_
  split
  · split
    · exact (local_emit _).bind fun _ => .pure _
    · exact .pure _
  · exact (local_nextRegister _).bind fun _ => (local_move _ _ _ _).bind fun _ =>
      (local_release _).bind fun _ => .pure _

theorem local_loaded (operand : Operand) (size : Size) (signed : Bool) :
    Local (do return .reg (← load operand size signed) : Gen Operand) :=
  (local_load operand size signed).bind fun _ => .pure _

theorem local_operandFor (operand : Operand) (size : Size) (signed : Bool) :
    Local (operandFor operand size signed) := by
  unfold operandFor
  split
  · refine (local_fits _ _).bind fun fitting => ?_
    split
    · exact .pure _
    · split
      · exact local_loaded _ _ _
      · exact .pure _
  · exact local_loaded _ _ _
  · split
    · exact .pure _
    · exact local_loaded _ _ _

theorem local_lastSet? (location : Operand) : Local (lastSet? location) :=
  local_lastInstr.bind fun _ => .pure _

theorem local_test (operand : Operand) : Local (test operand) := by
  unfold test
  split
  · exact local_emit _
  · exact local_emit _
  · exact .throw nofun

theorem local_testAndBranch (operand : Operand) (label : String) (wanted : Bool) :
    Local (testAndBranch operand label wanted) := by
  unfold testAndBranch
  split
  · split
    · exact local_jumpTo _
    · exact .pure ()
  · refine (local_lastSet? operand).bind fun found => ?_
    split
    · refine (local_temp operand).bind fun mine => ?_
      dsimp only
      split
      · exact (local_modifyText _).bind fun _ => (local_log _).bind fun _ => local_release _
      · exact (local_emit _).bind fun _ => local_release _
    · exact (local_test _).bind fun _ => (local_release _).bind fun _ => local_emit _

theorem local_fuseStore (dst value : Operand) : Local (fuseStore dst value) := by
  refine (local_temp value).bind fun mine => ?_
  split
  · refine (local_lastSet? value).bind fun found => ?_
    split
    · exact (local_modifyText _).bind fun _ => (local_release _).bind fun _ =>
        (local_log _).bind fun _ => .pure _
    · exact .pure _
  · exact .pure _

theorem local_store (dst value : Operand) (signed : Bool) (order : ChunkOrder) :
    Local (store dst value signed order) := by
  refine (local_fuseStore dst value).bind fun fused => ?_
  split
  · exact (local_move _ _ _ _).bind fun _ => local_release _
  · exact .pure ()

end Moves

section Places

theorem local_variableOperand (program : TypedProgram) (id : VarId) :
    Local (variableOperand program id) := by
  have ofCell : ∀ v offset, Local (variableOperand.cell v offset) := by
    intro v offset
    unfold variableOperand.cell
    split
    · exact (local_nextRegister _).bind fun _ => (local_emit _).bind fun _ => .pure _
    · exact .pure _
  refine Leaves.get.bind fun s => ?_
  dsimp only
  split
  · exact .pure _
  · exact ofCell _ _
  · exact ofCell _ _

theorem local_base (operand : Operand) : Local (base operand) := by
  unfold base
  split
  · exact .pure _
  · exact local_load _ _ _

theorem local_fieldCell (object : Operand) (member : Field) : Local (fieldCell object member) :=
  (local_base object).bind fun _ => .pure _

theorem local_reserveIfBusy : Local reserveIfBusy := by
  refine Leaves.get.bind fun s => ?_
  dsimp only
  split
  · exact local_reserve
  · exact .pure ()

theorem local_stable (size : Size) : Local (stable size) := by
  refine Leaves.get.bind fun s => ?_
  dsimp only
  split
  · exact (local_nextRegister _).bind fun _ => .pure _
  · exact (local_log _).bind fun _ => local_stackTemp _

end Places

section Operators

theorem local_foldLiterals (op : BinaryOp) (left right : Literal) (size : Size) (signed : Bool) :
    Local (foldLiterals op left right size signed) := by
  unfold foldLiterals
  split
  · split
    · exact (local_log _).bind fun _ => .pure _
    · exact .pure _
    · exact (local_report _).bind fun _ => .pure _
    · exact .pure _
  · exact .pure _

theorem local_fold (op : BinaryOp) (left right : Operand) (size : Size) (signed : Bool) :
    Local (fold op left right size signed) := by
  unfold fold
  split
  · exact local_foldLiterals _ _ _ _ _
  · exact .pure _

theorem local_combine (op : BinaryOp) (instr : Op) (left right : Operand) (size : Size)
    (signed : Bool) : Local (combine op instr left right size signed) := by
  refine Leaves.get.bind fun s => ?_
  refine (local_load _ _ _).bind fun dst => (local_operandFor _ _ _).bind fun src => ?_
  split
  · exact (local_load _ _ _).bind fun _ => (local_emit _).bind fun _ => (local_emit _).bind fun _ =>
      (local_release _).bind fun _ => .pure _
  · exact (local_emit _).bind fun _ => (local_release _).bind fun _ => .pure _

theorem local_placeDivisor (divisor : Operand) (signed : Bool) :
    Local (placeDivisor divisor signed) := by
  unfold placeDivisor
  split
  · exact .pure _
  · exact (local_move _ _ _ _).bind fun _ => .pure _

theorem local_divide (left right : Operand) (size : Size) (signed remainder : Bool) :
    Local (divide left right size signed remainder) := by
  unfold divide
  split
  · exact (local_report _).bind fun _ => (local_release _).bind fun _ => .pure _
  · refine local_reserve.bind fun _ => (local_placeDivisor _ _).bind fun _ =>
      (local_move _ _ _ _).bind fun _ => (local_callAlloc _).bind fun result =>
        (local_emit _).bind fun _ => (local_release _).bind fun _ =>
          (local_release _).bind fun _ => ?_
    dsimp only
    split
    · exact (local_emit _).bind fun _ => .pure _
    · exact .pure _

theorem local_shift (op : Op) (left right : Operand) (size : Size) (signed : Bool) :
    Local (shift op left right size signed) := by
  refine (local_load _ _ _).bind fun dst => ?_
  dsimp only
  split
  · split
    · exact (local_emit _).bind fun _ => .pure _
    · exact (local_report _).bind fun _ => .pure _
  · exact (local_move _ _ _ _).bind fun _ => (local_release _).bind fun _ =>
      (local_emit _).bind fun _ => .pure _

theorem local_arith (op : BinaryOp) (left right : Operand) (type : TypeRef) :
    Local (arith op left right type) := by
  refine (local_fold _ _ _ _ _).bind fun folded => ?_
  split
  · exact .pure _
  · split
    · exact local_divide _ _ _ _ _
    · exact local_divide _ _ _ _ _
    · exact local_shift _ _ _ _ _
    · exact local_shift _ _ _ _ _
    · split
      · exact local_combine _ _ _ _ _ _
      · exact .throw nofun

theorem local_comparand (left right : Operand) (size : Size) (signed : Bool) :
    Local (comparand left right size signed) := by
  unfold comparand
  split
  · exact local_loaded _ _ _
  · exact local_operandFor _ _ _

theorem local_compareOperands (cond : Cond) (left right : Operand) (size : Size) (signed : Bool) :
    Local (compareOperands cond left right size signed) := by
  have compared : ∀ (first second : Operand) (cond : Cond), Local (do
      emit [.binary .cmp first second]
      release first
      release second
      let dst ← drafting (Drafting.nextRegister .s8)
      emit [.unary (.set cond) (.reg dst)]
      return .reg dst : Gen Operand) := fun first second cond =>
    (local_emit _).bind fun _ => (local_release _).bind fun _ => (local_release _).bind fun _ =>
      (local_nextRegister _).bind fun _ => (local_emit _).bind fun _ => .pure _
  unfold compareOperands
  generalize (if isLiteral left then (cond.swap, right, left) else (cond, left, right)) = ordered
  dsimp only
  split
  · exact Leaves.bind (.pure _) fun first => (local_comparand _ _ _ _).bind fun second =>
      compared first second _
  · exact (local_load _ _ _).map.bind fun first => (local_comparand _ _ _ _).bind fun second =>
      compared first second _

theorem local_compare (op : BinaryOp) (left right : Operand) (leftType rightType : TypeRef) :
    Local (compare op left right leftType rightType) := by
  refine (local_fold _ _ _ _ _).bind fun folded => ?_
  split
  · exact .pure _
  · exact local_compareOperands _ _ _ _ _

theorem local_negate (operand : Operand) : Local (negate operand) := by
  refine (local_lastSet? operand).bind fun found => (local_temp operand).bind fun mine => ?_
  split
  · exact (local_modifyText _).bind fun _ => .pure _
  · exact (local_test _).bind fun _ => (local_release _).bind fun _ =>
      (local_nextRegister _).bind fun _ => (local_emit _).bind fun _ => .pure _

theorem local_change (op : Op) (operand : Operand) (type : TypeRef) :
    Local (change op operand type) :=
  (local_load _ _ _).bind fun _ => (local_emit _).bind fun _ => .pure _

theorem local_unary (op : UnaryOp) (operand : Operand) (type : TypeRef) :
    Local (unary op operand type) := by
  unfold unary
  split
  · exact .pure _
  · split
    · exact local_change _ _ _
    · exact local_change _ _ _
    · exact local_negate _
    · exact .throw nofun

end Operators

end X64Backend.Lower
