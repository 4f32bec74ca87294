import X64Backend.Proofs.Lower.Expansions
import X64Backend.Proofs.Lower.Handover

/-!
The order of the arguments of a call.  They are evaluated in turn, and what one of them leaves in the
pool stays there while the others are evaluated.  A variable in the frame leaves nothing in the pool:
its operand is its cell, and the cell is read only when the last argument has been evaluated.
-/

namespace X64Backend.Lower

open Machine X64Backend.Tree

variable {guarded : Handle → Prop} {C : Pool.Slot → Prop} {s s' : State} {env : Env}
  {callee : FnId} {receiver : Expr} {arguments : List Expr} {isVirtual : Bool} {result : Operand}

/-- One of some computations that run in turn: those in front of it end where it begins, and those
behind it begin where it ends. -/
theorem mapM_inTurn {actions : List (Gen Operand)} {operands : List Operand}
    (run : actions.mapM id s = .ok operands s') {index : Nat} {action : Gen Operand}
    (found : actions[index]? = some action) :
    ∃ earlier before operand after later, (actions.take index).mapM id s = .ok earlier before ∧
      action before = .ok operand after ∧
      (actions.drop (index + 1)).mapM id after = .ok later s' ∧
      operands[index]? = some operand := by
  induction index generalizing actions operands s with
  | zero =>
    cases actions with
    | nil => contradiction
    | cons first rest =>
      obtain rfl := Option.some.inj found
      simp only [List.mapM_cons, Success.bind_ok, Success.pure_ok] at run
      obtain ⟨operand, after, ran, later, _, others, rfl, rfl⟩ := run
      exact ⟨[], s, operand, after, later, Success.pure_ok.mpr ⟨rfl, rfl⟩, ran, others, rfl⟩
  | succ index inductionHypothesis =>
    cases actions with
    | nil => contradiction
    | cons first rest =>
      simp only [List.mapM_cons, Success.bind_ok, Success.pure_ok] at run
      obtain ⟨front, s₁, ran, others, _, run, rfl, rfl⟩ := run
      obtain ⟨earlier, before, operand, after, later, leads, here, goes, among⟩ :=
        inductionHypothesis run found
      refine ⟨front :: earlier, before, operand, after, later, ?_, here, goes, among⟩
      rw [List.take_succ_cons, List.mapM_cons]
      simp only [Success.bind_ok, Success.pure_ok]
      exact ⟨front, s₁, ran, earlier, before, leads, rfl, rfl⟩

/-- What a value in the pool comes through.  It stays in the pool, with its lock, and it stays in its
register unless that is the accumulator or one that may be claimed. -/
structure Stays (C : Pool.Slot → Prop) (draft draft' : Draft) (operand : Operand) : Prop where
  carried : ∀ {handle locked}, operand.handle? = some handle → draft.Carries handle locked →
    draft'.Carries handle locked
  still : ∀ {handle slot}, operand.handle? = some handle → slot ≠ Pool.accumulator → ¬ C slot →
    draft.Holds slot handle →
    draft'.Holds slot handle ∧ draft'.timeline.history? handle = draft.timeline.history? handle

/-- An operand that was handed over can be guarded from then on. -/
theorem Ready.guarding {operand : Operand} (ready : Ready guarded s)
    (owned : Owned guarded s operand) :
    Ready (fun handle => guarded handle ∨ operand.handle? = some handle) s := by
  refine ⟨ready.tidy, ?_, ?_⟩
  · rintro handle (guards | behind)
    · exact ready.issued handle guards
    · exact (owned handle behind).1
  · intro activation member other among handle behind
    obtain ⟨guards, held⟩ := ready.settled activation member other among handle behind
    exact ⟨.inl guards, held⟩

/-- The computations of the arguments of a call, the receiver in front. -/
def argumentActions (env : Env) (callee : FnId) (receiver : Expr) (arguments : List Expr) :
    List (Gen Operand) :=
  operandActions (env.program.function callee)
    (if receiver.isAbsent then none else some (lower env receiver).value)
    (lower.lowerAll env arguments)

/-- The arguments of a call may clear the slots that blocks in them name. -/
def Claimed (env : Env) (receiver : Expr) (arguments : List Expr) (slot : Pool.Slot) : Prop :=
  ∃ e ∈ receiver :: arguments, Expr.Claims env.program slot e

theorem yields_argumentActions
    (expanding : env.Expanding guarded (Claimed env receiver arguments)) (draft : Draft) :
    ∀ action ∈ argumentActions env callee receiver arguments,
      Yields guarded (Claimed env receiver arguments) draft action := by
  apply yields_operandActions
  · intro value given
    split at given
    · contradiction
    · cases given
      have sound := sound_lower expanding receiver fun slot claims =>
        ⟨receiver, List.mem_cons_self, claims⟩
      exact sound.value.yields draft
  · intro pair member
    have sound := sound_lowerAll expanding arguments (fun e among slot claims =>
      ⟨e, List.mem_cons_of_mem _ among, claims⟩) pair member
    exact ⟨sound.1.yields draft, sound.2.yields draft⟩

/-- The arguments are evaluated in turn, and the value of each stays where it is while those behind
it are evaluated. -/
theorem argument_stays {operands : List Operand} (ready : Ready guarded s)
    (expanding : ∀ guarded, env.Expanding guarded (Claimed env receiver arguments))
    (run : (argumentActions env callee receiver arguments).mapM id s = .ok operands s')
    {index : Nat} {action : Gen Operand}
    (found : (argumentActions env callee receiver arguments)[index]? = some action) :
    ∃ before operand after, Steady guarded (Claimed env receiver arguments) s before ∧
      action before = .ok operand after ∧ operands[index]? = some operand ∧
      Stays (Claimed env receiver arguments) after.draft s'.draft operand := by
  obtain ⟨earlier, before, operand, after, later, leads, here, goes, among⟩ := mapM_inTurn run found
  have yields := fun guarded => @yields_argumentActions guarded env callee receiver arguments
    (expanding guarded)
  obtain ⟨first, _⟩ := steady_mapM ready
    (fun action member => yields guarded _ action (List.mem_of_mem_take member)) leads
  have ready₁ := first.ready ready
  obtain ⟨second, owned⟩ := yields guarded before.draft action (List.mem_of_getElem? found) before
    operand after ready₁ (.refl ready₁.tidy) here
  -- from here on the operand is one of the guarded values
  obtain ⟨third, _⟩ := steady_mapM ((second.ready ready₁).guarding owned)
    (fun action member => yields _ _ action (List.mem_of_mem_drop member)) goes
  refine ⟨before, operand, after, first, here, among, ?_, ?_⟩
  · intro handle locked behind carries
    exact third.guards.kept (.inr behind) carries
  · intro handle slot behind elsewhere unclaimed holds
    exact third.guards.still (.inr behind) elsewhere unclaimed holds

/-- A variable has its cell in the frame: at an offset of its own, or at one that an expansion has
given to it. -/
structure Framed (program : TypedProgram) (s : State) (id : VarId) (offset : Int64) : Prop where
  direct : (program.var id).byRef = false
  place : (s.activations.findSome? fun activation => activation.binding? id) =
      some (.offset offset) ∨
    (s.activations.findSome? fun activation => activation.binding? id) = none ∧
      (program.var id).offset = offset

/-- The operand of a variable in the frame is its cell.  Nothing is emitted. -/
theorem variableOperand_framed {program : TypedProgram} {id : VarId} {offset : Int64}
    (framed : Framed program s id offset) :
    variableOperand program id s =
      .ok (.mem (frameCell offset (program.var id).type.operandSize)) s := by
  have cell : variableOperand.cell (program.var id) offset s =
      .ok (.mem (frameCell offset (program.var id).type.operandSize)) s := by
    simp [variableOperand.cell, framed.direct]
  unfold variableOperand
  rw [Success.bind_of_ok (Success.get_ok.mpr ⟨rfl, rfl⟩)]
  rcases framed.place with own | ⟨unbound, rfl⟩
  · rw [own]
    exact cell
  · rw [unbound]
    exact cell

theorem Framed.steady {program : TypedProgram} {id : VarId} {offset : Int64}
    (framed : Framed program s id offset) (steady : Steady guarded C s s') :
    Framed program s' id offset := by
  refine ⟨framed.direct, ?_⟩
  rw [steady.activations]
  exact framed.place

/-- A call that is not expanded binds nothing of its own. -/
theorem Framed.pushed_call {program : TypedProgram} {id : VarId} {offset : Int64}
    (framed : Framed program s id offset) (callee : FnId) :
    Framed program { s with activations := .ofCall callee :: s.activations } id offset :=
  ⟨framed.direct, framed.place⟩

/-- A call that is not expanded: its arguments are evaluated, and then it is emitted. -/
theorem call_emitted
    (run : (lower env (.call callee receiver arguments isVirtual)).value s = .ok result s')
    (emitted : isVirtual = true ∨ (env.program.function callee).mods.isInline = false) :
    ∃ operands before after,
      (argumentActions env callee receiver arguments).mapM id
        { s with activations := .ofCall callee :: s.activations } = .ok operands before ∧
      emitCall (env.program.function callee) operands isVirtual before = .ok result after ∧
      { after with activations := after.activations.drop 1 } = s' := by
  have plain (direct : isVirtual = false) : (env.program.function callee).mods.isInline = false :=
    emitted.resolve_left (by simp [direct])
  rw [lower] at run
  rcases invoke_ok run with ⟨s₁, operands, s₂, direct, decided, _⟩ |
    ⟨s₁, operands, s₂, s₃, decided, evaluated, called, final⟩
  · obtain ⟨inline, _⟩ := shouldExpand_ok decided
    rw [plain direct] at inline
    contradiction
  · obtain rfl : s = s₁ := by
      rcases decided with ⟨_, same⟩ | ⟨direct, decided⟩
      · exact same
      · simp only [shouldExpand, plain direct, Bool.not_false, Bool.true_or, if_true] at decided
        exact (Success.pure_ok.mp decided).2
    exact ⟨operands, s₂, s₃, operandsOf_ok evaluated, called, final⟩

/-- The word that a parameter gets from a variable in the frame is the one in its cell. -/
theorem AllMean.framed {image : Image} {place : Handle → Option Phys} {view : View}
    {stack : UInt64 → Prop} {items : List (Variable × Operand)} {words : List UInt64}
    (means : AllMean image place view stack items words) {index : Nat} {parameter : Variable}
    {offset : Int64} {size : Size}
    (found : items[index]? = some (parameter, .mem (frameCell offset size)))
    (byValue : parameter.byRef = false) :
    words[index]? = some (view.memory.load (Spot.address view .rbp offset.toInt32)
      parameter.operandSize.bytes) := by
  obtain ⟨inside, item⟩ := List.getElem?_eq_some_iff.mp found
  have inside' : index < words.length := by
    rw [← List.Forall₂.length_eq means]
    exact inside
  have each := List.Forall₂.get means inside inside'
  rw [List.get_eq_getElem, item, List.get_eq_getElem] at each
  rw [List.getElem?_eq_getElem inside']
  generalize words[index] = word at each
  cases each with
  | address byRef => simp [byValue] at byRef
  | cell _ located =>
    obtain rfl := Option.some.inj located
    rfl

/-- A variable in the frame is read last.  In a call that is not expanded, the parameter of such an
argument gets the word that the cell of the variable holds when all arguments have been evaluated,
whatever it held when the turn of the argument came. -/
theorem call_readsLast {declared : Function} {index : Nat} {v : VarId} {offset : Int64}
    {parameter : Variable} (ready : Ready guarded s)
    (expanding : ∀ guarded, env.Expanding guarded (Claimed env receiver arguments))
    (scalar : ∀ v ∈ declared.args, v.Scalar) (few : declared.args.length ≤ 2 ^ 27)
    (laid : env.program.function callee = declared.layoutFrame)
    (run : (lower env (.call callee receiver arguments isVirtual)).value s = .ok result s')
    (emitted : isVirtual = true ∨ (env.program.function callee).mods.isInline = false)
    (argument : (argumentActions env callee receiver arguments)[index]? =
      some (variableOperand env.program v))
    (framed : Framed env.program s v offset)
    (found : declared.layoutFrame.args[index]? = some parameter)
    (byValue : parameter.byRef = false) :
    ∃ operands before after,
      (argumentActions env callee receiver arguments).mapM id
        { s with activations := .ofCall callee :: s.activations } = .ok operands before ∧
      emitCall declared.layoutFrame operands isVirtual before = .ok result after ∧
      (Callable before.draft declared.layoutFrame.args operands →
        ∃ code rest, after.draft.text.code = before.draft.text.code ++ (code ++ rest) ∧
        ∀ {image : Image} {start : Nat} {view : View} {words : List UInt64} (checked : Bool),
          Hosts image before after start code → view.get .rsp % 16 = 0 →
          AllMean image (startPlace before after) view (CallArea view operands.length)
            (declared.layoutFrame.args.zip operands) words →
          ∀ {target behind : Nat},
            Leads image declared.layoutFrame view (CallArea view operands.length) words target
              isVirtual →
            Enterable image declared.layoutFrame target behind →
            ∃ received, Runs image checked start view behind received ∧
              received.memory.load (cellAddress received parameter) parameter.operandSize.bytes =
                view.memory.load (Spot.address view .rbp offset.toInt32)
                  parameter.operandSize.bytes) := by
  obtain ⟨operands, before, after, evaluated, called, _⟩ := call_emitted run emitted
  rw [laid] at called
  have pushed := ready.pushed_call callee
  obtain ⟨middle, operand, later, first, here, among, _⟩ :=
    argument_stays pushed expanding evaluated argument
  have cell := (framed.pushed_call callee).steady first
  obtain rfl : operand = .mem (frameCell offset (env.program.var v).type.operandSize) := by
    rw [variableOperand_framed cell] at here
    exact (EStateM.Result.ok.inj here).1.symm
  have tidy : before.draft.Tidy := by
    obtain ⟨steady, _⟩ := steady_mapM pushed (yields_argumentActions (expanding guarded) _) evaluated
    exact steady.guards.tidy
  refine ⟨operands, before, after, evaluated, called, ?_⟩
  intro callable
  obtain ⟨code, rest, appended, receives⟩ := emitCall_receives scalar few tidy callable called
  refine ⟨code, rest, appended, ?_⟩
  intro image start view words checked hosts aligned means target behind leads enterable
  obtain ⟨call, entered, comes, _, _, goes⟩ := receives checked hosts aligned means
  obtain ⟨received, runs, cells⟩ := goes leads enterable
  refine ⟨received, comes.trans runs, ?_⟩
  exact cells found (means.framed (List.getElem?_zip_eq_some.mpr ⟨found, among⟩) byValue)

end X64Backend.Lower
