import X64Backend.Proofs.Lower.Operators

/-!
Calls and new objects leave the guarded values alone, whether a call is expanded or emitted.
-/

namespace X64Backend.Lower

open X64Backend.Tree

variable {guarded : Handle → Prop} {C : Pool.Slot → Prop} {s s' : State} {u : Unit}

theorem steady_stackArgument {parameter : Variable} {argument result : Operand}
    (ready : Ready guarded s) (owned : Owned guarded s argument)
    (run : stackArgument parameter argument s = .ok result s') :
    Steady guarded C s s' ∧ Owned guarded s' result := by
  simp only [stackArgument, Success.ite_apply] at run
  split at run
  · simp only [Success.bind_ok, Success.pure_ok] at run
    obtain ⟨cell, s₁, found, register, s₂, allocated, _, s₃, emitted, rfl, rfl⟩ := run
    have first := (plain_referent _ _).steady (C := C) ready found
    obtain ⟨second, fresh⟩ := steady_nextRegister (C := C) (first.ready ready) allocated
    have third := (plain_emit _).steady (C := C) (second.ready (first.ready ready)) emitted
    exact ⟨first.trans (second.trans third), (fresh.steady third).owned⟩
  · obtain ⟨rfl, rfl⟩ := Success.pure_ok.mp run
    exact ⟨.refl ready, owned⟩

theorem steady_pushable {type : TypeRef} {value result : Operand} (ready : Ready guarded s)
    (owned : Owned guarded s value) (run : pushable type value s = .ok result s') :
    Steady guarded C s s' ∧ Owned guarded s' result := by
  have loads : ∀ {signed}, (do return Operand.reg (← load value .s64 signed) : Gen Operand) s =
      .ok result s' → Steady guarded C s s' ∧ Owned guarded s' result := by
    intro signed run
    obtain ⟨register, s₁, loaded, run⟩ := Success.bind_ok.mp run
    obtain ⟨rfl, rfl⟩ := Success.pure_ok.mp run
    obtain ⟨step, fresh⟩ := steady_load (C := C) ready owned loaded
    exact ⟨step, fresh.owned⟩
  cases value with
  | absent =>
      obtain ⟨rfl, rfl⟩ := Success.pure_ok.mp run
      exact ⟨.refl ready, owned⟩
  | reg register =>
      obtain ⟨rfl, rfl⟩ := Success.pure_ok.mp run
      exact ⟨.refl ready, owned.congr (by simp)⟩
  | _ =>
      simp only [pushable, Success.ite_apply] at run
      split at run
      · obtain ⟨rfl, rfl⟩ := Success.pure_ok.mp run
        exact ⟨.refl ready, owned⟩
      · exact loads run

theorem steady_pushArgument {parameter : Variable} {argument : Operand} (ready : Ready guarded s)
    (owned : Owned guarded s argument) (run : pushArgument parameter argument s = .ok u s') :
    Steady guarded C s s' := by
  simp only [pushArgument, Success.bind_ok] at run
  obtain ⟨value, s₁, found, word, s₂, fitted, _, s₃, emitted, _, s₄, tracked, released⟩ := run
  obtain ⟨first, ownedValue⟩ := steady_stackArgument (C := C) ready owned found
  obtain ⟨second, ownedWord⟩ := steady_pushable (C := C) (first.ready ready) ownedValue
    fitted
  have ready₂ := second.ready (first.ready ready)
  have third := (plain_emit _).steady (C := C) ready₂ emitted
  have fourth := third.trans ((plain_tracking _).steady (third.ready ready₂) tracked)
  have fifth := steady_release (C := C) (fourth.ready ready₂) (ownedWord.steady fourth)
    released
  exact first.trans (second.trans (fourth.trans fifth))

theorem steady_passInRegister {parameter : Variable} {argument : Operand} {phys : Phys}
    (ready : Ready guarded s) (run : passInRegister parameter argument phys s = .ok u s') :
    Steady guarded C s s' := by
  simp only [passInRegister, Success.ite_apply] at run
  split at run
  · obtain ⟨cell, s₁, found, emitted⟩ := Success.bind_ok.mp run
    have first := (plain_referent _ _).steady (C := C) ready found
    exact first.trans ((plain_emit _).steady (first.ready ready) emitted)
  · exact steady_move ready run

theorem steady_callResult {size : Size} {result : Operand} (ready : Ready guarded s)
    (run : callResult size s = .ok result s') :
    Steady guarded C s s' ∧ Owned guarded s' result := by
  simp only [callResult, Success.ite_apply] at run
  split at run
  · obtain ⟨rfl, rfl⟩ := Success.pure_ok.mp run
    exact ⟨.refl ready, (Fresh.of_none rfl).owned⟩
  · obtain ⟨register, s₁, allocated, run⟩ := Success.bind_ok.mp run
    obtain ⟨rfl, rfl⟩ := Success.pure_ok.mp run
    obtain ⟨step, fresh⟩ := steady_callAlloc (C := C) ready allocated
    exact ⟨step, fresh.owned⟩

/-- The parts of passing arguments: the stack is padded, the last arguments are pushed, the first ones
are loaded, and all are released. -/
theorem passArguments_parts {params : List Variable} {arguments : List Operand} {words : Nat}
    (run : passArguments params arguments s = .ok words s')
    {items onStack : List (Variable × Operand)} (all : params.zip arguments = items)
    (pushed : items.drop CallingConvention.argumentRegisters.length = onStack) :
    ∃ s₁ s₂ s₃, (if onStack.length % 2 = 1 then padStack else pure ()) s = .ok () s₁ ∧
      onStack.reverse.forM (fun item => pushArgument item.1 item.2) s₁ = .ok () s₂ ∧
      (items.zip CallingConvention.argumentRegisters).forM
        (fun item => passInRegister item.1.1 item.1.2 item.2) s₂ = .ok () s₃ ∧
      arguments.forM release s₃ = .ok () s' ∧ words = onStack.length + onStack.length % 2 := by
  subst pushed all
  unfold passArguments at run
  dsimp only at run
  simp only [Success.ite_apply] at run
  split at run
  · rename_i odd
    simp only [Success.bind_ok, Success.pure_ok] at run
    obtain ⟨_, s₁, padded, _, s₂, pushed, _, s₃, passed, _, s₄, released, rfl, rfl⟩ := run
    exact ⟨s₁, s₂, s₃, (congrFun (if_pos odd) s).trans padded, pushed, passed, released, rfl⟩
  · rename_i even
    simp only [Success.bind_ok, Success.pure_ok] at run
    obtain ⟨_, s₂, pushed, _, s₃, passed, _, s₄, released, rfl, rfl⟩ := run
    exact ⟨s, s₂, s₃, congrFun (if_neg even) s, pushed, passed, released, rfl⟩

theorem steady_passArguments {params : List Variable} {arguments : List Operand} {words : Nat}
    (ready : Ready guarded s) (owned : ∀ argument ∈ arguments, Owned guarded s argument)
    (run : passArguments params arguments s = .ok words s') : Steady guarded C s s' := by
  obtain ⟨s₁, s₂, s₃, padded, pushed, passed, released, _⟩ := passArguments_parts run rfl rfl
  have first : Steady guarded C s s₁ := by
    split at padded
    · exact plain_padStack.steady ready padded
    · obtain ⟨_, rfl⟩ := Success.pure_ok.mp padded
      exact .refl ready
  have second : Steady guarded C s₁ s₂ := by
    refine steady_forM (first.ready ready) ?_ pushed
    rintro ⟨parameter, argument⟩ member s₂ s₃ u steady run
    have among := (List.of_mem_zip (List.mem_of_mem_drop (List.mem_reverse.mp member))).2
    exact steady_pushArgument (steady.ready (first.ready ready))
      ((owned argument among).steady (first.trans steady)) run
  have third : Steady guarded C s s₃ := by
    refine first.trans (second.trans ?_)
    refine steady_forM (second.ready (first.ready ready)) ?_ passed
    rintro ⟨⟨parameter, argument⟩, phys⟩ _ s₂ s₃ u steady run
    exact steady_passInRegister (steady.ready (second.ready (first.ready ready))) run
  refine third.trans (steady_forM (third.ready ready) ?_ released)
  intro argument member s₂ s₃ u steady run
  exact steady_release (steady.ready (third.ready ready))
    ((owned argument member).steady (third.trans steady)) run

theorem steady_emitCall {fn : Function} {arguments : List Operand} {isVirtual : Bool}
    {result : Operand} (ready : Ready guarded s)
    (owned : ∀ argument ∈ arguments, Owned guarded s argument)
    (run : emitCall fn arguments isVirtual s = .ok result s') :
    Steady guarded C s s' ∧ Owned guarded s' result := by
  simp only [emitCall, Success.bind_ok, Success.get_ok, Success.pure_ok] at run
  obtain ⟨words, s₁, passed, _, _, ⟨rfl, rfl⟩, _, s₂, reserved, _, s₃, allocated, _, s₄, tracked,
    _, s₅, emitted, _, s₆, changed, _, s₇, reclaimed, rfl, rfl⟩ := run
  have first := steady_passArguments (C := C) ready owned passed
  have second := first.trans (steady_reserve (first.ready ready) reserved)
  obtain ⟨third, ownedResult⟩ := steady_callResult (C := C) (second.ready ready) allocated
  have ready₃ := third.ready (second.ready ready)
  have fourth := (plain_tracking _).steady (C := C) ready₃ tracked
  have fifth := fourth.trans ((plain_emit _).steady (fourth.ready ready₃) emitted)
  have sixth := fifth.trans ((plain_modifyFrame _).steady (fifth.ready ready₃) changed)
  have seventh := sixth.trans ((plain_reclaim _ _).steady (sixth.ready ready₃) reclaimed)
  exact ⟨second.trans (third.trans seventh), ownedResult.steady seventh⟩

/-- The run of a computation inside an activation. -/
theorem withActivation_ok {α : Type} {activation : Activation} {action : Gen α}
    {result : α × Activation} (run : withActivation activation action s = .ok result s') :
    ∃ s₁, action { s with activations := activation :: s.activations } = .ok result.1 s₁ ∧
      result.2 = s₁.activations.head?.getD activation ∧
      { s₁ with activations := s₁.activations.drop 1 } = s' := by
  simp only [withActivation, Success.bind_ok, Success.modify_ok, Success.get_ok,
    Success.pure_ok] at run
  obtain ⟨_, _, rfl, a, s₁, ran, _, _, ⟨rfl, rfl⟩, _, _, rfl, rfl, rfl⟩ := run
  exact ⟨s₁, ran, rfl, rfl⟩

/-- An activation that relies on nothing. -/
theorem Ready.pushed {activation : Activation} (ready : Ready guarded s)
    (settled : ∀ operand ∈ activation.operands, ∀ handle, operand.handle? = some handle →
      guarded handle ∧ s.draft.Held handle) :
    Ready guarded { s with activations := activation :: s.activations } := by
  refine ⟨ready.tidy, ready.issued, ?_⟩
  intro other member
  rcases List.mem_cons.mp member with rfl | member
  · exact settled
  · exact ready.settled other member

/-- The computations of the operands of a call, one after the other. -/
def operandActions (fn : Function) (receiver : Option (Gen Operand))
    (arguments : List (Gen Operand × Gen Operand)) : List (Gen Operand) :=
  let first :=
    match fn.receiver, receiver with
    | some _, some value => [value]
    | _, _ => []
  first ++ (arguments.zip (fn.args.drop first.length)).map
    fun ((value, address), parameter) => if parameter.byRef then address else value

theorem operandsOf_ok {fn : Function} {receiver : Option (Gen Operand)}
    {arguments : List (Gen Operand × Gen Operand)} {operands : List Operand}
    (run : operandsOf fn receiver arguments s = .ok operands s') :
    (operandActions fn receiver arguments).mapM id s = .ok operands s' := by
  have counted : ∀ {s₁} (given : List Operand), (do
      if given.length + arguments.length ≠ fn.args.length then
        throw (.argumentCount fn.signature fn.args.length (given.length + arguments.length))
      let rest ← (arguments.zip (fn.args.drop given.length)).mapM
        fun ((value, address), parameter) => if parameter.byRef then address else value
      return given ++ rest : Gen (List Operand)) s₁ = .ok operands s' →
      ∃ rest, (((arguments.zip (fn.args.drop given.length)).map
        fun ((value, address), parameter) => if parameter.byRef then address else value).mapM id :
          Gen (List Operand)) s₁ = .ok rest s' ∧ given ++ rest = operands := by
    intro s₁ given run
    simp only [Success.ite_apply] at run
    split at run
    · simp at run
    · simp only [Success.bind_ok, Success.pure_ok] at run
      obtain ⟨rest, s₂, ran, rfl, rfl⟩ := run
      refine ⟨rest, ?_, rfl⟩
      rw [List.mapM_map]
      exact ran
  unfold operandsOf at run
  unfold operandActions
  generalize fn.receiver = self at run ⊢
  cases self with
  | none =>
      obtain ⟨rest, ran, rfl⟩ := counted [] run
      simpa using ran
  | some self =>
      cases receiver with
      | none => simp at run
      | some value =>
          obtain ⟨operand, s₁, ran, run⟩ := Success.bind_ok.mp run
          obtain ⟨rest, ran', rfl⟩ := counted [operand] run
          simp only [List.mapM_append, List.mapM_cons, List.mapM_nil, Success.bind_ok,
            Success.pure_ok]
          exact ⟨_, s₁, ⟨operand, s₁, ran, [], s₁, ⟨rfl, rfl⟩, rfl, rfl⟩, rest, s', ran', rfl, rfl⟩

theorem steady_mapM {actions : List (Gen Operand)} {operands : List Operand}
    (ready : Ready guarded s) (each : ∀ action ∈ actions, Yields guarded C s.draft action)
    (run : actions.mapM id s = .ok operands s') :
    Steady guarded C s s' ∧ ∀ operand ∈ operands, Owned guarded s' operand := by
  induction actions generalizing s operands with
  | nil =>
      obtain ⟨rfl, rfl⟩ := Success.pure_ok.mp run
      exact ⟨.refl ready, by simp⟩
  | cons action rest inductionHypothesis =>
      simp only [List.mapM_cons, Success.bind_ok, Success.pure_ok] at run
      obtain ⟨operand, s₁, ran, others, s₂, run, rfl, rfl⟩ := run
      obtain ⟨first, owned⟩ := each action (by simp) s operand s₁ ready (.refl ready.tidy) ran
      obtain ⟨second, ownedRest⟩ := inductionHypothesis (first.ready ready)
        (fun other member => (each other (by simp [member])).later first.guards) run
      refine ⟨first.trans second, ?_⟩
      intro other member
      rcases List.mem_cons.mp member with rfl | member
      · exact owned.steady second
      · exact ownedRest other member

theorem yields_operandActions {fn : Function} {receiver : Option (Gen Operand)}
    {arguments : List (Gen Operand × Gen Operand)}
    {draft : Draft} (first : ∀ value, receiver = some value → Yields guarded C draft value)
    (others : ∀ pair ∈ arguments,
      Yields guarded C draft pair.1 ∧ Yields guarded C draft pair.2) :
    ∀ action ∈ operandActions fn receiver arguments, Yields guarded C draft action := by
  intro action member
  rcases List.mem_append.mp member with member | member
  · split at member
    · rename_i value
      obtain rfl := List.mem_singleton.mp member
      exact first action rfl
    · simp at member
  · obtain ⟨⟨⟨value, address⟩, parameter⟩, among, rfl⟩ := List.mem_map.mp member
    obtain ⟨ofValue, ofAddress⟩ := others _ (List.of_mem_zip among).1
    dsimp only
    split
    · exact ofAddress
    · exact ofValue

/-- How a call is expanded in place. -/
def Expands (guarded : Handle → Prop) (C : Pool.Slot → Prop)
    (expand : List Operand → Gen Operand) : Prop :=
  ∀ s arguments result s', Ready guarded s → (∀ argument ∈ arguments, Owned guarded s argument) →
    expand arguments s = .ok result s' → Steady guarded C s s' ∧ Owned guarded s' result

/-- A call in progress that is not an expansion relies on nothing. -/
theorem Ready.pushed_call (ready : Ready guarded s) (callee : FnId) :
    Ready guarded { s with activations := .ofCall callee :: s.activations } := by
  refine ready.pushed ?_
  intro operand member handle behind
  obtain rfl : operand = .absent := by simpa [Activation.operands, Activation.ofCall] using member
  contradiction

/-- Only an inline function with a body is expanded. -/
theorem shouldExpand_ok {env : Env} {callee : FnId}
    (run : shouldExpand env callee s = .ok true s') :
    (env.program.function callee).mods.isInline = true ∧
      (env.program.function callee).body.isSome = true := by
  simp only [shouldExpand, Success.ite_apply] at run
  split at run
  · simp at run
  · rename_i expandable
    simpa [Option.isSome_iff_ne_none] using expandable

/-- A call is expanded, or emitted with an activation of its own. -/
theorem invoke_ok {env : Env} {callee : FnId} {arguments : Gen (List Operand)} {isVirtual : Bool}
    {result : Operand} (run : invoke env callee arguments isVirtual s = .ok result s') :
    (∃ s₁ operands s₂, isVirtual = false ∧ shouldExpand env callee s = .ok true s₁ ∧
      arguments s₁ = .ok operands s₂ ∧ env.expand callee operands s₂ = .ok result s') ∨
    ∃ s₁ operands s₂ s₃, (isVirtual = true ∧ s = s₁ ∨
        isVirtual = false ∧ shouldExpand env callee s = .ok false s₁) ∧
      arguments { s₁ with activations := .ofCall callee :: s₁.activations } = .ok operands s₂ ∧
      emitCall (env.program.function callee) operands isVirtual s₂ = .ok result s₃ ∧
      { s₃ with activations := s₃.activations.drop 1 } = s' := by
  have emitted : ∀ {s₁}, (do
      let pair ← withActivation (.ofCall callee) do
        let operands ← arguments
        emitCall (env.program.function callee) operands isVirtual
      return pair.1 : Gen Operand) s₁ = .ok result s' →
      ∃ operands s₂ s₃,
        arguments { s₁ with activations := .ofCall callee :: s₁.activations } = .ok operands s₂ ∧
        emitCall (env.program.function callee) operands isVirtual s₂ = .ok result s₃ ∧
        { s₃ with activations := s₃.activations.drop 1 } = s' := by
    intro s₁ run
    obtain ⟨⟨value, final⟩, s₄, inside, run⟩ := Success.bind_ok.mp run
    obtain ⟨rfl, rfl⟩ := Success.pure_ok.mp run
    obtain ⟨s₃, ran, _, rfl⟩ := withActivation_ok inside
    obtain ⟨operands, s₂, evaluated, called⟩ := Success.bind_ok.mp ran
    exact ⟨operands, s₂, s₃, evaluated, called, rfl⟩
  unfold invoke at run
  cases isVirtual with
  | true =>
      obtain ⟨operands, s₂, s₃, rest⟩ := emitted run
      exact .inr ⟨s, operands, s₂, s₃, .inl ⟨rfl, rfl⟩, rest⟩
  | false =>
      obtain ⟨expanded, s₁, decided, run⟩ := Success.bind_ok.mp run
      cases expanded with
      | true =>
          obtain ⟨operands, s₂, evaluated, expansion⟩ := Success.bind_ok.mp run
          exact .inl ⟨s₁, operands, s₂, rfl, decided, evaluated, expansion⟩
      | false =>
          obtain ⟨operands, s₂, s₃, rest⟩ := emitted run
          exact .inr ⟨s₁, operands, s₂, s₃, .inr ⟨rfl, decided⟩, rest⟩

theorem steady_invoke {env : Env} {callee : FnId} {fn : Function} {receiver : Option (Gen Operand)}
    {arguments : List (Gen Operand × Gen Operand)} {isVirtual : Bool} {result : Operand}
    (ready : Ready guarded s)
    (expands : isVirtual = false → (env.program.function callee).mods.isInline = true →
      (env.program.function callee).body.isSome = true →
      Expands guarded C (env.expand callee))
    (first : ∀ value, receiver = some value → Yields guarded C s.draft value)
    (others : ∀ pair ∈ arguments,
      Yields guarded C s.draft pair.1 ∧ Yields guarded C s.draft pair.2)
    (run : invoke env callee (operandsOf fn receiver arguments) isVirtual s = .ok result s') :
    Steady guarded C s s' ∧ Owned guarded s' result := by
  have evaluates : ∀ {s₁ operands s₂}, Ready guarded s₁ →
      Draft.Guards guarded C s.draft s₁.draft →
      operandsOf fn receiver arguments s₁ = .ok operands s₂ →
      Steady guarded C s₁ s₂ ∧ ∀ operand ∈ operands, Owned guarded s₂ operand := by
    intro s₁ operands s₂ ready guards run
    refine steady_mapM ready ?_ (operandsOf_ok run)
    intro action member
    exact (yields_operandActions first others action member).later guards
  rcases invoke_ok run with ⟨s₁, operands, s₂, direct, decided, evaluated, expansion⟩ |
    ⟨s₁, operands, s₂, s₃, decided, evaluated, called, rfl⟩
  · have one := (plain_shouldExpand env callee).steady (C := C) ready decided
    obtain ⟨two, owned⟩ := evaluates (one.ready ready) one.guards evaluated
    obtain ⟨three, ownedResult⟩ := expands direct (shouldExpand_ok decided).1
      (shouldExpand_ok decided).2 s₂ operands result s'
      (two.ready (one.ready ready)) owned expansion
    exact ⟨one.trans (two.trans three), ownedResult⟩
  · have one : Steady guarded C s s₁ := by
      rcases decided with ⟨_, rfl⟩ | ⟨_, decided⟩
      · exact .refl ready
      · exact (plain_shouldExpand env callee).steady ready decided
    have pushed := (one.ready ready).pushed_call callee
    obtain ⟨two, owned⟩ := evaluates pushed one.guards evaluated
    obtain ⟨three, ownedResult⟩ := steady_emitCall (C := C) (two.ready pushed) owned called
    have inside := two.trans three
    refine ⟨⟨one.guards.trans inside.guards, ?_⟩, ownedResult⟩
    simp [inside.activations, one.activations]

theorem steady_allocateObject {c : Tree.Class} {object : Register} (ready : Ready guarded s)
    (run : allocateObject c s = .ok object s') :
    Steady guarded C s s' ∧ Fresh guarded s' (.reg object) := by
  simp only [allocateObject, Success.bind_ok] at run
  obtain ⟨_, s₁, reserved, register, s₂, allocated, _, s₃, emitted, _, s₄, logged, run⟩ := run
  have first := steady_reserve (C := C) ready reserved
  obtain ⟨second, fresh⟩ := steady_callAlloc (C := C) (first.ready ready) allocated
  have ready₂ := second.ready (first.ready ready)
  have third := (plain_emit _).steady (C := C) ready₂ emitted
  have fourth := third.trans ((plain_log _).steady (third.ready ready₂) logged)
  simp only [Success.ite_apply] at run
  split at run
  · obtain ⟨_, s₅, emitted', run⟩ := Success.bind_ok.mp run
    obtain ⟨rfl, rfl⟩ := Success.pure_ok.mp run
    have fifth := fourth.trans ((plain_emit _).steady (fourth.ready ready₂) emitted')
    exact ⟨first.trans (second.trans fifth), fresh.steady fifth⟩
  · obtain ⟨rfl, rfl⟩ := Success.pure_ok.mp run
    exact ⟨first.trans (second.trans fourth), fresh.steady fourth⟩

/-- The constructor runs on an object that is locked meanwhile. -/
theorem steady_newObject {env : Env} {cls : ClassId} {arguments : List (Gen Operand × Gen Operand)}
    {result : Operand} (ready : Ready guarded s)
    (expands : ∀ ctor, (env.program.cls cls).ctor = some ctor →
      (env.program.function ctor).mods.isInline = true →
      (env.program.function ctor).body.isSome = true →
      Expands guarded C (env.expand ctor))
    (others : ∀ pair ∈ arguments,
      Yields guarded C s.draft pair.1 ∧ Yields guarded C s.draft pair.2)
    (run : newObject env cls arguments s = .ok result s') :
    Steady guarded C s s' ∧ Owned guarded s' result := by
  unfold newObject at run
  obtain ⟨object, s₁, allocated, run⟩ := Success.bind_ok.mp run
  obtain ⟨first, fresh⟩ := steady_allocateObject (C := C) ready allocated
  cases found : (env.program.cls cls).ctor with
  | none =>
      rw [found] at run
      obtain ⟨rfl, rfl⟩ := Success.pure_ok.mp run
      exact ⟨first, fresh.owned⟩
  | some ctor =>
      rw [found] at run
      simp only [Success.bind_ok, Success.pure_ok] at run
      obtain ⟨_, s₂, locked, value, s₃, invoked, _, s₄, released, _, s₅, unlocked, rfl, rfl⟩ := run
      have ready₁ := first.ready ready
      have second := steady_lock (C := C) ready₁ fresh locked
      have receives : Yields guarded C s₂.draft (pure (Operand.reg object)) := by
        intro s operand s' ready guards run
        obtain ⟨rfl, rfl⟩ := Success.pure_ok.mp run
        exact ⟨.refl ready, (fresh.steady second).owned.later guards⟩
      obtain ⟨third, owned⟩ := steady_invoke (C := C) (second.ready ready₁)
        (fun _ => expands ctor found) (by rintro value same; cases same; exact receives)
        (fun pair member =>
          ⟨(others pair member).1.later (first.trans second).guards,
            (others pair member).2.later (first.trans second).guards⟩) invoked
      have ready₃ := third.ready (second.ready ready₁)
      have fourth := third.trans (steady_release ready₃ owned released)
      have fresh₄ := fresh.steady (second.trans fourth)
      have fifth := steady_unlock (C := C) (fourth.ready (second.ready ready₁)) fresh₄
        unlocked
      exact ⟨first.trans (second.trans (fourth.trans fifth)), (fresh₄.steady fifth).owned⟩

end X64Backend.Lower
