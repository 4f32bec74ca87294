import Mathlib.Data.List.Forall2
import X64Backend.Proofs.Lower.LocalWork

/-!
Nested expansions.  No function is expanded inside itself and no more expansions are nested than the
options allow, so the room for them never runs out: with more room generation does the same.
-/

namespace X64Backend.Lower

open X64Backend.Tree

/-- The functions that are being expanded, innermost first. -/
def State.expanding (s : State) : List FnId :=
  (s.activations.filter Activation.inlining).map Activation.fn

theorem State.expanding_eq (s : State) :
    s.expanding = (s.calls.filter Prod.fst).map Prod.snd := by
  simp [State.expanding, State.calls, List.filter_map, Function.comp_def]

theorem State.expanding_congr {s s' : State} (same : s'.calls = s.calls) :
    s'.expanding = s.expanding := by
  rw [expanding_eq, expanding_eq, same]

/-- No function is expanded inside itself, and no more expansions are nested than the options
allow. -/
structure State.Nests (options : Options) (s : State) : Prop where
  distinct : s.expanding.Nodup
  within : s.expanding.length ≤ options.inlineDepth.toNat

/-- The expansions are nested in order, and so many more of them reach the limit. -/
structure State.Room (options : Options) (depth : Nat) (s : State) : Prop extends
    s.Nests options where
  enough : options.inlineDepth.toNat ≤ s.expanding.length + depth

section Congruence

variable {options : Options} {depth : Nat} {s s' : State}

theorem State.Nests.of_expanding (nests : s.Nests options) (same : s'.expanding = s.expanding) :
    s'.Nests options :=
  ⟨same ▸ nests.distinct, same ▸ nests.within⟩

theorem State.Nests.congr (nests : s.Nests options) (same : s'.calls = s.calls) :
    s'.Nests options :=
  nests.of_expanding (expanding_congr same)

theorem State.Room.of_expanding (room : s.Room options depth)
    (same : s'.expanding = s.expanding) : s'.Room options depth :=
  ⟨room.toNests.of_expanding same, same ▸ room.enough⟩

theorem State.Room.congr (room : s.Room options depth) (same : s'.calls = s.calls) :
    s'.Room options depth :=
  room.of_expanding (expanding_congr same)

/-- The body of a function that is not being expanded takes some of the room. -/
theorem State.Room.inside {activation : Activation} (room : s.Room options (depth + 1))
    (inlining : activation.inlining = true) (new : activation.fn ∉ s.expanding)
    (below : s.expanding.length < options.inlineDepth.toNat)
    (same : s'.activations = activation :: s.activations) : s'.Room options depth := by
  have expanding : s'.expanding = activation.fn :: s.expanding := by
    simp [State.expanding, same, inlining]
  refine ⟨⟨?_, ?_⟩, ?_⟩
  · rw [expanding]
    exact List.nodup_cons.mpr ⟨new, room.distinct⟩
  · rw [expanding]
    exact below
  · have enough := room.enough
    rw [expanding, List.length_cons]
    omega

/-- A call that is not expanded takes no room. -/
theorem State.Room.calling (room : s.Room options depth) (callee : FnId) :
    State.Room options depth { s with activations := .ofCall callee :: s.activations } :=
  room.of_expanding rfl

end Congruence

section Activations

variable {α : Type} {activation : Activation} {action : Gen α} {s s₁ : State}

theorem withActivation_of_ok {a : α}
    (ran : action { s with activations := activation :: s.activations } = .ok a s₁) :
    withActivation activation action s =
      .ok (a, s₁.activations.head?.getD activation)
        { s₁ with activations := s₁.activations.drop 1 } := by
  rw [withActivation, Success.bind_of_ok Success.modify_eq, Success.bind_of_ok ran]
  rfl

theorem withActivation_of_error {fault : Fault}
    (ran : action { s with activations := activation :: s.activations } = .error fault s₁) :
    withActivation activation action s = .error fault s₁ := by
  rw [withActivation, Success.bind_of_ok Success.modify_eq, Success.bind_of_error ran]

end Activations

/-- The calls in progress are as before, and texts have at most been added. -/
structure State.Continues (s s' : State) : Prop where
  calls : s'.calls = s.calls
  texts : s.texts <+: s'.texts

namespace State.Continues

variable {s s₁ s' : State}

theorem of_standing (same : s'.standing = s.standing) : s.Continues s' := by
  have texts : s'.texts = s.texts := congrArg Prod.snd same
  exact ⟨congrArg Prod.fst same, texts.symm ▸ List.prefix_rfl⟩

theorem trans (first : s.Continues s₁) (second : s₁.Continues s') : s.Continues s' :=
  ⟨second.calls.trans first.calls, first.texts.trans second.texts⟩

end State.Continues

/-- From a state two computations do the same.  Where they end the calls in progress are as before,
and no text is lost; where they fail the expansions are nested in order, and their depth is not the
reason. -/
structure Same {α : Type} (options : Options) (s : State) (first second : Gen α) : Prop where
  run : first s = second s
  ok : ∀ {a s'}, first s = .ok a s' → s.Continues s'
  error : ∀ {fault s'}, first s = .error fault s' →
    s'.Nests options ∧ fault ≠ .expansionDepth

namespace Same

variable {α β : Type} {options : Options} {s : State}

theorem of_local {action : Gen α} (nests : s.Nests options) (ofAction : Local action) :
    Same options s action action :=
  ⟨rfl, fun run => .of_standing (ofAction.ok run), fun run =>
    ⟨nests.congr (congrArg Prod.fst (ofAction.error run).1), (ofAction.error run).2⟩⟩

theorem bind {first first' : Gen α} {next next' : α → Gen β} (begun : Same options s first first')
    (ended : ∀ a s', first s = .ok a s' → s'.calls = s.calls →
      Same options s' (next a) (next' a)) :
    Same options s (first >>= next) (first' >>= next') := by
  cases ran : first s with
  | error fault s₁ =>
      have failed : (first >>= next) s = .error fault s₁ := Success.bind_of_error ran
      refine ⟨?_, fun run => ?_, fun run => ?_⟩
      · rw [failed, Success.bind_of_error (begun.run ▸ ran)]
      · rw [failed] at run
        cases run
      · rw [failed] at run
        cases run
        exact begun.error ran
  | ok a s₁ =>
      have kept := begun.ok ran
      have later := ended a s₁ ran kept.calls
      have went : (first >>= next) s = next a s₁ := Success.bind_of_ok ran
      refine ⟨?_, fun run => ?_, fun run => ?_⟩
      · rw [went, Success.bind_of_ok (begun.run ▸ ran)]
        exact later.run
      · exact kept.trans (later.ok (went ▸ run))
      · exact later.error (went ▸ run)

/-- A call in progress ends with the computation inside of it. -/
theorem withActivation {activation : Activation} {action action' : Gen α}
    (inside : Same options { s with activations := activation :: s.activations } action action') :
    Same options s (withActivation activation action) (withActivation activation action') := by
  cases ran : action { s with activations := activation :: s.activations } with
  | error fault s₁ =>
      have failed := withActivation_of_error ran
      refine ⟨?_, fun run => ?_, fun run => ?_⟩
      · rw [failed, withActivation_of_error (inside.run ▸ ran)]
      · rw [failed] at run
        cases run
      · rw [failed] at run
        cases run
        exact inside.error ran
  | ok a s₁ =>
      have went := withActivation_of_ok ran
      refine ⟨?_, fun run => ?_, fun run => ?_⟩
      · rw [went, withActivation_of_ok (inside.run ▸ ran)]
      · rw [went] at run
        cases run
        obtain ⟨calls, texts⟩ := inside.ok ran
        refine ⟨?_, texts⟩
        simp only [State.calls, List.map_drop] at calls ⊢
        rw [calls]
        rfl
      · rw [went] at run
        cases run

end Same

/-- Wherever there is so much room, two computations do the same. -/
def Agrees {α : Type} (options : Options) (depth : Nat) (first second : Gen α) : Prop :=
  ∀ s, s.Room options depth → Same options s first second

namespace Agrees

variable {α β : Type} {options : Options} {depth : Nat}

theorem of_local {action : Gen α} (ofAction : Local action) : Agrees options depth action action :=
  fun _ room => .of_local room.toNests ofAction

theorem pure (a : α) : Agrees options depth (Pure.pure a) (Pure.pure a) :=
  of_local (.pure a)

theorem bind {first first' : Gen α} {next next' : α → Gen β}
    (begun : Agrees options depth first first')
    (ended : ∀ a, Agrees options depth (next a) (next' a)) :
    Agrees options depth (first >>= next) (first' >>= next') :=
  fun s room => (begun s room).bind fun a s' _ kept => ended a s' (room.congr kept)

/-- Computations that begin with one that leaves the calls alone. -/
theorem after {action : Gen α} {next next' : α → Gen β} (ofAction : Local action)
    (ended : ∀ a, Agrees options depth (next a) (next' a)) :
    Agrees options depth (action >>= next) (action >>= next') :=
  (of_local ofAction).bind ended

/-- What comes behind a failure does not matter. -/
theorem throw_bind {fault : Fault} {next next' : α → Gen β} (other : fault ≠ .expansionDepth) :
    Agrees options depth ((throw fault : Gen α) >>= next) ((throw fault : Gen α) >>= next') :=
  fun _ room => (Same.of_local room.toNests (.throw other)).bind fun _ _ impossible => by
    cases impossible

theorem ite {c : Prop} [Decidable c] {first first' second second' : Gen α}
    (ofFirst : Agrees options depth first first')
    (ofSecond : Agrees options depth second second') :
    Agrees options depth (if c then first else second) (if c then first' else second') := by
  split
  · exact ofFirst
  · exact ofSecond

theorem mapM {ρ : Type} {items items' : List ρ} {action action' : ρ → Gen α}
    (each : List.Forall₂ (fun one other => Agrees options depth (action one) (action' other))
      items items') :
    Agrees options depth (items.mapM action) (items'.mapM action') := by
  induction each with
  | nil => exact pure []
  | cons one _ inductionHypothesis =>
      rw [List.mapM_cons, List.mapM_cons]
      exact one.bind fun _ => inductionHypothesis.bind fun _ => pure _

end Agrees

/-- Two ways to expand a call that do the same below the limit, as long as the function is not being
expanded. -/
def ExpandsAlike (options : Options) (depth : Nat)
    (expand expand' : FnId → List Operand → Gen Operand) : Prop :=
  ∀ callee arguments s, s.Room options depth → callee ∉ s.expanding →
    s.expanding.length < options.inlineDepth.toNat →
    Same options s (expand callee arguments) (expand' callee arguments)

/-- A call is expanded only if its function is not being expanded and there is room. -/
theorem shouldExpand_room {env : Env} {callee : FnId} {s s' : State}
    (decided : shouldExpand env callee s = .ok true s') :
    callee ∉ s'.expanding ∧ s'.expanding.length < env.options.inlineDepth.toNat := by
  unfold shouldExpand at decided
  simp only [Success.ite_apply] at decided
  split at decided
  · simp at decided
  · obtain ⟨_, _, got, decided⟩ := Success.bind_ok.mp decided
    obtain ⟨rfl, rfl⟩ := Success.get_ok.mp got
    simp only [Success.ite_apply] at decided
    split at decided
    · simp at decided
    · split at decided
      · simp at decided
      · rename_i other below
        obtain ⟨_, rfl⟩ := Success.pure_ok.mp decided
        constructor
        · intro member
          obtain ⟨activation, among, same⟩ := List.mem_map.mp member
          exact other (List.any_eq_true.mpr ⟨activation, among, decide_eq_true same⟩)
        · rw [State.expanding, List.length_map]
          omega

/-- Two computations that agree with two others: of a value, and of an address. -/
def AgreesBoth (options : Options) (depth : Nat) (one other : Gen Operand × Gen Operand) : Prop :=
  Agrees options depth one.1 other.1 ∧ Agrees options depth one.2 other.2

section Calls

variable {program : TypedProgram} {options : Options} {depth : Nat}
  {expand expand' : FnId → List Operand → Gen Operand}

theorem agrees_invoke (expands : ExpandsAlike options depth expand expand') {callee : FnId}
    {arguments arguments' : Gen (List Operand)} {isVirtual : Bool}
    (computed : Agrees options depth arguments arguments') :
    Agrees options depth (invoke ⟨program, options, expand⟩ callee arguments isVirtual)
      (invoke ⟨program, options, expand'⟩ callee arguments' isVirtual) := by
  have called : Agrees options depth
      (do
        let done ← withActivation (.ofCall callee) do
          let operands ← arguments
          emitCall (program.function callee) operands isVirtual
        return done.1)
      (do
        let done ← withActivation (.ofCall callee) do
          let operands ← arguments'
          emitCall (program.function callee) operands isVirtual
        return done.1) := by
    intro s room
    refine Same.bind (.withActivation ?_) fun pair s' _ kept =>
      .of_local (room.toNests.congr kept) (.pure _)
    exact (computed.bind fun _ => .of_local (local_emitCall _ _ _)) _ (room.calling callee)
  cases isVirtual with
  | true => exact called
  | false =>
      intro s room
      refine Same.bind (.of_local room.toNests (local_shouldExpand _ callee)) ?_
      intro expanded s₁ decided kept
      cases expanded with
      | false => exact called s₁ (room.congr kept)
      | true =>
          obtain ⟨new, below⟩ := shouldExpand_room decided
          refine (computed s₁ (room.congr kept)).bind fun operands s₂ _ kept' => ?_
          have expanding := State.expanding_congr kept'
          exact expands callee operands s₂ ((room.congr kept).congr kept') (expanding ▸ new)
            (expanding ▸ below)

/-- Arguments paired with the same parameters. -/
theorem forall₂_zip {arguments arguments' : List (Gen Operand × Gen Operand)}
    (ofArguments : List.Forall₂ (AgreesBoth options depth) arguments arguments')
    (parameters : List Variable) :
    List.Forall₂ (fun one other => AgreesBoth options depth one.1 other.1 ∧ one.2 = other.2)
      (arguments.zip parameters) (arguments'.zip parameters) := by
  induction ofArguments generalizing parameters with
  | nil => exact .nil
  | cons both _ inductionHypothesis =>
      cases parameters with
      | nil => exact .nil
      | cons parameter rest => exact .cons ⟨both, rfl⟩ (inductionHypothesis rest)

theorem agrees_operandsOf {fn : Function} {receiver receiver' : Option (Gen Operand)}
    {arguments arguments' : List (Gen Operand × Gen Operand)}
    (ofReceiver : Option.Rel (Agrees options depth) receiver receiver')
    (ofArguments : List.Forall₂ (AgreesBoth options depth) arguments arguments') :
    Agrees options depth (operandsOf fn receiver arguments)
      (operandsOf fn receiver' arguments') := by
  have others : ∀ parameters : List Variable, Agrees options depth
      ((arguments.zip parameters).mapM fun item => if item.2.byRef then item.1.2 else item.1.1)
      ((arguments'.zip parameters).mapM fun item =>
        if item.2.byRef then item.1.2 else item.1.1) := by
    intro parameters
    refine .mapM ((forall₂_zip ofArguments parameters).imp ?_)
    rintro ⟨one, parameter⟩ ⟨other, _⟩ ⟨⟨ofValue, ofAddress⟩, rfl⟩
    exact .ite ofAddress ofValue
  have ofRest : ∀ operands : List Operand, Agrees options depth
      (do
        let given := operands.length + arguments.length
        if given ≠ fn.args.length then
          throw (.argumentCount fn.signature fn.args.length given)
        let rest ← (arguments.zip (fn.args.drop operands.length)).mapM
          fun item => if item.2.byRef then item.1.2 else item.1.1
        return operands ++ rest)
      (do
        let given := operands.length + arguments'.length
        if given ≠ fn.args.length then
          throw (.argumentCount fn.signature fn.args.length given)
        let rest ← (arguments'.zip (fn.args.drop operands.length)).mapM
          fun item => if item.2.byRef then item.1.2 else item.1.1
        return operands ++ rest) := by
    intro operands
    dsimp only
    rw [ofArguments.length_eq]
    split
    · exact .throw_bind nofun
    · exact .bind (others _) fun _ => .pure _
  unfold operandsOf
  cases fn.receiver with
  | none => exact ofRest []
  | some _ =>
      cases ofReceiver with
      | none => exact .throw_bind nofun
      | some agrees => exact agrees.bind fun operand => ofRest [operand]

theorem agrees_newObject (expands : ExpandsAlike options depth expand expand') {cls : ClassId}
    {arguments arguments' : List (Gen Operand × Gen Operand)}
    (ofArguments : List.Forall₂ (AgreesBoth options depth) arguments arguments') :
    Agrees options depth (newObject ⟨program, options, expand⟩ cls arguments)
      (newObject ⟨program, options, expand'⟩ cls arguments') := by
  refine .after (local_allocateObject _) fun object => ?_
  dsimp only
  split
  · exact .pure _
  · rename_i ctor _
    refine .after (local_lock _) fun _ => ?_
    refine (agrees_invoke expands ?_).bind fun result => ?_
    · exact agrees_operandsOf (.some (.pure _)) ofArguments
    · exact .of_local ((local_release _).bind fun _ => (local_unlock _).bind fun _ => .pure _)

end Calls

/-- Two ways to generate an expression that do the same. -/
structure Lowered.Alike (options : Options) (depth : Nat) (first second : Lowered) : Prop where
  literal : first.literal? = second.literal?
  value : Agrees options depth first.value second.value
  branch : ∀ label wanted,
    Agrees options depth (first.branch label wanted) (second.branch label wanted)
  place : Option.Rel (Agrees options depth) first.place? second.place?

section Expressions

variable {program : TypedProgram} {options : Options} {depth : Nat}
  {expand expand' : FnId → List Operand → Gen Operand}

theorem agrees_branchOn {value value' : Gen Operand} (agrees : Agrees options depth value value')
    (label : String) (wanted : Bool) :
    Agrees options depth (Lowered.branchOn value label wanted)
      (Lowered.branchOn value' label wanted) :=
  agrees.bind fun _ => .of_local (local_testAndBranch _ _ _)

theorem Lowered.Alike.ofValue {value value' : Gen Operand}
    (agrees : Agrees options depth value value') :
    (Lowered.ofValue value).Alike options depth (Lowered.ofValue value') :=
  ⟨rfl, agrees, agrees_branchOn agrees, .none⟩

theorem Lowered.Alike.ofPlace {place place' : Gen Operand}
    (agrees : Agrees options depth place place') :
    (Lowered.ofPlace place).Alike options depth (Lowered.ofPlace place') :=
  ⟨rfl, agrees, agrees_branchOn agrees, .some agrees⟩

/-- A text is filed behind the others, unless it is among them. -/
theorem agrees_literal (value : Literal) :
    Agrees options depth (literal value) (literal value) := by
  unfold literal
  refine .ite (.pure _) (.after .get fun s => ?_)
  dsimp only
  split
  · exact .pure _
  · refine Agrees.bind ?_ fun _ => .pure _
    intro s room
    refine ⟨rfl, fun run => ?_, nofun⟩
    obtain rfl := Success.modify_ok.mp run
    exact ⟨rfl, List.prefix_append _ _⟩

section Sides

variable {left left' right right' : Lowered}

theorem agrees_shortCircuit (ofLeft : left.Alike options depth left')
    (ofRight : right.Alike options depth right') (op : LogicalOp) (label : String)
    (wanted : Bool) :
    Agrees options depth (shortCircuit op left right label wanted)
      (shortCircuit op left' right' label wanted) := by
  have decided : Local (if op.decisive = wanted then jumpTo label else pure ()) := by
    split
    · exact local_jumpTo _
    · exact .pure ()
  unfold shortCircuit
  rw [← ofLeft.literal, ← ofRight.literal]
  dsimp only
  split
  · exact .ite (.of_local decided) (ofRight.branch _ _)
  · refine .ite ?_ (ofLeft.branch _ _)
    exact ofLeft.value.bind fun _ => .of_local ((local_release _).bind fun _ => decided)
  · refine .ite ?_ ?_
    · exact (ofLeft.branch _ _).bind fun _ => ofRight.branch _ _
    · exact .after local_newLabel fun _ => (ofLeft.branch _ _).bind fun _ =>
        (ofRight.branch _ _).bind fun _ => .of_local (local_defineLabel _)

theorem local_logicalStart : Local logicalStart :=
  local_reserveIfBusy.bind fun _ => (local_stable _).bind fun _ => (local_lock _).bind fun _ =>
    local_newLabel.bind fun _ => local_newLabel.bind fun _ => .pure _

theorem local_logicalEnd (dst : Operand) : Local (logicalEnd dst) := by
  unfold logicalEnd
  split
  · exact (local_settle _).bind fun _ => .pure _
  · exact .pure _

theorem agrees_logicalValue (ofLeft : left.Alike options depth left')
    (ofRight : right.Alike options depth right') (op : LogicalOp) :
    Agrees options depth (logicalValue op left right) (logicalValue op left' right') := by
  cases known : left.literal? with
  | some first =>
      have known' := ofLeft.literal ▸ known
      simp only [logicalValue, known, known']
      exact .ite (.pure _) ofRight.value
  | none =>
      rw [logicalValue_eq known, logicalValue_eq (ofLeft.literal ▸ known)]
      refine .after local_logicalStart fun start => ?_
      obtain ⟨dst, no, done⟩ := start
      refine Agrees.bind ?_ fun _ => .of_local (local_logicalEnd dst)
      exact (agrees_shortCircuit ofLeft ofRight op _ _).bind fun _ => .of_local (local_emit _)

end Sides

section Places

variable {e : Expr} {place place' : Option (Gen Operand)}

theorem agrees_placeOf (agrees : Option.Rel (Agrees options depth) place place') :
    Agrees options depth (placeOf ⟨program, options, expand⟩ e place)
      (placeOf ⟨program, options, expand'⟩ e place') := by
  cases agrees with
  | none => exact .of_local (.throw nofun)
  | some agrees => exact agrees

theorem agrees_addressOf (agrees : Option.Rel (Agrees options depth) place place') :
    Agrees options depth (addressOf ⟨program, options, expand⟩ e place)
      (addressOf ⟨program, options, expand'⟩ e place') :=
  (agrees_placeOf agrees).bind fun _ => .ite (.pure _) (.of_local (.throw nofun))

end Places

mutual

/-- What is generated for an expression does not depend on how calls are expanded beyond the
limit. -/
theorem alike_lower (expands : ExpandsAlike options depth expand expand') (e : Expr) :
    (lower ⟨program, options, expand⟩ e).Alike options depth
      (lower ⟨program, options, expand'⟩ e) := by
  cases e with
  | absent =>
      rw [lower, lower]
      exact .ofValue (.of_local (.throw nofun))
  | lit value type =>
      have alike : (Lowered.ofValue (literal value)).Alike options depth
          (Lowered.ofValue (literal value)) := .ofValue (agrees_literal value)
      rw [lower, lower]
      exact ⟨rfl, alike.value, alike.branch, alike.place⟩
  | var id =>
      rw [lower, lower]
      exact .ofPlace (.of_local (local_variableOperand program id))
  | field object member =>
      have inner := alike_lower expands object
      rw [lower, lower]
      exact .ofPlace (inner.value.bind fun _ => .of_local (local_fieldCell _ _))
  | binary op left right type =>
      have first := alike_lower expands left
      have second := alike_lower expands right
      rw [lower, lower]
      refine .ofValue (first.value.bind fun x => second.value.bind fun y => ?_)
      exact .ite (.of_local (local_compare _ _ _ _ _)) (.of_local (local_arith _ _ _ _))
  | overloaded op left right type callee =>
      have first := alike_lower expands left
      have second := alike_lower expands right
      rw [lower, lower]
      refine .ofValue (agrees_invoke expands (agrees_operandsOf .none ?_))
      exact .cons ⟨first.value, agrees_addressOf first.place⟩
        (.cons ⟨second.value, agrees_addressOf second.place⟩ .nil)
  | unary op operand type =>
      have inner := alike_lower expands operand
      have plain := Lowered.Alike.ofValue
        (inner.value.bind fun value => .of_local (local_unary op value type))
      unfold lower
      dsimp only
      split
      · exact ⟨plain.literal, plain.value, fun label wanted => inner.branch label (!wanted),
          plain.place⟩
      · exact plain
  | logical op left right =>
      have first := alike_lower expands left
      have second := alike_lower expands right
      have value := Lowered.Alike.ofValue (agrees_logicalValue first second op)
      rw [lower, lower]
      exact ⟨value.literal, value.value, agrees_shortCircuit first second op, value.place⟩
  | call callee receiver arguments isVirtual =>
      have self := alike_lower expands receiver
      have others := alike_lowerAll expands arguments
      rw [lower, lower]
      refine .ofValue (agrees_invoke expands (agrees_operandsOf ?_ others))
      split
      · exact .none
      · exact .some self.value
  | new cls arguments =>
      have others := alike_lowerAll expands arguments
      rw [lower, lower]
      exact .ofValue (agrees_newObject expands others)
  | asm block vars type =>
      rw [lower, lower]
      exact .ofValue (.of_local (local_asmBlock _))

theorem alike_lowerAll (expands : ExpandsAlike options depth expand expand') (es : List Expr) :
    List.Forall₂ (AgreesBoth options depth)
      (lower.lowerAll ⟨program, options, expand⟩ es)
      (lower.lowerAll ⟨program, options, expand'⟩ es) := by
  cases es with
  | nil =>
      rw [lower.lowerAll, lower.lowerAll]
      exact .nil
  | cons e rest =>
      have first := alike_lower expands e
      have others := alike_lowerAll expands rest
      rw [lower.lowerAll, lower.lowerAll]
      exact .cons ⟨first.value, agrees_addressOf first.place⟩ others

end

end Expressions

section Statements

variable {program : TypedProgram} {options : Options} {depth : Nat}
  {expand expand' : FnId → List Operand → Gen Operand}

section Returns

variable {value : Expr}

theorem agrees_returnInside (expands : ExpandsAlike options depth expand expand')
    (activation : Activation) :
    Agrees options depth (returnInside ⟨program, options, expand⟩ activation value)
      (returnInside ⟨program, options, expand'⟩ activation value) := by
  have left : Local (do
      jumpTo (← expansionExit activation)
      modifyActivation fun activation => { activation with jumps := activation.jumps + 1 }) :=
    (local_expansionExit _).bind fun _ => (local_jumpTo _).bind fun _ =>
      local_modifyActivation (fun _ => rfl) fun _ => rfl
  unfold returnInside
  refine .ite ?_ (.of_local left)
  exact (alike_lower expands value).value.bind fun _ =>
    .of_local ((local_storeResult _ _ _ _).bind fun _ => left)

theorem agrees_returnFrom (expands : ExpandsAlike options depth expand expand') (frame : Frame) :
    Agrees options depth (returnFrom ⟨program, options, expand⟩ frame value)
      (returnFrom ⟨program, options, expand'⟩ frame value) := by
  have left : Local (do
      jumpTo frame.exit
      modifyFrame fun frame => { frame with jumps := frame.jumps + 1 }) :=
    (local_jumpTo _).bind fun _ => local_modifyFrame _
  unfold returnFrom
  refine .ite ?_ (.of_local left)
  refine (alike_lower expands value).value.bind fun returned => .ite ?_ ?_
  · exact .of_local ((local_report _).bind fun _ => (local_release _).bind fun _ => left)
  · exact .of_local ((local_store _ _ _ _).bind fun _ => left)

theorem agrees_ret (expands : ExpandsAlike options depth expand expand') :
    Agrees options depth (ret ⟨program, options, expand⟩ value)
      (ret ⟨program, options, expand'⟩ value) := by
  refine .after local_expansion? fun expansion => .after .get fun s => ?_
  split
  · exact agrees_returnInside expands _
  · exact agrees_returnFrom expands _
  · exact .pure ()

theorem agrees_assign (expands : ExpandsAlike options depth expand expand') (target : Expr) :
    Agrees options depth (assign ⟨program, options, expand⟩ target value)
      (assign ⟨program, options, expand'⟩ target value) := by
  refine (alike_lower expands value).value.bind fun result => ?_
  refine Agrees.bind ?_ fun dst =>
    .of_local ((local_store _ _ _ _).bind fun _ => local_release _)
  exact agrees_placeOf (alike_lower expands target).place

end Returns

section Branches

variable {cond cond' : Lowered} {body body' : Gen Unit}

theorem agrees_choose {otherwise otherwise' : Option (Gen Unit)}
    (ofCond : cond.Alike options depth cond') (ofBody : Agrees options depth body body')
    (ofOtherwise : Option.Rel (Agrees options depth) otherwise otherwise') :
    Agrees options depth (choose cond body otherwise) (choose cond' body' otherwise') := by
  unfold choose
  rw [← ofCond.literal]
  split
  · refine .ite ofBody ?_
    cases ofOtherwise with
    | none => exact .pure ()
    | some agrees => exact agrees
  · refine .after local_newLabel fun label => (ofCond.branch _ _).bind fun _ =>
      .after local_endStatement fun _ => ofBody.bind fun _ => ?_
    cases ofOtherwise with
    | none => exact .of_local (local_defineLabel _)
    | some agrees =>
        refine .after local_newLabel fun done => .after local_lastInstr fun last => ?_
        have ended : Agrees options depth _ _ := .after (local_defineLabel label) fun _ =>
          agrees.bind fun _ => .of_local (local_endStatement.bind fun _ => local_defineLabel done)
        exact .ite (.after (local_jumpTo done) fun _ => ended) ended

theorem agrees_inLoop (agrees : Agrees options depth body body') (entry : Loop) :
    Agrees options depth (inLoop entry body) (inLoop entry body') :=
  .after (local_modify fun _ => rfl) fun _ => agrees.bind fun _ =>
    .of_local (local_modify fun _ => rfl)

theorem agrees_repeatWhile (ofCond : cond.Alike options depth cond')
    (ofBody : Agrees options depth body body') :
    Agrees options depth (repeatWhile cond body) (repeatWhile cond' body') := by
  unfold repeatWhile
  rw [← ofCond.literal]
  refine .ite ?_ (.pure ())
  exact .after local_newLabel fun _ => .after local_newLabel fun _ =>
    .after (local_defineLabel _) fun _ => (ofCond.branch _ _).bind fun _ =>
      .after local_endStatement fun _ => (agrees_inLoop ofBody _).bind fun _ =>
        .of_local ((local_jumpTo _).bind fun _ => local_defineLabel _)

theorem agrees_headerPart {part part' : Option (Gen Unit)}
    (agrees : Option.Rel (Agrees options depth) part part') :
    Agrees options depth (headerPart part) (headerPart part') := by
  cases agrees with
  | none => exact .pure ()
  | some agrees => exact agrees.bind fun _ => .of_local local_endStatement

theorem agrees_repeatFor {start start' post post' : Option (Gen Unit)}
    {given given' : Option Lowered} (ofStart : Option.Rel (Agrees options depth) start start')
    (ofGiven : Option.Rel (Lowered.Alike options depth) given given')
    (ofPost : Option.Rel (Agrees options depth) post post')
    (ofBody : Agrees options depth body body') :
    Agrees options depth (repeatFor start given post body)
      (repeatFor start' given' post' body') := by
  have branches : ∀ label, Option.Rel (Agrees options depth)
      (given.map fun cond => cond.branch label false)
      (given'.map fun cond => cond.branch label false) := by
    intro label
    cases ofGiven with
    | none => exact .none
    | some alike => exact .some (alike.branch label false)
  exact (agrees_headerPart ofStart).bind fun _ => .after local_newLabel fun _ =>
    .after local_newLabel fun _ => .after local_newLabel fun done =>
      .after (local_defineLabel _) fun _ => (agrees_headerPart (branches done)).bind fun _ =>
        (agrees_inLoop ofBody _).bind fun _ => .after (local_defineLabel _) fun _ =>
          (agrees_headerPart ofPost).bind fun _ =>
            .of_local ((local_jumpTo _).bind fun _ => local_defineLabel _)

end Branches

mutual

/-- What is generated for a statement does not depend on how calls are expanded beyond the limit. -/
theorem agrees_statement (expands : ExpandsAlike options depth expand expand') (stmt : Stmt) :
    Agrees options depth (statement ⟨program, options, expand⟩ stmt)
      (statement ⟨program, options, expand'⟩ stmt) := by
  cases stmt with
  | absent =>
      rw [statement, statement]
      exact .of_local (.throw nofun)
  | expr value =>
      rw [statement, statement]
      exact (alike_lower expands value).value.bind fun _ => .of_local (local_release _)
  | assign target value =>
      rw [statement, statement]
      exact agrees_assign expands target
  | ret value =>
      rw [statement, statement]
      exact agrees_ret expands
  | ite cond thenBody elseBody =>
      have first := agrees_statements expands thenBody
      have second := agrees_statement expands elseBody
      rw [statement, statement]
      refine agrees_choose (alike_lower expands cond) first ?_
      split
      · exact .none
      · exact .some second
  | «while» cond body =>
      have inner := agrees_statements expands body
      rw [statement, statement]
      exact agrees_repeatWhile (alike_lower expands cond) inner
  | «for» start cond post body =>
      have first := agrees_statement expands start
      have last := agrees_statement expands post
      have inner := agrees_statements expands body
      rw [statement, statement]
      refine agrees_repeatFor ?_ ?_ ?_ inner
      · split
        · exact .none
        · exact .some first
      · split
        · exact .none
        · exact .some (alike_lower expands cond)
      · split
        · exact .none
        · exact .some last
  | «break» =>
      rw [statement, statement]
      exact .of_local (local_leaveLoop _ _)
  | «continue» =>
      rw [statement, statement]
      exact .of_local (local_leaveLoop _ _)
  | block body =>
      have inner := agrees_statements expands body
      rw [statement, statement]
      exact inner

theorem agrees_statements (expands : ExpandsAlike options depth expand expand')
    (body : List Stmt) :
    Agrees options depth (block ⟨program, options, expand⟩ body)
      (block ⟨program, options, expand'⟩ body) := by
  cases body with
  | nil =>
      rw [block, block, statement.statements, statement.statements]
      exact .pure ()
  | cons stmt rest =>
      have first := agrees_statement expands stmt
      have others := agrees_statements expands rest
      rw [block, block, statement.statements, statement.statements]
      exact first.bind fun _ => .after local_endStatement fun _ => others

end

end Statements

section Expansions

variable {program : TypedProgram} {options : Options} {depth : Nat} {s : State}

/-- The body of an expansion, where its function is not being expanded and there is room. -/
theorem same_expansionBody {expand expand' : FnId → List Operand → Gen Operand}
    (expands : ExpandsAlike options depth expand expand') {callee : FnId} {opening : Opening}
    (room : s.Room options (depth + 1)) (new : callee ∉ s.expanding)
    (below : s.expanding.length < options.inlineDepth.toNat) :
    Same options s (expansionBody ⟨program, options, expand⟩ callee opening)
      (expansionBody ⟨program, options, expand'⟩ callee opening) := by
  have inside : ∀ loops, Same options { s with loops }
      (withActivation (opening.activation callee)
        (block ⟨program, options, expand⟩ ((program.function callee).body.getD [])))
      (withActivation (opening.activation callee)
        (block ⟨program, options, expand'⟩ ((program.function callee).body.getD []))) :=
    fun loops => .withActivation (agrees_statements expands _ _ (room.inside rfl new below rfl))
  have outside : Same options s
      (outsideLoops (withActivation (opening.activation callee)
        (block ⟨program, options, expand⟩ ((program.function callee).body.getD []))))
      (outsideLoops (withActivation (opening.activation callee)
        (block ⟨program, options, expand'⟩ ((program.function callee).body.getD [])))) := by
    refine Same.bind (.of_local room.toNests .get) fun _ _ got _ => ?_
    obtain ⟨rfl, rfl⟩ := Success.get_ok.mp got
    refine Same.bind (.of_local room.toNests (local_modify fun _ => rfl)) fun _ _ modified _ => ?_
    obtain rfl := Success.modify_ok.mp modified
    refine (inside []).bind fun _ _ _ kept => .of_local (room.toNests.congr kept) ?_
    exact Leaves.bind (local_modify fun _ => rfl) fun _ => .pure _
  refine outside.bind fun pair _ _ kept => .of_local (room.toNests.congr kept) ?_
  exact (local_closeExpansion _).bind fun _ => .pure _

/-- The room for expansions is never used up, so it does not matter how much more there is. -/
theorem expandAt_alike {more : Nat} (less : depth ≤ more) :
    ExpandsAlike options depth (expandAt program options depth)
      (expandAt program options more) := by
  induction depth generalizing more with
  | zero =>
      intro callee arguments s room _ below
      have enough := room.enough
      omega
  | succ depth inductionHypothesis =>
      intro callee arguments s room new below
      obtain ⟨fewer, rfl⟩ : ∃ fewer, more = fewer + 1 := ⟨more - 1, by omega⟩
      have less : depth ≤ fewer := by omega
      have expands := inductionHypothesis less
      rw [expandAt, expandAt, expandBody_eq, expandBody_eq]
      refine Same.bind (.of_local room.toNests (local_openExpansion _ _ _)) ?_
      intro opening s₁ _ kept
      have expanding := State.expanding_congr kept
      refine (same_expansionBody expands (room.congr kept) (expanding ▸ new)
        (expanding ▸ below)).bind fun final s₂ _ kept' => ?_
      exact .of_local ((room.congr kept).congr kept').toNests (local_closeOpening _ _ _)

end Expansions

section Program

variable {program : TypedProgram} {options : Options} {depth more : Nat} {s : State}

/-- Without calls in progress there is all the room. -/
theorem State.Room.of_idle (idle : s.calls = []) (enough : options.inlineDepth.toNat ≤ depth) :
    s.Room options depth := by
  have none : s.expanding = [] := by
    rw [State.expanding_eq, idle]
    rfl
  refine ⟨⟨?_, ?_⟩, ?_⟩
  · rw [none]
    exact List.nodup_nil
  · rw [none]
    exact Nat.zero_le _
  · rw [none]
    simpa using enough

theorem same_beginProcedure (idle : s.calls = []) (id : FnId) (fn : Function) :
    Same options s (beginProcedure id fn) (beginProcedure id fn) :=
  ⟨rfl, fun run => by cases run; exact ⟨idle.symm, List.prefix_refl _⟩, nofun⟩

theorem same_procedure (idle : s.calls = []) (enough : options.inlineDepth.toNat ≤ depth)
    (less : depth ≤ more) (id : FnId) (body : List Stmt) :
    Same options s (procedure ⟨program, options, expandAt program options depth⟩ id body)
      (procedure ⟨program, options, expandAt program options more⟩ id body) := by
  refine (same_beginProcedure idle id _).bind fun _ s₁ _ kept => ?_
  have room : s₁.Room options depth := .of_idle (kept.trans idle) enough
  refine Agrees.after (local_emit _) (fun _ => ?_) s₁ room
  refine (agrees_statements (expandAt_alike less) body).bind fun _ => .after .get fun s => ?_
  split
  · exact .of_local (local_finishProcedure _ _ _)
  · exact .pure ()

theorem same_functions (idle : s.calls = []) (enough : options.inlineDepth.toNat ≤ depth)
    (less : depth ≤ more) (ids : List FnId) :
    Same options s
      (ids.forM (functionCode ⟨program, options, expandAt program options depth⟩))
      (ids.forM (functionCode ⟨program, options, expandAt program options more⟩)) := by
  have room : ∀ s : State, s.calls = [] → s.Room options depth := fun _ none => .of_idle none enough
  induction ids generalizing s with
  | nil => exact .of_local (room s idle).toNests (.pure ())
  | cons id rest inductionHypothesis =>
      refine Same.bind ?_ fun _ _ _ kept => inductionHypothesis (kept.trans idle)
      unfold functionCode
      dsimp only
      split
      · exact same_procedure idle enough less _ _
      · exact .of_local (room s idle).toNests (.pure ())

/-- More room for expansions than the options allow makes no difference, and generation never ends
for want of room. -/
theorem same_wholeProgram (idle : s.calls = []) (enough : options.inlineDepth.toNat ≤ depth)
    (less : depth ≤ more) :
    Same options s (wholeProgram ⟨program, options, expandAt program options depth⟩)
      (wholeProgram ⟨program, options, expandAt program options more⟩) := by
  have nests : ∀ s : State, s.calls = [] → s.Nests options := fun s none =>
    have room : s.Room options depth := .of_idle none enough
    room.toNests
  refine Same.bind (.of_local (nests s idle) (local_emit _)) fun _ s₁ _ kept₁ => ?_
  have idle₁ := kept₁.trans idle
  refine Same.bind (.of_local (nests s₁ idle₁) (local_entryPoint _)) fun _ s₂ _ kept₂ => ?_
  refine (same_functions (kept₂.trans idle₁) enough less _).bind fun _ s₃ _ kept₃ => ?_
  exact .of_local (nests s₃ (kept₃.trans (kept₂.trans idle₁))) (local_modify fun _ => rfl)

end Program

end X64Backend.Lower
