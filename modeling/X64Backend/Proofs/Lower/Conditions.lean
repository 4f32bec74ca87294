import X64Backend.Proofs.Lower.CallChecks
import X64Backend.Proofs.Lower.Order
import X64Backend.Proofs.Lower.ShortCircuits

/-!
Conditions on variables in the frame.  A branch on one is taken exactly when its truth is as wanted,
whatever is nested in it, and the value of a logical operator is the byte of its truth.  But if a
literal on the left leaves the outcome to the right side, the value is that of the right side itself.
-/

namespace X64Backend

/-- The truth of a condition: what is not zero is true. -/
def Tree.Expr.truth (holds : VarId → Bool) : Expr → Bool
  | .lit value _ => Lower.truth value
  | .var id => holds id
  | .unary .not operand _ => !truth holds operand
  | .logical op left right => op.eval (truth holds left) (truth holds right)
  | _ => false

namespace Lower

open Machine X64Backend.Tree

variable {s₀ : State} {program : TypedProgram} {env : Env} {holds : VarId → Bool} {e : Expr}

/-- A state in which the variables of a condition are looked at, in the activations of another one.
No byte that has just been stored is taken for the truth of a variable. -/
structure Testing (s₀ s : State) : Prop where
  unset : ∀ operand, storedCond? (s.draft.text.last?.getD .absent) operand = none
  activations : s.activations = s₀.activations

namespace Testing

theorem of_same (testing : Testing s₀ s) (text : s'.draft.text = s.draft.text)
    (activations : s'.activations = s.activations) : Testing s₀ s' :=
  ⟨text ▸ testing.unset, activations.trans testing.activations⟩

theorem emitted (testing : Testing s₀ s) {instr : Instr}
    (plain : ∀ operand, storedCond? instr operand = none) : Testing s₀ (s.emitted instr) := by
  refine ⟨fun operand => ?_, testing.activations⟩
  change storedCond? ((s.draft.text.emit instr).last?.getD .absent) operand = none
  rw [Stream.last?_eq, Stream.code_emit, List.getLast?_concat]
  exact plain operand

theorem lasting (s₀ : State) : Lasting (Testing s₀) where
  labels testing := testing.of_same rfl rfl
  jump testing := testing.emitted fun _ => rfl
  define testing := testing.emitted fun _ => rfl

theorem framed (testing : Testing s₀ s) {id : VarId} {offset : Int64}
    (framed : Framed program s₀ id offset) : Framed program s id offset :=
  ⟨framed.direct, testing.activations ▸ framed.place⟩

theorem reserve (testing : Testing s₀ s) (run : reserveIfBusy s = .ok u s') : Testing s₀ s' := by
  unfold reserveIfBusy at run
  obtain ⟨_, _, got, run⟩ := Success.bind_ok.mp run
  obtain ⟨rfl, rfl⟩ := Success.get_ok.mp got
  rw [Success.ite_apply] at run
  split at run
  · obtain ⟨draft, drafted, rfl⟩ := drafting_ok.mp run
    rcases Drafting.reserve_ok drafted with ⟨_, rfl⟩ |
      ⟨occupant, free, message, _, _, _, ⟨_, _, rfl⟩ | rfl⟩
    · exact testing
    · exact testing.of_same rfl rfl
    · exact (testing.emitted fun _ => rfl).of_same rfl rfl
  · obtain ⟨_, rfl⟩ := Success.pure_ok.mp run
    exact testing

theorem stable (testing : Testing s₀ s) {size : Size} {operand : Operand}
    (run : stable size s = .ok operand s') : Testing s₀ s' := by
  unfold Lower.stable at run
  obtain ⟨_, _, got, run⟩ := Success.bind_ok.mp run
  obtain ⟨rfl, rfl⟩ := Success.get_ok.mp got
  rw [Success.ite_apply] at run
  split at run
  · obtain ⟨register, s₁, allocated, run⟩ := Success.bind_ok.mp run
    obtain ⟨rfl, rfl⟩ := Success.pure_ok.mp run
    obtain ⟨draft, drafted, rfl⟩ := drafting_ok.mp allocated
    obtain ⟨slot, _, _, _, rfl⟩ := Drafting.nextRegister_ok drafted
    exact testing.of_same rfl rfl
  · obtain ⟨_, s₁, logged, run⟩ := Success.bind_ok.mp run
    obtain ⟨draft, drafted, rfl⟩ := drafting_ok.mp logged
    obtain rfl := Success.modify_ok.mp drafted
    cases run
    exact testing.of_same rfl rfl

theorem start (testing : Testing s₀ s) {started : Operand × String × String}
    (run : logicalStart s = .ok started s') : Testing s₀ s' := by
  simp only [logicalStart, Success.bind_ok, Success.pure_ok] at run
  obtain ⟨_, s₁, reserved, dst, s₂, chosen, _, s₃, locked, no, s₄, labelled, done, s₅, labelled',
    _, rfl⟩ := run
  obtain ⟨draft, drafted, rfl⟩ := drafting_ok.mp locked
  obtain rfl := Success.modify_ok.mp drafted
  cases labelled
  cases labelled'
  exact ((testing.reserve reserved).stable chosen).of_same (text_adjust _ _ _) rfl

end Testing

/-- The variables in the frame have the truths that are given: they are zero or not. -/
def Agreeing (program : TypedProgram) (s₀ : State) (holds : VarId → Bool) (view : View) : Prop :=
  ∀ id offset, Framed program s₀ id offset →
    holds id = !decide (view.memory.load (Spot.address view .rbp offset.toInt32)
      (program.var id).type.operandSize.bytes = 0)

theorem finds_frameCell {image : Image} {tick : Nat} (offset : Int64) (size : Size) :
    Finds ⟨image, tick⟩ (.mem (frameCell offset size)) (.cell .rbp offset.toInt32) := by
  refine .cell rfl ?_
  simp [frameCell, Pointer.ofBase, Register.resize]

/-- A test of a cell, and a jump if the cell is zero or if it is not. -/
theorem leads_probe {image : Image} {checked : Bool} {index target : Nat} {view : View}
    {entry jump : Entry} {offset : Int64} {size : Size} {truth : Bool} (sized : size ≠ .unsized)
    (stored : truth =
      !decide (view.memory.load (Spot.address view .rbp offset.toInt32) size.bytes = 0))
    (probes : entry.instr = probe (.mem (frameCell offset size)))
    (jumps : jump.instr = .branch (.jump (if wanted then .ne else .e)) label)
    (stands : image.Stands index [entry, jump])
    (aims : Aims image (index + 2) (if truth = wanted then some label else none) target) :
    ∃ flags, Runs image checked index view target { view with flags } := by
  obtain ⟨flags, zero, probed⟩ :=
    Does.probe checked view (@finds_frameCell image entry.tick offset size) sized
  have cut : (Spot.cell Phys.rbp offset.toInt32).read view size &&& mask size =
      view.memory.load (Spot.address view .rbp offset.toInt32) size.bytes := by
    rw [Spot.read, ← Memory.load_and_mask _ _ sized, and_mask_and_mask]
  have zero : flags.zero = !truth := by
    rw [stored, Bool.not_not, ← cut]
    exact zero
  have tested : flags.holds (if wanted then .ne else .e) = (truth == wanted) := by
    cases wanted <;> simp [Flags.holds, zero]
  rw [← probes] at probed
  refine ⟨flags, (Runs.of_does stands.holds.first probed).trans ?_⟩
  have here := stands.holds.tail.first
  by_cases taken : truth = wanted
  · rw [if_pos taken] at aims
    cases aims with
    | jump known =>
        have led : Runs image checked (index + 1) { view with flags } _ { view with flags } :=
          Runs.jump here jumps known
        rwa [tested, taken, beq_self_eq_true, if_pos rfl] at led
  · rw [if_neg taken] at aims
    cases aims
    exact Runs.stay here jumps (by rw [tested]; exact beq_false_of_ne taken)

/-- A branch on a variable in the frame is taken exactly when its truth is as wanted. -/
theorem branches_variable {id : VarId} {offset : Int64} (framed : Framed env.program s₀ id offset)
    (sized : (env.program.var id).type.operandSize ≠ .unsized) :
    Branches (Testing s₀) (Agreeing env.program s₀ holds) (lower env (.var id)).branch
      (holds id) := by
  intro label wanted s u s' testing run
  obtain ⟨operand, s₁, read, run⟩ := Success.bind_ok.mp run
  cases (variableOperand_framed (testing.framed framed)).symm.trans read
  have wide : (Operand.mem (frameCell offset (env.program.var id).type.operandSize)).size ≠
      .unsized := sized
  have code := testAndBranch_plain_code wide (testing.unset _) run
  refine ⟨⟨fun operand => ?_, ?_⟩, _, code, ?_⟩
  · rw [Stream.last?_eq, code, List.getLast?_append, List.getLast?_cons_cons,
      List.getLast?_singleton]
    rfl
  · exact (activations_of_same ((mute_testAndBranch _ _ _).same run)).trans testing.activations
  · intro image checked index target view stands stored aims
    obtain ⟨flags, runs⟩ := leads_probe sized (stored id offset framed) rfl rfl stands aims
    exact ⟨{ view with flags }, stored, runs⟩

/-- A variable in the frame has no effects. -/
theorem leadsOn_variable {id : VarId} {offset : Int64} (framed : Framed env.program s₀ id offset)
    (good : View → Prop) : LeadsOn (Testing s₀) good (lower env (.var id)).value := by
  intro s u s' testing run
  obtain ⟨operand, s₁, read, run⟩ := Success.bind_ok.mp run
  cases (variableOperand_framed (testing.framed framed)).symm.trans read
  have text := text_release run
  refine ⟨testing.of_same text ?_, .of_same (congrArg Stream.code text)⟩
  exact activations_of_same ((mute_release _).same run)

/-- A branch on a literal is decided beforehand. -/
theorem branches_literal {value : Literal} {type : TypeRef} (number : value.kind ≠ .string)
    (good : View → Prop) :
    Branches (Testing s₀) good (lower env (.lit value type)).branch (truth value) := by
  intro label wanted s u s' testing run
  have plain : literal value = pure (.lit value) := if_pos number
  have run : (do testAndBranch (← literal value) label wanted : Gen Unit) s = .ok u s' := run
  rw [plain, pure_bind] at run
  exact goes_jumpIf (Testing.lasting s₀) testing run

/-- The negation of a condition branches where the condition does not. -/
theorem branches_not {type : TypeRef} (inner : Branches ready good (lower env e).branch a) :
    Branches ready good (lower env (.unary .not e type)).branch (!a) := by
  intro label wanted s u s' before run
  have run : (lower env e).branch label (!wanted) s = .ok u s' := by
    rw [lower] at run
    exact run
  have same : (if (!a) = wanted then some label else none) =
      if a = !wanted then some label else none := by
    cases a <;> cases wanted <;> rfl
  rw [same]
  exact inner before run

/-- A condition on variables in the frame.  A literal on the right that decides stands behind
something that has no effects. -/
inductive Condition (program : TypedProgram) (s₀ : State) : Expr → Prop where
  | literal {value : Literal} {type : TypeRef} : value.kind ≠ .string →
      Condition program s₀ (.lit value type)
  | cell {id : VarId} {offset : Int64} : Framed program s₀ id offset →
      (program.var id).type.operandSize ≠ .unsized → Condition program s₀ (.var id)
  | not {operand : Expr} {type : TypeRef} : Condition program s₀ operand →
      Condition program s₀ (.unary .not operand type)
  | logical {op : LogicalOp} {left right : Expr} : Condition program s₀ left →
      Condition program s₀ right →
      (∀ value, right.literal? = some value → truth value = op.decisive →
        left.literal? ≠ none ∨ ∃ id, left = .var id) →
      Condition program s₀ (.logical op left right)

theorem truth_of_literal {value : Literal} (known : e.literal? = some value)
    (holds : VarId → Bool) : truth value = e.truth holds := by
  cases e with
  | lit => cases known; rfl
  | _ => cases known

/-- A branch on a condition is taken exactly when its truth is as wanted, whatever is nested in it and
on whichever side its literals are. -/
theorem branches_condition (condition : Condition env.program s₀ e) (holds : VarId → Bool) :
    Branches (Testing s₀) (Agreeing env.program s₀ holds) (lower env e).branch (e.truth holds) := by
  induction condition with
  | literal number => exact branches_literal number _
  | cell framed sized => exact branches_variable framed sized
  | not _ inductionHypothesis => exact branches_not inductionHypothesis
  | @logical op left right first _ silent ofLeft ofRight =>
      refine branches_shortCircuit (Testing.lasting s₀) ofLeft ofRight ?_ ?_ ?_
      · intro value known
        exact truth_of_literal ((literal?_lower env left).symm.trans known) holds
      · intro value known
        exact truth_of_literal ((literal?_lower env right).symm.trans known) holds
      · intro value unknown known decides
        rw [literal?_lower] at unknown known
        rw [← truth_of_literal known holds] at decides
        rcases silent value known decides with other | ⟨id, rfl⟩
        · exact absurd unknown other
        · cases first with
          | cell framed sized => exact leadsOn_variable framed _

/-- A logical operator whose value is the byte of its truth: no literal on the left leaves the outcome
to something else. -/
inductive Settles : Expr → Prop where
  | decided {op : LogicalOp} {value : Literal} {type : TypeRef} {right : Expr} :
      truth value = op.decisive → Settles (.logical op (.lit value type) right)
  | left {op : LogicalOp} {value : Literal} {type : TypeRef} {right : Expr} :
      truth value ≠ op.decisive → Settles right → Settles (.logical op (.lit value type) right)
  | written {op : LogicalOp} {left right : Expr} : left.literal? = none →
      Settles (.logical op left right)

/-- An operand that is the byte of a truth: a literal, or what the code behind the beginning of a
logical operator writes. -/
inductive Bears (good : View → Prop) (truth : Bool) (s s' : State) (operand : Operand) : Prop where
  | known : operand = .lit (.ofBool truth) → s' = s → Bears good truth s s' operand
  | written {no done : String} {s₁ : State} : logicalStart s = .ok (operand, no, done) s₁ →
      WritesTruth good operand truth s₁ s' → Bears good truth s s' operand

/-- A literal on the left that does not decide leaves the value to the right side as it is, which need
not be the byte of its truth. -/
theorem value_of_literal {value : Literal} {type : TypeRef} {right : Expr} :
    (lower env (.logical op (.lit value type) right)).value =
      if truth value = op.decisive then pure (.lit (.ofBool op.decisive))
      else (lower env right).value := by
  rw [lower]
  rfl

/-- So the value of a variable behind such a literal is its cell, whatever word that holds. -/
theorem value_of_variable {value : Literal} {type : TypeRef} {id : VarId} {offset : Int64}
    (leaves : truth value ≠ op.decisive) (framed : Framed env.program s id offset) :
    (lower env (.logical op (.lit value type) (.var id))).value s =
      .ok (.mem (frameCell offset (env.program.var id).type.operandSize)) s := by
  rw [value_of_literal, if_neg leaves]
  exact variableOperand_framed framed

/-- The value of a logical operator on a condition is one if the condition is true and zero if it is
not, unless a literal on the left leaves the outcome to something else. -/
theorem bears_condition (condition : Condition env.program s₀ e) (settles : Settles e)
    (holds : VarId → Bool) (testing : Testing s₀ s) {operand : Operand}
    (run : (lower env e).value s = .ok operand s') :
    Bears (Agreeing env.program s₀ holds) (e.truth holds) s s' operand := by
  induction settles with
  | @decided op value type right decides =>
      rw [value_of_literal, if_pos decides] at run
      obtain ⟨rfl, rfl⟩ := Success.pure_ok.mp run
      refine .known ?_ rfl
      rw [Expr.truth, Expr.truth, LogicalOp.eval_of_decides decides]
  | @left op value type right leaves _ inductionHypothesis =>
      rw [value_of_literal, if_neg leaves] at run
      rw [Expr.truth, Expr.truth, LogicalOp.eval_of_leaves leaves]
      cases condition with
      | logical _ ofRight _ => exact inductionHypothesis ofRight run
  | @written op left right unknown =>
      have branches : Branches (Testing s₀) (Agreeing env.program s₀ holds)
          (lower env (.logical op left right)).branch _ := branches_condition condition holds
      rw [lower] at run branches
      obtain ⟨no, done, s₁, started, writes⟩ :=
        writes_logicalValue branches ((literal?_lower env left).trans unknown) run
      exact .written started (writes (testing.start started))

end Lower

end X64Backend
