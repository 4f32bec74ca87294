import X64Backend.Proofs.Lower.LiteralChecks

/-!
What operators check.  Two numeric literals are folded, which goes wrong only if they divide by
zero.  Otherwise the literals among the operands have to suit the instructions of the operator,
whatever the control flow around them.  The result is a literal only if it was folded.
-/

namespace X64Backend.Lower

open X64Backend.Tree Drafting

variable {s s' : State} {left right operand result : Operand} {size : Size} {signed : Bool}

theorem blur_literalOf (word : UInt64) (signed : Bool) :
    (literalOf word signed).blur = literalOf word signed := by
  cases signed with
  | true => rfl
  | false => rfl

theorem valid_of_numeric? {literal : Literal} {word : UInt64}
    (numeric : numeric? literal = some word) : literal.Valid := by
  unfold numeric? at numeric
  cases bits : literal.bits with
  | ok word => exact .inr ⟨word, bits⟩
  | error fault =>
      rw [bits] at numeric
      split at numeric <;> cases numeric

/-- An operator does not divide by zero where it is folded, and where it is not, the literals suit
its instructions. -/
def Operable (op : BinaryOp) (left right : Option Literal) (size : Size) (signed : Bool) : Prop :=
  outcome op left right size signed ≠ .divisionByZero ∧
    (outcome op left right size signed = .unknown → Suits op left right size)

section Folding

theorem outcome_literals (op : BinaryOp) (first second : Literal) (size : Size) (signed : Bool) :
    outcome op (Operand.lit first).constant? (Operand.lit second).constant? size signed =
      match numeric? first, numeric? second with
      | some x, some y => foldWords op (wrap x size signed) (wrap y size signed) signed
      | _, _ => .unknown := by
  cases first' : numeric? first with
  | none => simp [outcome, first']
  | some x =>
      cases second' : numeric? second with
      | none => simp [outcome, first', second']
      | some y => simp [outcome, first', second']

/-- Two literals are folded unless they divide by zero. -/
theorem judges_fold (op : BinaryOp) : Judges s (fold op left right size signed)
    (outcome op left.constant? right.constant? size signed ≠ .divisionByZero)
    (outcome op left.constant? right.constant? size signed ≠ .divisionByZero)
    fun folded => folded =
      ((outcome op left.constant? right.constant? size signed).literal? size signed).map .lit := by
  have unfolded : outcome op left.constant? right.constant? size signed = .unknown →
      Judges s (pure none : Gen (Option Operand))
        (outcome op left.constant? right.constant? size signed ≠ .divisionByZero)
        (outcome op left.constant? right.constant? size signed ≠ .divisionByZero)
        fun folded => folded =
          ((outcome op left.constant? right.constant? size signed).literal? size signed).map
            .lit := by
    intro unknown
    rw [unknown]
    exact .pure rfl (by decide)
  unfold fold
  split
  · rename_i first second
    unfold foldLiterals
    have known := outcome_literals op first second size signed
    cases first' : numeric? first with
    | none =>
        rw [first'] at known
        exact unfolded known
    | some x =>
        cases second' : numeric? second with
        | none =>
            rw [first', second'] at known
            exact unfolded known
        | some y =>
            rw [first', second'] at known
            rw [known]
            dsimp only
            cases foldWords op (wrap x size signed) (wrap y size signed) signed with
            | word value => exact (mute_log _).before fun _ s₁ _ _ => .pure rfl nofun
            | truth value => exact .pure rfl nofun
            | divisionByZero => exact judges_reporting _ (.pure _) (by simp)
            | unknown => exact .pure rfl nofun
  · rename_i other
    refine unfolded ?_
    cases left with
    | lit first =>
        cases right with
        | lit second => exact absurd rfl (other first second rfl)
        | _ => simp [outcome]
    | _ => rfl

theorem Folded.blur_literal? {folded : Folded} {literal : Literal}
    (found : folded.literal? size signed = some literal) : literal.blur = literal := by
  cases folded with
  | word value =>
      cases found
      exact blur_literalOf _ _
  | truth value =>
      cases found
      rfl
  | divisionByZero => cases found
  | unknown => cases found

/-- Operands that are not folded are left to the instructions. -/
theorem judges_folding (op : BinaryOp) {rest : Gen Operand} {suits sound : Prop}
    (ofRest : ∀ s₁, Judges s₁ rest suits (suits ∧ sound) fun result => result.constant? = none) :
    Judges s (fold op left right size signed >>= fun folded =>
        match folded with
        | some folded => pure folded
        | none => rest)
      (outcome op left.constant? right.constant? size signed ≠ .divisionByZero ∧
        (outcome op left.constant? right.constant? size signed = .unknown → suits))
      ((outcome op left.constant? right.constant? size signed ≠ .divisionByZero ∧
        (outcome op left.constant? right.constant? size signed = .unknown → suits)) ∧ sound)
      fun result => result.constant? =
        (outcome op left.constant? right.constant? size signed).literal? size signed := by
  refine (Judges.bind (fun folded => folded = none → suits)
    (fun folded => folded = none → suits ∧ sound)
    (fun folded result => result.constant? = (folded.getD .absent).constant?)
    (judges_fold op) fun folded s₁ _ => ?_).mono ?_ ?_ ?_
  · cases folded with
    | some folded => exact .pure rfl nofun
    | none =>
        exact (ofRest s₁).mono (fun suits _ => suits) (fun adequate => adequate rfl) fun _ _ => id
  · rintro ⟨divides, folded, rfl, checks⟩
    refine ⟨divides, fun unknown => checks ?_⟩
    rw [unknown]
    rfl
  · rintro ⟨⟨divides, suits⟩, sound⟩
    refine ⟨divides, ?_⟩
    rintro folded rfl none
    refine ⟨suits ?_, sound⟩
    cases found : outcome op left.constant? right.constant? size signed with
    | unknown => rfl
    | divisionByZero => exact absurd found divides
    | word value =>
        rw [found] at none
        cases none
    | truth value =>
        rw [found] at none
        cases none
  · rintro result _ ⟨folded, rfl, same⟩
    rw [same]
    cases found : (outcome op left.constant? right.constant? size signed).literal? size signed with
    | none => rfl
    | some literal => exact congrArg some (Folded.blur_literal? found)

theorem isZero_eq (operand : Operand) : isZero operand = operand.constant?.any Literal.isZero := by
  cases operand with
  | lit literal => exact (Literal.isZero_blur literal).symm
  | _ => rfl

end Folding

section Arithmetic

/-- An instruction with both operands in place leaves a register. -/
theorem judges_combine (op : BinaryOp) (instr : Op) :
    Judges s (combine op instr left right size signed)
      (Fit left.constant? size ∧ Fit right.constant? size)
      ((Fit left.constant? size ∧ Fit right.constant? size) ∧
        Sound left.constant? ∧ Sound right.constant?) fun result => result.constant? = none := by
  have placed : ∀ (first second : Operand) s₁, Judges s₁ (do
      let dst ← load first size signed
      let src ← operandFor second size signed
      if instr = .imul && size = .s8 then
        let wide ← load src .s32 signed
        widen (dst.resize .s32) (.reg dst) signed
        emit [.binary instr (.reg (dst.resize .s32)) (.reg wide)]
        release (.reg wide)
      else
        emit [.binary instr (.reg dst) src]
        release src
      return .reg dst : Gen Operand)
      (Fit first.constant? size ∧ Fit second.constant? size)
      ((Fit first.constant? size ∧ Fit second.constant? size) ∧
        Sound first.constant? ∧ Sound second.constant?) fun result => result.constant? = none := by
    intro first second s₁
    refine (Judges.bind (fun _ => Fit second.constant? size)
      (fun _ => Fit second.constant? size ∧ Sound second.constant?)
      (fun _ result => result.constant? = none) judges_load fun dst s₂ _ => ?_).mono
      (fun checks => ⟨checks.1, checks.2.choose_spec.2⟩)
      (fun adequate => ⟨⟨adequate.1.1, adequate.2.1⟩, fun _ _ => ⟨adequate.1.2, adequate.2.2⟩⟩)
      fun result _ promised => promised.choose_spec.2
    refine (Judges.bind (fun _ => True)
      (fun src => instr = .imul ∧ size = .s8 →
        Fit src.constant? .s32 ∧ Sound src.constant?)
      (fun _ result => result.constant? = none) judges_operandFor fun src s₃ _ => ?_).mono
      And.left (fun adequate => ⟨adequate, ?_⟩) fun result _ promised => promised.choose_spec.2
    · refine .ite (fun byte => ?_) fun _ => ?_
      · simp only [Bool.and_eq_true, decide_eq_true_eq] at byte
        refine (judges_load.after (fun wide => ?_) fun wide s₄ result s₅ _ run => ?_).mono
          (fun _ => trivial) (fun adequate => adequate byte) fun _ _ => id
        · exact (mute_emit _).bind fun _ => (mute_emit _).bind fun _ =>
            (mute_release _).bind fun _ => .pure _
        · simp only [Success.bind_ok, Success.pure_ok] at run
          obtain ⟨_, _, _, _, _, _, _, _, _, rfl, _⟩ := run
          rfl
      · refine Mute.judges ((mute_emit _).bind fun _ => (mute_release _).bind fun _ => .pure _)
          (fun result s₄ run => ?_) trivial
        simp only [Success.bind_ok, Success.pure_ok] at run
        obtain ⟨_, _, _, _, _, _, rfl, _⟩ := run
        rfl
    · -- a literal that fits a byte fits 32 bits
      rintro src (none | same) ⟨_, rfl⟩
      · rw [none]
        exact ⟨fit_none _, sound_none⟩
      · rw [same]
        exact ⟨fun literal is => (adequate.1 literal is).mono (by decide) (by decide), adequate.2⟩
  refine mute_get.before fun s₀ s₁ _ _ => ?_
  have ordered : arrange s₀.draft op left right = (right, left) ∨
      arrange s₀.draft op left right = (left, right) := by
    unfold arrange
    split
    · exact .inl rfl
    · exact .inr rfl
  rcases ordered with swapped | kept
  · rw [swapped]
    exact (placed right left s₁).mono And.symm
      (fun adequate => ⟨adequate.1.symm, adequate.2.symm⟩) fun _ _ => id
  · rw [kept]
    exact placed left right s₁

theorem judges_placeDivisor : Judges s (placeDivisor operand signed) (Fit operand.constant? .s64)
    (Fit operand.constant? .s64 ∧ Sound operand.constant?) fun _ => True := by
  refine .ite (fun inPlace => ?_) fun _ => ?_
  · simp only [Bool.and_eq_true] at inPlace
    refine .pure trivial ?_
    rw [Operand.constant?_of_isMem inPlace.1]
    exact fit_none _
  · exact (judges_move .lowFirst).after (fun _ => .pure _) fun _ _ _ _ _ _ => trivial

/-- A literal divisor must not be zero. -/
theorem judges_divide (remainder : Bool) : Judges s (divide left right size signed remainder)
    (right.constant?.any Literal.isZero = false ∧ Fit left.constant? .s64 ∧
      Fit right.constant? .s64)
    ((right.constant?.any Literal.isZero = false ∧ Fit left.constant? .s64 ∧
      Fit right.constant? .s64) ∧ Sound left.constant? ∧ Sound right.constant?)
    fun result => result.constant? = none := by
  unfold divide
  rw [isZero_eq]
  refine .ite (fun zero => ?_) fun nonzero => ?_
  · refine judges_reporting _ ((mute_release _).bind fun _ => .pure _) ?_
    rintro ⟨⟨nonzero, _⟩, _⟩
    rw [nonzero] at zero
    contradiction
  · refine mute_reserve.before fun _ s₁ _ _ => ?_
    refine (Judges.bind (fun _ => Fit left.constant? .s64)
      (fun _ => Fit left.constant? .s64 ∧ Sound left.constant?)
      (fun _ result => result.constant? = none) judges_placeDivisor fun divisor s₂ _ => ?_).mono
      (fun checks => ⟨Bool.eq_false_of_not_eq_true nonzero, checks.2.choose_spec.2, checks.1⟩)
      (fun adequate => ⟨⟨adequate.1.2.2, adequate.2.2⟩, fun _ _ => ⟨adequate.1.2.1, adequate.2.1⟩⟩)
      fun result _ promised => promised.choose_spec.2
    refine (judges_move .lowFirst).after (fun _ => ?_) fun _ s₃ result s₄ _ run => ?_
    · refine (mute_callAlloc _).bind fun quotient => (mute_emit _).bind fun _ =>
        (mute_release _).bind fun _ => (mute_release _).bind fun _ => ?_
      dsimp only
      split
      · exact (mute_emit _).bind fun _ => .pure _
      · exact .pure _
    · obtain ⟨quotient, _, _, run⟩ := Success.bind_ok.mp run
      obtain ⟨_, _, _, run⟩ := Success.bind_ok.mp run
      obtain ⟨_, _, _, run⟩ := Success.bind_ok.mp run
      obtain ⟨_, _, _, run⟩ := Success.bind_ok.mp run
      simp only [Success.ite_apply] at run
      split at run
      · obtain ⟨_, _, _, run⟩ := Success.bind_ok.mp run
        obtain ⟨rfl, _⟩ := Success.pure_ok.mp run
        rfl
      · obtain ⟨rfl, _⟩ := Success.pure_ok.mp run
        rfl

/-- A literal count has to be one. -/
theorem judges_shift (op : Op) : Judges s (shift op left right size signed)
    (Fit left.constant? size ∧ ∀ count ∈ right.constant?, isCount count = true)
    ((Fit left.constant? size ∧ ∀ count ∈ right.constant?, isCount count = true) ∧
      Sound left.constant? ∧ Sound right.constant?) fun result => result.constant? = none := by
  refine (Judges.bind (fun _ => ∀ count ∈ right.constant?, isCount count = true)
      (fun _ => ∀ count ∈ right.constant?, isCount count = true)
      (fun _ result => result.constant? = none) judges_load fun dst s₁ _ => ?_).mono
    (fun checks => ⟨checks.1, checks.2.choose_spec.2⟩)
    (fun adequate => ⟨⟨adequate.1.1, adequate.2.1⟩, fun _ _ => adequate.1.2⟩)
    fun result _ promised => promised.choose_spec.2
  have left : ∀ {s₂ s₃ : State} {result : Operand},
      (pure (.reg dst) : Gen Operand) s₂ = .ok result s₃ → result.constant? = none := by
    intro s₂ s₃ result run
    obtain ⟨rfl, _⟩ := Success.pure_ok.mp run
    rfl
  dsimp only
  split
  · rename_i literal
    refine .ite (fun count => ?_) fun noCount => ?_
    · refine Mute.judges ((mute_emit _).bind fun _ => .pure _) (fun result s₂ run => ?_) ?_
      · obtain ⟨_, _, _, run⟩ := Success.bind_ok.mp run
        exact left run
      · rintro _ ⟨⟩
        rw [Literal.isCount_blur]
        exact count
    · refine judges_reporting _ (.pure _) fun counts => noCount ?_
      rw [← Literal.isCount_blur]
      exact counts _ rfl
  · rename_i other
    have known : right.constant? = none := by
      cases right with
      | lit literal => exact absurd rfl (other literal)
      | _ => rfl
    rw [known]
    refine ((judges_move .lowFirst).after (fun _ => (mute_release _).bind fun _ =>
      (mute_emit _).bind fun _ => .pure _) fun _ s₂ result s₃ _ run => ?_).mono (fun _ => nofun)
      (fun _ => ?_) fun _ _ => id
    · obtain ⟨_, _, _, run⟩ := Success.bind_ok.mp run
      obtain ⟨_, _, _, run⟩ := Success.bind_ok.mp run
      exact left run
    · rw [known]
      exact ⟨fit_none _, sound_none⟩

/-- An arithmetic operator folds its operands, or they have to suit its instructions. -/
theorem judges_arith (op : BinaryOp) (type : TypeRef) : Judges s (arith op left right type)
    (Operable op left.constant? right.constant? type.operandSize type.isSigned)
    (Operable op left.constant? right.constant? type.operandSize type.isSigned ∧
      Sound left.constant? ∧ Sound right.constant?)
    fun result => result.constant? =
      (outcome op left.constant? right.constant? type.operandSize type.isSigned).literal?
        type.operandSize type.isSigned := by
  refine judges_folding op fun s₁ => ?_
  cases op with
  | div | mod => exact judges_divide _
  | shl | shr => exact judges_shift _
  | other symbol => exact .throw _
  | add | sub | mul | and | or | xor => exact judges_combine _ _
  | eq | ne | lt | le | gt | ge => exact .throw _

end Arithmetic

section Comparisons

/-- The second operand of a comparison is checked like a source. -/
theorem judges_comparand : Judges s (comparand left right size signed) (Fit right.constant? size)
    (Fit right.constant? size ∧ Sound right.constant?) fun _ => True := by
  refine .ite (fun _ => ?_) fun _ => ?_
  · exact judges_loaded.mono id id fun _ _ _ => trivial
  · exact judges_operandFor.mono id id fun _ _ _ => trivial

theorem judges_compareOperands (cond : Cond) :
    Judges s (compareOperands cond left right size signed)
      (Fit left.constant? size ∧ Fit right.constant? size)
      ((Fit left.constant? size ∧ Fit right.constant? size) ∧
        Sound left.constant? ∧ Sound right.constant?) fun result => result.constant? = none := by
  have compared : ∀ (cond : Cond) (left right first : Operand) s₁, Judges s₁ (do
      let second ← comparand first right size signed
      emit [.binary .cmp first second]
      release first
      release second
      let dst ← drafting (Drafting.nextRegister .s8)
      emit [.unary (.set cond) (.reg dst)]
      return .reg dst : Gen Operand) (Fit right.constant? size)
      (Fit right.constant? size ∧ Sound right.constant?) fun result => result.constant? = none := by
    intro cond left right first s₁
    refine judges_comparand.after (fun second => ?_) fun second s₂ result s₃ _ run => ?_
    · exact (mute_emit _).bind fun _ => (mute_release _).bind fun _ =>
        (mute_release _).bind fun _ => (mute_nextRegister _).bind fun _ =>
          (mute_emit _).bind fun _ => .pure _
    · simp only [Success.bind_ok, Success.pure_ok] at run
      obtain ⟨_, _, _, _, _, _, _, _, _, _, _, _, _, _, _, rfl, _⟩ := run
      rfl
  have ordered : ∀ (cond : Cond) (left right : Operand), Judges s (do
      let first ← if left.size = size then pure left else Operand.reg <$> load left size signed
      let second ← comparand first right size signed
      emit [.binary .cmp first second]
      release first
      release second
      let dst ← drafting (Drafting.nextRegister .s8)
      emit [.unary (.set cond) (.reg dst)]
      return .reg dst : Gen Operand) (Fit left.constant? size ∧ Fit right.constant? size)
      ((Fit left.constant? size ∧ Fit right.constant? size) ∧
        Sound left.constant? ∧ Sound right.constant?) fun result => result.constant? = none := by
    intro cond left right
    refine .ite (fun same => ?_) fun _ => ?_
    · -- a literal has no width of its own
      have fits : Fit left.constant? size := by
        cases left with
        | lit literal => exact fun _ _ => .inl same.symm
        | _ => exact fit_none _
      exact (compared cond left right left s).mono (fun checks => ⟨fits, checks⟩)
        (fun adequate => ⟨adequate.1.2, adequate.2.2⟩) fun _ _ => id
    · rw [map_eq_pure_bind]
      have loaded : Judges s (load left size signed >>= fun register => pure (Operand.reg register))
          (Fit left.constant? size) (Fit left.constant? size ∧ Sound left.constant?)
          fun _ => True :=
        judges_load.after (fun _ => .pure _) fun _ _ _ _ _ _ => trivial
      exact (Judges.bind (fun _ => Fit right.constant? size)
        (fun _ => Fit right.constant? size ∧ Sound right.constant?)
        (fun _ (result : Operand) => result.constant? = none) loaded
        fun first s₁ _ => compared cond left right first s₁).mono
        (fun checks => ⟨checks.1, checks.2.choose_spec.2⟩)
        (fun adequate => ⟨⟨adequate.1.1, adequate.2.1⟩, fun _ _ => ⟨adequate.1.2, adequate.2.2⟩⟩)
        fun result _ promised => promised.choose_spec.2
  unfold compareOperands
  cases isLiteral left with
  | true =>
      exact (ordered cond.swap right left).mono And.symm
        (fun adequate => ⟨adequate.1.symm, adequate.2.symm⟩) fun _ _ => id
  | false => exact ordered cond left right

/-- A comparison folds its operands, or they have to fit the wider of the two widths. -/
theorem judges_compare {op : BinaryOp} (compares : op.isComparison = true)
    (leftType rightType : TypeRef) : Judges s (compare op left right leftType rightType)
      (Operable op left.constant? right.constant?
        (widerSize leftType.operandSize rightType.operandSize) leftType.isSigned)
      (Operable op left.constant? right.constant?
          (widerSize leftType.operandSize rightType.operandSize) leftType.isSigned ∧
        Sound left.constant? ∧ Sound right.constant?)
      fun result => result.constant? =
        (outcome op left.constant? right.constant?
          (widerSize leftType.operandSize rightType.operandSize) leftType.isSigned).literal?
            (widerSize leftType.operandSize rightType.operandSize) leftType.isSigned := by
  refine judges_folding op fun s₁ => ?_
  cases op <;> first | contradiction | exact judges_compareOperands _

end Comparisons

section Unary

/-- The value of an operator on a known literal. -/
def unaryConstant? (op : UnaryOp) (known : Option Literal) (type : TypeRef) : Option Literal :=
  known.bind fun literal => foldUnary? op literal type.operandSize type.isSigned

/-- A literal that an operator is not folded on fits the instruction. -/
def SuitsUnary (op : UnaryOp) (known : Option Literal) (type : TypeRef) : Prop :=
  op = .neg ∨ op = .compl → unaryConstant? op known type = none → Fit known type.operandSize

theorem unaryConstant?_eq (op : UnaryOp) (operand : Operand) (type : TypeRef) :
    unaryConstant? op operand.constant? type = foldedOperand? op operand type := by
  cases operand with
  | lit literal =>
      change foldUnary? op literal.blur _ _ = foldUnary? op literal _ _
      cases op with
      | not => simp [foldUnary?]
      | neg | compl => simp [foldUnary?]
      | other symbol => rfl
  | _ => rfl

theorem blur_of_foldUnary? {op : UnaryOp} {literal folded : Literal}
    (found : foldUnary? op literal size signed = some folded) : folded.blur = folded := by
  cases op with
  | not =>
      cases found
      rfl
  | neg | compl =>
      obtain ⟨word, _, rfl⟩ := Option.map_eq_some_iff.mp found
      exact blur_literalOf _ _
  | other symbol => cases found

theorem valid_of_foldUnary? {op : UnaryOp} {literal folded : Literal}
    (found : foldUnary? op literal size signed = some folded) : folded.Valid := by
  cases op with
  | not =>
      cases found
      exact valid_of_numeric? (numeric?_ofBool _)
  | neg | compl =>
      obtain ⟨word, _, rfl⟩ := Option.map_eq_some_iff.mp found
      exact valid_of_numeric? (numeric?_literalOf _ _)
  | other symbol => cases found

theorem judges_change (op : Op) (type : TypeRef) : Judges s (change op operand type)
    (Fit operand.constant? type.operandSize)
    (Fit operand.constant? type.operandSize ∧ Sound operand.constant?)
    fun result => result.constant? = none := by
  refine judges_load.after (fun _ => (mute_emit _).bind fun _ => .pure _) fun _ _ _ _ _ run => ?_
  obtain ⟨_, _, _, run⟩ := Success.bind_ok.mp run
  obtain ⟨rfl, _⟩ := Success.pure_ok.mp run
  rfl

/-- The negation of a truth value that is no literal is none either. -/
theorem constant?_of_negate (run : negate operand s = .ok result s')
    (known : operand.constant? = none) : result.constant? = none := by
  unfold negate at run
  obtain ⟨found, s₁, _, run⟩ := Success.bind_ok.mp run
  obtain ⟨mine, s₂, _, run⟩ := Success.bind_ok.mp run
  split at run
  · obtain ⟨_, _, _, run⟩ := Success.bind_ok.mp run
    obtain ⟨rfl, _⟩ := Success.pure_ok.mp run
    exact known
  · simp only [Success.bind_ok, Success.pure_ok] at run
    obtain ⟨_, _, _, _, _, _, _, _, _, _, _, _, rfl, _⟩ := run
    rfl

theorem judges_unary (op : UnaryOp) (type : TypeRef) : Judges s (unary op operand type)
    (SuitsUnary op operand.constant? type)
    (SuitsUnary op operand.constant? type ∧ Sound operand.constant?)
    fun result => result.constant? = unaryConstant? op operand.constant? type := by
  unfold unary SuitsUnary
  rw [unaryConstant?_eq]
  cases folds : foldedOperand? op operand type with
  | some folded =>
      refine .pure ?_ fun _ => nofun
      cases operand with
      | lit literal => exact congrArg some (blur_of_foldUnary? folds)
      | _ => cases folds
  | none =>
      cases op with
      | neg | compl =>
          exact (judges_change _ type).mono (fun fits _ _ => fits)
            (fun adequate => ⟨adequate.1 (by simp) rfl, adequate.2⟩) fun _ _ => id
      | not =>
          have known : operand.constant? = none := by
            cases operand with
            | lit literal => cases folds
            | _ => rfl
          exact (mute_negate _).judges (fun result s' run => constant?_of_negate run known)
            fun impossible => by simp at impossible
      | other symbol => exact .throw _

end Unary

section Places

theorem judges_base : Judges s (base operand) (Fit operand.constant? .s64)
    (Fit operand.constant? .s64 ∧ Sound operand.constant?) fun _ => True := by
  unfold base
  split
  · exact .pure trivial (fit_none _)
  · exact judges_load

/-- The cell of a field is as wide as the field. -/
theorem judges_fieldCell (member : Field) : Judges s (fieldCell operand member)
    (Fit operand.constant? .s64) (Fit operand.constant? .s64 ∧ Sound operand.constant?)
    fun result => result.isMem = true ∧ result.size = member.type.operandSize := by
  refine judges_base.after (fun _ => .pure _) fun _ _ _ _ _ run => ?_
  obtain ⟨rfl, _⟩ := Success.pure_ok.mp run
  exact ⟨rfl, rfl⟩

end Places

end X64Backend.Lower
