import X64Backend.Proofs.Lower.Analysis
import X64Backend.Proofs.Lower.Nesting

/-!
Expressions record what the analysis finds in them.  If nothing is on record behind the code of an
expression, outside of expansions, then all that is checked in it holds; and an expression in which
it holds records nothing, as long as no parameter stands for a literal.
-/

namespace X64Backend.Lower

open X64Backend.Tree Drafting

section Surroundings

variable (program : TypedProgram) (calls : List Activation)

/-- No body is being expanded. -/
def Exact : Prop :=
  ∀ activation ∈ calls, activation.inlining = false ∧ activation.bound = []

/-- No parameter stands for a literal, and those that are changed have the width of what they stand
for. -/
def Unfolded : Prop :=
  ∀ activation ∈ calls, ∀ entry ∈ activation.bound, entry.2.constant? = none ∧
    (program.writesOwn entry.1 = true →
      entry.2.size = (program.var entry.1).type.operandSize)

/-- An expression that names a variable names storage of the width of the variable. -/
def Known (e : Expr) : Prop :=
  ∀ id, e = .var id → ∀ activation ∈ calls, ∀ operand,
    activation.bound.lookup id = some operand →
      operand.size = (program.var id).type.operandSize

variable {program calls}

theorem Exact.unfolded (exact : Exact calls) : Unfolded program calls := by
  intro activation member entry among
  rw [(exact activation member).2] at among
  contradiction

theorem exact_nil : Exact [] :=
  List.forall_mem_nil _

theorem unfolded_nil : Unfolded program [] :=
  exact_nil.unfolded

theorem Exact.known (exact : Exact calls) (e : Expr) : Known program calls e := by
  intro id _ activation member operand found
  rw [(exact activation member).2] at found
  contradiction

theorem Unfolded.known (unfolded : Unfolded program calls) {e : Expr} (lent : e.Lent program) :
    Known program calls e := by
  intro id same activation member operand found
  obtain ⟨before, after, split, _⟩ := List.lookup_eq_some_iff.mp found
  have among : (id, operand) ∈ activation.bound := by simp [split]
  exact (unfolded activation member _ among).2 (lent id same)

@[simp]
theorem exact_ofCall (callee : FnId) : Exact (.ofCall callee :: calls) ↔ Exact calls := by
  simp [Exact, Activation.ofCall]

@[simp]
theorem unfolded_ofCall (callee : FnId) :
    Unfolded program (.ofCall callee :: calls) ↔ Unfolded program calls := by
  simp [Unfolded, Activation.ofCall]

@[simp]
theorem known_ofCall (callee : FnId) (e : Expr) :
    Known program (.ofCall callee :: calls) e ↔ Known program calls e := by
  simp [Known, Activation.ofCall]

end Surroundings

section Judgements

variable (program : TypedProgram) (expands : FnId → Bool)

/-- What the silence of an expression shows, outside of expansions. -/
def Shown (calls : List Activation) (e : Expr) : Prop :=
  Exact calls → e.All program (Expr.Checked program expands)

/-- What is enough for an expression to be silent. -/
def Granted (calls : List Activation) (e : Expr) : Prop :=
  program.Careful ∧ Unfolded program calls ∧
    e.All program fun e => e.Checked program (fun _ => false) ∧ e.Safe program

/-- A computation has the value of an expression. -/
def Values (e : Expr) (action : Gen Operand) : Prop :=
  ∀ s, Judges s action (Shown program expands s.activations e)
    (Granted program s.activations e)
    fun result => Unfolded program s.activations → result.constant? = e.constant? program

/-- A computation finds the storage that an expression names. -/
def Addresses (e : Expr) (action : Gen Operand) : Prop :=
  ∀ s, Judges s action (Shown program expands s.activations e)
    (Granted program s.activations e)
    fun result => Known program s.activations e → result.size = e.width program

/-- What is generated for an expression is judged by the analysis. -/
structure Lowered.Judged (e : Expr) (lowered : Lowered) : Prop where
  value : Values program expands e lowered.value
  branch : ∀ s label wanted, Judges s (lowered.branch label wanted)
    (Shown program expands s.activations e) (Granted program s.activations e) fun _ => True
  place : ∀ place, lowered.place? = some place → Addresses program expands e place

variable {program expands} {s s₁ : State} {calls : List Activation} {e inner : Expr}

theorem activations_of_same (same : s₁.surroundings = s.surroundings) :
    s₁.activations = s.activations :=
  congrArg Prod.fst same

theorem Shown.intro (rule : Exact calls → e.Checked program expands)
    (parts : ∀ inner ∈ e.evaluated program, Shown program expands calls inner) :
    Shown program expands calls e :=
  fun exact => .intro (rule exact) fun inner member => parts inner member exact

theorem Granted.part (granted : Granted program calls e)
    (member : inner ∈ e.evaluated program) : Granted program calls inner :=
  ⟨granted.1, granted.2.1, granted.2.2.part member⟩

theorem Granted.sound (granted : Granted program calls e) :
    Sound (e.constant? program) :=
  e.sound_constant? (granted.2.2.mono fun _ => And.right)

theorem Values.at {action : Gen Operand} (values : Values program expands e action)
    (same : s₁.surroundings = s.surroundings) :
    Judges s₁ action (Shown program expands s.activations e)
      (Granted program s.activations e)
      fun result => Unfolded program s.activations → result.constant? = e.constant? program := by
  have judged := values s₁
  rwa [activations_of_same same] at judged

namespace Lowered.Judged

theorem ofValue {action : Gen Operand} (values : Values program expands e action) :
    Judged program expands e (.ofValue action) := by
  refine ⟨values, fun s label wanted => ?_, nofun⟩
  exact (values s).after (fun _ => mute_testAndBranch _ _ _) fun _ _ _ _ _ _ => trivial

theorem ofPlace {action : Gen Operand} (values : Values program expands e action)
    (addresses : Addresses program expands e action) :
    Judged program expands e (.ofPlace action) := by
  refine ⟨(ofValue values).value, (ofValue values).branch, ?_⟩
  rintro _ ⟨⟩
  exact addresses

end Lowered.Judged

section Leaves

theorem shown_leaf (rule : e.Checked program expands) (leaf : e.evaluated program = []) :
    Shown program expands calls e := by
  refine Shown.intro (fun _ => rule) ?_
  rw [leaf]
  exact nofun

theorem values_literal (value : Literal) (type : TypeRef) :
    Values program expands (.lit value type) (literal value) := by
  intro s
  refine (mute_literal value).judges (fun result s' run _ => ?_)
    (shown_leaf (by rintro _ ⟨⟩) rfl)
  simp only [literal, Success.ite_apply] at run
  split at run
  · rename_i noText
    obtain ⟨rfl, _⟩ := Success.pure_ok.mp run
    simp [Expr.constant?, noText]
  · rename_i isText
    rw [not_not] at isText
    obtain ⟨_, _, got, run⟩ := Success.bind_ok.mp run
    obtain ⟨rfl, rfl⟩ := Success.get_ok.mp got
    have label : ∃ name, result = .lit (.data name) := by
      cases found : s.texts.idxOf? value.text with
      | some number =>
          rw [found] at run
          obtain ⟨rfl, _⟩ := Success.pure_ok.mp run
          exact ⟨_, rfl⟩
      | none =>
          rw [found] at run
          obtain ⟨_, _, _, run⟩ := Success.bind_ok.mp run
          obtain ⟨rfl, _⟩ := Success.pure_ok.mp run
          exact ⟨_, rfl⟩
    obtain ⟨name, rfl⟩ := label
    simp only [Expr.constant?, isText, if_true]
    rfl

/-- A variable stands for an operand of the caller, or it has a cell of its own. -/
theorem variableOperand_ok {id : VarId} {result : Operand}
    (run : variableOperand program id s = .ok result s₁) :
    (∃ activation ∈ s.activations, activation.bound.lookup id = some result) ∨
      result.isMem = true ∧ result.size = (program.var id).type.operandSize := by
  have ofCell : ∀ {offset s₂}, variableOperand.cell (program.var id) offset s₂ = .ok result s₁ →
      result.isMem = true ∧ result.size = (program.var id).type.operandSize := by
    intro offset s₂ run
    simp only [variableOperand.cell, Success.ite_apply] at run
    split at run
    · simp only [Success.bind_ok, Success.pure_ok] at run
      obtain ⟨_, _, _, _, _, _, rfl, _⟩ := run
      exact ⟨rfl, rfl⟩
    · obtain ⟨rfl, _⟩ := Success.pure_ok.mp run
      exact ⟨rfl, rfl⟩
  unfold variableOperand at run
  obtain ⟨_, _, got, run⟩ := Success.bind_ok.mp run
  obtain ⟨rfl, rfl⟩ := Success.get_ok.mp got
  cases found : s.activations.findSome? fun activation => activation.binding? id with
  | none =>
      rw [found] at run
      exact .inr (ofCell run)
  | some binding =>
      rw [found] at run
      cases binding with
      | offset offset => exact .inr (ofCell run)
      | operand operand =>
          obtain ⟨rfl, _⟩ := Success.pure_ok.mp run
          obtain ⟨activation, member, binding⟩ := List.exists_of_findSome?_eq_some found
          refine .inl ⟨activation, member, ?_⟩
          unfold Activation.binding? at binding
          split at binding
          · rename_i bound isBound
            cases binding
            exact isBound
          · obtain ⟨_, _, impossible⟩ := Option.map_eq_some_iff.mp binding
            cases impossible

theorem judged_variable (id : VarId) :
    Lowered.Judged program expands (.var id) (.ofPlace (variableOperand program id)) := by
  have shown : ∀ calls, Shown program expands calls (.var id) :=
    fun calls => shown_leaf (by rintro _ ⟨⟩) rfl
  refine .ofPlace (fun s => ?_) fun s => ?_
  · refine (mute_variableOperand _ _).judges (fun result s' run unfolded => ?_) (shown _)
    rcases variableOperand_ok run with ⟨activation, member, found⟩ | ⟨isMem, _⟩
    · obtain ⟨before, after, split, _⟩ := List.lookup_eq_some_iff.mp found
      have among : (id, result) ∈ activation.bound := by simp [split]
      exact (unfolded activation member _ among).1
    · exact Operand.constant?_of_isMem isMem
  · refine (mute_variableOperand _ _).judges (fun result s' run known => ?_) (shown _)
    rcases variableOperand_ok run with ⟨activation, member, found⟩ | ⟨_, size⟩
    · exact known id rfl activation member result found
    · exact size

end Leaves

section Operators

theorem judged_field {object : Expr} (member : Field) {action : Gen Operand}
    (values : Values program expands object action) :
    Lowered.Judged program expands (.field object member)
      (.ofPlace do fieldCell (← action) member) := by
  have found : ∀ s, Judges s (do fieldCell (← action) member)
      (Shown program expands s.activations (.field object member))
      (Granted program s.activations (.field object member))
      fun result => result.isMem = true ∧ result.size = member.type.operandSize := by
    intro s
    refine (Judges.bind (fun value => Fit value.constant? .s64)
      (fun value => Fit value.constant? .s64 ∧ Sound value.constant?)
      (fun _ (result : Operand) => result.isMem = true ∧ result.size = member.type.operandSize)
      (values s) fun value s₁ _ => judges_fieldCell member).mono ?_ ?_
      fun _ _ promised => promised.choose_spec.2
    · rintro ⟨shown, value, same, fits⟩
      refine .intro (fun exact => ?_) (by simpa [Expr.evaluated] using shown)
      have fits := fits
      rw [same exact.unfolded] at fits
      exact fits
    · intro granted
      have inner : Granted program s.activations object :=
        granted.part (by simp [Expr.evaluated])
      refine ⟨inner, fun value same => ?_⟩
      rw [same granted.2.1]
      exact ⟨granted.2.2.rule.1, inner.sound⟩
  refine .ofPlace (fun s => ?_) fun s => ?_
  · exact (found s).mono id id fun result _ promised _ =>
      Operand.constant?_of_isMem promised.1
  · exact (found s).mono id id fun result _ promised _ => promised.2

/-- An operator works at the width of its operation. -/
theorem judges_operate (op : BinaryOp) (left right : Expr) (type : TypeRef) (x y : Operand) :
    Judges s (if op.isComparison then compare op x y (left.type program) (right.type program)
        else arith op x y type)
      (Operable op x.constant? y.constant? (Expr.operation program op left right type).1
        (Expr.operation program op left right type).2)
      (Operable op x.constant? y.constant? (Expr.operation program op left right type).1
          (Expr.operation program op left right type).2 ∧ Sound x.constant? ∧ Sound y.constant?)
      fun result => result.constant? =
        (outcome op x.constant? y.constant? (Expr.operation program op left right type).1
          (Expr.operation program op left right type).2).literal?
            (Expr.operation program op left right type).1
            (Expr.operation program op left right type).2 := by
  unfold Expr.operation
  cases compares : op.isComparison with
  | true => exact judges_compare compares _ _
  | false => exact judges_arith op type

theorem values_binary (env : Env) (sameProgram : env.program = program) (op : BinaryOp)
    {left right : Expr} (type : TypeRef) {first second : Gen Operand}
    (ofFirst : Values program expands left first)
    (ofSecond : Values program expands right second) :
    Values program expands (.binary op left right type)
      (binary env op left right type first second) := by
  subst sameProgram
  intro s
  refine (Judges.bind (fun x => Shown env.program expands s.activations right ∧
      ∃ y : Operand, (Unfolded env.program s.activations →
        y.constant? = right.constant? env.program) ∧
      Operable op x.constant? y.constant? (Expr.operation env.program op left right type).1
        (Expr.operation env.program op left right type).2)
    (fun x => Granted env.program s.activations right ∧ ∀ y : Operand,
      (Unfolded env.program s.activations → y.constant? = right.constant? env.program) →
      Operable op x.constant? y.constant? (Expr.operation env.program op left right type).1
        (Expr.operation env.program op left right type).2 ∧ Sound x.constant? ∧ Sound y.constant?)
    (fun x (result : Operand) => ∃ y : Operand, (Unfolded env.program s.activations →
        y.constant? = right.constant? env.program) ∧ result.constant? =
      (outcome op x.constant? y.constant? (Expr.operation env.program op left right type).1
        (Expr.operation env.program op left right type).2).literal?
          (Expr.operation env.program op left right type).1
          (Expr.operation env.program op left right type).2)
    (ofFirst s) fun x s₁ same => ?_).mono ?_ ?_ ?_
  · exact Judges.bind _ _ _ (ofSecond.at same) fun y s₂ _ => judges_operate op left right type x y
  · rintro ⟨shown, x, sameLeft, shown', y, sameRight, operable⟩
    refine .intro (fun exact => ?_) (by simpa [Expr.evaluated] using ⟨shown, shown'⟩)
    rw [sameLeft exact.unfolded, sameRight exact.unfolded] at operable
    exact operable
  · intro granted
    have ofLeft : Granted env.program s.activations left :=
      granted.part (by simp [Expr.evaluated])
    have ofRight : Granted env.program s.activations right :=
      granted.part (by simp [Expr.evaluated])
    refine ⟨ofLeft, fun x sameLeft => ⟨ofRight, fun y sameRight => ?_⟩⟩
    rw [sameLeft granted.2.1, sameRight granted.2.1]
    exact ⟨granted.2.2.rule.1, ofLeft.sound, ofRight.sound⟩
  · rintro result _ ⟨x, sameLeft, y, sameRight, made⟩ unfolded
    rw [made, sameLeft unfolded, sameRight unfolded, Expr.constant?]

theorem values_unary (op : UnaryOp) {operand : Expr} (type : TypeRef) {action : Gen Operand}
    (values : Values program expands operand action) :
    Values program expands (.unary op operand type) (do unary op (← action) type) := by
  intro s
  refine (Judges.bind (fun x => SuitsUnary op x.constant? type)
    (fun x => SuitsUnary op x.constant? type ∧ Sound x.constant?)
    (fun x (result : Operand) => result.constant? = unaryConstant? op x.constant? type)
    (values s) fun x s₁ _ => judges_unary op type).mono ?_ ?_ ?_
  · rintro ⟨shown, x, same, suits⟩
    refine .intro (fun exact => ?_) (by simpa [Expr.evaluated] using shown)
    rw [same exact.unfolded] at suits
    exact suits
  · intro granted
    have inner : Granted program s.activations operand :=
      granted.part (by simp [Expr.evaluated])
    refine ⟨inner, fun x same => ?_⟩
    rw [same granted.2.1]
    exact ⟨granted.2.2.rule.1, inner.sound⟩
  · rintro result _ ⟨x, same, made⟩ unfolded
    rw [made, same unfolded, Expr.constant?]

/-- Storage that lasts across branches is a register or a cell of the width that was asked for. -/
theorem stable_ok {size : Size} {result : Operand} (run : stable size s = .ok result s₁) :
    result.constant? = none ∧ result.size = size ∧ result ≠ .absent := by
  unfold stable at run
  obtain ⟨_, _, _, run⟩ := Success.bind_ok.mp run
  simp only [Success.ite_apply] at run
  split at run
  · obtain ⟨register, _, allocated, run⟩ := Success.bind_ok.mp run
    obtain ⟨rfl, _⟩ := Success.pure_ok.mp run
    exact ⟨rfl, Replaying.size_nextRegister allocated, nofun⟩
  · obtain ⟨_, _, _, run⟩ := Success.bind_ok.mp run
    obtain ⟨_, _, _, run⟩ := Success.bind_ok.mp run
    obtain ⟨_, _, _, run⟩ := Success.bind_ok.mp run
    obtain ⟨rfl, _⟩ := Success.pure_ok.mp run
    exact ⟨rfl, rfl, nofun⟩

/-- The left side of a logical operator that neither side decides, and behind it the right one. -/
theorem judges_bothSides (op : LogicalOp) {left right : Expr} {first : Lowered}
    (ofFirst : first.Judged program expands left) (unknown : left.literal? = none)
    (unknown' : right.literal? = none) (label : String) (wanted : Bool) {next : Gen Unit}
    (judged : ∀ s₁, s₁.surroundings = s.surroundings → Judges s₁ next
      (Shown program expands s.activations right) (Granted program s.activations right)
      fun _ => True) :
    Judges s (first.branch label wanted >>= fun _ => next)
      (Shown program expands s.activations (.logical op left right))
      (Granted program s.activations (.logical op left right)) fun _ => True := by
  refine (Judges.bind (fun _ => Shown program expands s.activations right)
    (fun _ => Granted program s.activations right) (fun _ _ => True)
    (ofFirst.branch s label wanted) fun _ s₁ same => judged s₁ same).mono ?_ ?_
    fun _ _ _ => trivial
  · rintro ⟨shown, _, _, shown'⟩
    exact .intro (fun _ => by rintro _ ⟨⟩)
      (by simpa [Expr.evaluated, unknown, unknown'] using ⟨shown, shown'⟩)
  · intro granted
    exact ⟨granted.part (by simp [Expr.evaluated, unknown, unknown']),
      fun _ _ => granted.part (by simp [Expr.evaluated, unknown, unknown'])⟩

theorem judges_shortCircuit (op : LogicalOp) {left right : Expr} {first second : Lowered}
    (ofFirst : first.Judged program expands left)
    (ofSecond : second.Judged program expands right)
    (sameFirst : first.literal? = left.literal?) (sameSecond : second.literal? = right.literal?)
    (label : String) (wanted : Bool) : Judges s (shortCircuit op first second label wanted)
      (Shown program expands s.activations (.logical op left right))
      (Granted program s.activations (.logical op left right)) fun _ => True := by
  have jump : Mute (if op.decisive = wanted then jumpTo label else pure ()) := by
    split
    · exact mute_emit _
    · exact .pure ()
  have rule : Expr.Checked program expands (.logical op left right) := by rintro _ ⟨⟩
  unfold shortCircuit
  rw [sameFirst, sameSecond]
  cases known : left.literal? with
  | some value =>
      dsimp only
      by_cases decides : truth value = op.decisive
      · rw [if_pos decides]
        exact jump.judges (fun _ _ _ => trivial)
          (shown_leaf rule (by simp [Expr.evaluated, known, decides]))
      · rw [if_neg decides]
        refine (ofSecond.branch s label wanted).mono (fun shown => ?_) (fun granted => ?_)
          fun _ _ => id
        · exact .intro (fun _ => rule) (by simpa [Expr.evaluated, known, decides] using shown)
        · exact granted.part (by simp [Expr.evaluated, known, decides])
  | none =>
      cases known' : right.literal? with
      | some value =>
          have ofLeft : Shown program expands s.activations left →
              Shown program expands s.activations (.logical op left right) := fun shown =>
            .intro (fun _ => rule) (by simpa [Expr.evaluated, known, known'] using shown)
          have toLeft : Granted program s.activations (.logical op left right) →
              Granted program s.activations left := fun granted =>
            granted.part (by simp [Expr.evaluated, known, known'])
          dsimp only
          split
          · exact ((ofFirst.value s).after (fun _ => (mute_release _).bind fun _ => jump)
              fun _ _ _ _ _ _ => trivial).mono ofLeft toLeft fun _ _ => id
          · exact (ofFirst.branch s label wanted).mono ofLeft toLeft fun _ _ => id
      | none =>
          have last : ∀ {s₁ s₂ : State}, s₂.surroundings = s₁.surroundings →
              Judges s₂ (second.branch label wanted)
                (Shown program expands s₁.activations right)
                (Granted program s₁.activations right) fun _ => True := by
            intro s₁ s₂ same
            rw [← activations_of_same same]
            exact ofSecond.branch s₂ label wanted
          dsimp only
          split
          · exact judges_bothSides op ofFirst known known' label wanted fun _ => last
          · refine mute_newLabel.before fun skip s₁ _ same => ?_
            rw [← activations_of_same same]
            exact judges_bothSides op ofFirst known known' skip (!wanted) fun _ same₂ =>
              (last same₂).after (fun _ => mute_emit _) fun _ _ _ _ _ _ => trivial

theorem values_logical (op : LogicalOp) {left right : Expr} {first second : Lowered}
    (ofFirst : first.Judged program expands left)
    (ofSecond : second.Judged program expands right)
    (sameFirst : first.literal? = left.literal?) (sameSecond : second.literal? = right.literal?) :
    Values program expands (.logical op left right) (logicalValue op first second) := by
  intro s
  have rule : Expr.Checked program expands (.logical op left right) := by rintro _ ⟨⟩
  cases known : left.literal? with
  | some value =>
      unfold logicalValue
      rw [sameFirst, known]
      dsimp only
      by_cases decides : truth value = op.decisive
      · rw [if_pos decides]
        refine .pure (fun _ => ?_) (shown_leaf rule (by simp [Expr.evaluated, known, decides]))
        rw [Expr.constant?, known]
        simp only [decides, if_true]
        rfl
      · rw [if_neg decides]
        refine (ofSecond.value s).mono (fun shown => ?_) (fun granted => ?_) fun result _ same => ?_
        · exact .intro (fun _ => rule) (by simpa [Expr.evaluated, known, decides] using shown)
        · exact granted.part (by simp [Expr.evaluated, known, decides])
        · intro unfolded
          rw [same unfolded, Expr.constant?, known]
          simp only [decides, if_false]
  | none =>
      rw [logicalValue_eq (sameFirst.trans known)]
      have unknown : Expr.constant? program (.logical op left right) = none := by
        rw [Expr.constant?, known]
      have started : Mute logicalStart :=
        mute_reserveIfBusy.bind fun _ => (mute_stable _).bind fun _ => (mute_lock _).bind fun _ =>
          mute_newLabel.bind fun _ => mute_newLabel.bind fun _ => .pure _
      have ended : ∀ dst, Mute (logicalEnd dst) := by
        intro dst
        unfold logicalEnd
        split
        · exact (mute_drafting (draws_settle _)).bind fun _ => .pure _
        · exact .pure _
      refine started.before fun start s₁ ran same => ?_
      obtain ⟨dst, no, done⟩ := start
      have isNone : dst.constant? = none := by
        simp only [logicalStart, Success.bind_ok, Success.pure_ok, Prod.mk.injEq] at ran
        obtain ⟨_, _, _, _, _, chosen, _, _, _, _, _, _, _, _, _, ⟨rfl, _⟩, _⟩ := ran
        exact (stable_ok chosen).1
      rw [← activations_of_same same]
      refine ((judges_shortCircuit op ofFirst ofSecond sameFirst sameSecond no false).after
        (fun _ => mute_emit _) fun _ _ _ _ _ _ => trivial).after (fun _ => ended dst)
        fun _ s₂ result s₃ _ run _ => ?_
      rw [unknown]
      obtain rfl : dst = result := by
        unfold logicalEnd at run
        split at run
        · obtain ⟨_, _, _, run⟩ := Success.bind_ok.mp run
          exact (Success.pure_ok.mp run).1
        · exact (Success.pure_ok.mp run).1
      exact isNone

end Operators

end Judgements

end X64Backend.Lower
