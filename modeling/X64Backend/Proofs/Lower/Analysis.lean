import X64Backend.Proofs.Lower.ArgumentChecks
import X64Backend.Proofs.Lower.Visits

/-!
What the generator checks in a program, read off the tree.  Code is generated for the expressions
and statements that the walk here reaches.  An expression is known to become a literal if it is one,
or if its operators are folded; every other value is in a register or in memory.  The rules say
which literals have to fit which widths, and which programs are as safe to expand as to call.
-/

namespace X64Backend

namespace Tree

open Lower

variable (program : TypedProgram)

/-- The width of the storage that an expression names. -/
def Expr.width (e : Expr) : Size :=
  (e.type program).operandSize

/-- Whether the body of a function is seen to change one of its variables. -/
def TypedProgram.writesOwn (id : VarId) : Bool :=
  writes program ((program.function id.fn).body.getD []) id

/-- A variable that is changed under this name is seen to be changed. -/
def Expr.Lent (e : Expr) : Prop :=
  ∀ id, e = .var id → program.writesOwn id = true

/-- The width at which an operator works, and whether it is signed there. -/
def Expr.operation (op : BinaryOp) (left right : Expr) (type : TypeRef) : Size × Bool :=
  let leftType := left.type program
  if op.isComparison then
    (widerSize leftType.operandSize (right.type program).operandSize, leftType.isSigned)
  else (type.operandSize, type.isSigned)

/-- The literal that an expression becomes, up to the names of labels. -/
def Expr.constant? : Expr → Option Literal
  | .lit value _ => some (if value.kind = .string then .data "" else value.blur)
  | .binary op left right type =>
      let (size, signed) := operation program op left right type
      (outcome op left.constant? right.constant? size signed).literal? size signed
  | .unary op operand type => unaryConstant? op operand.constant? type
  | .logical op left right =>
      match left.literal? with
      | some first =>
          if truth first = op.decisive then some (.ofBool op.decisive) else right.constant?
      | none => none
  | _ => none

end Tree

namespace Lower

open X64Backend.Tree

variable (program : TypedProgram)

/-- The expression that an operand of a call is computed from. -/
def Item.expr? : Item → Option Expr
  | .value e | .address e => some e
  | .made _ => none

/-- The literal that an operand of a call is known to be.  An object at hand is none. -/
def Item.constant? : Item → Option Literal
  | .value e => e.constant? program
  | .address _ | .made _ => none

/-- The literals fit that an expansion copies, since the body changes their parameters. -/
def Copied (callee : FnId) (constants : List (Option Literal)) : Prop :=
  ∀ binding ∈ (argumentIds callee (program.function callee)).zip constants,
    binding.1.2.byRef = false → program.writesOwn binding.1.1 = true →
      Fit binding.2 binding.1.2.operandSize

/-- A call, an operator that stands for one, or the construction of an object. -/
structure CallSite where
  callee : FnId
  receiver : Option Item
  arguments : List Expr
  isVirtual : Bool

namespace CallSite

variable (site : CallSite)

/-- The operands of a call in the order of their evaluation. -/
def items : List Item :=
  callItems (program.function site.callee) site.receiver site.arguments

/-- The expressions that the operands of a call are computed from. -/
def exprs : List Expr :=
  (site.items program).filterMap Item.expr?

/-- The literals that the operands of a call are known to be. -/
def constants : List (Option Literal) :=
  (site.items program).map (Item.constant? program)

/-- The literal arguments that go to registers fit. -/
def Fits : Prop :=
  Passable ((program.function site.callee).args.zip (site.constants program))

/-- The literal arguments that an expansion copies fit. -/
def Copies : Prop :=
  Copied program site.callee (site.constants program)

/-- An expansion is as safe as a call.  Only a parameter with a copy of its own is given a literal,
and a parameter that the body changes is as wide as what it stands for. -/
def Binds : Prop :=
  ∀ binding ∈ (argumentIds site.callee (program.function site.callee)).zip (site.items program),
    (binding.1.2.byRef = false → binding.2.constant? program = none ∨
      program.writesOwn binding.1.1 = true ∧
        Fit (binding.2.constant? program) binding.1.2.operandSize) ∧
    (binding.1.2.byRef = true → binding.2.constant? program = none ∧
      (program.writesOwn binding.1.1 = true → ∃ e, binding.2 = .address e ∧ e.Lent program ∧
        e.width program = binding.1.2.type.operandSize))

end CallSite

end Lower

namespace Tree

open Lower

variable (program : TypedProgram)

/-- The call that an expression stands for.  The object that a constructor works on is at hand. -/
def Expr.site? : Expr → Option CallSite
  | .overloaded _ left right _ callee => some ⟨callee, none, [left, right], false⟩
  | .call callee receiver arguments isVirtual =>
      let receiver := if receiver.isAbsent then none else some (.value receiver)
      some ⟨callee, receiver, arguments, isVirtual⟩
  | .new cls arguments =>
      (program.cls cls).ctor.map fun ctor => ⟨ctor, some (.made .absent), arguments, false⟩
  | _ => none

/-- The expressions right below one for which code is generated. -/
def Expr.evaluated : Expr → List Expr
  | .field object _ => [object]
  | .binary _ left right _ => [left, right]
  | .unary _ operand _ => [operand]
  | .logical op left right =>
      match left.literal?, right.literal? with
      | some first, _ => if truth first = op.decisive then [] else [right]
      | none, some _ => [left]
      | none, none => [left, right]
  | e => ((e.site? program).map (CallSite.exprs program)).getD []

/-- The statements right below one for which code is generated, and whether they are in a loop. -/
def Stmt.emitted (looping : Bool) : Stmt → List (Bool × Stmt)
  | .ite cond thenBody elseBody =>
      match cond.literal? with
      | some known =>
          if truth known then thenBody.map (looping, ·) else [(looping, elseBody)]
      | none => thenBody.map (looping, ·) ++ [(looping, elseBody)]
  | .while cond body => if cond.literal?.all truth then body.map (true, ·) else []
  | .for start _ post body => (looping, start) :: (looping, post) :: body.map (true, ·)
  | .block body => body.map (looping, ·)
  | _ => []

/-- The expressions right below a statement for which code is generated. -/
def Stmt.evaluated : Stmt → List Expr
  | .expr value | .ret value => [value]
  | .assign target value => [value, target]
  | .ite cond _ _ | .while cond _ => if cond.literal?.isSome then [] else [cond]
  | .for _ cond _ _ => [cond]
  | _ => []

/-- A rule holds of every expression for which code is generated. -/
inductive Expr.All (rule : Expr → Prop) : Expr → Prop where
  | intro {e : Expr} : rule e → (∀ part ∈ e.evaluated program, Expr.All rule part) →
      Expr.All rule e

/-- Rules hold of every expression and statement for which code is generated. -/
inductive Stmt.All (ofExpr : Expr → Prop) (ofStmt : Bool → Stmt → Prop) : Bool → Stmt → Prop where
  | intro {looping : Bool} {s : Stmt} : ofStmt looping s →
      (∀ e ∈ s.evaluated, e.All program ofExpr) →
      (∀ part ∈ s.emitted looping, Stmt.All ofExpr ofStmt part.1 part.2) →
      Stmt.All ofExpr ofStmt looping s

/-- Code is generated for an expression as a part of another one. -/
inductive Expr.Reaches : Expr → Expr → Prop where
  | here {e : Expr} : Expr.Reaches e e
  | part {e part inner : Expr} : part ∈ e.evaluated program → Expr.Reaches part inner →
      Expr.Reaches e inner

/-- Code is generated for a statement as a part of another one. -/
inductive Stmt.Reaches : Bool × Stmt → Bool × Stmt → Prop where
  | here {s : Bool × Stmt} : Stmt.Reaches s s
  | part {s part inner : Bool × Stmt} : part ∈ s.2.emitted s.1 → Stmt.Reaches part inner →
      Stmt.Reaches s inner

/-- Somewhere in a statement a value is returned. -/
inductive Stmt.Answers : Stmt → Prop where
  | ret {value : Expr} : value.isAbsent = false → Stmt.Answers (.ret value)
  | part {looping : Bool} {s : Stmt} {part : Bool × Stmt} : part ∈ s.emitted looping →
      Stmt.Answers part.2 → Stmt.Answers s

/-- What is checked of an expression where some functions are expanded. -/
def Expr.Checked (expands : FnId → Bool) : Expr → Prop
  | .field object _ => Fit (object.constant? program) .s64
  | .binary op left right type =>
      let (size, signed) := operation program op left right type
      Operable op (left.constant? program) (right.constant? program) size signed
  | .unary op operand type => SuitsUnary op (operand.constant? program) type
  | e => ∀ site ∈ e.site? program,
      if !site.isVirtual && expands site.callee then site.Copies program else site.Fits program

/-- What is checked of a statement in a function. -/
def Stmt.Checked (fn : Function) (looping : Bool) : Stmt → Prop
  | .assign target value => Fit (value.constant? program) (target.width program)
  | .ret value => value.isAbsent = false → fn.returnType.operandSize ≠ .unsized ∧
      Fit (value.constant? program) fn.returnType.operandSize
  | .break | .continue => looping = true
  | _ => True

/-- An expression that is as safe to expand as to call. -/
def Expr.Safe (e : Expr) : Prop :=
  (∀ value type, e = .lit value type → value.kind = .string ∨ value.Valid) ∧
    ∀ site ∈ e.site? program, site.isVirtual = false →
      (program.function site.callee).mods.isInline = true →
      (program.function site.callee).body.isSome = true → site.Binds program

/-- A statement that changes a variable under its own name is seen to do so. -/
def Stmt.Safe (s : Stmt) : Prop :=
  ∀ target value, s = .assign target value → target.Lent program

/-- The functions that may be expanded are as safe to expand as to call.  Where nothing is expanded
all that is checked in them holds, and they return a value if they are to. -/
def TypedProgram.Careful : Prop :=
  ∀ id body, (program.function id).body = some body → (program.function id).mods.isInline = true →
    (Stmt.block body).All program (fun e => e.Checked program (fun _ => false) ∧ e.Safe program)
      (fun looping s => s.Checked program (program.function id) looping ∧ s.Safe program) false ∧
    ((program.function id).returnType.operandSize ≠ .unsized → (Stmt.block body).Answers)

/-- A program whose expressions and statements are safe, and whose functions that may be expanded
return a value if they are to. -/
def TypedProgram.Safe : Prop :=
  ∀ id body, (program.function id).body = some body →
    (Stmt.block body).All program (Expr.Safe program) (fun _ s => s.Safe program) false ∧
    ((program.function id).mods.isInline = true →
      (program.function id).returnType.operandSize ≠ .unsized → (Stmt.block body).Answers)

variable {program}

namespace Expr.All

variable {law law' : Expr → Prop} {e inner : Expr}

theorem rule (all : e.All program law) : law e := by
  cases all with
  | intro holds _ => exact holds

theorem part (all : e.All program law) (member : inner ∈ e.evaluated program) :
    inner.All program law := by
  cases all with
  | intro _ parts => exact parts inner member

theorem reached (all : e.All program law) (reaches : e.Reaches program inner) : law inner := by
  induction reaches with
  | here => exact all.rule
  | part member _ inductionHypothesis => exact inductionHypothesis (all.part member)

theorem mono (all : e.All program law) (weaker : ∀ e, law e → law' e) :
    e.All program law' := by
  induction all with
  | intro holds _ inductionHypothesis => exact .intro (weaker _ holds) inductionHypothesis

theorem and (all : e.All program law) (all' : e.All program law') :
    e.All program fun e => law e ∧ law' e := by
  induction all with
  | intro holds _ inductionHypothesis =>
      exact .intro ⟨holds, all'.rule⟩ fun inner member =>
        inductionHypothesis inner member (all'.part member)

end Expr.All

namespace Stmt.All

variable {law law' : Expr → Prop} {rule rule' : Bool → Stmt → Prop} {looping : Bool} {s : Stmt}

theorem reached {first last : Bool × Stmt} (all : first.2.All program law rule first.1)
    (reaches : Stmt.Reaches first last) :
    rule last.1 last.2 ∧ ∀ e ∈ last.2.evaluated, e.All program law := by
  induction reaches with
  | here =>
      cases all with
      | intro holds exprs _ => exact ⟨holds, exprs⟩
  | part member _ inductionHypothesis =>
      cases all with
      | intro _ _ parts => exact inductionHypothesis (parts _ member)

theorem and (all : s.All program law rule looping) (all' : s.All program law' rule' looping) :
    s.All program (fun e => law e ∧ law' e) (fun looping s => rule looping s ∧ rule' looping s)
      looping := by
  induction all with
  | intro holds exprs _ inductionHypothesis =>
      cases all' with
      | intro holds' exprs' parts' =>
          exact .intro ⟨holds, holds'⟩ (fun e member => (exprs e member).and (exprs' e member))
            fun part member => inductionHypothesis part member (parts' part member)

end Stmt.All

theorem sound_literal? {size : Size} {signed : Bool} (folded : Folded) :
    Sound (folded.literal? size signed) := by
  intro literal found
  cases folded with
  | word value =>
      cases found
      exact valid_of_numeric? (numeric?_literalOf _ _)
  | truth value =>
      cases found
      exact valid_of_numeric? (numeric?_ofBool value)
  | divisionByZero => cases found
  | unknown => cases found

/-- The literal that an expression of valid ones becomes is valid. -/
theorem Expr.sound_constant? (e : Expr) (all : e.All program (Expr.Safe program)) :
    Sound (e.constant? program) := by
  cases e with
  | lit value type =>
      rintro _ ⟨⟩
      split
      · exact .inl rfl
      · rename_i noText
        exact Literal.valid_blur.mpr ((all.rule.1 value type rfl).resolve_left noText)
  | binary op left right type =>
      rw [Expr.constant?]
      exact sound_literal? _
  | unary op operand type =>
      intro literal found
      rw [Expr.constant?] at found
      obtain ⟨value, _, found⟩ := Option.bind_eq_some_iff.mp found
      exact valid_of_foldUnary? found
  | logical op left right =>
      rw [Expr.constant?]
      split
      · rename_i first isLiteral
        split
        · rintro _ ⟨⟩
          exact valid_of_numeric? (numeric?_ofBool _)
        · rename_i undecided
          exact sound_constant? right (all.part (by simp [evaluated, isLiteral, undecided]))
      · exact sound_none
  | _ =>
      rw [Expr.constant?]
      · exact sound_none
      all_goals simp

end Tree

end X64Backend
