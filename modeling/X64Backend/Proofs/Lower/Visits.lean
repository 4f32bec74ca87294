import X64Backend.Generate
import X64Backend.Proofs.Lower.Expansions

/-!
The parts of the generator at work.  A task calls others in the states that it has come to; what is
visited is whatever the bodies of the procedures lead to.
-/

namespace X64Backend.Lower

open X64Backend.Tree

/-- The generator with room for so many more expansions in each other. -/
def envAt (program : TypedProgram) (options : Options) (depth : Nat) : Env :=
  { program, options, expand := expandAt program options depth }

/-- An operand of a call: a value, an address, or one that is at hand. -/
inductive Item where
  | value (e : Expr)
  | address (e : Expr)
  | made (operand : Operand)

/-- The computation of an operand. -/
def Item.action (env : Env) : Item → Gen Operand
  | .value e => (lower env e).value
  | .address e => addressOf env e (lower env e).place?
  | .made operand => pure operand

/-- The operands of a call in the order of their evaluation. -/
def callItems (fn : Function) (receiver : Option Item) (arguments : List Expr) : List Item :=
  let first :=
    match fn.receiver, receiver with
    | some _, some item => [item]
    | _, _ => []
  first ++ (arguments.zip (fn.args.drop first.length)).map
    fun (e, parameter) => if parameter.byRef then .address e else .value e

/-- Something that the generator does. -/
inductive Task where
  | item (item : Item)
  | place (e : Expr)
  | branch (e : Expr) (label : String) (wanted : Bool)
  | sides (op : LogicalOp) (left right : Expr) (label : String) (wanted : Bool)
  | stmt (stmt : Stmt)
  | body (body : List Stmt)
  | call (callee : FnId) (receiver : Option Item) (arguments : List Expr) (isVirtual : Bool)
  | expansion (callee : FnId) (arguments : List Operand)

/-- One operand after the other is computed; this one has its turn in this state. -/
inductive Turn (env : Env) : List Item → State → Item → State → Prop where
  | now {item : Item} {rest : List Item} {s : State} : Turn env (item :: rest) s item s
  | later {first item : Item} {rest : List Item} {operand : Operand} {s s₁ s' : State} :
      first.action env s = .ok operand s₁ → Turn env rest s₁ item s' →
      Turn env (first :: rest) s item s'

/-- The computation of the operands of a call. -/
def operandsAt (env : Env) (callee : FnId) (receiver : Option Item) (arguments : List Expr) :
    Gen (List Operand) :=
  operandsOf (env.program.function callee) (receiver.map (Item.action env))
    (lower.lowerAll env arguments)

/-- The state in which the operands of a call that is not expanded are computed. -/
def State.calling (s : State) (callee : FnId) : State :=
  { s with activations := .ofCall callee :: s.activations }

/-- An expression that is branched on by its value. -/
def Expr.IsPlain : Expr → Prop
  | .logical _ _ _ | .unary .not _ _ => False
  | _ => True

/-- A statement, if it is there. -/
def statement? (env : Env) (stmt : Stmt) : Option (Gen Unit) :=
  if stmt.isAbsent then none else some (statement env stmt)

/-- What can be generated for an expression, if it is there. -/
def lower? (env : Env) (e : Expr) : Option Lowered :=
  if e.isAbsent then none else some (lower env e)

/-- A choice up to its first body. -/
def beforeThen (cond : Lowered) : Gen String := do
  let otherwise ← newLabel
  cond.branch otherwise false
  endStatement
  return otherwise

/-- A choice up to its second body. -/
def beforeElse (cond : Lowered) (thenBody : Gen Unit) : Gen String := do
  let otherwise ← beforeThen cond
  thenBody
  let done ← newLabel
  if !isJump (← lastInstr) then jumpTo done
  defineLabel otherwise
  return done

/-- A loop up to its condition. -/
def beforeWhile : Gen Loop := do
  let top ← newLabel
  let done ← newLabel
  defineLabel top
  return ⟨done, top⟩

/-- A loop up to its body. -/
def beforeRound (cond : Lowered) : Gen Loop := do
  let entry ← beforeWhile
  cond.branch entry.exit false
  endStatement
  return entry

/-- A loop with a start up to its condition, with the label of the condition. -/
def beforeFor (start : Option (Gen Unit)) : Gen (String × Loop) := do
  headerPart start
  let top ← newLabel
  let next ← newLabel
  let done ← newLabel
  defineLabel top
  return (top, ⟨done, next⟩)

/-- A loop with a start up to its body. -/
def beforeForRound (start : Option (Gen Unit)) (cond : Option Lowered) : Gen (String × Loop) := do
  let (top, entry) ← beforeFor start
  headerPart (cond.map fun cond => cond.branch entry.exit false)
  return (top, entry)

/-- A loop with a start up to its step. -/
def beforePost (start : Option (Gen Unit)) (cond : Option Lowered) (body : Gen Unit) :
    Gen (String × Loop) := do
  let (top, entry) ← beforeForRound start cond
  inLoop entry body
  defineLabel entry.next
  return (top, entry)

theorem choose_eq {cond : Lowered} {thenBody elseBody : Gen Unit}
    (unknown : cond.literal? = none) : choose cond thenBody (some elseBody) = (do
      let done ← beforeElse cond thenBody
      elseBody
      endStatement
      defineLabel done) := by
  simp only [choose, unknown, beforeElse, beforeThen, bind_assoc, pure_bind]
  refine bind_congr fun otherwise => bind_congr fun _ => bind_congr fun _ => bind_congr fun _ =>
    bind_congr fun done => bind_congr fun last => ?_
  split
  · simp only [bind_assoc, pure_bind]
  · simp only [bind_assoc, pure_bind]

theorem repeatWhile_eq {cond : Lowered} {body : Gen Unit} (runs : cond.literal?.all truth = true) :
    repeatWhile cond body = (do
      let entry ← beforeRound cond
      inLoop entry body
      jumpTo entry.next
      defineLabel entry.exit) := by
  simp only [repeatWhile, runs, if_true, beforeRound, beforeWhile, bind_assoc, pure_bind]

theorem repeatFor_eq (start : Option (Gen Unit)) (cond : Option Lowered) (post : Option (Gen Unit))
    (body : Gen Unit) : repeatFor start cond post body = (do
      let (top, entry) ← beforePost start cond body
      headerPart post
      jumpTo top
      defineLabel entry.exit) := by
  simp only [repeatFor, beforePost, beforeForRound, beforeFor, bind_assoc, pure_bind]

section Calls

variable (program : TypedProgram) (options : Options)

/-- A task calls another one, at least wherever the generator does. -/
inductive Calls : Nat → Task → State → Nat → Task → State → Prop where
  | field {d object member s} :
      Calls d (.item (.value (.field object member))) s d (.item (.value object)) s
  | placeField {d object member s} :
      Calls d (.place (.field object member)) s d (.item (.value object)) s
  | address {d e s} : Calls d (.item (.address e)) s d (.place e) s
  | left {d op left right type s} :
      Calls d (.item (.value (.binary op left right type))) s d (.item (.value left)) s
  | right {d op left right type x s s₁} :
      (lower (envAt program options d) left).value s = .ok x s₁ →
      Calls d (.item (.value (.binary op left right type))) s d (.item (.value right)) s₁
  | unary {d op operand type s} :
      Calls d (.item (.value (.unary op operand type))) s d (.item (.value operand)) s
  | decided {d op left right known s} : (lower (envAt program options d) left).literal? = some known →
      Calls d (.item (.value (.logical op left right))) s d (.item (.value right)) s
  | logical {d op left right dst no done s s₁} :
      (lower (envAt program options d) left).literal? = none →
      logicalStart s = .ok (dst, no, done) s₁ →
      Calls d (.item (.value (.logical op left right))) s d (.sides op left right no false) s₁
  | branchValue {d e label wanted s} : Expr.IsPlain e →
      Calls d (.branch e label wanted) s d (.item (.value e)) s
  | branchNot {d operand type label wanted s} :
      Calls d (.branch (.unary .not operand type) label wanted) s
        d (.branch operand label (!wanted)) s
  | branchSides {d op left right label wanted s} :
      Calls d (.branch (.logical op left right) label wanted) s
        d (.sides op left right label wanted) s
  | sidesValue {d op left right label wanted s} :
      Calls d (.sides op left right label wanted) s d (.item (.value left)) s
  | sidesLeft {d op left right label wanted s} :
      Calls d (.sides op left right label wanted) s d (.branch left label wanted) s
  | sidesOnlyRight {d op left right known label wanted s} :
      (lower (envAt program options d) left).literal? = some known →
      Calls d (.sides op left right label wanted) s d (.branch right label wanted) s
  | sidesRight {d op left right label wanted u s s₁} :
      (lower (envAt program options d) left).branch label wanted s = .ok u s₁ →
      Calls d (.sides op left right label wanted) s d (.branch right label wanted) s₁
  | sidesSkip {d op left right label wanted skip s s₁} : newLabel s = .ok skip s₁ →
      Calls d (.sides op left right label wanted) s d (.branch left skip (!wanted)) s₁
  | sidesUnskipped {d op left right label wanted skip u s s₁ s₂} : newLabel s = .ok skip s₁ →
      (lower (envAt program options d) left).branch skip (!wanted) s₁ = .ok u s₂ →
      Calls d (.sides op left right label wanted) s d (.branch right label wanted) s₂
  | overloaded {d op left right type callee s} :
      Calls d (.item (.value (.overloaded op left right type callee))) s
        d (.call callee none [left, right] false) s
  | method {d callee receiver arguments isVirtual s} :
      Calls d (.item (.value (.call callee receiver arguments isVirtual))) s
        d (.call callee (if receiver.isAbsent then none else some (.value receiver)) arguments
          isVirtual) s
  | construct {d cls arguments ctor object u s s₁ s₂} :
      (program.cls cls).ctor = some ctor →
      allocateObject (program.cls cls) s = .ok object s₁ →
      drafting (Drafting.lock (.reg object)) s₁ = .ok u s₂ →
      Calls d (.item (.value (.new cls arguments))) s
        d (.call ctor (some (.made (.reg object))) arguments false) s₂
  | expandOperand {d callee receiver arguments item s s₁ s₂} :
      shouldExpand (envAt program options d) callee s = .ok true s₁ →
      Turn (envAt program options d)
        (callItems (program.function callee) receiver arguments) s₁ item s₂ →
      Calls d (.call callee receiver arguments false) s d (.item item) s₂
  | expand {d callee receiver arguments operands s s₁ s₂} :
      shouldExpand (envAt program options d) callee s = .ok true s₁ →
      operandsAt (envAt program options d) callee receiver arguments s₁ = .ok operands s₂ →
      Calls d (.call callee receiver arguments false) s d (.expansion callee operands) s₂
  | emitOperand {d callee receiver arguments item s s₁ s₂} :
      shouldExpand (envAt program options d) callee s = .ok false s₁ →
      Turn (envAt program options d)
        (callItems (program.function callee) receiver arguments) (s₁.calling callee) item s₂ →
      Calls d (.call callee receiver arguments false) s d (.item item) s₂
  | virtualOperand {d callee receiver arguments item s s₁} :
      Turn (envAt program options d)
        (callItems (program.function callee) receiver arguments) (s.calling callee) item s₁ →
      Calls d (.call callee receiver arguments true) s d (.item item) s₁
  | inside {d callee arguments opening s s₁} :
      openExpansion (envAt program options d) callee arguments s = .ok opening s₁ →
      Calls (d + 1) (.expansion callee arguments) s
        d (.body ((program.function callee).body.getD []))
          { s₁ with
            loops := []
            activations := opening.activation callee :: s₁.activations }
  | first {d stmt rest s} : Calls d (.body (stmt :: rest)) s d (.stmt stmt) s
  | rest {d stmt rest u u' s s₁ s₂} : statement (envAt program options d) stmt s = .ok u s₁ →
      endStatement s₁ = .ok u' s₂ → Calls d (.body (stmt :: rest)) s d (.body rest) s₂
  | block {d body s} : Calls d (.stmt (.block body)) s d (.body body) s
  | expr {d value s} : Calls d (.stmt (.expr value)) s d (.item (.value value)) s
  | assigned {d target value s} :
      Calls d (.stmt (.assign target value)) s d (.item (.value value)) s
  | target {d target value x s s₁} :
      (lower (envAt program options d) value).value s = .ok x s₁ →
      Calls d (.stmt (.assign target value)) s d (.place target) s₁
  | ret {d value s} : Calls d (.stmt (.ret value)) s d (.item (.value value)) s
  | thenKnown {d cond thenBody elseBody known s} :
      (lower (envAt program options d) cond).literal? = some known → truth known = true →
      Calls d (.stmt (.ite cond thenBody elseBody)) s d (.body thenBody) s
  | elseKnown {d cond thenBody elseBody known s} :
      (lower (envAt program options d) cond).literal? = some known → truth known = false →
      Calls d (.stmt (.ite cond thenBody elseBody)) s d (.stmt elseBody) s
  | chooseCond {d cond thenBody elseBody otherwise s s₁} :
      (lower (envAt program options d) cond).literal? = none → newLabel s = .ok otherwise s₁ →
      Calls d (.stmt (.ite cond thenBody elseBody)) s d (.branch cond otherwise false) s₁
  | thenBody {d cond thenBody elseBody otherwise s s₁} :
      (lower (envAt program options d) cond).literal? = none →
      beforeThen (lower (envAt program options d) cond) s = .ok otherwise s₁ →
      Calls d (.stmt (.ite cond thenBody elseBody)) s d (.body thenBody) s₁
  | elseBody {d cond thenBody elseBody done s s₁} :
      (lower (envAt program options d) cond).literal? = none →
      beforeElse (lower (envAt program options d) cond)
        (block (envAt program options d) thenBody) s = .ok done s₁ →
      Calls d (.stmt (.ite cond thenBody elseBody)) s d (.stmt elseBody) s₁
  | whileCond {d cond body entry s s₁} : beforeWhile s = .ok entry s₁ →
      Calls d (.stmt (.while cond body)) s d (.branch cond entry.exit false) s₁
  | whileBody {d cond body entry s s₁} :
      beforeRound (lower (envAt program options d) cond) s = .ok entry s₁ →
      Calls d (.stmt (.while cond body)) s
        d (.body body) { s₁ with loops := entry :: s₁.loops }
  | forStart {d start cond post body s} :
      Calls d (.stmt (.for start cond post body)) s d (.stmt start) s
  | forCond {d start cond post body top entry s s₁} :
      beforeFor (statement? (envAt program options d) start) s = .ok (top, entry) s₁ →
      Calls d (.stmt (.for start cond post body)) s d (.branch cond entry.exit false) s₁
  | forBody {d start cond post body top entry s s₁} :
      beforeForRound (statement? (envAt program options d) start)
        (lower? (envAt program options d) cond) s = .ok (top, entry) s₁ →
      Calls d (.stmt (.for start cond post body)) s
        d (.body body) { s₁ with loops := entry :: s₁.loops }
  | forPost {d start cond post body top entry s s₁} :
      beforePost (statement? (envAt program options d) start)
        (lower? (envAt program options d) cond) (block (envAt program options d) body) s =
          .ok (top, entry) s₁ →
      Calls d (.stmt (.for start cond post body)) s d (.stmt post) s₁

/-- The generation of a program up to the body of a function. -/
def upToBody (id : FnId) : Gen Unit := do
  emit [.sectionName ".text", .globalName "_start"]
  entryPoint (.of program options)
  (List.range id).forM (functionCode (.of program options))
  beginProcedure id (program.function id)
  emit (spillArguments (program.function id))

/-- The body of a function begins in a state. -/
def Begins (id : FnId) (body : List Stmt) (s : State) : Prop :=
  id < program.functions.size ∧ (program.function id).body = some body ∧
    upToBody program options id .initial = .ok () s

/-- A task that the generation of a program leads to, in its state. -/
inductive Visits : Nat → Task → State → Prop where
  | start {id body s} : Begins program options id body s →
      Visits options.inlineDepth.toNat (.body body) s
  | call {d task s d' task' s'} : Visits d task s → Calls program options d task s d' task' s' →
      Visits d' task' s'

end Calls

end X64Backend.Lower
