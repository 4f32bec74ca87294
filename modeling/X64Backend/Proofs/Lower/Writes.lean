import X64Backend.Proofs.Lower.Expressions
import X64Backend.Tree.Walk

/-!
What a body may do to a variable, and how much of it the write analysis sees.  The analysis answers
yes exactly if some node of the body, at any depth, assigns the variable, lends it to a by-reference
parameter of a call or writes it in a block (`writes_iff`).  Two kinds of node reach the storage of a
variable in the same way and are passed over: operators that stand for a call, and new objects.  So
the analysis is sound for the variables that none of these borrows (`reached_iff`).
-/

namespace X64Backend.Tree

theorem Expr.sizeOf_lt_of_mem_parts {whole part : Expr} (member : part ∈ whole.parts) :
    sizeOf part < sizeOf whole := by
  cases whole with
  | absent | lit | var | asm => simp [parts] at member
  | field | unary =>
    obtain rfl := List.mem_singleton.mp member
    simp +arith
  | binary | overloaded | logical =>
    obtain rfl | rfl : _ ∨ _ := by simpa [parts] using member
    all_goals simp +arith
  | call callee receiver arguments =>
    obtain rfl | among := List.mem_cons.mp member
    · simp +arith
    · have smaller := List.sizeOf_lt_of_mem among
      simp only [call.sizeOf_spec]
      omega
  | new cls arguments =>
    have smaller : sizeOf part < sizeOf arguments := List.sizeOf_lt_of_mem member
    simp only [new.sizeOf_spec]
    omega

namespace Stmt

theorem sizeOf_lt_of_mem_exprs {whole : Stmt} {part : Expr} (member : part ∈ whole.exprs) :
    sizeOf part < sizeOf whole := by
  cases whole with
  | absent | «break» | «continue» | block => simp [exprs] at member
  | expr | ret | ite | «while» | «for» =>
    obtain rfl := List.mem_singleton.mp member
    simp +arith
  | assign =>
    obtain rfl | rfl : _ ∨ _ := by simpa [exprs] using member
    all_goals simp +arith

theorem sizeOf_lt_of_mem_parts {whole part : Stmt} (member : part ∈ whole.parts) :
    sizeOf part < sizeOf whole := by
  cases whole with
  | absent | «break» | «continue» | expr | ret | assign => simp [parts] at member
  | ite cond thenBody elseBody =>
    obtain rfl | among := List.mem_cons.mp member
    · simp +arith
    · have smaller := List.sizeOf_lt_of_mem among
      simp only [ite.sizeOf_spec]
      omega
  | «while» _ body | block body =>
    have smaller : sizeOf part < sizeOf body := List.sizeOf_lt_of_mem member
    simp only [«while».sizeOf_spec, block.sizeOf_spec]
    omega
  | «for» start cond post body =>
    obtain rfl | rfl | among : _ ∨ _ ∨ part ∈ body := by simpa [parts] using member
    · simp +arith
    · simp +arith
    · have smaller := List.sizeOf_lt_of_mem among
      simp only [«for».sizeOf_spec]
      omega

end Stmt

/-- An expression or a statement. -/
inductive Node where
  | expr (e : Expr)
  | stmt (s : Stmt)

namespace Node

/-- The nodes right below a node. -/
def parts : Node → List Node
  | expr e => e.parts.map expr
  | stmt s => s.exprs.map expr ++ s.parts.map stmt

theorem sizeOf_lt_of_mem_parts {whole part : Node} (member : part ∈ whole.parts) :
    sizeOf part < sizeOf whole := by
  cases whole with
  | expr e =>
    obtain ⟨inner, inside, rfl⟩ := List.mem_map.mp member
    simpa using Expr.sizeOf_lt_of_mem_parts inside
  | stmt s =>
    obtain among | among := List.mem_append.mp member
    · obtain ⟨inner, inside, rfl⟩ := List.mem_map.mp among
      simpa using Stmt.sizeOf_lt_of_mem_exprs inside
    · obtain ⟨inner, inside, rfl⟩ := List.mem_map.mp among
      simpa using Stmt.sizeOf_lt_of_mem_parts inside

/-- A node is another one or stands in it, at any depth. -/
inductive Within (node : Node) : Node → Prop where
  | here : Within node node
  | part {whole part : Node} : part ∈ whole.parts → Within node part → Within node whole

/-- Whether a node counts by itself. -/
def counts (search : Search) : Node → Bool
  | expr (.call callee _ arguments _) => search.call callee arguments
  | expr (.asm block vars _) => search.asm block vars
  | stmt (.assign target _) => search.assign target
  | _ => false

/-- Whether anything in a node counts. -/
def any (search : Search) : Node → Bool
  | expr e => e.any search
  | stmt s => s.any search

theorem anyOfAll_expr (search : Search) (es : List Expr) :
    Expr.any.anyOfAll search es = es.any (Expr.any search) := by
  induction es with
  | nil => rfl
  | cons e rest inductionHypothesis =>
    rw [Expr.any.anyOfAll, inductionHypothesis, List.any_cons]

theorem anyOfAll_stmt (search : Search) (body : List Stmt) :
    Stmt.any.anyOfAll search body = body.any (Stmt.any search) := by
  induction body with
  | nil => rfl
  | cons s rest inductionHypothesis =>
    rw [Stmt.any.anyOfAll, inductionHypothesis, List.any_cons]

/-- A search looks at a node itself and at its parts. -/
theorem any_eq (search : Search) (node : Node) :
    node.any search = (node.counts search || node.parts.any (any search)) := by
  cases node with
  | expr e =>
    cases e <;> simp [any, Expr.any, counts, parts, Expr.parts, anyOfAll_expr, Function.comp_def,
      Bool.or_assoc]
  | stmt s =>
    cases s <;> simp [any, Stmt.any, counts, parts, Stmt.parts, Stmt.exprs, anyOfAll_stmt,
      Function.comp_def, Bool.or_assoc, Bool.or_left_comm, Bool.or_comm]

/-- A search finds whatever counts, and nothing else. -/
theorem any_iff (search : Search) (whole : Node) :
    whole.any search = true ↔ ∃ node, Within node whole ∧ node.counts search = true := by
  constructor
  · intro found
    rw [any_eq, Bool.or_eq_true, List.any_eq_true] at found
    obtain counted | ⟨part, member, inside⟩ := found
    · exact ⟨whole, .here, counted⟩
    · have smaller := sizeOf_lt_of_mem_parts member
      obtain ⟨node, within, counted⟩ := (any_iff search part).mp inside
      exact ⟨node, .part member within, counted⟩
  · rintro ⟨node, within, counted⟩
    induction within with
    | here => rw [any_eq, counted, Bool.true_or]
    | part member _ inductionHypothesis =>
      rw [any_eq, Bool.or_eq_true, List.any_eq_true]
      exact .inr ⟨_, member, inductionHypothesis⟩
termination_by sizeOf whole

end Node

/-- A variable is handed to a by-reference parameter. -/
def Lends (params : List Variable) (arguments : List Expr) (v : VarId) : Prop :=
  ∃ parameter, (.var v, parameter) ∈ arguments.zip params ∧ parameter.byRef = true

theorem Expr.variable?_eq_some {e : Expr} {v : VarId} : e.variable? = some v ↔ e = .var v := by
  cases e <;> simp [ Expr.variable?]

theorem passesByRef_iff (params : List Variable) (arguments : List Expr) (v : VarId) :
    passesByRef params arguments v = true ↔ Lends params arguments v := by
  rw [passesByRef, List.any_eq_true]
  constructor
  · rintro ⟨⟨argument, parameter⟩, member, lent⟩
    obtain ⟨rfl, byRef⟩ : argument = .var v ∧ parameter.byRef = true := by
      simpa [Expr.variable?_eq_some] using lent
    exact ⟨parameter, member, byRef⟩
  · rintro ⟨parameter, member, byRef⟩
    exact ⟨_, member, by simp [Expr.variable?_eq_some, byRef]⟩

/-- An instruction of a block writes an operand that names a variable of the procedure. -/
def WritesName (block : Block) (name : String) : Prop :=
  ∃ instruction reference position, .instr instruction ∈ block.statements ∧
    (.var reference, position) ∈ instruction.operands.zip instruction.spec.positions ∧
    position.written = true ∧ reference.name = name

theorem mem_writtenVariables (block : Block) (name : String) :
    name ∈ block.writtenVariables ↔ WritesName block name := by
  rw [Block.writtenVariables, List.mem_eraseDups, List.mem_flatMap]
  constructor
  · rintro ⟨statement, member, written⟩
    cases statement with
    | alloc | free | value => simp [Block.Statement.written] at written
    | instr instruction =>
      obtain ⟨⟨operand, position⟩, zipped, yields⟩ := List.mem_filterMap.mp written
      cases operand with
      | reg | mem | lit => contradiction
      | var reference =>
        obtain ⟨writes, named⟩ : position.written = true ∧ reference.name = name := by
          simpa using yields
        exact ⟨instruction, reference, position, member, zipped, writes, named⟩
  · rintro ⟨instruction, reference, position, member, zipped, writes, rfl⟩
    refine ⟨_, member, List.mem_filterMap.mpr ⟨_, zipped, ?_⟩⟩
    simp [writes]

/-- A node changes a variable in a way that the analysis looks for. -/
inductive Changes (program : TypedProgram) (v : VarId) : Node → Prop where
  | assign {value : Expr} : Changes program v (.stmt (.assign (.var v) value))
  | call {callee : FnId} {receiver : Expr} {arguments : List Expr} {isVirtual : Bool} :
      Lends (program.function callee).params arguments v →
      Changes program v (.expr (.call callee receiver arguments isVirtual))
  | block {block : Block} {vars : List (String × VarId)} {type : TypeRef} {name : String} :
      WritesName block name → vars.lookup name = some v →
      Changes program v (.expr (.asm block vars type))

/-- A node hands a variable to a by-reference parameter without being a call in the source: an
operator that stands for a call, or a new object with its constructor. -/
inductive Borrows (program : TypedProgram) (v : VarId) : Node → Prop where
  | overloaded {op : BinaryOp} {left right : Expr} {type : TypeRef} {callee : FnId} :
      Lends (program.function callee).params [left, right] v →
      Borrows program v (.expr (.overloaded op left right type callee))
  | new {cls : ClassId} {ctor : FnId} {arguments : List Expr} :
      (program.cls cls).ctor = some ctor → Lends (program.function ctor).params arguments v →
      Borrows program v (.expr (.new cls arguments))

/-- What the write analysis looks for. -/
def Search.ofWrites (program : TypedProgram) (v : VarId) : Search where
  call callee arguments := passesByRef (program.function callee).params arguments v
  asm block vars := block.writtenVariables.any fun name => vars.lookup name = some v
  assign target := target.variable? = some v

theorem counts_ofWrites (program : TypedProgram) (v : VarId) (node : Node) :
    node.counts (.ofWrites program v) = true ↔ Changes program v node := by
  constructor
  · fun_cases Node.counts (.ofWrites program v) node with
    | case1 callee receiver arguments isVirtual =>
      exact fun lent => .call ((passesByRef_iff _ _ _).mp lent)
    | case2 block vars type =>
      intro found
      obtain ⟨name, written, named⟩ := List.any_eq_true.mp found
      exact .block ((mem_writtenVariables block name).mp written) (of_decide_eq_true named)
    | case3 target value =>
      intro named
      obtain rfl := Expr.variable?_eq_some.mp (of_decide_eq_true named)
      exact .assign
    | case4 => exact nofun
  · rintro (_ | lent | ⟨written, found⟩)
    · simp [Node.counts, Search.ofWrites, Expr.variable?_eq_some]
    · exact (passesByRef_iff _ _ _).mpr lent
    · refine List.any_eq_true.mpr ⟨_, (mem_writtenVariables _ _).mpr written, ?_⟩
      exact decide_eq_true found

/-- The analysis answers yes exactly if an assignment, a by-reference parameter of a call or a block
changes the variable somewhere in the body. -/
theorem writes_iff (program : TypedProgram) (body : List Stmt) (v : VarId) :
    writes program body v = true ↔
      ∃ node, Node.Within node (.stmt (.block body)) ∧ Changes program v node := by
  have searched := Node.any_iff (.ofWrites program v) (.stmt (.block body))
  simp only [counts_ofWrites] at searched
  exact searched

/-- Besides what the analysis finds, a body reaches the storage of a variable only where an operator
or a new object borrows it. -/
theorem reached_iff (program : TypedProgram) (body : List Stmt) (v : VarId) :
    (∃ node, Node.Within node (.stmt (.block body)) ∧
        (Changes program v node ∨ Borrows program v node)) ↔
      writes program body v = true ∨
        ∃ node, Node.Within node (.stmt (.block body)) ∧ Borrows program v node := by
  simp only [writes_iff, and_or_left, exists_or]

/-- An operator that stands for a call and borrows its left operand is passed over, whatever the
function does with it. -/
theorem writes_overloaded {program : TypedProgram} {callee : FnId} {v : VarId} {value : Literal}
    {valueType : TypeRef}
    (lent : Lends (program.function callee).params [.var v, .lit value valueType] v)
    (op : BinaryOp) (type : TypeRef) :
    let operator := .overloaded op (.var v) (.lit value valueType) type callee
    Borrows program v (.expr operator) ∧ writes program [.ret operator] v = false := by
  exact ⟨.overloaded lent, rfl⟩

end X64Backend.Tree
