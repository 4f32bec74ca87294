import X64Backend.Tree.TypedProgram

/-!
Walks over trees: the nodes in the order of evaluation, and what a body may write.
-/

namespace X64Backend.Tree

/-- The names of the nodes of an expression, depth first.  Where `cutCalls` is set, the parts of a
call are left out. -/
def Expr.nodes (cutCalls : Bool) : Expr → List String
  | .absent => []
  | .lit _ _ => ["Lit"]
  | .var _ => ["VarRef"]
  | .field object _ => "FieldRef" :: object.nodes cutCalls
  | .binary _ left right _ => "Binary" :: left.nodes cutCalls ++ right.nodes cutCalls
  | .overloaded _ left right _ _ => "Binary" :: left.nodes cutCalls ++ right.nodes cutCalls
  | .unary _ operand _ => "Unary" :: operand.nodes cutCalls
  | .logical _ left right => "Logical" :: left.nodes cutCalls ++ right.nodes cutCalls
  | .call _ receiver arguments _ =>
      "Call" :: if cutCalls then [] else receiver.nodes cutCalls ++ nodesOfAll cutCalls arguments
  | .new _ arguments => "New" :: nodesOfAll cutCalls arguments
  | .asm _ _ _ => ["Asm"]
where
  nodesOfAll (cutCalls : Bool) : List Expr → List String
    | [] => []
    | e :: rest => e.nodes cutCalls ++ nodesOfAll cutCalls rest

def Stmt.nodes (cutCalls : Bool) : Stmt → List String
  | .absent => []
  | .expr value => "ExprStmt" :: value.nodes cutCalls
  | .assign target value => "Assign" :: target.nodes cutCalls ++ value.nodes cutCalls
  | .ret value => "Return" :: value.nodes cutCalls
  | .ite cond thenBody elseBody =>
      "If" :: cond.nodes cutCalls ++ "Block" :: nodesOfAll cutCalls thenBody ++
        elseBody.nodes cutCalls
  | .while cond body => "While" :: cond.nodes cutCalls ++ "Block" :: nodesOfAll cutCalls body
  | .for start cond post body =>
      "For" :: start.nodes cutCalls ++ cond.nodes cutCalls ++ post.nodes cutCalls ++
        "Block" :: nodesOfAll cutCalls body
  | .break => ["Break"]
  | .continue => ["Continue"]
  | .block body => "Block" :: nodesOfAll cutCalls body
where
  nodesOfAll (cutCalls : Bool) : List Stmt → List String
    | [] => []
    | s :: rest => s.nodes cutCalls ++ nodesOfAll cutCalls rest

/-- Whether a variable is handed to a by-reference parameter. -/
def passesByRef (params : List Variable) (arguments : List Expr) (v : VarId) : Bool :=
  (arguments.zip params).any fun (argument, param) =>
    argument.variable? = some v && param.byRef

/-- What makes an expression count, and which parts are looked at. -/
structure Search where
  call : FnId → List Expr → Bool
  asm : Block → List (String × VarId) → Bool
  assign : Expr → Bool

def Expr.any (search : Search) : Expr → Bool
  | .absent | .lit _ _ | .var _ => false
  | .field object _ => object.any search
  | .binary _ left right _ => left.any search || right.any search
  | .overloaded _ left right _ _ => left.any search || right.any search
  | .unary _ operand _ => operand.any search
  | .logical _ left right => left.any search || right.any search
  | .call callee receiver arguments _ =>
      search.call callee arguments || receiver.any search || anyOfAll search arguments
  | .new _ arguments => anyOfAll search arguments
  | .asm block vars _ => search.asm block vars
where
  anyOfAll (search : Search) : List Expr → Bool
    | [] => false
    | e :: rest => e.any search || anyOfAll search rest

def Stmt.any (search : Search) : Stmt → Bool
  | .absent | .break | .continue => false
  | .expr value => value.any search
  | .assign target value => search.assign target || target.any search || value.any search
  | .ret value => value.any search
  | .ite cond thenBody elseBody =>
      cond.any search || anyOfAll search thenBody || elseBody.any search
  | .while cond body => cond.any search || anyOfAll search body
  | .for start cond post body =>
      start.any search || cond.any search || post.any search || anyOfAll search body
  | .block body => anyOfAll search body
where
  anyOfAll (search : Search) : List Stmt → Bool
    | [] => false
    | s :: rest => s.any search || anyOfAll search rest

/-- Whether a body hands a variable to a by-reference parameter of a call. -/
def passesByRefIn (program : TypedProgram) (body : List Stmt) (v : VarId) : Bool :=
  (Stmt.block body).any
    { call := fun callee arguments => passesByRef (program.function callee).params arguments v
      asm := fun _ _ => false
      assign := fun _ => false }

/-- Whether a body may change a variable: by assigning it, by handing it to a by-reference
parameter of a call, or by an instruction of a block that writes it. -/
def writes (program : TypedProgram) (body : List Stmt) (v : VarId) : Bool :=
  (Stmt.block body).any
    { call := fun callee arguments => passesByRef (program.function callee).params arguments v
      asm := fun block vars =>
        block.writtenVariables.any fun name => vars.lookup name = some v
      assign := fun target => target.variable? = some v }

def Stmt.hasReturn : Stmt → Bool
  | .ret _ => true
  | .ite _ thenBody elseBody => anyReturn thenBody || elseBody.hasReturn
  | .while _ body => anyReturn body
  | .for start _ post body => start.hasReturn || post.hasReturn || anyReturn body
  | .block body => anyReturn body
  | .absent | .expr _ | .assign _ _ | .break | .continue => false
where
  anyReturn : List Stmt → Bool
    | [] => false
    | s :: rest => s.hasReturn || anyReturn rest

end X64Backend.Tree
