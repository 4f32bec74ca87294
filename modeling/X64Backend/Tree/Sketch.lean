import X64Backend.Tree.Type
import X64Backend.Code.Literal

/-!
Programs as they are written down: trees that refer to types, variables, fields, functions and
classes by name, with inline assembly as text.
-/

namespace X64Backend.Tree.Sketch

/-- An expression with names. -/
inductive Expr where
  | absent
  /-- A 64-bit signed literal, or a literal of a named type. -/
  | intLit (value : Int) (type : Option String)
  | boolLit (value : Bool)
  | strLit (value : String)
  | lit (value : Literal) (type : String)
  | var (name : String)
  | field (object : Expr) (name : String)
  /-- A named type overrides the type of the result. -/
  | binary (op : String) (left right : Expr) (type : Option String)
  | overloaded (op : String) (left right : Expr) (callee : String)
  | unary (op : String) (operand : Expr) (type : Option String)
  | and (left right : Expr)
  | or (left right : Expr)
  | call (callee : String) (arguments : List Expr)
  /-- A call of a method, virtual if the method is. -/
  | method (receiver : Expr) (callee : String) (arguments : List Expr)
  /-- A call that is never virtual. -/
  | direct (receiver : Expr) (callee : String) (arguments : List Expr)
  | new (cls : String) (arguments : List Expr)
  | asm (name source type : String) (vars : List String)
  deriving Inhabited

inductive Stmt where
  | absent
  | expr (value : Expr)
  | assign (target value : Expr)
  | ret (value : Expr)
  | ite (cond : Expr) (thenBody : List Stmt) (elseBody : Stmt)
  | while (cond : Expr) (body : List Stmt)
  | for (start : Stmt) (cond : Expr) (post : Stmt) (body : List Stmt)
  | break
  | continue
  | block (body : List Stmt)
  deriving Inhabited

/-- A variable with the name of its type. -/
structure Var where
  name : String
  type : String
  byRef : Bool

/-- A function.  Its key is what calls refer to it by. -/
structure Function where
  key : Option String
  name : String
  owner : String
  returnType : String
  params : List Var
  locals : List Var
  mods : List String
  /-- Defined elsewhere. -/
  external : Bool
  body : List Stmt

structure Class where
  name : String
  fields : List (String × String)
  methods : List Function
  /-- The key of the constructor. -/
  ctor : Option String

structure Program where
  entry : String
  types : List TypeRef
  classes : List Class
  functions : List Function

end X64Backend.Tree.Sketch
