import X64Backend.Block.Statement
import X64Backend.Tree.Type

/-!
Expressions and statements with all names resolved.

A variable is a place in the variables of its function: the receiver if there is one, the
parameters, then the locals.  A node that is missing is `absent`; where a part is optional, `absent`
stands for its absence.
-/

namespace X64Backend.Tree

/-- The index of a function in its program. -/
abbrev FnId := Nat

structure VarId where
  fn : FnId
  index : Nat
  deriving DecidableEq, Repr, Inhabited

/-- A data member of a class at its offset in an instance. -/
structure Field where
  name : String
  type : TypeRef
  offset : Int64
  deriving DecidableEq, Repr, Inhabited

inductive BinaryOp where
  | add
  | sub
  | mul
  | div
  | mod
  | and
  | or
  | xor
  | shl
  | shr
  | eq
  | ne
  | lt
  | le
  | gt
  | ge
  | other (symbol : String)
  deriving DecidableEq, Repr, Inhabited

namespace BinaryOp

def symbol : BinaryOp → String
  | add => "+"
  | sub => "-"
  | mul => "*"
  | div => "/"
  | mod => "%"
  | and => "&"
  | or => "|"
  | xor => "^"
  | shl => "<<"
  | shr => ">>"
  | eq => "=="
  | ne => "!="
  | lt => "<"
  | le => "<="
  | gt => ">"
  | ge => ">="
  | other symbol => symbol

/-- The operators with a meaning. -/
def known : List BinaryOp :=
  [add, sub, mul, div, mod, and, or, xor, shl, shr, eq, ne, lt, le, gt, ge]

def ofSymbol (text : String) : BinaryOp :=
  (known.find? fun op => op.symbol = text).getD (other text)

def isComparison : BinaryOp → Bool
  | eq | ne | lt | le | gt | ge => true
  | _ => false

end BinaryOp

inductive UnaryOp where
  | neg
  | compl
  | not
  | other (symbol : String)
  deriving DecidableEq, Repr, Inhabited

namespace UnaryOp

def symbol : UnaryOp → String
  | neg => "-"
  | compl => "~"
  | not => "!"
  | other symbol => symbol

def ofSymbol : String → UnaryOp
  | "-" => neg
  | "~" => compl
  | "!" => not
  | text => other text

end UnaryOp

/-- Operators that evaluate their right side only if the left one does not decide. -/
inductive LogicalOp where
  | and
  | or
  deriving DecidableEq, Repr, Inhabited

def LogicalOp.symbol : LogicalOp → String
  | and => "&&"
  | or => "||"

/-- The value of one side that decides the whole. -/
def LogicalOp.decisive : LogicalOp → Bool
  | and => false
  | or => true

inductive Expr where
  | absent
  | lit (value : Literal) (type : TypeRef)
  | var (id : VarId)
  | field (object : Expr) (member : Field)
  | binary (op : BinaryOp) (left right : Expr) (type : TypeRef)
  /-- An operator that stands for a call of a function. -/
  | overloaded (op : BinaryOp) (left right : Expr) (type : TypeRef) (callee : FnId)
  | unary (op : UnaryOp) (operand : Expr) (type : TypeRef)
  | logical (op : LogicalOp) (left right : Expr)
  /-- A virtual call is dispatched through the method table of the receiver. -/
  | call (callee : FnId) (receiver : Expr) (arguments : List Expr) (isVirtual : Bool)
  | new (cls : ClassId) (arguments : List Expr)
  | asm (block : Block) (vars : List (String × VarId)) (type : TypeRef)
  deriving Inhabited

def Expr.isAbsent : Expr → Bool
  | absent => true
  | _ => false

def Expr.literal? : Expr → Option Literal
  | lit value _ => some value
  | _ => none

def Expr.variable? : Expr → Option VarId
  | var id => some id
  | _ => none

inductive Stmt where
  | absent
  | expr (value : Expr)
  | assign (target value : Expr)
  | ret (value : Expr)
  | ite (cond : Expr) (thenBody : List Stmt) (elseBody : Stmt)
  | while (cond : Expr) (body : List Stmt)
  | for (start : Stmt) (cond : Expr) (post : Stmt) (body : List Stmt)
  | break
  | continue
  | block (body : List Stmt)
  deriving Inhabited

def Stmt.isAbsent : Stmt → Bool
  | absent => true
  | _ => false

end X64Backend.Tree
