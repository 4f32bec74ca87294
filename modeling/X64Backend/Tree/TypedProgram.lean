import X64Backend.Tree.Class

/-!
Whole programs: their classes, functions and entry point.
-/

namespace X64Backend.Tree

/-- A typed program.  Functions and classes are referred to by their index. -/
structure TypedProgram where
  classes : Array Class
  functions : Array Function
  /-- The function to start with; the options decide if it is empty. -/
  entry : String
  deriving Inhabited

namespace TypedProgram

def function (program : TypedProgram) (id : FnId) : Function :=
  program.functions.getD id default

def cls (program : TypedProgram) (id : ClassId) : Class :=
  program.classes.getD id default

def var (program : TypedProgram) (id : VarId) : Variable :=
  (program.function id.fn).var id.index

/-- Finds a function by its plain name or its symbol. -/
def lookup (program : TypedProgram) (name : String) : Option Function :=
  program.functions.find? fun fn => fn.name = name || fn.linkName = name

/-- The functions that share owner and name are overloads. -/
def markOverloads (functions : Array Function) : Array Function :=
  let key (fn : Function) : String := fn.owner ++ "." ++ fn.name
  let keys := functions.toList.map key
  functions.map fun fn => { fn with overloaded := 1 < keys.count (key fn) }

/-- A program with overloads marked and every frame laid out. -/
def ofParts (entry : String) (classes : Array Class) (functions : Array Function) : TypedProgram :=
  { classes, entry, functions := (markOverloads functions).map Function.layoutFrame }

end TypedProgram

/-- The type of the value of an expression; a missing one has none. -/
def Expr.type (program : TypedProgram) : Expr → TypeRef
  | .absent => .void
  | .lit _ type => type
  | .var id => (program.var id).type
  | .field _ member => member.type
  | .binary _ _ _ type => type
  | .overloaded _ _ _ type _ => type
  | .unary _ _ type => type
  | .logical _ _ _ => .bool
  | .call callee _ _ _ => (program.function callee).returnType
  | .new cls _ => Class.reference (program.cls cls).name cls
  | .asm _ _ type => type

end X64Backend.Tree
