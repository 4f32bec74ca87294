import X64Backend.Block.Parser
import X64Backend.Tree.Sketch
import X64Backend.Tree.TypedProgram

/-!
From names to typed trees.  Types come first, then the layout of the classes and the signatures of
all functions, then the bodies: methods in the order of their classes, then the listed functions.
The first inline assembly block that cannot be read ends the resolution.
-/

namespace X64Backend.Tree

namespace Sketch

/-- Why a program has no typed tree. -/
inductive Error where
  /-- A block cannot be read; the report lists why. -/
  | block (report : String)
  | unknownType (name : String)
  | unknownVariable (name : String)
  | unknownField (name : String)
  | unknownFunction (key : String)
  | unknownClass (name : String)
  /-- An operator without a left side has no type. -/
  | untyped
  deriving DecidableEq, Repr

/-- Types by name; later entries win and come first. -/
abbrev TypeTable := List (String × TypeRef)

def typeNamed (types : TypeTable) (name : String) : Except Error TypeRef :=
  match types.lookup name with
  | some type => .ok type
  | none => .error (.unknownType name)

/-- The types of a program: its classes, those that every program knows, and its own.  Where a name
occurs twice, the later one is meant. -/
def typeTable (program : Program) : TypeTable :=
  let plain := (TypeRef.predefined ++ program.types).map fun type => (type.name, type)
  let classes := program.classes.mapIdx fun index c => (c.name, Tree.Class.reference c.name index)
  (classes ++ plain).reverse

def typedVar (types : TypeTable) (isParam : Bool) (v : Var) : Except Error Variable := do
  return { name := v.name, type := ← typeNamed types v.type, byRef := v.byRef, param := isParam
           offset := 0 }

/-- The signature of a function: all but its body.  A method that is not static has a receiver. -/
def signature (types : TypeTable) (cls : Option (Nat × String)) (fn : Function) :
    Except Error Tree.Function := do
  let given := Mods.ofNames fn.mods
  let (owner, mods, receiver) :=
    match cls with
    | none => (fn.owner, { given with isStatic := true }, none)
    | some (index, name) =>
        let this : Variable :=
          { name := "this", type := Tree.Class.reference name index, byRef := false, param := true
            offset := 0 }
        (name, given, if given.isStatic then none else some this)
  return {
    name := fn.name
    owner
    receiver
    params := ← fn.params.mapM (typedVar types true)
    locals := ← fn.locals.mapM (typedVar types false)
    returnType := ← typeNamed types fn.returnType
    mods
    body := none
    frameSize := 0
    overloaded := false
    vindex := 0 }

/-- What calls refer to a function by. -/
def keyOf (sketch : Function) (fn : Tree.Function) : String :=
  sketch.key.getD fn.qualifiedName

/-- Functions by key; later entries win and come first. -/
abbrev KeyTable := List (String × FnId)

def functionNamed (keys : KeyTable) (key : String) : Except Error FnId :=
  match keys.lookup key with
  | some id => .ok id
  | none => .error (.unknownFunction key)

/-- What names in a body refer to. -/
structure Names where
  types : TypeTable
  keys : KeyTable
  /-- The program with signatures only. -/
  program : TypedProgram
  fn : FnId

namespace Names

/-- Looks up a variable; of two with one name the later one is meant. -/
def varNamed (names : Names) (name : String) : Except Error VarId :=
  let vars := (names.program.function names.fn).vars
  match (vars.mapIdx fun index v => (v.name, index)).reverse.lookup name with
  | some index => .ok ⟨names.fn, index⟩
  | none => .error (.unknownVariable name)

def cls (names : Names) (name : String) : Except Error ClassId :=
  let classes := names.program.classes.toList
  match (classes.mapIdx fun index c => (c.name, index)).reverse.lookup name with
  | some index => .ok index
  | none => .error (.unknownClass name)

def field (names : Names) (object : Tree.Expr) (name : String) : Except Error Field :=
  match (object.type names.program).cls.bind fun c => (names.program.cls c).field? name with
  | some found => .ok found
  | none => .error (.unknownField name)

/-- The type that a name overrides, or else the type of an operand. -/
def typeOr (names : Names) (given : Option String) (operand : Tree.Expr) :
    Except Error TypeRef :=
  match given with
  | some name => typeNamed names.types name
  | none => if operand.isAbsent then .error .untyped else .ok (operand.type names.program)

def block (name source : String) : Except Error Block :=
  let parsed := Block.parse name source .empty
  if parsed.ok then .ok parsed.block else .error (.block (parsed.collector.report false))

def expr (names : Names) : Expr → Except Error Tree.Expr
  | .absent => .ok .absent
  | .intLit value type => do
      let type ←
        match type with
        | some name => typeNamed names.types name
        | none => .ok .int
      return .lit (.ofInt value) type
  | .boolLit value => .ok (.lit (.ofBool value) .bool)
  | .strLit value => .ok (.lit ⟨.string, value⟩ .string)
  | .lit value type => do
      return .lit value (← typeNamed names.types type)
  | .var name => do
      return .var (← names.varNamed name)
  | .field object name => do
      let object ← names.expr object
      return .field object (← names.field object name)
  | .binary op left right type => do
      let left ← names.expr left
      let right ← names.expr right
      let op := BinaryOp.ofSymbol op
      let type ←
        if type.isNone && op.isComparison then .ok .bool else names.typeOr type left
      return .binary op left right type
  | .overloaded op left right callee => do
      let left ← names.expr left
      let right ← names.expr right
      let callee ← functionNamed names.keys callee
      return .overloaded (.ofSymbol op) left right (names.program.function callee).returnType callee
  | .unary op operand type => do
      let operand ← names.expr operand
      let op := UnaryOp.ofSymbol op
      let type ← if type.isNone && op = .not then .ok .bool else names.typeOr type operand
      return .unary op operand type
  | .and left right => do
      return .logical .and (← names.expr left) (← names.expr right)
  | .or left right => do
      return .logical .or (← names.expr left) (← names.expr right)
  | .call callee arguments => do
      let callee ← functionNamed names.keys callee
      return .call callee .absent (← all names arguments) false
  | .method receiver callee arguments => do
      let receiver ← names.expr receiver
      let callee ← functionNamed names.keys callee
      return .call callee receiver (← all names arguments)
        (names.program.function callee).mods.isVirtual
  | .direct receiver callee arguments => do
      let receiver ← names.expr receiver
      let callee ← functionNamed names.keys callee
      return .call callee receiver (← all names arguments) false
  | .new cls arguments => do
      return .new (← names.cls cls) (← all names arguments)
  | .asm name source type vars => do
      let block ← block name source
      let type ← typeNamed names.types type
      let vars ← vars.mapM fun name => do
        return (name, ← names.varNamed name)
      return .asm block vars type
where
  all (names : Names) : List Expr → Except Error (List Tree.Expr)
    | [] => .ok []
    | e :: rest => do
        return (← names.expr e) :: (← all names rest)

def stmt (names : Names) : Stmt → Except Error Tree.Stmt
  | .absent => .ok .absent
  | .expr value => do
      return .expr (← names.expr value)
  | .assign target value => do
      return .assign (← names.expr target) (← names.expr value)
  | .ret value => do
      return .ret (← names.expr value)
  | .ite cond thenBody elseBody => do
      return .ite (← names.expr cond) (← all names thenBody) (← names.stmt elseBody)
  | .while cond body => do
      return .while (← names.expr cond) (← all names body)
  | .for start cond post body => do
      let start ← names.stmt start
      let cond ← names.expr cond
      let post ← names.stmt post
      return .for start cond post (← all names body)
  | .break => .ok .break
  | .continue => .ok .continue
  | .block body => do
      return .block (← all names body)
where
  all (names : Names) : List Stmt → Except Error (List Tree.Stmt)
    | [] => .ok []
    | s :: rest => do
        return (← names.stmt s) :: (← all names rest)

def body (names : Names) (sketch : Function) : Except Error (Option (List Tree.Stmt)) :=
  if sketch.external then .ok none else (stmt.all names sketch.body).map some

end Names

/-- The methods of all classes, in order, with the index and name of their class. -/
def methods (program : Program) : List ((Nat × String) × Function) :=
  (program.classes.mapIdx fun index c => c.methods.map fun fn => ((index, c.name), fn)).flatten

/-- The classes with their fields laid out and their methods added.  Methods are numbered from
`first` on. -/
def layoutClasses (types : TypeTable) :
    (first : FnId) → List Class → Except Error (List Tree.Class)
  | _, [] => .ok []
  | first, c :: rest => do
      let fields ← c.fields.mapM fun (name, type) => do
        return Field.mk name (← typeNamed types type) 0
      let base := Tree.Class.ofFields c.name fields
      let withMethods := (c.methods.mapIdx fun index fn => (first + index, fn)).foldl
        (fun cls (id, fn) => cls.addMethod id (Mods.ofNames fn.mods)) base
      return withMethods :: (← layoutClasses types (first + c.methods.length) rest)

/-- The place of a method in the method table of its class. -/
def vindexOf (classes : List Tree.Class) (id : FnId) : Nat :=
  (classes.findSome? fun c => c.virtual.idxOf? id).getD 0

end Sketch

open Sketch in
def TypedProgram.ofSketch (sketch : Sketch.Program) : Except Sketch.Error TypedProgram := do
  let types := typeTable sketch
  let count := sketch.functions.length
  let classes ← layoutClasses types count sketch.classes
  let methods := methods sketch
  let methodSignatures ← methods.mapM fun (cls, fn) => signature types (some cls) fn
  let methodSignatures := methodSignatures.mapIdx fun index fn =>
    { fn with vindex := vindexOf classes (count + index) }
  let functionSignatures ← sketch.functions.mapM (signature types none)
  let keys : KeyTable :=
    let ofMethods := (methods.zip methodSignatures).mapIdx fun index ((_, fn), signature) =>
      (keyOf fn signature, count + index)
    let ofFunctions := (sketch.functions.zip functionSignatures).mapIdx fun index (fn, signature) =>
      (keyOf fn signature, index)
    (ofMethods ++ ofFunctions).reverse
  let classes ← (classes.zip sketch.classes).mapM fun (cls, c) => do
    match c.ctor with
    | none => return cls
    | some key => return { cls with ctor := some (← functionNamed keys key) }
  let functions := functionSignatures ++ methodSignatures
  let names (fn : FnId) : Names :=
    { types, keys, fn
      program := { classes := classes.toArray, functions := functions.toArray, entry := "" } }
  let methodBodies ← (methods.mapIdx fun index (_, fn) => (count + index, fn)).mapM
    fun (id, fn) => (names id).body fn
  let functionBodies ← (sketch.functions.mapIdx fun index fn => (index, fn)).mapM
    fun (id, fn) => (names id).body fn
  let complete := (functions.zip (functionBodies ++ methodBodies)).map
    fun (fn, body) => { fn with body }
  return .ofParts sketch.entry classes.toArray complete.toArray

end X64Backend.Tree
