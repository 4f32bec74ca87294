import X64Backend.CallingConvention
import X64Backend.Hash
import X64Backend.Text.Lines
import X64Backend.Tree.Node

/-!
Functions: their variables, modifiers, names and frames.
-/

namespace X64Backend.Tree

/-- A receiver, parameter or local, at its offset from the frame pointer.  A by-reference variable
holds the address of its value. -/
structure Variable where
  name : String
  type : TypeRef
  byRef : Bool
  param : Bool
  offset : Int64
  deriving DecidableEq, Repr, Inhabited

namespace Variable

def storage (v : Variable) : Int64 :=
  if v.byRef then 8 else v.type.storage

def operandSize (v : Variable) : Size :=
  if v.byRef then .s64 else v.type.operandSize

def text (v : Variable) : String :=
  if v.byRef then "ref " ++ v.name else v.name

/-- The identity of the variable's type, negated for a reference. -/
def identity (v : Variable) : Int64 :=
  if v.byRef then -v.type.id else v.type.id

end Variable

structure Mods where
  isStatic : Bool
  isInline : Bool
  returnsRef : Bool
  isUnsafe : Bool
  isVirtual : Bool
  deriving DecidableEq, Repr, Inhabited

namespace Mods

def none : Mods := ⟨false, false, false, false, false⟩

/-- The modifiers that the low bits of a number stand for. -/
def ofNumber (number : Nat) : Mods :=
  ⟨number.testBit 0, number.testBit 1, number.testBit 2, number.testBit 3, number.testBit 4⟩

def ofNames (names : List String) : Mods :=
  { isStatic := names.contains "static"
    isInline := names.contains "inline"
    returnsRef := names.contains "ref"
    isUnsafe := names.contains "unsafe"
    isVirtual := names.contains "virtual" }

def names (mods : Mods) : List String :=
  (if mods.isStatic then ["static"] else []) ++ (if mods.isInline then ["inline"] else []) ++
    (if mods.returnsRef then ["ref"] else []) ++ (if mods.isUnsafe then ["unsafe"] else []) ++
    (if mods.isVirtual then ["virtual"] else [])

def text (mods : Mods) : String :=
  Text.join " " mods.names

end Mods

structure Function where
  name : String
  owner : String
  /-- The variable for the object that a method is called on. -/
  receiver : Option Variable
  params : List Variable
  locals : List Variable
  returnType : TypeRef
  mods : Mods
  /-- A function that is defined elsewhere has none. -/
  body : Option (List Stmt)
  frameSize : Int64
  /-- Whether another function has the same owner and name. -/
  overloaded : Bool
  /-- The place of a virtual method in the method table. -/
  vindex : Nat
  deriving Inhabited

namespace Function

/-- The receiver, if there is one, and the parameters. -/
def args (fn : Function) : List Variable :=
  fn.receiver.toList ++ fn.params

/-- Every variable, in the order that gives them their index. -/
def vars (fn : Function) : List Variable :=
  fn.args ++ fn.locals

def var (fn : Function) (index : Nat) : Variable :=
  (fn.vars[index]?).getD default

def qualifiedName (fn : Function) : String :=
  if fn.owner = "" then fn.name else fn.owner ++ "." ++ fn.name

/-- The symbol of the function: overloads carry a hash of their parameter types. -/
def linkName (fn : Function) : String :=
  if fn.overloaded then fn.qualifiedName ++ Hash.suffix (fn.params.map Variable.identity)
  else fn.qualifiedName

def signature (fn : Function) : String :=
  let params := fn.params.map fun v => v.type.name ++ " " ++ v.text
  let head := fn.returnType.name ++ " " ++ fn.name ++ "(" ++ Text.join ", " params ++ ")"
  if fn.mods = .none then head else fn.mods.text ++ " " ++ head

/-- The number of arguments that arrive in registers. -/
def registerArgs : Nat := CallingConvention.argumentRegisters.length

/-- Gives each variable the next free place below the frame pointer, aligned to its own size.  The
second result is the depth reached. -/
def placeBelow : (depth : Int64) → List Variable → List Variable × Int64
  | depth, [] => ([], depth)
  | depth, v :: rest =>
      let reached := alignUp (depth + v.storage) v.storage
      let (placed, final) := placeBelow reached rest
      ({ v with offset := -reached } :: placed, final)

/-- Gives each variable eight bytes above the frame pointer and the return address. -/
def placeAbove : (count : Nat) → List Variable → List Variable
  | _, [] => []
  | count, v :: rest =>
      { v with offset := 16 + 8 * .ofNat count } :: placeAbove (count + 1) rest

/-- Lays out the frame: register arguments and locals below the frame pointer, the other arguments
where the caller pushed them. -/
def layoutFrame (fn : Function) : Function :=
  let args := fn.args.map fun v => { v with param := true }
  let (inRegisters, depth) := placeBelow 0 (args.take registerArgs)
  let onStack := placeAbove 0 (args.drop registerArgs)
  let (locals, depth) := placeBelow depth fn.locals
  let placed := inRegisters ++ onStack
  let (receiver, params) :=
    match fn.receiver, placed with
    | some _, first :: rest => (some first, rest)
    | _, all => (none, all)
  { fn with receiver, params, locals, frameSize := alignUp depth 8 }

end Function

end X64Backend.Tree
