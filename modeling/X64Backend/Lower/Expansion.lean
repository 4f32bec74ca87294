import X64Backend.Lower.Statement
import X64Backend.Tree.Walk

/-!
Inline expansion: the body of a function in place of a call.  Parameters stand for the operands of
the caller.  A parameter that the body writes gets a copy of its own, and so does a memory cell when
the function also has by-reference parameters, through which the cell might change.
-/

namespace X64Backend.Lower

open X64Backend.Tree

def needsCopy (program : TypedProgram) (fn : Function) (body : List Stmt) (id : VarId)
    (v : Variable) (argument : Operand) : Bool :=
  !v.byRef && (writes program body id || (fn.params.any Variable.byRef && argument.isMem))

/-- Copies an argument to a place that the expansion may change.  A place whose address is handed on
has to be in memory. -/
def copyArgument (program : TypedProgram) (body : List Stmt) (id : VarId) (v : Variable)
    (argument : Operand) : Gen Operand := do
  let copy ←
    if passesByRefIn program body id then stackTemp v.operandSize else stable v.operandSize
  move copy argument v.type.isSigned .lowFirst
  drafting (Drafting.lock copy)
  return copy

/-- What the parameters stand for, with the copies among them. -/
structure Bound where
  entries : List (VarId × Operand)
  copies : List Operand

def bindArgument (program : TypedProgram) (fn : Function) (body : List Stmt) (bound : Bound) :
    (VarId × Variable) × Operand → Gen Bound
  | ((id, v), argument) => do
      if needsCopy program fn body id v argument then
        let copy ← copyArgument program body id v argument
        return ⟨bound.entries ++ [(id, copy)], bound.copies ++ [copy]⟩
      else return ⟨bound.entries ++ [(id, argument)], bound.copies⟩

def argumentIds (callee : FnId) (fn : Function) : List (VarId × Variable) :=
  fn.args.mapIdx fun index v => (⟨callee, index⟩, v)

/-- The locals of a function, below a number of bytes of the surrounding frame. -/
def relocatedLocals (callee : FnId) (fn : Function) (depth : Int64) :
    List (VarId × Int64) :=
  fn.locals.mapIdx fun index v => (⟨callee, fn.args.length + index⟩, v.offset - depth)

/-- Takes the locals of a function into the surrounding frame. -/
def takeLocals (callee : FnId) (fn : Function) : Gen (List (VarId × Int64)) := do
  let depth := ((← get).frame.map Frame.stackSize).getD 0
  modifyFrame fun frame => { frame with stackSize := frame.stackSize + fn.frameSize }
  return relocatedLocals callee fn depth

/-- Generates a body outside of the loops around the call. -/
def outsideLoops {α : Type} (body : Gen α) : Gen α := do
  let loops := (← get).loops
  modify fun state => { state with loops := [] }
  let result ← body
  modify fun state => { state with loops }
  return result

/-- Drops a jump to the label that follows it.  The result is the number of jumps left. -/
def dropJump (label : String) (jumps : Nat) : Gen Nat := do
  if isJumpTo label (← lastInstr) then
    modifyText Stream.removeLast
    log ("inline: dropped the jump to " ++ label ++ " before its label")
    return jumps - 1
  else return jumps

/-- Defines the label behind an expansion, if any jump needs it. -/
def closeExpansion (activation : Activation) : Gen Unit := do
  match activation.exit with
  | none => return ()
  | some label => if 0 < (← dropJump label activation.jumps) then defineLabel label

def expansionValue (fn : Function) (result : Operand) : Gen Operand := do
  if fn.returnType.operandSize = .unsized then return .absent
  match result with
  | .absent =>
      report (.ofMessage
        ("inline function " ++ fn.signature ++ " can end without returning a value"))
      return .lit (.ofInt 0)
  | .reg register =>
      drafting (Drafting.settle register)
      return result
  | _ => return result

/-- Puts the body of a function in place of a call.  The values of the caller are locked
meanwhile. -/
def expandBody (env : Env) (callee : FnId) (arguments : List Operand) : Gen Operand := do
  let fn := env.program.function callee
  let body := fn.body.getD []
  reserveIfBusy
  let draft := (← get).draft
  let own := arguments.filter fun argument => !draft.isLocked argument
  let locked ← drafting Drafting.lockLive
  let bound ← ((argumentIds callee fn).zip arguments).foldlM
    (bindArgument env.program fn body) ⟨[], []⟩
  let locals ← takeLocals callee fn
  log ("inline: expanding " ++ fn.linkName ++ " at depth " ++
    toString ((← get).activations.length + 1))
  let start : Activation :=
    { Activation.ofCall callee with inlining := true, bound := bound.entries, locals }
  let (_, final) ← outsideLoops (withActivation start (block env body))
  closeExpansion final
  own.forM freeAnyway
  bound.copies.forM freeAnyway
  locked.forM fun register => drafting (Drafting.unlock (.reg register))
  expansionValue fn final.result

/-- Expands a call in place, with at most so many expansions nested in each other. -/
def expandAt (program : TypedProgram) (options : Options) :
    Nat → FnId → List Operand → Gen Operand
  | 0, _, _ => throw .expansionDepth
  | depth + 1, callee, arguments =>
      expandBody { program, options, expand := expandAt program options depth } callee arguments

def Env.of (program : TypedProgram) (options : Options) : Env :=
  { program, options, expand := expandAt program options options.inlineDepth.toNat }

end X64Backend.Lower
