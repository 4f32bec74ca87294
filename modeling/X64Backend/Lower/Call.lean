import X64Backend.Lower.Place

/-!
Calls with evaluated arguments.  Arguments beyond the registers are pushed from the last one on; the
words they take are reclaimed right behind the first call of a procedure and by the epilogue for
later ones.
-/

namespace X64Backend.Lower

open X64Backend.Tree

/-- The cell whose address a by-reference parameter takes. -/
def referent (parameter : Variable) (argument : Operand) : Gen Operand :=
  match argument with
  | .mem pointer => return .mem (pointer.resize .unsized)
  | _ => throw (.notReference parameter.name)

/-- The value that stands for an argument on the stack: the address of a by-reference one. -/
def stackArgument (parameter : Variable) (argument : Operand) : Gen Operand := do
  if parameter.byRef then
    let cell ← referent parameter argument
    let register ← drafting (Drafting.nextRegister .s64)
    emit [.binary .lea (.reg register) cell]
    return .reg register
  else return argument

/-- A value in a form that can be pushed, which takes 64 bits. -/
def pushable (type : TypeRef) (value : Operand) : Gen Operand := do
  match value with
  | .lit literal =>
      if literal.fitsImm32 then return value else return .reg (← load value .s64 false)
  | .reg register => return .reg (register.resize .s64)
  | .mem pointer =>
      if pointer.size = .s64 then return value
      else return .reg (← load value .s64 type.isSigned)
  | .absent => return value

def pushArgument (parameter : Variable) (argument : Operand) : Gen Unit := do
  let value ← stackArgument parameter argument
  let word ← pushable parameter.type value
  emit [.unary .push word]
  tracking (StackDepth.push parameter.name)
  release word

def passInRegister (parameter : Variable) (argument : Operand) (phys : Phys) : Gen Unit := do
  if parameter.byRef then
    emit [.binary .lea (.reg (.fix phys .s64)) (← referent parameter argument)]
  else
    move (.reg (.fix phys parameter.operandSize)) argument parameter.type.isSigned .lowFirst

/-- Lowers the stack pointer by a word, so that an odd number of pushes keeps the stack aligned. -/
def padStack : Gen Unit := do
  emit [.binary .sub (.reg rsp) (.lit (.ofInt 8))]
  tracking (StackDepth.sub 8)

/-- Takes back the words that a call left on the stack.  Only the first call of a procedure does so
itself. -/
def reclaim (words : Nat) (wasLeaf : Bool) : Gen Unit := do
  let bytes : Int64 := 8 * .ofNat words
  if words = 0 then return ()
  else if wasLeaf then
    emit [.binary .add (.reg rsp) (.lit (.ofInt bytes.toInt))]
    tracking (StackDepth.add bytes)
  else modifyFrame fun frame => { frame with leaked := frame.leaked + bytes }

/-- The instructions that transfer control.  A virtual call goes through the method table of the
receiver. -/
def transfer (fn : Function) (isVirtual : Bool) : List Instr :=
  if isVirtual then
    let table : Register := .fix .r11 .s64
    [.binary .mov (.reg table) (.mem (.ofBase (.fix .rdi .s64) 0 .s64)),
      .unary .call (.mem (.ofBase table (Int32.ofInt (8 * (fn.vindex : Int))) .s64))]
  else [.branch .call fn.linkName]

def callResult (size : Size) : Gen Operand := do
  if size = .unsized then return .absent
  return .reg (← drafting (Drafting.callAlloc size))

/-- Puts the arguments where the callee looks for them.  The result is the number of words that this
takes on the stack. -/
def passArguments (params : List Variable) (arguments : List Operand) : Gen Nat := do
  let count := CallingConvention.argumentRegisters.length
  let pairs := params.zip arguments
  let onStack := pairs.drop count
  let padding := onStack.length % 2
  if padding = 1 then padStack
  onStack.reverse.forM fun (parameter, argument) => pushArgument parameter argument
  (pairs.zip CallingConvention.argumentRegisters).forM fun ((parameter, argument), phys) =>
    passInRegister parameter argument phys
  arguments.forM release
  return onStack.length + padding

def emitCall (fn : Function) (arguments : List Operand) (isVirtual : Bool) : Gen Operand := do
  let words ← passArguments fn.args arguments
  let wasLeaf := ((← get).frame.map Frame.leaf).getD true
  drafting Drafting.reserve
  let result ← callResult fn.returnType.operandSize
  tracking (StackDepth.call fn.linkName)
  emit (transfer fn isVirtual)
  modifyFrame fun frame => { frame with leaf := false }
  reclaim words wasLeaf
  return result

/-- Whether a call is expanded in place.  A function that is being expanded already is called, so
that recursion ends. -/
def shouldExpand (env : Env) (callee : FnId) : Gen Bool := do
  let fn := env.program.function callee
  if !fn.mods.isInline || fn.body.isNone then return false
  let expanding := (← get).activations.filter Activation.inlining
  if expanding.any fun activation => activation.fn = callee then
    log ("inline: " ++ fn.linkName ++ " is already being expanded, emitting a call")
    return false
  if env.options.inlineDepth ≤ expanding.length then
    log ("inline: depth limit " ++ toString env.options.inlineDepth ++ " reached at " ++
      fn.linkName)
    return false
  return true

def Activation.ofCall (callee : FnId) : Activation :=
  { inlining := false
    fn := callee
    result := .absent
    exit := none
    jumps := 0
    bound := []
    locals := [] }

/-- Evaluates the arguments of a call, then expands the callee in place or calls it. -/
def invoke (env : Env) (callee : FnId) (arguments : Gen (List Operand)) (isVirtual : Bool) :
    Gen Operand := do
  let expanded ← if isVirtual then pure false else shouldExpand env callee
  if expanded then
    let operands ← arguments
    env.expand callee operands
  else
    let (result, _) ← withActivation (.ofCall callee) do
      let operands ← arguments
      emitCall (env.program.function callee) operands isVirtual
    return result

/-- The operands of a call: the receiver, where the callee has one, and then the others.  There have
to be as many as the callee has parameters. -/
def operandsOf (fn : Function) (receiver : Option (Gen Operand))
    (arguments : List (Gen Operand × Gen Operand)) : Gen (List Operand) := do
  let first ←
    match fn.receiver, receiver with
    | none, _ => pure []
    | some _, some value => pure [← value]
    | some _, none => throw (.noReceiver fn.signature)
  let given := first.length + arguments.length
  if given ≠ fn.args.length then
    throw (.argumentCount fn.signature fn.args.length given)
  let rest ← (arguments.zip (fn.args.drop first.length)).mapM
    fun ((value, address), parameter) => if parameter.byRef then address else value
  return first ++ rest

end X64Backend.Lower
