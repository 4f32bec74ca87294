import X64Backend.Lower.Expansion

/-!
Procedures.  The prologue depends on what the body turned out to need, so it is put in front of the
body once that is done.
-/

namespace X64Backend.Lower

open X64Backend.Tree

def align16 (number : Int64) : Int64 :=
  (number + 15) &&& ~~~15

/-- What the prologue sets up and the epilogue takes down. -/
structure FramePlan where
  hasFrame : Bool
  /-- The bytes that the stack pointer is lowered by. -/
  room : Int64
  saved : List Phys
  leaf : Bool
  deriving DecidableEq, Repr

namespace FramePlan

/-- The bytes that the stack pointer is lowered by: the frame, and a word that keeps the stack
aligned behind an odd number of saved registers.  A leaf that saves nothing leaves the stack pointer
alone as long as its frame fits the red zone. -/
def roomFor (stackSize : Int64) (leaf : Bool) (saved : Nat) (redZone : Int) : Int64 :=
  if leaf && stackSize.toInt ≤ redZone && saved = 0 then 0
  else align16 stackSize + (if saved % 2 = 1 then 8 else 0)

/-- The plan for a procedure whose body is done.  The frame pointer is needed for locals, arguments
on the stack, and calls. -/
def ofFrame (frame : Frame) (stackArguments : Bool) (saved : List Phys) (redZone : Int) :
    FramePlan :=
  let hasFrame := 0 < frame.stackSize || stackArguments || !frame.leaf
  { hasFrame
    room := if hasFrame then roomFor frame.stackSize frame.leaf saved.length redZone else 0
    saved
    leaf := frame.leaf }

def word (phys : Phys) : Operand := .reg (.fix phys .s64)

def prologue (plan : FramePlan) : List Instr :=
  (if plan.hasFrame then [.unary .push (.reg rbp), .binary .mov (.reg rbp) (.reg rsp)] else []) ++
    (if plan.hasFrame && 0 < plan.room then
      [.binary .sub (.reg rsp) (.lit (.ofInt plan.room.toInt))]
    else []) ++
    plan.saved.map fun phys => .unary .push (word phys)

/-- The cell of the register that was saved last. -/
def lastSavedCell (plan : FramePlan) : Pointer :=
  frameCell (-plan.room - 8 * .ofNat plan.saved.length) .unsized

/-- The instructions behind the body.  The stack pointer is set from the frame pointer, which also
reclaims the stack arguments that calls have left. -/
def epilogue (plan : FramePlan) : List Instr :=
  (if plan.hasFrame && !plan.saved.isEmpty then
      [.binary .lea (.reg rsp) (.mem plan.lastSavedCell)]
    else []) ++
    (plan.saved.reverse.map fun phys => .unary .pop (word phys)) ++
    (if plan.hasFrame && (0 < plan.room || !plan.leaf) then
      [.binary .mov (.reg rsp) (.reg rbp)]
    else []) ++
    (if plan.hasFrame then [.unary .pop (.reg rbp)] else []) ++
    [.nullary .ret]

end FramePlan

def registersText (registers : List Phys) : String :=
  "[" ++ Text.join " " (registers.map Phys.text) ++ "]"

/-- Defines the label of the epilogue, if any jump needs it.  A jump to it right before it is
dropped. -/
def closeBody (frame : Frame) : Gen Unit := do
  let direct := isJumpTo frame.exit (← lastInstr)
  if direct then modifyText Stream.removeLast
  let jumps := if direct then frame.jumps - 1 else frame.jumps
  if 0 < jumps then defineLabel frame.exit

/-- Checks that the body leaves on the stack what the epilogue reclaims. -/
def checkBalance (frame : Frame) : Gen Unit := do
  let depth := (← get).depth.bytes
  if depth ≠ frame.leaked then throw (.stackLeft frame.name depth frame.leaked)

def logPlan (frame : Frame) (plan : FramePlan) (pressure : Nat) : Gen Unit :=
  log ("function " ++ frame.name ++ ": leaf=" ++ toString frame.leaf ++ " stack=" ++
    toString frame.stackSize ++ " saved=" ++ registersText plan.saved ++ " sub=" ++
    toString plan.room ++ " pressure=" ++ toString pressure)

def finishProcedure (options : Options) (fn : Function) (frame : Frame) : Gen Unit := do
  closeBody frame
  checkBalance frame
  let pool := (← get).draft.pool
  let stackArguments := CallingConvention.argumentRegisters.length < fn.args.length
  let plan := FramePlan.ofFrame frame stackArguments pool.usedSaved options.redZone
  logPlan frame plan pool.pressure
  emit plan.epilogue
  modifyText fun text => text.insert frame.start plan.prologue

/-- Stores the arguments that arrive in registers in their places in the frame. -/
def spillArguments (fn : Function) : List Instr :=
  (fn.args.zip CallingConvention.argumentRegisters).map fun (v, phys) =>
    .binary .mov (.mem (frameCell v.offset v.operandSize)) (.reg (.fix phys v.operandSize))

def beginProcedure (id : FnId) (fn : Function) : Gen Unit := do
  drafting Drafting.beginProcedure
  modify fun state => { state with depth := .start, activations := [], loops := [] }
  emit [.label fn.linkName true]
  let exit ← newLabel
  let frame : Frame :=
    { name := fn.linkName
      fn := id
      start := (← get).draft.text.size
      leaf := true
      stackSize := fn.frameSize
      exit
      jumps := 0
      leaked := 0 }
  modify fun state => { state with frame := some frame }
  log ("function " ++ fn.linkName ++ ": frame " ++ toString fn.frameSize ++ " bytes")

def procedure (env : Env) (id : FnId) (body : List Stmt) : Gen Unit := do
  let fn := env.program.function id
  beginProcedure id fn
  emit (spillArguments fn)
  block env body
  match (← get).frame with
  | some frame => finishProcedure env.options fn frame
  | none => return ()

end X64Backend.Lower
