import X64Backend.CallingConvention
import X64Backend.Diagnostic
import X64Backend.Options
import X64Backend.Pool.Allocate
import X64Backend.StackDepth
import X64Backend.Tree.Printer

/-!
The state of code generation, and the computations that change it.  A problem in the compiled
program is recorded and generation goes on; an internal fault ends it.
-/

namespace X64Backend.Lower

open X64Backend.Tree

/-- The procedure being generated.  Its prologue depends on what the body turns out to need, so it
is put in front once the body is done. -/
structure Frame where
  name : String
  fn : FnId
  /-- The place in the stream where the prologue goes. -/
  start : Nat
  /-- No call has been emitted so far. -/
  leaf : Bool
  /-- The bytes below the frame pointer: locals, locals of expansions, and temporaries. -/
  stackSize : Int64
  exit : String
  /-- The jumps to the epilogue that are in the stream. -/
  jumps : Nat
  /-- The bytes of stack arguments left for the epilogue to reclaim. -/
  leaked : Int64

/-- A call in progress: an inline expansion, or the evaluation of the arguments of a real call. -/
structure Activation where
  inlining : Bool
  fn : FnId
  /-- Where returns put the result; absent until the first one. -/
  result : Operand
  /-- The label behind the expansion, once a return needs it. -/
  exit : Option String
  jumps : Nat
  bound : List (VarId × Operand)
  /-- The offsets of the locals in the frame of the surrounding procedure. -/
  locals : List (VarId × Int64)

/-- The labels that leave a loop and that start its next round. -/
structure Loop where
  exit : String
  next : String

structure State where
  draft : Draft
  data : Stream
  collector : Collector
  frame : Option Frame
  /-- The calls in progress, innermost first. -/
  activations : List Activation
  /-- The loops around the current statement, innermost first. -/
  loops : List Loop
  labels : Nat
  /-- The text literals so far, in the order of their labels. -/
  texts : List String
  depth : StackDepth

def State.initial : State :=
  { draft := .empty
    data := .empty
    collector := .empty
    frame := none
    activations := []
    loops := []
    labels := 0
    texts := []
    depth := .start }

abbrev Gen := EStateM Fault State

/-- What the generation of an expression needs to know: the program, the options, and how a call is
expanded in place. -/
structure Env where
  program : TypedProgram
  options : Options
  expand : FnId → List Operand → Gen Operand

def drafting {α : Type} (action : Drafting α) : Gen α := fun state =>
  match action state.draft with
  | .ok result draft => .ok result { state with draft }
  | .error fault draft => .error fault { state with draft }

def log (message : String) : Gen Unit :=
  drafting (Drafting.log message)

/-- Runs a computation on the depth of the stack and traces it. -/
def tracking (action : Tracking String) : Gen Unit := do
  let message ← fun (state : State) =>
    match action state.depth with
    | .ok message depth => .ok message { state with depth }
    | .error fault depth => .error fault { state with depth }
  log message

def emit (instrs : List Instr) : Gen Unit :=
  modify fun state =>
    { state with draft := { state.draft with text := state.draft.text.append instrs } }

def modifyText (change : Stream → Stream) : Gen Unit :=
  modify fun state => { state with draft := { state.draft with text := change state.draft.text } }

def lastInstr : Gen Instr := do
  return (← get).draft.text.last?.getD .absent

def defineLabel (name : String) : Gen Unit :=
  emit [.label name false]

def newLabel : Gen String := fun state =>
  .ok (".L" ++ toString state.labels) { state with labels := state.labels + 1 }

def jumpTo (label : String) : Gen Unit :=
  emit [.branch .jmp label]

/-- What is being generated, for diagnostics. -/
def State.location (state : State) : Location :=
  match state.frame with
  | some frame => .ofProcedure frame.name
  | none => .ofProcedure "<program>"

def report (problem : Problem) : Gen Unit := do
  log ("codegen: " ++ problem.message)
  modify fun state =>
    { state with collector := state.collector.add (.ofProblem problem state.location) }

def modifyFrame (change : Frame → Frame) : Gen Unit :=
  modify fun state => { state with frame := state.frame.map change }

def modifyActivation (change : Activation → Activation) : Gen Unit :=
  modify fun state =>
    match state.activations with
    | [] => state
    | innermost :: outer => { state with activations := change innermost :: outer }

/-- Runs a computation inside an activation, and tells what has become of it. -/
def withActivation {α : Type} (activation : Activation) (action : Gen α) :
    Gen (α × Activation) := do
  modify fun state => { state with activations := activation :: state.activations }
  let result ← action
  let left := (← get).activations
  modify fun state => { state with activations := left.drop 1 }
  return (result, left.head?.getD activation)

/-- The innermost activation, if it is an expansion. -/
def expansion? : Gen (Option Activation) := do
  match (← get).activations with
  | innermost :: _ => return if innermost.inlining then some innermost else none
  | [] => return none

def rbp : Register := .fix .rbp .s64

def rsp : Register := .fix .rsp .s64

def frameCell (offset : Int64) (size : Size) : Pointer :=
  .ofBase rbp offset.toInt32 size

/-- Reserves eight bytes of the frame for a value that cannot live in a register. -/
def stackTemp (size : Size) : Gen Operand := do
  modifyFrame fun frame => { frame with stackSize := frame.stackSize + 8 }
  let depth := ((← get).frame.map Frame.stackSize).getD 0
  return .mem (frameCell (-depth) size)

end X64Backend.Lower
