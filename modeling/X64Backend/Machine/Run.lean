import X64Backend.Machine.Step

/-!
Running a program: from its entry label until the exit service, or one procedure until it returns.
-/

namespace X64Backend

namespace Machine

/-- The number of instructions after which a run is stopped unless told otherwise. -/
def defaultMaxSteps : Int := 1000000

/-- Executes at most `remaining` instructions. -/
def loop (image : Image) (checked : Bool) : (remaining : Nat) → Exec Unit
  | 0 => do
      let ip := (← get).ip
      if 0 ≤ ip ∧ ip < image.code.size then throw .stepLimit else throw (.outOfCode ip)
  | remaining + 1 => do
      let ip := (← get).ip
      if ip < 0 then throw (.outOfCode ip)
      match image.code[ip.toNat]? with
      | none => throw (.outOfCode ip)
      | some entry =>
          modify fun state => { state with steps := state.steps + 1 }
          let finished ← step image checked ip.toNat entry
          if finished || (← get).exit.isSome then return ()
          else loop image checked remaining

/-- Runs from an instruction until the program exits or its outermost call returns. -/
def runFrom (image : Image) (checked : Bool) (maxSteps : Int) (start : Nat) : Exec Unit := do
  modify fun state => { state with ip := start, steps := 0, exit := none }
  loop image checked (if maxSteps = 0 then defaultMaxSteps else maxSteps).toNat

inductive Failure where
  | noProcedure (name : String)
  | noEntry (name : String)
  | returned
  | stopped (ip : Int) (fault : Fault) (recent : List String)
  deriving DecidableEq, Repr

def Failure.message : Failure → String
  | noProcedure name => "no procedure " ++ Text.quote name
  | noEntry name => "no entry label " ++ Text.quote name
  | returned => "program returned without calling exit"
  | stopped ip fault recent =>
      "at " ++ toString ip ++ ": " ++ fault.message ++ "\nrecent instructions:\n  " ++
        Text.join "\n  " recent

def Failure.class : Failure → Fault.Class
  | stopped _ fault _ => fault.class
  | _ => .other

/-- Sets up the arguments of a procedure: six in registers, the others on the stack with the first
one on top, so that the stack is aligned at the return address. -/
def passArguments (arguments : List UInt64) : Exec Unit := do
  (CallingConvention.argumentRegisters.zip arguments).forM fun (phys, argument) =>
    Exec.setReg phys argument
  let stacked := arguments.drop CallingConvention.argumentRegisters.length
  if stacked.length % 2 = 1 then Exec.push 0
  stacked.reverse.forM Exec.push
  Exec.push returnSentinel

end Machine

/-- A program with the state that its runs leave behind. -/
structure Machine where
  image : Machine.Image
  state : Machine.State
  /-- The limit of a run; zero stands for the default. -/
  maxSteps : Int
  /-- Whether calls are checked for alignment and for saved registers. -/
  checked : Bool

namespace Machine

def ofProgram (program : Program) : Except LayoutFault Machine :=
  (Image.ofProgram program).map fun image =>
    { image, state := .initial image, maxSteps := 0, checked := true }

/-- The newest instructions, oldest first. -/
def recentLines (machine : Machine) : List String :=
  machine.state.recent.reverse.filterMap fun index =>
    machine.image.code[index]?.map fun entry =>
      entry.instr.oneLine machine.image.timeline entry.tick

/-- Clears the registers and points the stack pointer at the top of the stack. -/
def reset (machine : Machine) : Machine :=
  { machine with
    state := { machine.state with registers := Registers.zero.set .rsp stackTop } }

/-- Runs a computation on the state, and reports a fault with where it arose. -/
def perform (machine : Machine) (action : Exec Unit) : Machine × Except Failure Unit :=
  match action machine.state with
  | .ok _ state => ({ machine with state }, .ok ())
  | .error fault state =>
      let machine := { machine with state }
      (machine, .error (.stopped state.ip fault machine.recentLines))

/-- Calls a procedure with integer arguments; its value is the accumulator. -/
def call (machine : Machine) (name : String) (arguments : List UInt64) :
    Machine × Except Failure UInt64 :=
  match machine.image.labels[name]? with
  | none => (machine, .error (.noProcedure name))
  | some start =>
      let (machine, outcome) := machine.reset.perform do
        passArguments arguments
        enter name
        runFrom machine.image machine.checked machine.maxSteps start
      (machine, outcome.map fun _ => machine.state.registers.get .rax)

/-- Runs from a label until the program calls the exit service; its value is the status. -/
def run (machine : Machine) (entry : String) : Machine × Except Failure UInt64 :=
  match machine.image.labels[entry]? with
  | none => (machine, .error (.noEntry entry))
  | some start =>
      let (machine, outcome) :=
        machine.reset.perform (runFrom machine.image machine.checked machine.maxSteps start)
      match outcome, machine.state.exit with
      | .error failure, _ => (machine, .error failure)
      | .ok _, some status => (machine, .ok status)
      | .ok _, none => (machine, .error .returned)

def dataAddress? (machine : Machine) (label : String) : Option UInt64 :=
  machine.image.data[label]?

end Machine

end X64Backend
