import X64Backend.Machine.Access

/-!
The effect of one instruction.
-/

namespace X64Backend.Machine

/-- Records the state that a call promises to give back. -/
def enter (target : String) : Exec Unit :=
  modify fun state =>
    { state with
      frames := ⟨target, state.registers.get .rsp, state.registers⟩ :: state.frames }

/-- Ends the innermost call.  Where calls are checked, the stack pointer and the saved registers
have to be as they were. -/
def leave (checked : Bool) : Exec Unit := do
  let state ← get
  match state.frames with
  | [] => throw .returnWithoutCall
  | frame :: outer =>
      set { state with frames := outer }
      if checked then
        let rsp := state.registers.get .rsp
        if rsp ≠ frame.rsp then throw (.stackMoved frame.target (rsp - frame.rsp))
        match CallingConvention.calleeSaved.find? fun phys =>
            state.registers.get phys ≠ frame.registers.get phys with
        | some phys => throw (.clobbered frame.target phys)
        | none => return ()

def exitService : UInt64 := 60

def mapService : UInt64 := 9

/-- The error number of a bad argument, negated. -/
def badArgument : UInt64 := 0 - 22

/-- Calls the service that the accumulator names. -/
def service : Exec Unit := do
  let number ← Exec.getReg .rax
  if number = exitService then
    let status ← Exec.getReg .rdi
    modify fun state => { state with exit := some status }
    Exec.setReg .rcx 0
    Exec.setReg .r11 0
  else if number = mapService then
    let size ← Exec.getReg .rsi
    if size = 0 then Exec.setReg .rax badArgument
    else
      let state ← get
      set { state with heap := state.heap + ((size + (pageSize - 1)) &&& ~~~ (pageSize - 1)) }
      Exec.setReg .rax state.heap
      Exec.setReg .rcx 0
      Exec.setReg .r11 0
  else throw (.unsupportedSyscall number)

/-- Divides the accumulator by an operand, leaving quotient and remainder. -/
def divide (scope : Scope) (signed : Bool) (op : Op) (operand : Operand) : Exec Unit := do
  if operand.size ≠ .s64 then throw (.divideWidth op)
  let divisor ← scope.read operand .s64
  if divisor = 0 then throw .divisionByZero
  let low ← Exec.getReg .rax
  let high ← Exec.getReg .rdx
  if signed then
    if high ≠ (if low.toInt64 < 0 then 0xFFFFFFFFFFFFFFFF else 0) then throw .missingSignExtension
    Exec.setReg .rax (low.toInt64 / divisor.toInt64).toUInt64
    Exec.setReg .rdx (low.toInt64 % divisor.toInt64).toUInt64
  else
    if high ≠ 0 then throw .highDividend
    Exec.setReg .rax (low / divisor)
    Exec.setReg .rdx (low % divisor)

/-- Changes an operand in place, with the flags the change sets. -/
def modifyOperand (scope : Scope) (operand : Operand)
    (change : Flags → UInt64 → UInt64 × Flags) : Exec Unit := do
  let size := operand.size
  let value ← scope.read operand size
  let (result, flags) := change (← get).flags value
  Exec.setFlags flags
  scope.write operand (result &&& mask size)

/-- Executes an instruction with one operand; the result is where a branch leads. -/
def unary (scope : Scope) (checked : Bool) (op : Op) (operand : Operand) :
    Exec (Option Nat) := do
  let size := operand.size
  match op with
  | .set cond =>
      scope.write operand (if (← get).flags.holds cond then 1 else 0)
      return none
  | .jump cond =>
      if (← get).flags.holds cond then return some (← scope.target operand).1
      else return none
  | .jmp => return some (← scope.target operand).1
  | .call =>
      let (index, name) ← scope.target operand
      let rsp ← Exec.getReg .rsp
      if checked && rsp % 16 ≠ 0 then throw (.misaligned name rsp)
      Exec.push (codeBase + Literal.wordOfInt ((← get).ip + 1))
      enter name
      return some index
  | .push =>
      let value ← scope.read operand .s64
      match operand with
      | .lit literal => Exec.push (if literal.isLabel then value else signExtend value .s32)
      | _ => Exec.push value
      return none
  | .pop =>
      scope.write operand (← Exec.pop)
      return none
  | .neg =>
      modifyOperand scope operand fun _ value => (0 - value, .ofSub 0 value (0 - value) size)
      return none
  | .not =>
      modifyOperand scope operand fun flags value => (~~~ value, flags)
      return none
  | .inc =>
      modifyOperand scope operand fun flags value =>
        (value + 1, { Flags.ofAdd value 1 (value + 1) size with carry := flags.carry })
      return none
  | .dec =>
      modifyOperand scope operand fun flags value =>
        (value - 1, { Flags.ofSub value 1 (value - 1) size with carry := flags.carry })
      return none
  | .idiv =>
      divide scope true op operand
      return none
  | .div =>
      divide scope false op operand
      return none
  | _ => throw (.unsupportedOp op)

/-- What an arithmetic instruction computes from destination and source, and the flags it leaves;
`none` for a result that is not stored. -/
def arithmetic? (op : Op) (size : Size) (flags : Flags) (first second : UInt64) :
    Option (Option UInt64 × Flags) :=
  let count := if size = .s64 then second &&& 63 else second &&& 31
  let shifted (result : UInt64) : Option (Option UInt64 × Flags) :=
    some (some result, if count = 0 then flags else .ofLogic result size)
  match op with
  | .add => some (some (first + second), .ofAdd first second (first + second) size)
  | .sub => some (some (first - second), .ofSub first second (first - second) size)
  | .cmp => some (none, .ofSub first second (first - second) size)
  | .and => some (some (first &&& second), .ofLogic (first &&& second) size)
  | .test => some (none, .ofLogic (first &&& second) size)
  | .or => some (some (first ||| second), .ofLogic (first ||| second) size)
  | .xor => some (some (first ^^^ second), .ofLogic (first ^^^ second) size)
  | .imul =>
      some (some (signExtend first size * signExtend second size),
        { flags with carry := false, overflow := false })
  | .shl => shifted (first <<< count)
  | .shr => shifted ((first &&& mask size) >>> count)
  | .sar => shifted ((signExtend first size).toInt64 >>> count.toInt64).toUInt64
  | _ => none

def binary (scope : Scope) (op : Op) (dst src : Operand) : Exec Unit := do
  let size := dst.size
  if size = .unsized then throw (.unsizedDestination op)
  if dst.isMem && src.isMem then throw (.twoMemoryOperands op)
  match op with
  | .lea =>
      match src with
      | .mem pointer => scope.write dst ((← scope.address pointer) &&& mask size)
      | _ => throw .addressOfNothing
  | .movzx => scope.write dst ((← scope.read src src.size) &&& mask size)
  | .movsx | .movsxd =>
      scope.write dst (signExtend (← scope.read src src.size) src.size &&& mask size)
  | _ =>
      let given ← scope.read src size
      if op = .mov then scope.write dst given
      else
        let second :=
          match src with
          | .lit literal =>
              if !literal.isLabel && size = .s64 then signExtend given .s32 else given
          | _ => given
        let first ← scope.read dst size
        if op = .xchg then
          scope.write src first
          scope.write dst (second &&& mask size)
        else
          match arithmetic? op size (← get).flags first second with
          | some (result, flags) =>
              Exec.setFlags flags
              match result with
              | some value => scope.write dst (value &&& mask size)
              | none => return ()
          | none => throw (.unsupportedOp op)

/-- Executes an instruction without operands; the result is where a return leads, or that the
outermost call has returned. -/
inductive Next where
  | following
  | index (ip : Int)
  | finished
  deriving DecidableEq, Repr

def nullary (checked : Bool) (op : Op) : Exec Next := do
  match op with
  | .ret =>
      leave checked
      let address ← Exec.pop
      if address = returnSentinel then return .finished
      return .index (Literal.intOfWord (address - codeBase))
  | .cqo =>
      let low ← Exec.getReg .rax
      Exec.setReg .rdx (if low.toInt64 < 0 then 0xFFFFFFFFFFFFFFFF else 0)
      return .following
  | .cdq =>
      let low ← Exec.getReg .rax
      Exec.setReg .rdx (if isNegative low .s32 then 0xFFFFFFFF else 0)
      return .following
  | .leave =>
      Exec.setReg .rsp (← Exec.getReg .rbp)
      Exec.setReg .rbp (← Exec.pop)
      return .following
  | .nop => return .following
  | .syscall =>
      service
      return .following
  | _ => throw (.unsupportedOp op)

def execute (scope : Scope) (checked : Bool) : Instr → Exec Next
  | .absent => throw .unsupportedInstr
  | .binary op dst src => do
      binary scope op dst src
      return .following
  | .unary op operand => do
      match ← unary scope checked op operand with
      | some index => return .index index
      | none => return .following
  | .nullary op => nullary checked op
  | .globalName _ | .sectionName _ | .label _ _ | .data _ | .comment _ => return .following

/-- Executes one instruction; the result says whether the outermost call has returned. -/
def step (image : Image) (checked : Bool) (index : Nat) (entry : Entry) : Exec Bool := do
  modify fun state => { state with recent := (index :: state.recent).take recentCount }
  match ← execute ⟨image, entry.tick⟩ checked entry.instr with
  | .finished => return true
  | .following =>
      modify fun state => { state with ip := state.ip + 1 }
      return false
  | .index ip =>
      modify fun state => { state with ip }
      return false

end X64Backend.Machine
