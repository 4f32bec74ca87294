import X64Backend.Lower.Place

/-!
Inline assembly blocks.  Named registers are bound to slots of the pool, variables are turned into
operands that their instruction accepts, and the value of the block is left in a register of the
pool.
-/

namespace X64Backend.Lower

open X64Backend.Tree

/-- A variable that an instruction changes in a register and that is to be copied back. -/
structure WriteBack where
  register : Register
  home : Operand
  signed : Bool

/-- What is known while a block is being replayed. -/
structure Replay where
  names : List (String × Register)
  /-- The registers of the pool that were used without a declaration. -/
  undeclared : List (Phys × Register)
  /-- The registers to free behind the current instruction. -/
  temps : List Register
  back : List WriteBack

def Replay.start : Replay := ⟨[], [], [], []⟩

abbrev Replaying := StateT Replay Gen

/-- Where a block stands: the program, the block, and the variables that it may name. -/
structure BlockSite where
  program : TypedProgram
  block : Block
  vars : List (String × VarId)
  type : TypeRef

namespace Replaying

/-- Binds a named register, in place of an earlier one of that name. -/
def bindName (name : String) (register : Register) : Replaying Unit :=
  modify fun replay =>
    { replay with names := (name, register) :: replay.names.filter fun entry => entry.1 ≠ name }

def addTemp (register : Register) : Replaying Unit :=
  modify fun replay => { replay with temps := replay.temps ++ [register] }

def addBack (entry : WriteBack) : Replaying Unit :=
  modify fun replay => { replay with back := replay.back ++ [entry] }

/-- A locked register in a particular slot. -/
def lockedSlot (slot : Pool.Slot) (size : Size) : Gen Register := do
  let register ← drafting (Drafting.claimSlot slot size)
  drafting (Drafting.lock (.reg register))
  return register

/-- Declares a named register.  One outside the pool is taken as it is: nothing else lives in such a
register while a block runs.  One without a hardware register is bound at its first use. -/
def alloc (site : BlockSite) (declaration : Block.Alloc) : Replaying Unit :=
  match declaration.phys with
  | none => return ()
  | some phys =>
      match Pool.slotOfPhys? phys with
      | some slot => do
          let register ← lockedSlot slot declaration.size
          bindName declaration.name register
          log ("asm " ++ site.block.name ++ ": " ++ declaration.name ++ " claims " ++ phys.text)
      | none => bindName declaration.name (.fix phys declaration.size)

/-- Gives a named register back.  The one that the block returns stays alive. -/
def free (site : BlockSite) (name : String) : Replaying Unit := do
  match (← get).names.lookup name with
  | none => return ()
  | some register =>
      modify fun replay =>
        { replay with names := replay.names.filter fun entry => entry.1 ≠ name }
      if site.block.returnedName? = some name then drafting (Drafting.settle register)
      else freeAnyway (.reg register)

/-- The register bound to a name, binding it if this is its first use. -/
def namedRegister (site : BlockSite) (name : String) : Replaying Register := do
  match (← get).names.lookup name with
  | some register => return register
  | none =>
      let size := ((site.block.decl? name).map Block.Alloc.size).getD .s64
      let register ← drafting (Drafting.nextRegister size)
      drafting (Drafting.lock (.reg register))
      bindName name register
      return register

/-- A hardware register.  One of the pool is claimed at its first use. -/
def hardwareRegister (phys : Option Phys) (size : Size) : Replaying Register := do
  match phys, phys.bind Pool.slotOfPhys? with
  | some phys, some slot =>
      match (← get).undeclared.lookup phys with
      | some register => return register.resize size
      | none =>
          let register ← lockedSlot slot .s64
          modify fun replay => { replay with undeclared := (phys, register) :: replay.undeclared }
          return register.resize size
  | _, _ => return ⟨.fixed phys, size⟩

def register (site : BlockSite) (ref : Block.RegRef) : Replaying Register := do
  if ref.named then
    let bound ← namedRegister site ref.name
    return if ref.size = .unsized then bound else bound.resize ref.size
  else hardwareRegister ref.phys ref.size

/-- The operand of a variable, with the variable itself.  A name that the block may not use is
reported. -/
def variableNamed (site : BlockSite) (ref : Block.VarRef) :
    Gen (Operand × Option Variable) := do
  match site.vars.lookup ref.name with
  | some id => return (← variableOperand site.program id, some (site.program.var id))
  | none =>
      report (.ofMessage ("asm " ++ site.block.name ++ ": unknown variable $" ++ ref.name ++
        " at " ++ toString ref.pos.line ++ ":" ++ toString ref.pos.column))
      return (.lit (.ofInt 0), none)

def kindOf : Operand → Block.OperandKind
  | .reg _ => .reg
  | .mem _ => .mem
  | _ => .imm

/-- The width at which a variable, or what stands for it, is brought into a register. -/
def materialSize (value : Operand) (v : Option Variable) : Size :=
  let size := (v.map Variable.operandSize).getD value.size
  if size = .unsized then .s64 else size

/-- Brings a variable into a register, to be copied back if the instruction writes it. -/
def materialize (value : Operand) (v : Option Variable) (written : Bool) :
    Replaying Operand := do
  let signed := (v.map fun v => v.type.isSigned).getD false
  let register ← drafting (Drafting.nextRegister (materialSize value v))
  move (.reg register) value signed .lowFirst
  addTemp register
  if written && v.isSome then addBack ⟨register, value, signed⟩
  return .reg register

def baseRegister (site : BlockSite) : Block.BaseRef → Replaying Register
  | .reg ref => register site ref
  | .var ref => do
      let (value, _) ← variableNamed site ref
      let found ← base value
      if ← temp (.reg found) then addTemp found
      return found

def term (site : BlockSite) (position : Block.Position) : Block.Term → Replaying Operand
  | .reg ref => Operand.reg <$> register site ref
  | .lit _ value => return .lit value
  | .mem _ size ref disp => do
      return .mem (.ofBase (← baseRegister site ref) disp size)
  | .var ref => do
      let (value, v) ← variableNamed site ref
      if position.accepts (kindOf value) then return value
      materialize value v position.written

/-- The width of a cell that was written without one: that of the last other operand with a
width. -/
def cellSize (operands : List Operand) : Size :=
  (((operands.map Operand.size).filter fun size => size ≠ .unsized).getLast?).getD .s64

def sized (size : Size) : Operand → Operand
  | .mem pointer => .mem (if pointer.size = .unsized then pointer.resize size else pointer)
  | operand => operand

/-- An operand as the destination of a truth value. -/
def asByte : Operand → Operand
  | .reg register => .reg (register.resize .s8)
  | .mem pointer => .mem (pointer.resize .s8)
  | operand => operand

/-- The operands of an instruction at the widths that it works on. -/
def fitOperands (op : Op) (operands : List Operand) : List Operand :=
  let operands := if op = .lea then operands else operands.map (sized (cellSize operands))
  match op.setCond?, operands with
  | some _, first :: rest => asByte first :: rest
  | _, _ => operands

/-- Brings the second of two cells into a register: an instruction has at most one. -/
def splitCells : List Operand → Replaying (List Operand)
  | [.mem dst, .mem src] => do
      let register ← drafting (Drafting.nextRegister src.size)
      emit [.binary .mov (.reg register) (.mem src)]
      addTemp register
      return [.mem dst, .reg register]
  | operands => return operands

def instrOf (instruction : Block.Instruction) : List Operand → Gen Instr
  | [] => return .nullary instruction.spec.op
  | [operand] => return .unary instruction.spec.op operand
  | [dst, src] => return .binary instruction.spec.op dst src
  | operands => throw (.operandCount instruction.mnemonic operands.length)

/-- Copies back what the instruction has changed, and frees what it needed. -/
def settleInstr : Replaying Unit := do
  let replay ← get
  replay.back.forM fun entry => move entry.home (.reg entry.register) entry.signed .lowFirst
  replay.temps.forM fun register => freeAnyway (.reg register)
  set { replay with temps := [], back := [] }

/-- Replays an instruction.  The result is its operands. -/
def instr (site : BlockSite) (instruction : Block.Instruction) : Replaying (List Operand) := do
  let terms := instruction.operands.zip instruction.spec.positions
  let operands ← terms.mapM fun (operand, position) => term site position operand
  let operands ← splitCells (fitOperands instruction.spec.op operands)
  emit [← instrOf instruction operands]
  settleInstr
  return operands

def anyPosition : Block.Position := ⟨true, [.reg, .mem, .imm], false⟩

/-- Replays a statement.  The result is the value of the block so far. -/
def statement (site : BlockSite) (value : Operand) : Block.Statement → Replaying Operand
  | .alloc declaration => do
      alloc site declaration
      return value
  | .free _ name _ => do
      free site name
      return value
  | .instr instruction => do
      let operands ← instr site instruction
      return if instruction.returned then operands.head?.getD value else value
  | .value _ operand => term site anyPosition operand

/-- Copies the value of a block into a register of the pool, unless the block has no type. -/
def copyValue (value : Operand) (type : TypeRef) : Gen Operand := do
  if type.operandSize = .unsized then return .absent
  let register ← drafting (Drafting.nextRegister type.operandSize)
  move (.reg register) value type.isSigned .lowFirst
  return .reg register

/-- The value of a block in a form that the surrounding expression owns. -/
def ownValue (undeclared : List (Phys × Register)) (value : Operand) (type : TypeRef) :
    Gen Operand := do
  match value with
  | .absent | .lit _ => return value
  | .mem _ => copyValue value type
  | .reg register =>
      let claimed := undeclared.any fun entry => entry.2.same register
      if (← temp value) && !claimed then return .reg (register.resize type.operandSize)
      copyValue value type

/-- Frees what the block claimed and hands over its value. -/
def finish (site : BlockSite) (value : Operand) : Replaying Operand := do
  let replay ← get
  let owned ← ownValue replay.undeclared value site.type
  replay.undeclared.forM fun entry => freeAnyway (.reg entry.2)
  replay.names.forM fun entry => freeAnyway (.reg entry.2)
  if site.type.operandSize = .unsized then
    release owned
    return .absent
  if owned = .absent then
    report (.ofMessage ("asm " ++ site.block.name ++ ": block has no value"))
    return .lit (.ofInt 0)
  return owned

end Replaying

def asmBlock (site : BlockSite) : Gen Operand := do
  let replayed : Replaying Operand := do
    let value ← site.block.statements.foldlM (Replaying.statement site) .absent
    Replaying.finish site value
  let (value, _) ← replayed.run .start
  return value

end X64Backend.Lower
