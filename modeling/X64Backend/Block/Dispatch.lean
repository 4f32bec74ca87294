import X64Backend.Code.Op

/-!
The instructions that a block may use, and the operands each of their positions takes.
-/

namespace X64Backend.Block

/-- The kinds of operands that positions tell apart. -/
inductive OperandKind where
  | reg
  | mem
  | imm
  deriving DecidableEq, Repr

def OperandKind.text : OperandKind → String
  | reg => "a register"
  | mem => "a memory operand"
  | imm => "an immediate"

/-- What one operand position takes. -/
structure Position where
  /-- Whether it may name a variable of the surrounding procedure. -/
  takesVariable : Bool
  accepted : List OperandKind
  written : Bool
  deriving DecidableEq, Repr, Inhabited

def Position.accepts (position : Position) (kind : OperandKind) : Bool :=
  position.accepted.contains kind

/-- An instruction with its positions. -/
structure Spec where
  op : Op
  positions : List Position
  deriving DecidableEq, Repr, Inhabited

def Spec.arity (spec : Spec) : Nat := spec.positions.length

def Position.dst : Position := ⟨true, [.reg, .mem], true⟩

def Position.dstReg : Position := ⟨true, [.reg], true⟩

def Position.src : Position := ⟨true, [.reg, .mem, .imm], false⟩

def Position.srcRegMem : Position := ⟨true, [.reg, .mem], false⟩

def Position.count : Position := ⟨false, [.reg, .imm], false⟩

def Position.address : Position := ⟨false, [.mem], false⟩

/-- The instructions of a block. -/
def specs : List Spec :=
  [⟨.mov, [.dst, .src]⟩,
    ⟨.movzx, [.dstReg, .srcRegMem]⟩,
    ⟨.movsx, [.dstReg, .srcRegMem]⟩,
    ⟨.movsxd, [.dstReg, .srcRegMem]⟩,
    ⟨.lea, [.dstReg, .address]⟩,
    ⟨.add, [.dst, .src]⟩,
    ⟨.sub, [.dst, .src]⟩,
    ⟨.and, [.dst, .src]⟩,
    ⟨.or, [.dst, .src]⟩,
    ⟨.xor, [.dst, .src]⟩,
    ⟨.imul, [.dstReg, .srcRegMem]⟩,
    ⟨.cmp, [.srcRegMem, .src]⟩,
    ⟨.test, [.srcRegMem, .src]⟩,
    ⟨.shl, [.dst, .count]⟩,
    ⟨.shr, [.dst, .count]⟩,
    ⟨.sar, [.dst, .count]⟩,
    ⟨.xchg, [.dst, .dstReg]⟩,
    ⟨.neg, [.dst]⟩,
    ⟨.not, [.dst]⟩,
    ⟨.inc, [.dst]⟩,
    ⟨.dec, [.dst]⟩,
    ⟨.push, [.src]⟩,
    ⟨.pop, [.dst]⟩,
    ⟨.idiv, [.srcRegMem]⟩,
    ⟨.div, [.srcRegMem]⟩,
    ⟨.syscall, []⟩,
    ⟨.cqo, []⟩,
    ⟨.cdq, []⟩,
    ⟨.nop, []⟩] ++ Cond.all.map fun cond => ⟨.set cond, [.dst]⟩

def spec? (mnemonic : String) : Option Spec :=
  specs.find? fun spec => spec.op.name = mnemonic

/-- Every mnemonic, in alphabetical order. -/
def mnemonics : List String :=
  (specs.map fun spec => spec.op.name).mergeSort fun first second =>
    first < second || first = second

/-- Lower case for ASCII letters. -/
def lowerCase (word : String) : String :=
  String.ofList (word.toList.map Char.toLower)

def isMnemonic (word : String) : Bool :=
  (spec? (lowerCase word)).isSome

end X64Backend.Block
