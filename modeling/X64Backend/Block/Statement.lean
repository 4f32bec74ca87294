import X64Backend.Block.Dispatch
import X64Backend.Block.Token
import X64Backend.Code.Operand

/-!
Inline assembly blocks as they are written: declarations of named registers, instructions, and the
value of the block.
-/

namespace X64Backend

namespace Block

/-- A hardware register or a name declared for one.  A size of its own overrides the declared
one. -/
structure RegRef where
  pos : Pos
  name : String
  /-- Whether the name was declared in the block. -/
  named : Bool
  /-- The hardware register; a declared name may have none. -/
  phys : Option Phys
  type : String
  size : Size
  deriving DecidableEq, Repr, Inhabited

structure VarRef where
  pos : Pos
  name : String
  deriving DecidableEq, Repr, Inhabited

inductive BaseRef where
  | reg (register : RegRef)
  | var (reference : VarRef)
  deriving DecidableEq, Repr, Inhabited

inductive Term where
  | var (reference : VarRef)
  | reg (register : RegRef)
  | mem (pos : Pos) (size : Size) (base : BaseRef) (disp : Int32)
  | lit (pos : Pos) (value : Literal)
  deriving DecidableEq, Repr, Inhabited

/-- The declaration of a named register.  Without a hardware register the name is bound to a
register of the pool at its first use. -/
structure Alloc where
  pos : Pos
  name : String
  phys : Option Phys
  type : String
  size : Size
  deriving DecidableEq, Repr, Inhabited

/-- An instruction with its entry in the dispatch table. -/
structure Instruction where
  pos : Pos
  mnemonic : String
  spec : Spec
  operands : List Term
  /-- Whether the first operand is the value of the block. -/
  returned : Bool
  deriving DecidableEq, Repr, Inhabited

inductive Statement where
  | alloc (declaration : Alloc)
  /-- Gives a named register back; `implicit` where the block itself did not say so. -/
  | free (pos : Pos) (name : String) (implicit : Bool)
  | instr (instruction : Instruction)
  | value (pos : Pos) (operand : Term)
  deriving DecidableEq, Repr, Inhabited

end Block

structure Block where
  name : String
  statements : List Block.Statement
  /-- The declarations in the order in which they were made. -/
  decls : List Block.Alloc
  deriving DecidableEq, Repr, Inhabited

namespace Block

/-- The operand that a statement makes the value of its block. -/
def Statement.result? : Statement → Option Term
  | .value _ operand => some operand
  | .instr instruction => if instruction.returned then instruction.operands.head? else none
  | _ => none

def result? (block : Block) : Option Term :=
  block.statements.findSome? Statement.result?

/-- The named register that the block returns. -/
def returnedName? (block : Block) : Option String :=
  match block.result? with
  | some (.reg register) => if register.named then some register.name else none
  | _ => none

/-- The first declaration of a name. -/
def decl? (block : Block) (name : String) : Option Alloc :=
  block.decls.find? fun declaration => declaration.name = name

def Statement.written : Statement → List String
  | .instr instruction =>
      (instruction.operands.zip instruction.spec.positions).filterMap fun
        | (.var reference, position) => if position.written then some reference.name else none
        | _ => none
  | _ => []

/-- The variables that the instructions of a block write. -/
def writtenVariables (block : Block) : List String :=
  (block.statements.flatMap Statement.written).eraseDups

/-- The variable that an operand mentions. -/
def Term.mentioned? : Term → Option String
  | .var reference => some reference.name
  | .mem _ _ (.var reference) _ => some reference.name
  | _ => none

def Statement.mentioned : Statement → List String
  | .instr instruction => instruction.operands.filterMap Term.mentioned?
  | .value _ operand => operand.mentioned?.toList
  | _ => []

/-- The variables that a block mentions. -/
def readVariables (block : Block) : List String :=
  (block.statements.flatMap Statement.mentioned).eraseDups

end Block

end X64Backend
