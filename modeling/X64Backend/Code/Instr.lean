import X64Backend.Code.Op
import X64Backend.Code.Operand

/-!
Instructions and directives: what one place of an instruction stream holds.
-/

namespace X64Backend

/-- A labelled item of data, such as a text or a table of methods. -/
structure DataItem where
  label : String
  directive : String
  values : List String
  deriving DecidableEq, Repr, Inhabited

/-- One instruction or directive.  An absent one occurs only in code that was put together by
hand. -/
inductive Instr where
  | absent
  | binary (op : Op) (dst src : Operand)
  | unary (op : Op) (operand : Operand)
  | nullary (op : Op)
  | globalName (name : String)
  | sectionName (name : String)
  | label (name : String) (procedure : Bool)
  | data (item : DataItem)
  | comment (text : String)
  deriving DecidableEq, Repr, Inhabited

namespace Instr

/-- A jump, conditional jump or call to a label. -/
def branch (op : Op) (target : String) : Instr :=
  unary op (.lit (.proc target))

def target? : Instr → Option String
  | unary op (.lit literal) => if op.isBranch && literal.isLabel then some literal.text else none
  | _ => none

def operands : Instr → List Operand
  | binary _ dst src => [dst, src]
  | unary _ operand => [operand]
  | _ => []

end Instr

end X64Backend
