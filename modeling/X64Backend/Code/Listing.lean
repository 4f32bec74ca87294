import X64Backend.Code.Stream
import X64Backend.Text.Lines

/-!
The written form of a program: assembler source in Intel notation without register prefixes.
-/

namespace X64Backend

structure Program where
  text : Stream
  data : Stream
  timeline : Timeline
  deriving DecidableEq, Repr, Inhabited

namespace Program

def empty : Program := ⟨.empty, .empty, .empty⟩

end Program

namespace Listing

/-- Why an instruction has no written form. -/
inductive Cause where
  | unboundHandle (handle : Handle)
  | noAlias (phys : Phys) (size : Size)
  | unknownOperand
  | unknownInstruction
  deriving DecidableEq, Repr

def Cause.message : Cause → String
  | unboundHandle handle => "unbound register handle " ++ toString handle
  | noAlias phys size => "register " ++ phys.text ++ " has no " ++ size.text ++ "-bit alias"
  | unknownOperand => "unknown operand <nil>"
  | unknownInstruction => "unknown instruction <nil>"

/-- An instruction without a written form, and its index in the stream. -/
structure Fault where
  index : Nat
  cause : Cause
  deriving DecidableEq, Repr

def Fault.message (fault : Fault) : String :=
  "instruction " ++ toString fault.index ++ ": " ++ fault.cause.message

def register (timeline : Timeline) (tick : Nat) (reg : Register) : Except Cause String :=
  match timeline.resolve reg tick with
  | none => .error (.unboundHandle reg.handle)
  | some phys =>
      match phys.name? reg.size with
      | some name => .ok name
      | none => .error (.noAlias phys reg.size)

def address (base : String) (disp : Int) : String :=
  if 0 < disp then base ++ "+" ++ toString disp
  else if disp < 0 then base ++ toString disp
  else base

def operand (timeline : Timeline) (tick : Nat) (branchTarget : Bool) :
    Operand → Except Cause String
  | .absent => .error .unknownOperand
  | .reg reg => register timeline tick reg
  | .mem pointer => do
      let base ← register timeline tick (pointer.base.resize .s64)
      let inside := "[" ++ address base pointer.disp.toInt ++ "]"
      return if pointer.size = .unsized then inside else pointer.size.keyword ++ " PTR " ++ inside
  | .lit literal => .ok (literal.render branchTarget)

/-- Whether an instruction moves a full-width register onto itself; such a move is not written. -/
def isSelfMove (timeline : Timeline) (tick : Nat) : Instr → Bool
  | .binary .mov (.reg dst) (.reg src) =>
      dst.size = .s64 && src.size = .s64 && timeline.resolve dst tick = timeline.resolve src tick
  | _ => false

/-- The written lines of one instruction, each closed by a newline. -/
def instr (timeline : Timeline) (tick : Nat) (ins : Instr) : Except Cause String :=
  match ins with
  | .absent => .error .unknownInstruction
  | .binary op dst src =>
      if isSelfMove timeline tick ins then .ok ""
      else do
        let dst ← operand timeline tick false dst
        let src ← operand timeline tick false src
        return "\t" ++ op.name ++ " " ++ dst ++ ", " ++ src ++ "\n"
  | .unary op only => do
      let text ← operand timeline tick op.isBranch only
      return "\t" ++ op.name ++ " " ++ text ++ "\n"
  | .nullary op => .ok ("\t" ++ op.name ++ "\n")
  | .globalName name => .ok (".global " ++ name ++ "\n")
  | .sectionName name => .ok (".section " ++ name ++ "\n")
  | .label name procedure => .ok ((if procedure then "\n" else "") ++ name ++ ":\n")
  | .data item =>
      .ok (item.label ++ ":\n\t" ++ item.directive ++ " " ++ Text.join ", " item.values ++ "\n")
  | .comment text => .ok ("\t# " ++ text ++ "\n")

/-- The written form of entries from an index on. -/
def entries (timeline : Timeline) : (index : Nat) → List Entry → Except Fault (List String)
  | _, [] => .ok []
  | index, entry :: rest =>
      match instr timeline entry.tick entry.instr with
      | .error cause => .error ⟨index, cause⟩
      | .ok text => (entries timeline (index + 1) rest).map (text :: ·)

def stream (timeline : Timeline) (code : Stream) : Except Fault String :=
  (entries timeline 0 code.entries.toList).map String.join

end Listing

namespace Program

def render (program : Program) : Except Listing.Fault String := do
  let text ← Listing.stream program.timeline program.text
  let header := ".intel_syntax noprefix\n"
  if program.data.size = 0 then return header ++ text
  else
    let data ← Listing.stream program.timeline program.data
    return header ++ text ++ "\n" ++ data

/-- The lines of the text stream without the blanks around them, empty ones left out. -/
def lines (program : Program) : Except Listing.Fault (List String) := do
  let text ← Listing.stream program.timeline program.text
  return ((Text.splitNewline text).map Text.trimBlank).filter (· ≠ "")

end Program

/-- One instruction on a line of its own as it is at a tick, for traces. -/
def Instr.oneLine (ins : Instr) (timeline : Timeline) (tick : Nat) : String :=
  match Listing.instr timeline tick ins with
  | .ok text => Text.trimBlank text
  | .error cause => "<" ++ (Listing.Fault.mk 0 cause).message ++ ">"

end X64Backend
