import X64Backend.Lower.Fold
import X64Backend.Lower.Move

/-!
Truth values and branches.  A comparison that was just made is branched on, stored or negated
directly, without looking at the byte it left.
-/

namespace X64Backend.Lower

def storedCond? (instr : Instr) (location : Operand) : Option Cond :=
  match instr with
  | .unary (.set cond) operand => if operand.sameLocation location then some cond else none
  | _ => none

/-- The condition that the newest instruction stores at a location. -/
def lastSet? (location : Operand) : Gen (Option Cond) := do
  return storedCond? (← lastInstr) location

def test (operand : Operand) : Gen Unit :=
  match operand with
  | .reg _ => emit [.binary .test operand operand]
  | .mem _ => emit [.binary .cmp operand (.lit (.ofInt 0))]
  | _ => throw (.notTestable operand)

def testAndBranch (operand : Operand) (label : String) (wanted : Bool) : Gen Unit := do
  match operand with
  | .lit literal => if truth literal = wanted then jumpTo label
  | _ =>
      match ← lastSet? operand with
      | some stored =>
          let cond := if wanted then stored else stored.negate
          if ← temp operand then
            modifyText fun text => text.replaceLast (.branch (.jump cond) label)
            log ("fusion: set" ++ stored.suffix ++ " replaced by j" ++ cond.suffix ++ " " ++ label)
          else emit [.branch (.jump cond) label]
          release operand
      | none =>
          test operand
          release operand
          emit [.branch (.jump (if wanted then .ne else .e)) label]

/-- Points the instruction that made a truth value at the byte it is to be stored in.  The result
says whether that was possible. -/
def fuseStore (dst value : Operand) : Gen Bool := do
  if dst.size.bytes = 1 && (← temp value) then
    match ← lastSet? value with
    | some cond =>
        modifyText fun text => text.replaceLast (.unary (.set cond) dst)
        release value
        log ("fusion: set" ++ cond.suffix ++ " stored directly into " ++ dst.text)
        return true
    | none => return false
  else return false

def store (dst value : Operand) (signed : Bool) (order : ChunkOrder) : Gen Unit := do
  if !(← fuseStore dst value) then
    move dst value signed order
    release value

end X64Backend.Lower
