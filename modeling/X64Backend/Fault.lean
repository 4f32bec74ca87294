import X64Backend.Pool.Slot

/-!
Internal faults: broken promises between the parts of the generator, and the exhaustion of the
register pool.  A fault ends the compilation.
-/

namespace X64Backend

/-- An internal fault. -/
inductive Fault where
  | poolExhausted
  | noFreeSlot (claim : Pool.Claim) (phys : Phys)
  | noRegisterYet
  | accumulatorBusy (claim : Pool.Claim)
  | noSuchSlot (index : Int)
  | stackUnderflow (what recent : String)
  | stackImbalance (amount depth : Int64) (recent : String)
  | stackMisaligned (target recent : String)
  | stackLeft (procedure : String) (depth expected : Int64)
  | noReceiver (signature : String)
  | argumentCount (signature : String) (expected given : Nat)
  | notReference (parameter : String)
  | notAddressable (expression : String)
  | notAssignable (expression : String)
  | absentStatement
  | absentExpression
  | unknownOperator (symbol : String)
  | unknownUnaryOperator (symbol : String)
  | notTestable (operand : Operand)
  | voidMove (destination : Operand)
  | operandCount (mnemonic : String) (count : Nat)
  /-- An expansion nested deeper than the options allow.  The decision to expand a call rules it
  out. -/
  | expansionDepth
  deriving DecidableEq, Repr

namespace Fault

/-- The wording of a fault without the words that mark it as one. -/
def detail : Fault → String
  | poolExhausted =>
      "register pool exhausted: all " ++ toString Pool.slotCount ++ " slots in use"
  | noFreeSlot claim phys =>
      "register pool exhausted: no free slot to move " ++ claim.text ++ " out of " ++ phys.text
  | noRegisterYet => "no register has been allocated yet"
  | accumulatorBusy claim =>
      "accumulator is " ++ claim.text ++ "; Reserve must precede CallAlloc"
  | noSuchSlot index => "no such register slot " ++ toString index
  | stackUnderflow what recent => "stack underflow popping " ++ what ++ recent
  | stackImbalance amount depth recent =>
      "stack imbalance: add rsp, " ++ toString amount ++ " with depth " ++ toString depth ++ recent
  | stackMisaligned target recent => "stack misaligned by 8 at call " ++ target ++ recent
  | stackLeft procedure depth expected =>
      procedure ++ " leaves " ++ toString depth ++ " bytes on the stack, expected " ++
        toString expected
  | noReceiver signature => "method " ++ signature ++ " called without a receiver"
  | argumentCount signature expected given =>
      signature ++ " takes " ++ toString expected ++ " arguments, got " ++ toString given
  | notReference parameter =>
      "argument for ref parameter " ++ parameter ++ " is not addressable"
  | notAddressable expression => expression ++ " is not addressable"
  | notAssignable expression => expression ++ " cannot be assigned to"
  | absentStatement => "unexpected statement <nil>"
  | absentExpression => "unexpected expression <nil>"
  | unknownOperator symbol => "unknown operator " ++ symbol
  | unknownUnaryOperator symbol => "unknown unary operator " ++ symbol
  | notTestable operand => "cannot test " ++ operand.text
  | voidMove destination => "move of a void value into " ++ destination.text
  | operandCount mnemonic count => mnemonic ++ " with " ++ toString count ++ " operands"
  | expansionDepth => "inline expansion nested too deeply"

def message (fault : Fault) : String :=
  "internal fault: " ++ fault.detail

end Fault

end X64Backend
