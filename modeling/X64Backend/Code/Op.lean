import X64Backend.Code.Cond
import X64Backend.Text.Lines

/-!
Instruction mnemonics.
-/

namespace X64Backend

/-- A mnemonic.  `other` holds the names that no part of this library gives a meaning to. -/
inductive Op where
  | mov
  | movzx
  | movsx
  | movsxd
  | lea
  | add
  | sub
  | imul
  | idiv
  | div
  | and
  | or
  | xor
  | shl
  | sar
  | shr
  | cmp
  | test
  | neg
  | not
  | inc
  | dec
  | push
  | pop
  | call
  | jmp
  | ret
  | cqo
  | cdq
  | syscall
  | nop
  | leave
  | xchg
  | set (cond : Cond)
  | jump (cond : Cond)
  | other (name : String)
  deriving DecidableEq, Repr, Inhabited

namespace Op

def name : Op → String
  | mov => "mov"
  | movzx => "movzx"
  | movsx => "movsx"
  | movsxd => "movsxd"
  | lea => "lea"
  | add => "add"
  | sub => "sub"
  | imul => "imul"
  | idiv => "idiv"
  | div => "div"
  | and => "and"
  | or => "or"
  | xor => "xor"
  | shl => "shl"
  | sar => "sar"
  | shr => "shr"
  | cmp => "cmp"
  | test => "test"
  | neg => "neg"
  | not => "not"
  | inc => "inc"
  | dec => "dec"
  | push => "push"
  | pop => "pop"
  | call => "call"
  | jmp => "jmp"
  | ret => "ret"
  | cqo => "cqo"
  | cdq => "cdq"
  | syscall => "syscall"
  | nop => "nop"
  | leave => "leave"
  | xchg => "xchg"
  | set cond => "set" ++ cond.suffix
  | jump cond => "j" ++ cond.suffix
  | other name => name

/-- Every mnemonic with a meaning. -/
def known : List Op :=
  [mov, movzx, movsx, movsxd, lea, add, sub, imul, idiv, div, and, or, xor, shl, sar, shr, cmp,
    test, neg, not, inc, dec, push, pop, call, jmp, ret, cqo, cdq, syscall, nop, leave, xchg] ++
    Cond.all.map set ++ Cond.all.map jump

def ofName (spelling : String) : Op :=
  (known.find? fun op => op.name = spelling).getD (other spelling)

/-- The condition that a truth-storing mnemonic tests. -/
def setCond? : Op → Option Cond
  | set cond => some cond
  | _ => none

def jumpCond? : Op → Option Cond
  | jump cond => some cond
  | _ => none

/-- Whether the mnemonic transfers control to its operand. -/
def isBranch : Op → Bool
  | jmp | call | jump _ => true
  | _ => false

end Op

end X64Backend
