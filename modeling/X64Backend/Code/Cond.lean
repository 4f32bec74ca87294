/-!
Condition codes, shared by conditional jumps and by the instructions that store a truth value.
-/

namespace X64Backend

inductive Cond where
  | e
  | ne
  | l
  | le
  | g
  | ge
  | b
  | be
  | a
  | ae
  deriving DecidableEq, Repr, Inhabited

namespace Cond

def all : List Cond := [e, ne, l, le, g, ge, b, be, a, ae]

def suffix : Cond → String
  | e => "e"
  | ne => "ne"
  | l => "l"
  | le => "le"
  | g => "g"
  | ge => "ge"
  | b => "b"
  | be => "be"
  | a => "a"
  | ae => "ae"

def ofSuffix? (name : String) : Option Cond :=
  all.find? fun cond => cond.suffix = name

/-- The condition that holds exactly when this one does not. -/
def negate : Cond → Cond
  | e => ne
  | ne => e
  | l => ge
  | le => g
  | g => le
  | ge => l
  | b => ae
  | be => a
  | a => be
  | ae => b

/-- The condition to use when the compared operands change places. -/
def swap : Cond → Cond
  | e => e
  | ne => ne
  | l => g
  | le => ge
  | g => l
  | ge => le
  | b => a
  | be => ae
  | a => b
  | ae => be

end Cond

end X64Backend
