import X64Backend.Fault

/-!
The words that the body of a procedure has pushed, counted from the aligned stack that the prologue
sets up.  The count is itself a machine word and wraps around.  A misaligned call or an unbalanced
pop is a fault of the generator.
-/

namespace X64Backend

/-- The depth of the stack with the operations that led there. -/
structure StackDepth where
  /-- The depth in words. -/
  words : Int64
  /-- Descriptions of the operations, newest first. -/
  operations : List String
  deriving Repr

/-- Computations on a depth that may fault; the result is a trace message. -/
abbrev Tracking := EStateM Fault StackDepth

namespace StackDepth

def start : StackDepth := ⟨0, []⟩

def bytes (depth : StackDepth) : Int64 := depth.words * 8

/-- The newest operations, oldest first, each on a line of its own. -/
def recent (depth : StackDepth) : String :=
  String.join ((depth.operations.take 10).reverse.map ("\n  " ++ ·))

def record (operation : String) : Tracking String := do
  let depth ← get
  set { depth with
    operations := (operation ++ " (depth=" ++ toString depth.words ++ ")") :: depth.operations }
  return "stack: " ++ operation ++ ", depth now " ++ toString depth.words

def move (words : Int64) : Tracking Unit :=
  modify fun depth => { depth with words := depth.words + words }

def push (what : String) : Tracking String := do
  move 1
  record ("push " ++ what)

def pop (what : String) : Tracking String := do
  let depth ← get
  if depth.words ≤ 0 then throw (.stackUnderflow what depth.recent)
  move (-1)
  record ("pop " ++ what)

def sub (amount : Int64) : Tracking String := do
  move (amount / 8)
  record ("sub rsp, " ++ toString amount)

def add (amount : Int64) : Tracking String := do
  let depth ← get
  if depth.words < amount / 8 then throw (.stackImbalance amount depth.words depth.recent)
  move (-(amount / 8))
  record ("add rsp, " ++ toString amount)

/-- A call is made, which needs an even number of words on the stack. -/
def call (target : String) : Tracking String := do
  let depth ← get
  if depth.words % 2 ≠ 0 then throw (.stackMisaligned target depth.recent)
  record ("call " ++ target)

end StackDepth

end X64Backend
