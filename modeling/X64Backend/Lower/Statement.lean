import X64Backend.Lower.Expression

/-!
Statements.  Temporaries never outlive a statement.
-/

namespace X64Backend.Lower

open X64Backend.Tree

/-- Ends the life of the temporaries. -/
def endStatement : Gen Unit :=
  drafting (Drafting.freeAll false)

def isJump : Instr → Bool
  | .unary .jmp _ => true
  | _ => false

def isJumpTo (label : String) (instr : Instr) : Bool :=
  isJump instr && instr.target? = some label

/-- Leaves the innermost loop or starts its next round. -/
def leaveLoop (keyword : String) (target : Loop → String) : Gen Unit := do
  match (← get).loops with
  | [] => report (.ofMessage (keyword ++ " outside of a loop"))
  | innermost :: _ => jumpTo (target innermost)

def inLoop (entry : Loop) (body : Gen Unit) : Gen Unit := do
  modify fun state => { state with loops := entry :: state.loops }
  body
  modify fun state => { state with loops := state.loops.drop 1 }

def assign (env : Env) (target value : Expr) : Gen Unit := do
  let order : ChunkOrder :=
    match target with
    | .field _ _ => .highFirst
    | _ => .lowFirst
  let result ← (lower env value).value
  let dst ← placeOf env target (lower env target).place?
  store dst result (value.type env.program).isSigned order
  release dst

/-- Whether a returned value can stay where it is as the result of an expansion.  The accumulator
cannot, since a call on another path would move it. -/
def keepable (draft : Draft) (value : Operand) (size : Size) : Bool :=
  match value with
  | .reg register =>
      isTemp draft value && register.size = size &&
        draft.timeline.current register.handle ≠ some .rax
  | _ => false

def setResult (result : Operand) : Gen Unit := do
  modifyActivation fun activation => { activation with result }
  drafting (Drafting.lock result)

/-- Hands a returned value to the expansion.  The first return chooses where the result is. -/
def storeResult (result value : Operand) (size : Size) (signed : Bool) : Gen Unit := do
  match result with
  | .absent =>
      if keepable (← get).draft value size then setResult value
      else
        let chosen ← stable size
        setResult chosen
        store chosen value signed .lowFirst
  | _ => store result value signed .lowFirst

def expansionExit (activation : Activation) : Gen String := do
  match activation.exit with
  | some label => return label
  | none =>
      let label ← newLabel
      modifyActivation fun activation => { activation with exit := some label }
      return label

def returnInside (env : Env) (activation : Activation) (value : Expr) : Gen Unit := do
  if !value.isAbsent then
    let returned ← (lower env value).value
    storeResult activation.result returned
      (env.program.function activation.fn).returnType.operandSize
      (value.type env.program).isSigned
  jumpTo (← expansionExit activation)
  modifyActivation fun activation => { activation with jumps := activation.jumps + 1 }

def returnFrom (env : Env) (frame : Frame) (value : Expr) : Gen Unit := do
  if !value.isAbsent then
    let returned ← (lower env value).value
    let fn := env.program.function frame.fn
    let size := fn.returnType.operandSize
    if size = .unsized then
      report (.ofMessage (fn.signature ++ " returns no value"))
      release returned
    else
      store (.reg (.fix CallingConvention.returnRegister size)) returned
        (value.type env.program).isSigned .lowFirst
  jumpTo frame.exit
  modifyFrame fun frame => { frame with jumps := frame.jumps + 1 }

/-- Returns a value, if there is one, from the innermost expansion or else from the procedure. -/
def ret (env : Env) (value : Expr) : Gen Unit := do
  match ← expansion?, (← get).frame with
  | some activation, _ => returnInside env activation value
  | none, some frame => returnFrom env frame value
  | none, none => return ()

/-- A choice between two bodies, of which the second may be missing. -/
def choose (cond : Lowered) (thenBody : Gen Unit) (elseBody : Option (Gen Unit)) :
    Gen Unit := do
  match cond.literal? with
  | some known => if truth known then thenBody else elseBody.getD (pure ())
  | none =>
      let otherwise ← newLabel
      cond.branch otherwise false
      endStatement
      thenBody
      match elseBody with
      | none => defineLabel otherwise
      | some body =>
          let done ← newLabel
          if !isJump (← lastInstr) then jumpTo done
          defineLabel otherwise
          body
          endStatement
          defineLabel done

def repeatWhile (cond : Lowered) (body : Gen Unit) : Gen Unit := do
  if cond.literal?.all truth then
    let top ← newLabel
    let done ← newLabel
    defineLabel top
    cond.branch done false
    endStatement
    inLoop ⟨done, top⟩ body
    jumpTo top
    defineLabel done

def headerPart (part : Option (Gen Unit)) : Gen Unit := do
  match part with
  | some action =>
      action
      endStatement
  | none => return ()

/-- A loop with a start, a condition and a step, each of which may be missing. -/
def repeatFor (start : Option (Gen Unit)) (cond : Option Lowered) (post : Option (Gen Unit))
    (body : Gen Unit) : Gen Unit := do
  headerPart start
  let top ← newLabel
  let next ← newLabel
  let done ← newLabel
  defineLabel top
  headerPart (cond.map fun cond => cond.branch done false)
  inLoop ⟨done, next⟩ body
  defineLabel next
  headerPart post
  jumpTo top
  defineLabel done

def statement (env : Env) : Stmt → Gen Unit
  | .absent => throw .absentStatement
  | .expr value => do
      release (← (lower env value).value)
  | .assign target value => assign env target value
  | .ret value => ret env value
  | .ite cond thenBody elseBody =>
      choose (lower env cond) (statements env thenBody)
        (if elseBody.isAbsent then none else some (statement env elseBody))
  | .while cond body => repeatWhile (lower env cond) (statements env body)
  | .for start cond post body =>
      repeatFor (if start.isAbsent then none else some (statement env start))
        (if cond.isAbsent then none else some (lower env cond))
        (if post.isAbsent then none else some (statement env post))
        (statements env body)
  | .break => leaveLoop "break" Loop.exit
  | .continue => leaveLoop "continue" Loop.next
  | .block body => statements env body
where
  statements (env : Env) : List Stmt → Gen Unit
    | [] => pure ()
    | s :: rest => do
        statement env s
        endStatement
        statements env rest

def block (env : Env) (body : List Stmt) : Gen Unit :=
  statement.statements env body

end X64Backend.Lower
