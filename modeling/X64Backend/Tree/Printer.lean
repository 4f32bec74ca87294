import X64Backend.Text.Quoted
import X64Backend.Tree.TypedProgram

/-!
The written form of trees.  A tree with a missing part has no written form; where such a part is
shown inside another text, a mark stands in its place.
-/

namespace X64Backend.Tree

/-- How a part is shown inside another text: a missing part, and a part that itself lacks a part,
have marks of their own. -/
def shownPart (isAbsent : Bool) (text : Option String) : String :=
  if isAbsent then "%!s(<nil>)"
  else text.getD
    "%!s(PANIC=String method: runtime error: invalid memory address or nil pointer dereference)"

def operatorText (symbol left right : String) : String :=
  "(" ++ left ++ " " ++ symbol ++ " " ++ right ++ ")"

def Expr.text? (program : TypedProgram) : Expr → Option String
  | .absent => none
  | .lit value _ => some (if value.kind = .string then Text.quote value.text else value.text)
  | .var id => some (program.var id).name
  | .field object member => do
      return (← object.text? program) ++ "." ++ member.name
  | .binary op left right _ =>
      some (operatorText op.symbol (shownPart left.isAbsent (left.text? program))
        (shownPart right.isAbsent (right.text? program)))
  | .overloaded op left right _ _ =>
      some (operatorText op.symbol (shownPart left.isAbsent (left.text? program))
        (shownPart right.isAbsent (right.text? program)))
  | .unary op operand _ => do
      return op.symbol ++ (← operand.text? program)
  | .logical op left right =>
      some (operatorText op.symbol (shownPart left.isAbsent (left.text? program))
        (shownPart right.isAbsent (right.text? program)))
  | .call callee receiver arguments _ => do
      let arguments ← textOfAll? arguments
      let name := (program.function callee).name
      let name ← if receiver.isAbsent then some name
        else (receiver.text? program).map (· ++ "." ++ name)
      return name ++ "(" ++ Text.join ", " arguments ++ ")"
  | .new cls arguments => do
      return "new " ++ (program.cls cls).name ++ "(" ++
        Text.join ", " (← textOfAll? arguments) ++ ")"
  | .asm block _ _ => some ("asm " ++ block.name)
where
  textOfAll? : List Expr → Option (List String)
    | [] => some []
    | e :: rest => do
        return (← e.text? program) :: (← textOfAll? rest)

/-- An expression as it is shown in a message. -/
def Expr.shown (program : TypedProgram) (e : Expr) : String :=
  shownPart e.isAbsent (e.text? program)

def blockText (lines : List String) : String :=
  "\x7b\n" ++ Text.join "\n" lines ++ "\n\x7d"

def Stmt.text? (program : TypedProgram) : Stmt → Option String
  | .absent => none
  | .expr value => value.text? program
  | .assign target value => do
      return (← target.text? program) ++ " = " ++ (← value.text? program)
  | .ret value =>
      if value.isAbsent then some "return" else (value.text? program).map ("return " ++ ·)
  | .ite cond thenBody elseBody => do
      let head := "if (" ++ cond.shown program ++ ") " ++
        shownPart false ((linesOfAll? thenBody).map blockText)
      if elseBody.isAbsent then return head
      else return head ++ " else " ++ (← elseBody.text? program)
  | .while cond body =>
      some ("while (" ++ cond.shown program ++ ") " ++
        shownPart false ((linesOfAll? body).map blockText))
  | .for start cond post body => do
      let start ← if start.isAbsent then some "" else start.text? program
      let cond ← if cond.isAbsent then some "" else cond.text? program
      let post ← if post.isAbsent then some "" else post.text? program
      return "for (" ++ start ++ "; " ++ cond ++ "; " ++ post ++ ") " ++
        shownPart false ((linesOfAll? body).map blockText)
  | .break => some "break"
  | .continue => some "continue"
  | .block body => (linesOfAll? body).map blockText
where
  linesOfAll? : List Stmt → Option (List String)
    | [] => some []
    | s :: rest => do
        return ("  " ++ (← s.text? program) ++ ";") :: (← linesOfAll? rest)

end X64Backend.Tree
