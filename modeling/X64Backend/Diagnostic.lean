import X64Backend.Fault
import X64Backend.Text.Lines

/-!
Diagnostics and their collection over one compilation.
-/

namespace X64Backend

inductive Level where
  | warning
  | error
  | fatal
  | other
  deriving DecidableEq, Repr, Inhabited

def Level.text : Level → String
  | warning => "warning"
  | error => "error"
  | fatal => "fatal error"
  | other => "unknown"

def Level.ofNumber : Int → Level
  | 0 => warning
  | 1 => error
  | 2 => fatal
  | _ => other

inductive Category where
  | grammar
  | semantic
  | codegen
  | internal
  | other
  deriving DecidableEq, Repr, Inhabited

def Category.text : Category → String
  | grammar => "syntax"
  | semantic => "semantic"
  | codegen => "codegen"
  | internal => "internal"
  | other => "unknown"

def Category.ofNumber : Int → Category
  | 0 => grammar
  | 1 => semantic
  | 2 => codegen
  | 3 => internal
  | _ => other

structure Location where
  /-- The name of the block or procedure. -/
  file : String
  line : Int
  column : Int
  /-- The length of the offending word, in bytes. -/
  length : Int
  deriving DecidableEq, Repr, Inhabited

namespace Location

def ofProcedure (name : String) : Location := ⟨name, 0, 0, 0⟩

def text (location : Location) : String :=
  let position := toString location.line ++ ":" ++ toString location.column
  if location.file = "" then position
  else if location.line = 0 then location.file
  else location.file ++ ":" ++ position

end Location

/-- A problem in the compiled program after which generation goes on. -/
structure Problem where
  message : String
  literal : String
  /-- The width of the destination in bytes, if there is one. -/
  destSize : Int
  deriving DecidableEq, Repr, Inhabited

namespace Problem

def ofMessage (message : String) : Problem := ⟨message, "", 0⟩

def literalOverflow (literal : String) (need available : Int) : Problem :=
  { message := "literal " ++ literal ++ " needs " ++ toString need ++
      " bytes but the destination holds " ++ toString available
    literal
    destSize := available }

end Problem

/-- What lies behind a diagnostic. -/
inductive DiagnosticCause where
  | problem (problem : Problem)
  | internal (detail : String)
  deriving DecidableEq, Repr

structure Diagnostic where
  level : Level
  category : Category
  message : String
  location : Location
  sourceLine : String := ""
  suggestion : String := ""
  help : String := ""
  cause : Option DiagnosticCause := none
  deriving DecidableEq, Repr

namespace Diagnostic

def ofGrammar (message : String) (location : Location) : Diagnostic :=
  { level := .error, category := .grammar, message, location }

def unexpected (expected got : String) (location : Location) : Diagnostic :=
  ofGrammar ("expected " ++ expected ++ ", got " ++ got) location

def ofProblem (problem : Problem) (location : Location) : Diagnostic :=
  { level := .error, category := .codegen, message := problem.message, location
    cause := some (.problem problem) }

def fatal (detail : String) (location : Location) : Diagnostic :=
  { level := .fatal, category := .internal, message := "internal fault: " ++ detail, location
    help := "This is an internal compiler error. Please report this bug."
    cause := some (.internal detail) }

def text (diagnostic : Diagnostic) : String :=
  diagnostic.location.text ++ ": " ++ diagnostic.category.text ++ ": " ++ diagnostic.message

inductive Color where
  | red
  | green
  | blue
  | cyan
  | amber

def Color.code : Color → String
  | red => "\x1b[1;31m"
  | green => "\x1b[1;32m"
  | blue => "\x1b[1;34m"
  | cyan => "\x1b[1;36m"
  | amber => "\x1b[1;33m"

def paint (useColor : Bool) (color : Color) (text : String) : String :=
  if useColor then color.code ++ text ++ "\x1b[0m" else text

/-- The source line with a caret below the offending word. -/
def excerpt (diagnostic : Diagnostic) (useColor : Bool) : String :=
  if diagnostic.sourceLine = "" then ""
  else
    let number := toString diagnostic.location.line
    let gutter := Text.repeated ' ' (number.length + 1)
    let caret :=
      if 0 < diagnostic.location.column then
        Text.repeated ' ' (diagnostic.location.column - 1).toNat ++
          paint useColor .red (Text.repeated '^' (max diagnostic.location.length 1).toNat)
      else ""
    gutter ++ "|\n" ++ number ++ " | " ++ diagnostic.sourceLine ++ "\n" ++ gutter ++ "| " ++
      caret ++ "\n"

def format (diagnostic : Diagnostic) (useColor : Bool) : String :=
  paint useColor .red (diagnostic.level.text ++ ": ") ++ diagnostic.message ++ "\n" ++
    paint useColor .blue ("  --> " ++ diagnostic.location.text) ++ "\n" ++
    diagnostic.excerpt useColor ++
    (if diagnostic.suggestion = "" then ""
      else paint useColor .green "   help: " ++ diagnostic.suggestion ++ "\n") ++
    (if diagnostic.help = "" then ""
      else paint useColor .cyan "   note: " ++ diagnostic.help ++ "\n")

end Diagnostic

/-- The diagnostics of one compilation, in the order in which they arose. -/
structure Collector where
  errors : Array Diagnostic
  warnings : Array Diagnostic
  /-- Errors beyond this number are dropped. -/
  maxErrors : Nat
  /-- The text that line numbers refer to. -/
  source : String
  deriving Repr

namespace Collector

def defaultMaxErrors : Nat := 50

/-- No diagnostics yet; a limit that is not positive stands for the default. -/
def withLimit (maxErrors : Int) : Collector :=
  { errors := #[]
    warnings := #[]
    maxErrors := if maxErrors ≤ 0 then defaultMaxErrors else maxErrors.toNat
    source := "" }

def empty : Collector := withLimit 0

/-- A line of the source, counted from one. -/
def sourceLine (collector : Collector) (line : Int) : String :=
  if line ≤ 0 then ""
  else ((Text.splitNewline collector.source)[(line - 1).toNat]?).getD ""

/-- Records a diagnostic, with its source line if it brought none. -/
def add (collector : Collector) (diagnostic : Diagnostic) : Collector :=
  let diagnostic :=
    if diagnostic.sourceLine = "" then
      { diagnostic with sourceLine := collector.sourceLine diagnostic.location.line }
    else diagnostic
  if diagnostic.level = .warning then
    { collector with warnings := collector.warnings.push diagnostic }
  else if collector.errors.size < collector.maxErrors then
    { collector with errors := collector.errors.push diagnostic }
  else collector

def warn (collector : Collector) (diagnostic : Diagnostic) : Collector :=
  collector.add { diagnostic with level := .warning }

def hasErrors (collector : Collector) : Bool :=
  0 < collector.errors.size

def shouldStop (collector : Collector) : Bool :=
  collector.maxErrors ≤ collector.errors.size

/-- Every error on a line of its own. -/
def errorText? (collector : Collector) : Option String :=
  if collector.hasErrors then
    some (Text.join "\n" (collector.errors.toList.map Diagnostic.text))
  else none

/-- The closing line of a report. -/
def summary (collector : Collector) (useColor : Bool) : String :=
  let errors := collector.errors.size
  let warnings := collector.warnings.size
  (if 0 < errors then Diagnostic.paint useColor .red (toString errors ++ " error(s)") else "") ++
    (if 0 < warnings then
      (if 0 < errors then ", " else "") ++
        Diagnostic.paint useColor .amber (toString warnings ++ " warning(s)")
    else "") ++ " found\n"

def report (collector : Collector) (useColor : Bool) : String :=
  let all := collector.errors.toList ++ collector.warnings.toList
  if all.isEmpty then ""
  else
    Text.join "\n" (all.map fun diagnostic => diagnostic.format useColor) ++ "\n" ++
      collector.summary useColor

def clear (collector : Collector) : Collector :=
  { collector with errors := #[], warnings := #[] }

end Collector

end X64Backend
