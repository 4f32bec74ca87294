import X64Backend.Cli.Command

/-!
The command-line program: performs the plan of a command on the real file system.
-/

namespace X64Backend.Cli

def optionVariables : List String :=
  ["X64C_VERBOSE", "X64C_COLOR", "X64C_RED_ZONE", "X64C_INLINE_DEPTH", "X64C_ENTRY"]

def readEnvironment : IO Options.Environment := do
  let entries ← optionVariables.mapM fun name => do
    return (← IO.getEnv name).map fun value => (name, value)
  return entries.filterMap id

def writeErrorOf : IO.Error → WriteError
  | .inappropriateType _ code _ => if code = 20 then .notDirectory else .isDirectory
  | .invalidArgument _ _ _ => .nameTooLong
  | .resourceExhausted _ _ _ => .noSpace
  | _ => .notFound

/-- Performs an effect.  The result is what to say if it failed. -/
def performOne : Effect → IO (Option String)
  | .out text => do
      (← IO.getStdout).putStr text
      return none
  | .err text => do
      (← IO.getStderr).putStr text
      return none
  | .write path contents => do
      try
        IO.FS.writeFile path contents
        return none
      catch error => return some (writeComplaint path (writeErrorOf error))

/-- Performs effects one after the other until one fails.  The result is the exit code. -/
def performAll (code : Nat) : List Effect → IO Nat
  | [] => return code
  | first :: rest => do
      match ← performOne first with
      | none => performAll code rest
      | some message =>
          (← IO.getStderr).putStr message
          return writeFailureCode

end X64Backend.Cli

def main (arguments : List String) : IO UInt32 := do
  let plan := X64Backend.Cli.plan (← X64Backend.Cli.readEnvironment) arguments
  let code ← X64Backend.Cli.performAll plan.code plan.effects
  return code.toUInt32
