import X64Backend.Text.Quoted

/-!
Command-line flags.  A flag is written with one hyphen or two.  A switch takes a value only behind
an equals sign; any other flag takes it there or from the next argument.  The flags end at the first
argument that is none, or behind two hyphens.
-/

namespace X64Backend.Cli

/-- How a flag changes the settings, and what it is set to. -/
inductive Flag.Kind (σ : Type) where
  | switch (get : σ → Bool) (set : Bool → σ → σ)
  | text (get : σ → String) (set : String → σ → σ)

structure Flag (σ : Type) where
  name : String
  about : String
  kind : Flag.Kind σ

/-- Why the arguments give no settings. -/
inductive FlagError where
  | help
  | badSyntax (argument : String)
  | undefined (name : String)
  | needsArgument (name : String)
  | notBoolean (name value : String)
  deriving DecidableEq, Repr

/-- The wording of an error; there is none when the usage was asked for. -/
def FlagError.message? : FlagError → Option String
  | help => none
  | badSyntax argument => some ("bad flag syntax: " ++ argument)
  | undefined name => some ("flag provided but not defined: -" ++ name)
  | needsArgument name => some ("flag needs an argument: -" ++ name)
  | notBoolean name value =>
      some ("invalid boolean value " ++ Text.quote value ++ " for -" ++ name ++ ": parse error")

namespace Flag

def readBool? (word : String) : Option Bool :=
  if ["1", "t", "T", "TRUE", "true", "True"].contains word then some true
  else if ["0", "f", "F", "FALSE", "false", "False"].contains word then some false
  else none

inductive Argument where
  /-- The flags end here. -/
  | final
  | malformed
  /-- A flag with the value behind its equals sign, if there is one. -/
  | flag (name : String) (value? : Option String)
  deriving DecidableEq, Repr

/-- Splits a flag at its first equals sign. -/
def splitValue (chars : List Char) : Argument :=
  let name := chars.takeWhile (· ≠ '=')
  match chars.drop name.length with
  | [] => .flag (String.ofList name) none
  | _ :: value => .flag (String.ofList name) (some (String.ofList value))

/-- Reads a flag without its hyphens, which is neither empty nor starts with a hyphen or an equals
sign. -/
def classifyName : List Char → Argument
  | [] | '-' :: _ | '=' :: _ => .malformed
  | chars => splitValue chars

def classify (argument : String) : Argument :=
  match argument.toList with
  | ['-', '-'] => .final
  | '-' :: '-' :: name => classifyName name
  | '-' :: c :: name => classifyName (c :: name)
  | _ => .final

/-- Reads the arguments one after the other into the settings. -/
def parse {σ : Type} (flags : List (Flag σ)) : σ → List String → Except FlagError σ
  | settings, [] => .ok settings
  | settings, argument :: rest =>
      match classify argument with
      | .final => .ok settings
      | .malformed => .error (.badSyntax argument)
      | .flag name value? =>
          match flags.find? fun flag => flag.name = name with
          | none => .error (if name = "h" || name = "help" then .help else .undefined name)
          | some flag =>
              match flag.kind, value? with
              | .switch _ set, none => parse flags (set true settings) rest
              | .switch _ set, some value =>
                  match readBool? value with
                  | some truth => parse flags (set truth settings) rest
                  | none => .error (.notBoolean name value)
              | .text _ set, some value => parse flags (set value settings) rest
              | .text _ set, none =>
                  match rest with
                  | value :: further => parse flags (set value settings) further
                  | [] => .error (.needsArgument name)

/-- What the usage says of a default value.  An empty one is not mentioned. -/
def defaultText {σ : Type} (defaults : σ) : Kind σ → String
  | .switch get _ => if get defaults then " (default true)" else ""
  | .text get _ =>
      if get defaults = "" then "" else " (default " ++ Text.quote (get defaults) ++ ")"

/-- The lines of the usage on one flag.  What a switch of one letter does follows on the same
line. -/
def usageOf {σ : Type} (defaults : σ) (flag : Flag σ) : String :=
  let head :=
    match flag.kind with
    | .switch _ _ => "  -" ++ flag.name
    | .text _ _ => "  -" ++ flag.name ++ " string"
  let gap := if head.length ≤ 4 then "\t" else "\n    \t"
  head ++ gap ++ flag.about ++ defaultText defaults flag.kind ++ "\n"

/-- The usage of a program: its flags in the given order. -/
def usage {σ : Type} (program : String) (flags : List (Flag σ)) (defaults : σ) : String :=
  "Usage of " ++ program ++ ":\n" ++ String.join (flags.map (usageOf defaults))

end Flag

end X64Backend.Cli
