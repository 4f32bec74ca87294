import X64Backend.Numeral.Integer

/-!
The options of a compilation, their defaults, and how the environment overrides them.
-/

namespace X64Backend

structure Options where
  /-- Trace allocation, prologue, inlining and fusion decisions. -/
  verbose : Bool
  color : Bool
  /-- Leaf functions with a frame of up to this many bytes leave the stack pointer alone. -/
  redZone : Int
  inlineDepth : Int
  /-- The function that the entry point calls. -/
  entry : String
  deriving DecidableEq, Repr

namespace Options

/-- The largest red zone, which is also the default one. -/
def defaultRedZone : Int := 128

def defaultInlineDepth : Int := 16

def defaultEntry : String := "Main"

def default : Options :=
  { verbose := false
    color := false
    redZone := defaultRedZone
    inlineDepth := defaultInlineDepth
    entry := defaultEntry }

/-- Puts the default in place of every value out of range. -/
def normalize (options : Options) : Options :=
  { options with
    redZone :=
      if options.redZone < 0 ∨ defaultRedZone < options.redZone then defaultRedZone
      else options.redZone
    inlineDepth := if options.inlineDepth < 0 then defaultInlineDepth else options.inlineDepth
    entry := if options.entry = "" then defaultEntry else options.entry }

abbrev Environment := List (String × String)

/-- The words that switch a flag on. -/
def affirmations : List String :=
  ["1", "ABSOLUTELY", "AFFIRMATIVE", "Absolutely", "Affirmative", "ENABLE", "ENABLED", "Enable",
    "Enabled", "POSITIVE", "Positive", "T", "TRUE", "True", "Y", "YES", "Yes", "absolutely",
    "affirmative", "enable", "enabled", "positive", "t", "true", "y", "yes"]

/-- Whether a variable holds a word that switches it on. -/
def flag (environment : Environment) (name : String) : Bool :=
  match environment.lookup name with
  | some value => affirmations.contains value
  | none => false

/-- The decimal value of a variable; anything else counts as unset. -/
def number (environment : Environment) (name : String) (unset : Int) : Int :=
  match environment.lookup name with
  | some value =>
      match Numeral.readInteger (.fixed 10) value.toList with
      | .ok n => n
      | .error _ => unset
  | none => unset

def text (environment : Environment) (name : String) (unset : String) : String :=
  match environment.lookup name with
  | some value => if value = "" then unset else value
  | none => unset

/-- The default options, overridden by the environment. -/
def ofEnvironment (environment : Environment) : Options :=
  normalize
    { verbose := flag environment "X64C_VERBOSE"
      color := flag environment "X64C_COLOR"
      redZone := number environment "X64C_RED_ZONE" defaultRedZone
      inlineDepth := number environment "X64C_INLINE_DEPTH" defaultInlineDepth
      entry := text environment "X64C_ENTRY" defaultEntry }

end Options

end X64Backend
