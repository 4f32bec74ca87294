import X64Backend.Cli.Directory
import X64Backend.Cli.Flag
import X64Backend.Generate
import X64Backend.Machine.Run
import X64Backend.Samples
import X64Backend.Target

/-!
The command line: compiles one of the samples, writes the listing, and runs it if asked to.  What a
command does is a list of effects in order, followed by an exit code.
-/

namespace X64Backend.Cli

def programName : String := "x64c"

def versionLine : String := "x64c 0.4.0"

/-- What the flags set. -/
structure Settings where
  sample : String
  list : Bool
  output : String
  target : String
  inline : Bool
  run : Bool
  verbose : Bool
  verboseLong : Bool
  color : Bool
  entry : String
  version : Bool
  deriving DecidableEq, Repr

/-- The settings without any flag. -/
def Settings.ofOptions (options : Options) : Settings :=
  { sample := "fact"
    list := false
    output := ""
    target := Target.name
    inline := true
    run := false
    verbose := options.verbose
    verboseLong := options.verbose
    color := options.color
    entry := options.entry
    version := false }

/-- The flags, in alphabetical order. -/
def flags : List (Flag Settings) :=
  let tracing := "trace allocation, prologue, inlining and fusion decisions"
  [⟨"color", "coloured diagnostics",
      .switch Settings.color fun value settings => { settings with color := value }⟩,
    ⟨"entry", "function called from _start",
      .text Settings.entry fun value settings => { settings with entry := value }⟩,
    ⟨"inline", "honour inline modifiers",
      .switch Settings.inline fun value settings => { settings with inline := value }⟩,
    ⟨"list", "list the sample programs and exit",
      .switch Settings.list fun value settings => { settings with list := value }⟩,
    ⟨"o", "write the assembly to this file instead of stdout",
      .text Settings.output fun value settings => { settings with output := value }⟩,
    ⟨"run", "interpret the generated code and print the exit code",
      .switch Settings.run fun value settings => { settings with run := value }⟩,
    ⟨"s", "sample program to compile (see -list)",
      .text Settings.sample fun value settings => { settings with sample := value }⟩,
    ⟨"target", "target platform",
      .text Settings.target fun value settings => { settings with target := value }⟩,
    ⟨"v", tracing,
      .switch Settings.verbose fun value settings => { settings with verbose := value }⟩,
    ⟨"verbose", tracing,
      .switch Settings.verboseLong fun value settings => { settings with verboseLong := value }⟩,
    ⟨"version", "print version information and exit",
      .switch Settings.version fun value settings => { settings with version := value }⟩]

def Settings.options (settings : Settings) (base : Options) : Options :=
  { base with
    verbose := settings.verbose || settings.verboseLong
    color := settings.color
    entry := settings.entry }

inductive Effect where
  | out (text : String)
  | err (text : String)
  /-- Writes a file.  If that fails, a message follows and the command ends. -/
  | write (path contents : String)
  deriving DecidableEq, Repr

/-- What a command does, and the exit code if all of it succeeds. -/
structure Plan where
  effects : List Effect
  code : Nat
  deriving DecidableEq, Repr

def complaintLine (message : String) : String :=
  programName ++ ": " ++ message ++ "\n"

def complaint (message : String) : Effect :=
  .err (complaintLine message)

def writeComplaint (path : String) (error : WriteError) : String :=
  complaintLine (error.action ++ " " ++ path ++ ": " ++ error.message)

def writeFailureCode : Nat := 1

def sampleList : String :=
  String.join (Sample.all.map fun sample =>
    Text.padRight 8 sample.name ++ " " ++ sample.about ++ "\n")

def unknownSample (name : String) : String :=
  let hint := Suggest.hint name (Sample.all.map Sample.name)
  "unknown sample " ++ Text.quote name ++ if hint = "" then "" else " (" ++ hint ++ ")"

/-- The exit status of a program that is run from its entry point, or why there is none. -/
def interpret (program : Program) : Except String UInt64 := do
  let machine ← (Machine.ofProgram program).mapError Machine.LayoutFault.message
  ((machine.run "_start").2).mapError Machine.Failure.message

def runPlan (settings : Settings) (program : Program) (written : Effect) : Plan :=
  if settings.run then
    match interpret program with
    | .ok status =>
        let line := settings.sample ++ " exited with " ++ toString (Literal.intOfWord status)
        ⟨[written, .out (line ++ "\n")], 0⟩
    | .error message => ⟨[written, complaint message], 1⟩
  else ⟨[written], 0⟩

/-- Writes the listing of a program, and runs it if asked to. -/
def listingPlan (settings : Settings) (program : Program) : Plan :=
  match program.render with
  | .error fault => ⟨[complaint fault.message], 1⟩
  | .ok text =>
      runPlan settings program
        (if settings.output = "" then .out text else .write settings.output text)

/-- What is said of a compilation: its trace, if wanted, and its diagnostics. -/
def messages (options : Options) (compilation : Compilation) : List Effect :=
  (if options.verbose then [.err compilation.traceText] else []) ++
    [.err (compilation.collector.report options.color)]

def compilePlan (settings : Settings) (options : Options) (program : Tree.TypedProgram) : Plan :=
  let compilation := generate options program
  let said := messages options compilation
  match compilation.ok, compilation.program? with
  | true, some code =>
      let rest := listingPlan settings code
      ⟨said ++ rest.effects, rest.code⟩
  | _, _ => ⟨said, 1⟩

def samplePlan (settings : Settings) (base : Options) : Plan :=
  match Sample.named? settings.sample with
  | none => ⟨[complaint (unknownSample settings.sample)], 2⟩
  | some sample =>
      match sample.program settings.inline with
      | .error _ => ⟨[complaint ("malformed sample " ++ Text.quote sample.name)], 2⟩
      | .ok program => compilePlan settings (settings.options base) program

def settingsPlan (settings : Settings) (base : Options) : Plan :=
  if settings.version then ⟨[.out (versionLine ++ "\n")], 0⟩
  else if settings.list then ⟨[.out sampleList], 0⟩
  else
    match Target.resolve settings.target with
    | .error message => ⟨[complaint message], 2⟩
    | .ok _ => samplePlan settings base

/-- What a command does when its arguments give no settings. -/
def usagePlan (defaults : Settings) (error : FlagError) : Plan :=
  let usage := Effect.err (Flag.usage programName flags defaults)
  match error.message? with
  | none => ⟨[usage], 0⟩
  | some message => ⟨[.err (message ++ "\n"), usage], 2⟩

/-- What a command does with given arguments in a given environment. -/
def plan (environment : Options.Environment) (arguments : List String) : Plan :=
  let base := Options.ofEnvironment environment
  let defaults := Settings.ofOptions base
  match Flag.parse flags defaults arguments with
  | .error error => usagePlan defaults error
  | .ok settings => settingsPlan settings base

structure Outcome where
  stdout : String
  stderr : String
  code : Nat
  directory : Directory
  deriving Repr

namespace Outcome

def print (outcome : Outcome) (text : String) : Outcome :=
  { outcome with stdout := outcome.stdout ++ text }

def warn (outcome : Outcome) (text : String) : Outcome :=
  { outcome with stderr := outcome.stderr ++ text }

def write (outcome : Outcome) (path contents : String) : Except WriteError Outcome :=
  match outcome.directory.find path with
  | .error error => .error error
  | .ok (.file name) =>
      .ok { outcome with directory := outcome.directory.put name contents }
  | .ok .stdout => .ok (outcome.print contents)
  | .ok .stderr => .ok (outcome.warn contents)
  | .ok .elsewhere => .ok outcome
  | .ok .full => .error .noSpace

end Outcome

/-- Performs effects one after the other in a directory.  A file that cannot be written ends the
command. -/
def perform (outcome : Outcome) : List Effect → Outcome
  | [] => outcome
  | .out text :: rest => perform (outcome.print text) rest
  | .err text :: rest => perform (outcome.warn text) rest
  | .write path contents :: rest =>
      match outcome.write path contents with
      | .ok written => perform written rest
      | .error error =>
          { outcome.warn (writeComplaint path error) with code := writeFailureCode }

def run (environment : Options.Environment) (arguments : List String) (directory : Directory) :
    Outcome :=
  let plan := plan environment arguments
  perform ⟨"", "", plan.code, directory⟩ plan.effects

end X64Backend.Cli
