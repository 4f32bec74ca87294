import X64Backend.Lower.Procedure
import X64Backend.Suggest

/-!
Code generation for whole programs: the entry point, every function, the texts and the method
tables.
-/

namespace X64Backend

namespace Lower

open X64Backend.Tree

/-- The number of the service that ends the process. -/
def exitService : Int := 60

/-- The instructions that call a function and exit with its result. -/
def entryStub (symbol : String) : List Instr :=
  let rax : Register := .fix .rax .s64
  [.branch .call symbol,
    .binary .mov (.reg (.fix .rdi .s64)) (.reg rax),
    .binary .mov (.reg (rax.resize .s32)) (.lit (.ofInt exitService)),
    .nullary .syscall]

def missingEntry (program : TypedProgram) (name : String) : Problem :=
  let hint := Suggest.hint name (program.functions.toList.map Function.name)
  .ofMessage ("entry function " ++ Text.quote name ++ " not found" ++
    if hint = "" then "" else " (" ++ hint ++ ")")

def entryPoint (env : Env) : Gen Unit := do
  let name := if env.program.entry = "" then env.options.entry else env.program.entry
  emit [.label "_start" true]
  match env.program.lookup name with
  | some fn => emit (entryStub fn.linkName)
  | none => report (missingEntry env.program name)

/-- Generates a function, unless it is defined elsewhere. -/
def functionCode (env : Env) (id : FnId) : Gen Unit :=
  match (env.program.function id).body with
  | some body => procedure env id body
  | none => pure ()

def methodTables (program : TypedProgram) : List Instr :=
  (program.classes.toList.filter Class.hasVTable).map fun c =>
    .data ⟨c.vtableLabel, ".quad", c.virtual.map fun id => (program.function id).linkName⟩

/-- The data of a program: its texts and its method tables. -/
def withTables (data : Stream) (tables : List Instr) : Stream :=
  if data.size = 0 && tables.isEmpty then data
  else (data.insert 0 [.sectionName ".data"]).append tables

def wholeProgram (env : Env) : Gen Unit := do
  emit [.sectionName ".text", .globalName "_start"]
  entryPoint env
  (List.range env.program.functions.size).forM (functionCode env)
  modify fun state =>
    { state with frame := none, data := withTables state.data (methodTables env.program) }

end Lower

structure Compilation where
  /-- The code, unless an internal fault stopped generation.  With errors it is not to be used. -/
  program? : Option Program
  collector : Collector
  trace : List String

namespace Compilation

def ok (compilation : Compilation) : Bool :=
  !compilation.collector.hasErrors

/-- The trace as a text, each message on lines of its own. -/
def traceText (compilation : Compilation) : String :=
  String.join (compilation.trace.map (· ++ "\n"))

def ofState (state : Lower.State) (program? : Option Program) (collector : Collector) :
    Compilation :=
  { program?, collector, trace := state.draft.trace.reverse }

end Compilation

/-- Compiles a program.  Problems are collected and generation goes on; an internal fault stops it,
and then there is no code. -/
def generate (options : Options) (program : Tree.TypedProgram) : Compilation :=
  match Lower.wholeProgram (.of program options.normalize) .initial with
  | .ok _ state => .ofState state (some (state.draft.toProgram state.data)) state.collector
  | .error fault state =>
      .ofState state none (state.collector.add (.fatal fault.detail state.location))

end X64Backend
