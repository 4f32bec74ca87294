import Mathlib.Algebra.Group.Nat.Even
import Mathlib.Data.Multiset.AddSub
import X64Backend.Proofs.Code.Registers
import X64Backend.Proofs.Lower.Expressions

/-!
What the generator can do while it writes the body of a procedure, in moves of one kind each: the
allocator takes a step, an instruction is written, a label is made, aimed at or defined, a word is
pushed for a call, a call in progress begins or ends.  Every computation follows such moves, so
whatever each move keeps is kept by all of them.
-/

namespace X64Backend

open Pool

/-- A register that the code of a procedure may name: one behind a handle that was issued since the
procedure began, or one that need not be restored. -/
def Register.Usable (since count : Handle) (register : Register) : Prop :=
  match register.place with
  | .slot handle => since ≤ handle ∧ handle < count
  | .fixed phys => ∀ slot, slot ≠ accumulator → phys ≠ some (slotPhys slot)

/-- An operand whose register may be named. -/
def Operand.Usable (since count : Handle) (operand : Operand) : Prop :=
  ∀ register, operand.base? = some register → register.Usable since count

namespace Instr

/-- Every operand may be named. -/
def Usable (since count : Handle) (instr : Instr) : Prop :=
  ∀ operand ∈ instr.operands, operand.Usable since count

/-- The symbol that a label or an item of data defines. -/
def symbol? : Instr → Option String
  | label name _ => some name
  | data item => some item.label
  | _ => none

end Instr

/-- The symbols that a part of a program defines. -/
def symbols (entries : List Entry) : List String :=
  entries.filterMap fun entry => entry.instr.symbol?

/-- The faults of the bookkeeping of the stack. -/
def Fault.isStack : Fault → Bool
  | stackUnderflow _ _ | stackImbalance _ _ _ | stackMisaligned _ _ | stackLeft _ _ _ => true
  | _ => false

namespace Tree

mutual

/-- A block stands in an expression. -/
inductive Expr.Contains (block : Block) : Expr → Prop where
  | block {vars : List (String × VarId)} {type : TypeRef} : Expr.Contains block (.asm block vars type)
  | part {e part : Expr} : part ∈ e.parts → Expr.Contains block part → Expr.Contains block e

/-- A block stands in a statement. -/
inductive Stmt.Contains (block : Block) : Stmt → Prop where
  | expr {s : Stmt} {e : Expr} : e ∈ s.exprs → Expr.Contains block e → Stmt.Contains block s
  | part {s part : Stmt} : part ∈ s.parts → Stmt.Contains block part → Stmt.Contains block s

end

/-- A block stands in the body of a function. -/
def TypedProgram.Contains (program : TypedProgram) (block : Block) : Prop :=
  ∃ id body, (program.function id).body = some body ∧ Stmt.Contains block (.block body)

/-- An instruction that a block of the program asks for. -/
def TypedProgram.Asks (program : TypedProgram) (instr : Instr) : Prop :=
  ∃ block instruction, program.Contains block ∧ .instr instruction ∈ block.statements ∧
    instr.op? = some instruction.spec.op

end Tree

namespace Lower

open X64Backend.Tree

/-- The state of code generation in the middle of a body, with what it owes. -/
structure Config where
  state : State
  /-- The labels that are still to be defined, except those behind the calls in progress and behind
  the body. -/
  awaited : Multiset String
  /-- The labels that the body has defined, except those behind its calls. -/
  defined : Multiset String
  /-- The words on the stack for the call that is being made. -/
  words : Nat

namespace Config

/-- The number of the next handle. -/
def count (c : Config) : Handle := c.state.draft.timeline.count

/-- The labels that may be aimed at. -/
def targets (c : Config) : Multiset String := c.awaited + c.defined

/-- Another state with the same debts. -/
def turn (c : Config) (s : State) : Config := { c with state := s }

/-- The operands that the calls in progress rely on may be named, and the labels of the loops may be
aimed at. -/
structure Valid (since : Handle) (c : Config) : Prop where
  begun : since ≤ c.count
  usable : ∀ activation ∈ c.state.activations, ∀ operand ∈ activation.operands,
    operand.Usable since c.count
  loops : ∀ loop ∈ c.state.loops, loop.exit ∈ c.targets ∧ loop.next ∈ c.targets

end Config

/-- The state with other code. -/
def State.withText (s : State) (text : Stream) : State :=
  { s with draft := { s.draft with text } }

/-- The state with one more instruction. -/
def State.emitted (s : State) (instr : Instr) : State :=
  s.withText (s.draft.text.emit instr)

/-- The label that is made next. -/
def State.nextLabel (s : State) : String :=
  ".L" ++ toString s.labels

/-- The item of a text with its number. -/
def textItem (number : Nat) (text : String) : Instr :=
  .data ⟨textLabel number, ".asciz", [Text.quote text]⟩

/-- The data has one item for each text, labelled with its number, and no text is there twice. -/
def State.Filed (s : State) : Prop :=
  s.data.entries.toList.map Entry.instr = s.texts.mapIdx textItem ∧ s.texts.Nodup

/-- A text that is new is filed under the next number. -/
theorem State.Filed.file {s : State} {text : String} (filed : s.Filed) (new : text ∉ s.texts) :
    State.Filed { s with
      texts := s.texts ++ [text]
      data := s.data.emit (textItem s.texts.length text) } := by
  obtain ⟨items, distinct⟩ := filed
  constructor
  · simp [Stream.emit, items]
  · exact List.concat_eq_append ▸ distinct.concat new

/-- Nothing but messages, texts and notes has changed. -/
structure Noted (s s' : State) : Prop where
  text : s'.draft.text = s.draft.text
  pool : s'.draft.pool = s.draft.pool
  timeline : s'.draft.timeline = s.draft.timeline
  frame : s'.frame = s.frame
  activations : s'.activations = s.activations
  loops : s'.loops = s.loops
  labels : s'.labels = s.labels
  depth : s'.depth.words = s.depth.words
  filed : s.Filed → s'.Filed

/-- The code behind which a label is defined if a jump to it is left.  A jump to it right before it
is dropped. -/
def closedText (text : Stream) (label : String) (jumps : Nat) : Stream :=
  let direct := isJumpTo label (text.last?.getD .absent)
  let kept := if direct then text.removeLast else text
  if 0 < (if direct then jumps - 1 else jumps) then kept.emit (.label label false) else kept

/-- The words that a call takes on the stack are as many as one of the functions asks for. -/
def Config.Measured (program : TypedProgram) (c : Config) : Prop :=
  ∃ callee, c.words ≤ (program.function callee).args.length

/-- What a body takes of its frame at one time: a cell for a value, or the locals of an expansion. -/
inductive Extent where
  | cell
  | locals (callee : FnId)

/-- The bytes that are taken. -/
def Extent.bytes (program : TypedProgram) : Extent → Int64
  | .cell => 8
  | .locals callee => (program.function callee).frameSize

/-- The state with more of its frame taken. -/
def State.taking (program : TypedProgram) (extent : Extent) (s : State) : State :=
  { s with frame := s.frame.map fun frame =>
      { frame with stackSize := frame.stackSize + extent.bytes program } }

/-- One thing that the generator does. -/
inductive Move (program : TypedProgram) (since : Handle) : Config → Config → Prop where
  | draft {c draft} : Draft.Step c.state.draft draft →
      Move program since c (c.turn { c.state with draft })
  | note {c s} : Noted c.state s → Move program since c (c.turn s)
  | emit {c instr op} : instr.op? = some op → instr.target? = none ∨ program.Asks instr →
      instr.Usable since c.count → Move program since c (c.turn (c.state.emitted instr))
  | transfer {c} (callee : FnId) : Move program since c
      (c.turn (c.state.emitted (.branch .call (program.function callee).linkName)))
  | reset {c cond cond' location} {dst : Operand} :
      c.state.draft.text.last? = some (.unary (.set cond) location) →
      dst.Usable since c.count → Move program since c
        (c.turn (c.state.withText (c.state.draft.text.replaceLast (.unary (.set cond') dst))))
  | fuse {c cond cond' location label} :
      c.state.draft.text.last? = some (.unary (.set cond) location) → label ∈ c.targets →
      Move program since c
        (c.turn (c.state.withText (c.state.draft.text.replaceLast (.branch (.jump cond') label))))
  | jump {c label} {op : Op} : op ≠ .call → label ∈ c.targets →
      Move program since c (c.turn (c.state.emitted (.branch op label)))
  | label {c} : Move program since c
      { c with
        state := { c.state with labels := c.state.labels + 1 }
        awaited := c.state.nextLabel ::ₘ c.awaited }
  | define {c label rest} : c.awaited = label ::ₘ rest → Move program since c
      { c with
        state := c.state.emitted (.label label false)
        awaited := rest
        defined := label ::ₘ c.defined }
  | loops {c} {loops : List Loop} :
      (∀ loop ∈ loops, loop.exit ∈ c.targets ∧ loop.next ∈ c.targets) →
      Move program since c (c.turn { c.state with loops })
  | grow {c} (extent : Extent) : Move program since c (c.turn (c.state.taking program extent))
  | leave {c frame} : c.state.frame = some frame → Move program since c
      (c.turn { c.state.emitted (.branch .jmp frame.exit) with
        frame := some { frame with jumps := frame.jumps + 1 } })
  | enter {c activation} : activation.exit = none → activation.jumps = 0 →
      (∀ operand ∈ activation.operands, operand.Usable since c.count) →
      Move program since c
        (c.turn { c.state with activations := activation :: c.state.activations })
  | result {c innermost outer result} : c.state.activations = innermost :: outer →
      result.Usable since c.count → Move program since c
        (c.turn { c.state with activations := { innermost with result } :: outer })
  | exit {c innermost outer} : c.state.activations = innermost :: outer → innermost.exit = none →
      Move program since c (c.turn { c.state with
        labels := c.state.labels + 1
        activations := { innermost with exit := some c.state.nextLabel } :: outer })
  | jumpOut {c innermost outer label} : c.state.activations = innermost :: outer →
      innermost.exit = some label → Move program since c
        (c.turn { c.state.emitted (.branch .jmp label) with
          activations := { innermost with jumps := innermost.jumps + 1 } :: outer })
  | done {c innermost outer} : c.state.activations = innermost :: outer → innermost.exit = none →
      Move program since c (c.turn { c.state with activations := outer })
  | close {c innermost outer label} : c.state.activations = innermost :: outer →
      innermost.exit = some label → Move program since c
        (c.turn { c.state.withText (closedText c.state.draft.text label innermost.jumps) with
          activations := outer })
  | push {c instr op} {depth : StackDepth} : instr.op? = some op → instr.target? = none →
      instr.Usable since c.count → depth.words = c.state.depth.words + 1 → Move program since c
        { c with state := { c.state.emitted instr with depth }, words := c.words + 1 }
  | called {c} : c.words = 0 → Move program since c
      (c.turn { c.state with
        frame := c.state.frame.map fun frame => { frame with leaf := false } })
  | reclaim {c} {depth : StackDepth} : c.Measured program →
      (∀ frame, c.state.frame = some frame → frame.leaf = true) →
      depth.words = c.state.depth.words + -(8 * Int64.ofNat c.words / 8) →
      Move program since c
        { c with
          state := { c.state with
            depth
            frame := c.state.frame.map fun frame => { frame with leaf := false } }
          words := 0 }
  | leak {c} : Even c.words → (∀ frame, c.state.frame = some frame → frame.leaf = false) →
      Move program since c
        { c with
          state := { c.state with
            frame := c.state.frame.map fun frame =>
              { frame with leaf := false, leaked := frame.leaked + 8 * Int64.ofNat c.words } }
          words := 0 }

/-- What the generator does one after the other. -/
abbrev Moves (program : TypedProgram) (since : Handle) : Config → Config → Prop :=
  Relation.ReflTransGen (Move program since)

/-- How the generator fails. -/
inductive Fails (program : TypedProgram) : Config → Fault → Prop where
  | other {c fault} : fault.isStack = false → Fails program c fault
  | call {c fault target depth} : Even c.words →
      StackDepth.call target c.state.depth = .error fault depth → Fails program c fault
  | reclaim {c fault depth} : c.Measured program →
      (∀ frame, c.state.frame = some frame → frame.leaf = true) →
      StackDepth.add (8 * .ofNat c.words) c.state.depth = .error fault depth →
      Fails program c fault

variable {program : TypedProgram} {since : Handle} {c c' : Config}

/-- Handles are never taken back. -/
theorem Move.count_le (move : Move program since c c') : c.count ≤ c'.count := by
  cases move with
  | draft step => exact Draft.Steps.count_le (.single step)
  | note noted => exact Nat.le_of_eq (congrArg Timeline.count noted.timeline.symm)
  | _ => exact Nat.le_refl _

theorem Moves.count_le (moves : Moves program since c c') : c.count ≤ c'.count := by
  induction moves with
  | refl => exact Nat.le_refl _
  | tail _ last inductionHypothesis => exact Nat.le_trans inductionHypothesis last.count_le

theorem Move.filed (move : Move program since c c') (filed : c.state.Filed) :
    c'.state.Filed := by
  cases move with
  | note noted => exact noted.filed filed
  | _ => exact filed

/-- The texts stay filed under their numbers. -/
theorem Moves.filed (moves : Moves program since c c') (filed : c.state.Filed) :
    c'.state.Filed := by
  induction moves with
  | refl => exact filed
  | tail _ last inductionHypothesis => exact last.filed inductionHypothesis

/-- What stays the same about a procedure while its body is written. -/
def Frame.identity (frame : Frame) : String × FnId × Nat × String :=
  (frame.name, frame.fn, frame.start, frame.exit)

theorem Move.identity (move : Move program since c c') :
    c'.state.frame.map Frame.identity = c.state.frame.map Frame.identity := by
  have mapped : ∀ {change : Frame → Frame}, (∀ frame, (change frame).identity = frame.identity) →
      (c.state.frame.map change).map Frame.identity = c.state.frame.map Frame.identity := by
    intro change same
    rw [Option.map_map]
    exact Option.map_congr fun frame _ => same frame
  cases move with
  | note noted => exact congrArg (Option.map Frame.identity) noted.frame
  | leave found => rw [found]; rfl
  | grow extent => exact mapped fun _ => rfl
  | called _ => exact mapped fun _ => rfl
  | reclaim _ _ _ => exact mapped fun _ => rfl
  | leak _ _ => exact mapped fun _ => rfl
  | _ => rfl

theorem Moves.identity (moves : Moves program since c c') :
    c'.state.frame.map Frame.identity = c.state.frame.map Frame.identity := by
  induction moves with
  | refl => rfl
  | tail _ last inductionHypothesis => exact last.identity.trans inductionHypothesis

end Lower

theorem Register.Usable.later {since count count' : Handle} {register : Register}
    (usable : register.Usable since count) (later : count ≤ count') :
    register.Usable since count' := by
  unfold Register.Usable at usable ⊢
  split at usable
  · exact ⟨usable.1, Nat.lt_of_lt_of_le usable.2 later⟩
  · exact usable

theorem Operand.Usable.later {since count count' : Handle} {operand : Operand}
    (usable : operand.Usable since count) (later : count ≤ count') :
    operand.Usable since count' :=
  fun register base => (usable register base).later later

namespace Lower

open X64Backend.Tree

variable {program : TypedProgram} {since : Handle} {c c' : Config}

theorem Config.Valid.later (valid : c.Valid since) (later : c.count ≤ c'.count)
    (activations : c'.state.activations = c.state.activations)
    (loops : ∀ loop ∈ c'.state.loops, loop.exit ∈ c'.targets ∧ loop.next ∈ c'.targets) :
    c'.Valid since := by
  refine ⟨Nat.le_trans valid.begun later, ?_, loops⟩
  intro activation member operand among
  rw [activations] at member
  exact (valid.usable activation member operand among).later later

/-- The calls in progress after a change of the innermost one. -/
theorem Config.Valid.renew (valid : c.Valid since) {innermost renewed : Activation}
    {outer : List Activation} (calls : c.state.activations = innermost :: outer)
    (later : c.count ≤ c'.count) (calls' : c'.state.activations = renewed :: outer)
    (usable : ∀ operand ∈ renewed.operands, operand.Usable since c'.count)
    (loops : ∀ loop ∈ c'.state.loops, loop.exit ∈ c'.targets ∧ loop.next ∈ c'.targets) :
    c'.Valid since := by
  refine ⟨Nat.le_trans valid.begun later, ?_, loops⟩
  intro activation member operand among
  rw [calls'] at member
  rcases List.mem_cons.mp member with rfl | member
  · exact usable operand among
  · refine (valid.usable activation ?_ operand among).later later
    rw [calls]
    exact List.mem_cons_of_mem _ member

theorem Config.Valid.outer (valid : c.Valid since) {innermost : Activation}
    {outer : List Activation} (calls : c.state.activations = innermost :: outer)
    (later : c.count ≤ c'.count) (calls' : c'.state.activations = outer)
    (loops : ∀ loop ∈ c'.state.loops, loop.exit ∈ c'.targets ∧ loop.next ∈ c'.targets) :
    c'.Valid since := by
  refine ⟨Nat.le_trans valid.begun later, ?_, loops⟩
  intro activation member operand among
  rw [calls'] at member
  refine (valid.usable activation ?_ operand among).later later
  rw [calls]
  exact List.mem_cons_of_mem _ member

theorem Config.Valid.innermost (valid : c.Valid since) {innermost : Activation}
    {outer : List Activation} (calls : c.state.activations = innermost :: outer) :
    ∀ operand ∈ innermost.operands, operand.Usable since c.count :=
  valid.usable innermost (by simp [calls])

theorem Move.valid (move : Move program since c c') (valid : c.Valid since) : c'.Valid since := by
  have later := move.count_le
  cases move with
  | note noted =>
      refine valid.later later noted.activations ?_
      rw [Config.turn, noted.loops]
      exact valid.loops
  | label =>
      refine valid.later later rfl fun loop member => ?_
      obtain ⟨exit, next⟩ := valid.loops loop member
      simp only [Config.targets, Multiset.cons_add] at exit next ⊢
      exact ⟨Multiset.mem_cons_of_mem exit, Multiset.mem_cons_of_mem next⟩
  | define awaited =>
      refine valid.later later rfl fun loop member => ?_
      obtain ⟨exit, next⟩ := valid.loops loop member
      simp only [Config.targets, awaited, Multiset.cons_add] at exit next
      simp only [Config.targets, Multiset.add_cons]
      exact ⟨exit, next⟩
  | loops among => exact valid.later later rfl among
  | enter _ _ usable =>
      refine ⟨valid.begun, ?_, valid.loops⟩
      intro activation member
      rcases List.mem_cons.mp member with rfl | member
      · exact usable
      · exact valid.usable activation member
  | result calls usable =>
      refine valid.renew calls later rfl ?_ valid.loops
      intro operand among
      rcases List.mem_cons.mp among with rfl | among
      · exact usable
      · exact valid.innermost calls operand (List.mem_cons_of_mem _ among)
  | exit calls _ =>
      exact valid.renew calls later rfl (fun operand => valid.innermost calls operand) valid.loops
  | jumpOut calls _ =>
      exact valid.renew calls later rfl (fun operand => valid.innermost calls operand) valid.loops
  | done calls _ => exact valid.outer calls later rfl valid.loops
  | close calls _ => exact valid.outer calls later rfl valid.loops
  | _ => exact valid.later later rfl valid.loops

theorem Moves.valid (moves : Moves program since c c') (valid : c.Valid since) :
    c'.Valid since := by
  induction moves with
  | refl => exact valid
  | tail _ last inductionHypothesis => exact last.valid inductionHypothesis

end Lower

end X64Backend
