import X64Backend.Machine.Run
import X64Backend.Proofs.Machine.Coupling

/-!
Runs of the machine, cycle by cycle, and what they make of the parts of its state that code can see.
-/

namespace X64Backend.Machine

variable {image : Image} {checked : Bool}

/-- Executes the next instruction.  The result says whether the machine stops, because its outermost
call has returned or the program has exited. -/
def cycle (image : Image) (checked : Bool) : Exec Bool := do
  let ip := (← get).ip
  if ip < 0 then throw (.outOfCode ip)
  match image.code[ip.toNat]? with
  | none => throw (.outOfCode ip)
  | some entry =>
      modify fun state => { state with steps := state.steps + 1 }
      let finished ← step image checked ip.toNat entry
      return finished || (← get).exit.isSome

/-- Executes a number of instructions, unless the machine stops before. -/
def cycles (image : Image) (checked : Bool) : (count : Nat) → Exec Bool
  | 0 => return false
  | count + 1 => do
      if ← cycle image checked then return true
      else cycles image checked count

theorem loop_succ (remaining : Nat) : loop image checked (remaining + 1) = (do
    if ← cycle image checked then return ()
    else loop image checked remaining) := by
  funext state
  have seen : ∀ state : State, (get : Exec State) state = .ok state state := fun _ => rfl
  simp only [loop, cycle, bind, EStateM.bind, seen]
  split
  · rfl
  · cases image.code[state.ip.toNat]? with
    | none => rfl
    | some entry =>
        simp only [EStateM.bind, Success.modify_eq]
        cases step image checked state.ip.toNat entry { state with steps := state.steps + 1 } with
        | error fault after => rfl
        | ok finished after =>
            dsimp only
            rw [seen]
            cases finished || after.exit.isSome <;> rfl

/-- The loop of the machine goes on where some cycles have led. -/
theorem loop_of_cycles {count remaining : Nat} {state after : State}
    (ran : cycles image checked count state = .ok false after) :
    loop image checked (count + remaining) state = loop image checked remaining after := by
  induction count generalizing state with
  | zero =>
      cases ran
      rw [Nat.zero_add]
  | succ count inductionHypothesis =>
      obtain ⟨stopped, next, first, ran⟩ := Success.bind_ok.mp ran
      cases stopped with
      | true => cases ran
      | false =>
          rw [Nat.add_right_comm, loop_succ, Success.bind_of_ok first]
          exact inductionHypothesis ran

/-- The loop of the machine ends where some cycles have ended. -/
theorem loop_of_stopped {count remaining : Nat} {state after : State}
    (ran : cycles image checked count state = .ok true after) :
    loop image checked (count + remaining) state = .ok () after := by
  induction count generalizing state with
  | zero => cases ran
  | succ count inductionHypothesis =>
      obtain ⟨stopped, next, first, ran⟩ := Success.bind_ok.mp ran
      rw [Nat.add_right_comm, loop_succ, Success.bind_of_ok first]
      cases stopped with
      | true =>
          cases ran
          rfl
      | false => exact inductionHypothesis ran

theorem cycles_add {count more : Nat} {state after : State}
    (ran : cycles image checked count state = .ok false after) :
    cycles image checked (count + more) state = cycles image checked more after := by
  induction count generalizing state with
  | zero =>
      cases ran
      rw [Nat.zero_add]
  | succ count inductionHypothesis =>
      obtain ⟨stopped, next, first, ran⟩ := Success.bind_ok.mp ran
      cases stopped with
      | true => cases ran
      | false =>
          rw [Nat.add_right_comm, cycles, Success.bind_of_ok first]
          exact inductionHypothesis ran

/-- What code can see of the state of a machine, and what its calls have promised. -/
structure View where
  registers : Registers
  memory : Memory
  flags : Flags
  heap : UInt64
  frames : List Frame

/-- The word of a register. -/
def View.get (view : View) (phys : Phys) : UInt64 := view.registers.get phys

/-- The view with the word of a register overwritten. -/
def View.set (view : View) (phys : Phys) (word : UInt64) : View :=
  { view with registers := view.registers.set phys word }

namespace View

variable (view : View)

@[simp]
theorem get_set (phys other : Phys) (word : UInt64) :
    (view.set phys word).get other = if other = phys then word else view.get other :=
  Registers.get_set _ _ _ _

@[simp]
theorem memory_set (phys : Phys) (word : UInt64) : (view.set phys word).memory = view.memory := rfl

@[simp]
theorem frames_set (phys : Phys) (word : UInt64) : (view.set phys word).frames = view.frames := rfl

@[simp]
theorem flags_set (phys : Phys) (word : UInt64) : (view.set phys word).flags = view.flags := rfl

end View

/-- What code can see of a state. -/
def State.view (state : State) : View :=
  ⟨state.registers, state.memory, state.flags, state.heap, state.frames⟩

/-- The machine is about to execute an instruction, and the program has not exited. -/
structure State.At (state : State) (index : Nat) (view : View) : Prop where
  ip : state.ip = index
  view : state.view = view
  exit : state.exit = none

/-- A computation with a result and an effect on what code can see, and no other. -/
def Yields {α : Type} (action : Exec α) (view : View) (result : α) (view' : View) : Prop :=
  ∀ state, state.view = view → ∃ after, action state = .ok result after ∧ after.view = view' ∧
    after.ip = state.ip ∧ after.exit = state.exit

namespace Yields

variable {α β : Type} {view view₁ view' : View}

theorem pure (result : α) : Yields (Pure.pure result) view result view :=
  fun state same => ⟨state, rfl, same, rfl, rfl⟩

theorem bind {action : Exec α} {next : α → Exec β} {middle : α} {result : β}
    (first : Yields action view middle view₁) (second : Yields (next middle) view₁ result view') :
    Yields (action >>= next) view result view' := by
  intro state same
  obtain ⟨between, ran, seen, ip, exit⟩ := first state same
  obtain ⟨after, ran', seen', ip', exit'⟩ := second between seen
  exact ⟨after, (Success.bind_of_ok ran).trans ran', seen', ip'.trans ip, exit'.trans exit⟩

theorem modify {change : State → State} (seen : ∀ state, state.view = view →
      (change state).view = view' ∧ (change state).ip = state.ip ∧
        (change state).exit = state.exit) :
    Yields (modify change : Exec Unit) view () view' :=
  fun state same => ⟨change state, rfl, seen state same⟩

/-- A computation that first looks at the state. -/
theorem look {next : State → Exec α} {result : α}
    (each : ∀ state, state.view = view → Yields (next state) view result view') :
    Yields (get >>= next) view result view' := by
  intro state same
  exact each state same state same

theorem getReg (phys : Phys) : Yields (Exec.getReg phys) view (view.get phys) view := by
  refine look fun state same => ?_
  rw [← same]
  exact pure _

theorem setReg (phys : Phys) (word : UInt64) :
    Yields (Exec.setReg phys word) view () (view.set phys word) := by
  refine modify fun state same => ⟨?_, rfl, rfl⟩
  rw [← same]
  rfl

theorem setFlags (flags : Flags) : Yields (Exec.setFlags flags) view () { view with flags } := by
  refine modify fun state same => ⟨?_, rfl, rfl⟩
  rw [← same]
  rfl

theorem load (address : UInt64) (count : Nat) :
    Yields (Exec.load address count) view (view.memory.load address count) view := by
  refine look fun state same => ?_
  rw [← same]
  exact pure _

theorem store (address : UInt64) (count : Nat) (word : UInt64) :
    Yields (Exec.store address count word) view ()
      { view with memory := view.memory.store address count word } := by
  refine modify fun state same => ⟨?_, rfl, rfl⟩
  rw [← same]
  rfl

end Yields

namespace View

variable (view : View)

/-- The view after a word has been pushed. -/
def push (word : UInt64) : View :=
  { view.set .rsp (view.get .rsp - 8) with
    memory := view.memory.store (view.get .rsp - 8) 8 word }

/-- The view after a word has been popped into a register. -/
def popTo (phys : Phys) : View :=
  (view.set .rsp (view.get .rsp + 8)).set phys (view.memory.load (view.get .rsp) 8)

end View

/-- The full word of a register, as an operand. -/
@[simp]
theorem and_mask_word (word : UInt64) : word &&& mask .s64 = word := by
  have wide : mask .s64 = -1 := by decide
  simp [wide]

@[simp]
theorem readPart_word (word : UInt64) : readPart word .s64 = word :=
  and_mask_word word

@[simp]
theorem writePart_word (word value : UInt64) : writePart word .s64 value = value := rfl

namespace Yields

variable {view view' : View} {scope : Scope} {register : Register} {phys : Phys}

theorem push (word : UInt64) : Yields (Exec.push word) view () (view.push word) :=
  (getReg .rsp).bind ((setReg .rsp _).bind (store _ 8 word))

theorem pop : Yields Exec.pop view (view.memory.load (view.get .rsp) 8)
    (view.set .rsp (view.get .rsp + 8)) :=
  (getReg .rsp).bind ((load _ 8).bind ((setReg .rsp _).bind (pure _)))

/-- The hardware register of an operand that is not an upper byte. -/
theorem named (place : scope.image.timeline.resolve register scope.tick = some phys)
    (low : register.size ≠ .high8) : Yields (scope.phys register) view phys view := by
  unfold Scope.phys
  rw [place]
  dsimp only
  rw [if_neg (by simp [low])]
  exact pure _

theorem readReg (place : scope.image.timeline.resolve register scope.tick = some phys)
    (low : register.size ≠ .high8) (size : Size) :
    Yields (scope.read (.reg register) size) view (readPart (view.get phys) register.size) view :=
  (Yields.named place low).bind ((getReg phys).bind (pure _))

theorem writeReg (place : scope.image.timeline.resolve register scope.tick = some phys)
    (low : register.size ≠ .high8) (word : UInt64) :
    Yields (scope.write (.reg register) word) view ()
      (view.set phys (writePart (view.get phys) register.size word)) :=
  (Yields.named place low).bind ((getReg phys).bind (setReg phys _))

/-- Reading the whole of a fixed register. -/
theorem readFixed (phys : Phys) :
    Yields (scope.read (.reg (.fix phys .s64)) .s64) view (view.get phys) view := by
  have read : Yields (scope.read (.reg (.fix phys .s64)) .s64) view
      (readPart (view.get phys) .s64) view := readReg rfl (by simp [Register.fix]) .s64
  rwa [readPart_word] at read

/-- Writing the whole of a fixed register. -/
theorem writeFixed (phys : Phys) (word : UInt64) :
    Yields (scope.write (.reg (.fix phys .s64)) word) view () (view.set phys word) :=
  writeReg rfl (by simp [Register.fix]) word

theorem address {pointer : Pointer}
    (place : scope.image.timeline.resolve pointer.base scope.tick = some phys)
    (low : pointer.base.size ≠ .high8) :
    Yields (scope.address pointer) view
      (view.get phys + Literal.wordOfInt pointer.disp.toInt) view :=
  (Yields.named place low).bind ((getReg phys).bind (pure _))

theorem readLit {literal : Literal} {word : UInt64} (value : literal.isLabel = false)
    (bits : literal.bits = .ok word) (size : Size) :
    Yields (scope.read (.lit literal) size) view (word &&& mask size) view := by
  unfold Scope.read
  simp only [value, Bool.false_eq_true, if_false, bits]
  exact pure _

end Yields

/-- An instruction that stays in line, with its effect on what code can see. -/
def Does (scope : Scope) (checked : Bool) (instr : Instr) (view view' : View) : Prop :=
  Yields (execute scope checked instr) view .following view'

namespace Does

variable {view view' : View} {scope : Scope} {phys other : Phys}

theorem binary {op : Op} {dst src : Operand}
    (yields : Yields (Machine.binary scope op dst src) view () view') :
    Does scope checked (.binary op dst src) view view' :=
  Yields.bind yields (.pure _)

theorem unary {op : Op} {operand : Operand}
    (yields : Yields (Machine.unary scope checked op operand) view none view') :
    Does scope checked (.unary op operand) view view' :=
  Yields.bind yields (.pure _)

/-- Pushing a fixed register. -/
theorem push (phys : Phys) : Does scope checked (.unary .push (.reg (.fix phys .s64))) view
    (view.push (view.get phys)) :=
  unary ((Yields.readFixed phys).bind ((Yields.push _).bind (.pure _)))

/-- Popping into a fixed register. -/
theorem pop (phys : Phys) :
    Does scope checked (.unary .pop (.reg (.fix phys .s64))) view (view.popTo phys) :=
  unary (Yields.pop.bind ((Yields.writeFixed phys _).bind (.pure _)))

/-- Copying a fixed register. -/
theorem mov (phys other : Phys) :
    Does scope checked (.binary .mov (.reg (.fix phys .s64)) (.reg (.fix other .s64))) view
      (view.set phys (view.get other)) :=
  binary ((Yields.readFixed other).bind (Yields.writeFixed phys _))

/-- Subtracting a number from a fixed register.  The low half of the number counts, extended by its
sign. -/
theorem subLit {literal : Literal} {word : UInt64} (phys : Phys) (value : literal.isLabel = false)
    (bits : literal.bits = .ok word) :
    Does scope checked (.binary .sub (.reg (.fix phys .s64)) (.lit literal)) view
      { view.set phys (view.get phys - signExtend word .s32) with
        flags := .ofSub (view.get phys) (signExtend word .s32)
          (view.get phys - signExtend word .s32) .s64 } := by
  have given : Yields (scope.read (.lit literal) .s64) view (word &&& mask .s64) view :=
    Yields.readLit value bits .s64
  rw [and_mask_word] at given
  refine binary (given.bind ?_)
  dsimp only
  rw [if_neg (by decide), value]
  refine (Yields.readFixed phys).bind ?_
  rw [if_neg (by decide)]
  refine Yields.look fun state same => ?_
  refine (Yields.setFlags _).bind ?_
  dsimp only [Register.fix, Operand.size]
  rw [and_mask_word]
  exact Yields.writeFixed phys _

/-- A number into a fixed register. -/
theorem movLit {literal : Literal} {word : UInt64} (phys : Phys) (value : literal.isLabel = false)
    (bits : literal.bits = .ok word) :
    Does scope checked (.binary .mov (.reg (.fix phys .s64)) (.lit literal)) view
      (view.set phys word) := by
  have given : Yields (scope.read (.lit literal) .s64) view (word &&& mask .s64) view :=
    Yields.readLit value bits .s64
  rw [and_mask_word] at given
  exact binary (given.bind (Yields.writeFixed phys _))

/-- The address of a cell into a fixed register. -/
theorem lea (phys base : Phys) (disp : Int32) (size : Size) :
    Does scope checked (.binary .lea (.reg (.fix phys .s64))
      (.mem (.ofBase (.fix base .s64) disp size))) view
      (view.set phys (view.get base + Literal.wordOfInt disp.toInt)) := by
  have place : Yields (scope.address (.ofBase (.fix base .s64) disp size)) view
      (view.get base + Literal.wordOfInt disp.toInt) view :=
    Yields.address rfl (by simp [Pointer.ofBase, Register.resize])
  refine binary (place.bind ?_)
  rw [show (Operand.reg (Register.fix phys .s64)).size = .s64 from rfl, and_mask_word]
  exact Yields.writeFixed phys _

end Does

/-- Where calls are checked, the stack pointer and the registers to restore are as the innermost
call has found them. -/
def View.Restored (view : View) (call : Frame) : Prop :=
  view.get .rsp = call.rsp ∧
    ∀ phys ∈ CallingConvention.calleeSaved, view.get phys = call.registers.get phys

theorem Yields.leave {view : View} {call : Frame} {outer : List Frame}
    (frames : view.frames = call :: outer) (restored : checked = true → view.Restored call) :
    Yields (leave checked) view () { view with frames := outer } := by
  intro state same
  have inner : state.frames = call :: outer := by
    rw [← frames, ← same]
    rfl
  have ran : Machine.leave checked state = .ok () { state with frames := outer } := by
    unfold Machine.leave
    rw [Success.bind_of_ok (Success.get_ok.mpr ⟨rfl, rfl⟩), inner]
    dsimp only
    rw [Success.bind_of_ok (a := ⟨⟩) (Success.set_ok.mpr rfl)]
    by_cases check : checked = true
    · obtain ⟨level, kept⟩ := restored check
      rw [← same] at level kept
      change state.registers.get .rsp = call.rsp at level
      have none : CallingConvention.calleeSaved.find? (fun phys =>
          decide (state.registers.get phys ≠ call.registers.get phys)) = none := by
        refine List.find?_eq_none.mpr fun phys member => ?_
        have keeps : state.registers.get phys = call.registers.get phys := kept phys member
        simp [keeps]
      rw [Success.ite_apply, if_pos check, Success.ite_apply,
        if_neg (not_not.mpr level)]
      simp only [none]
      rfl
    · rw [Success.ite_apply, if_neg check]
      rfl
  refine ⟨_, ran, ?_, rfl, rfl⟩
  rw [← same]
  rfl

/-- What follows a return to an address. -/
def returnTo (address : UInt64) : Next :=
  if address = returnSentinel then .finished
  else .index (Literal.intOfWord (address - codeBase))

theorem Yields.ret {view : View} {scope : Scope} {call : Frame} {outer : List Frame}
    (frames : view.frames = call :: outer) (restored : checked = true → view.Restored call) :
    Yields (execute scope checked (.nullary .ret)) view
      (returnTo (view.memory.load (view.get .rsp) 8))
      { view.set .rsp (view.get .rsp + 8) with frames := outer } := by
  refine (Yields.leave frames restored).bind (Yields.pop.bind ?_)
  unfold returnTo
  change Yields (if view.memory.load (view.get .rsp) 8 = returnSentinel then _ else _) _ _ _
  split
  · exact .pure _
  · exact .pure _

/-- Entries stand in the code from an index on. -/
def Image.Holds (image : Image) (index : Nat) (entries : List Entry) : Prop :=
  ∀ offset entry, entries[offset]? = some entry → image.code[index + offset]? = some entry

namespace Image.Holds

variable {index : Nat}

theorem of_code {entries : List Entry} (same : image.code = entries.toArray) :
    image.Holds 0 entries := by
  intro offset entry found
  rw [same, Nat.zero_add, List.getElem?_toArray]
  exact found

theorem first {entry : Entry} {rest : List Entry} (holds : image.Holds index (entry :: rest)) :
    image.code[index]? = some entry :=
  holds 0 entry rfl

theorem tail {entry : Entry} {rest : List Entry} (holds : image.Holds index (entry :: rest)) :
    image.Holds (index + 1) rest := by
  intro offset other found
  rw [Nat.add_assoc, Nat.add_comm 1]
  exact holds (offset + 1) other found

theorem left {front back : List Entry} (holds : image.Holds index (front ++ back)) :
    image.Holds index front := by
  intro offset entry found
  refine holds offset entry ?_
  rw [List.getElem?_append_left (List.getElem?_eq_some_iff.mp found).1]
  exact found

theorem right {front back : List Entry} (holds : image.Holds index (front ++ back)) :
    image.Holds (index + front.length) back := by
  intro offset entry found
  rw [Nat.add_assoc]
  refine holds (front.length + offset) entry ?_
  rw [List.getElem?_append_right (Nat.le_add_right _ _), Nat.add_sub_cancel_left]
  exact found

end Image.Holds

/-- From one instruction and view the machine comes to another, whatever else its state is. -/
def Runs (image : Image) (checked : Bool) (index : Nat) (view : View) (index' : Nat)
    (view' : View) : Prop :=
  ∀ state, state.At index view → ∃ count after,
    cycles image checked count state = .ok false after ∧ after.At index' view'

section Runs

variable {index index₁ index' : Nat} {view view₁ view' : View} {entry : Entry}

theorem Runs.refl (index : Nat) (view : View) : Runs image checked index view index view :=
  fun state start => ⟨0, state, rfl, start⟩

theorem Runs.trans (first : Runs image checked index view index₁ view₁)
    (second : Runs image checked index₁ view₁ index' view') :
    Runs image checked index view index' view' := by
  intro state start
  obtain ⟨count, between, ran, reached⟩ := first state start
  obtain ⟨more, after, ran', ended⟩ := second between reached
  exact ⟨count + more, after, (cycles_add ran).trans ran', ended⟩

/-- What is left of a step when its instruction has been executed. -/
def Next.proceed : Next → Exec Bool
  | .finished => return true
  | .following => do
      modify fun state => { state with ip := state.ip + 1 }
      return false
  | .index ip => do
      modify fun state => { state with ip }
      return false

/-- A cycle executes the instruction that the machine is at. -/
theorem cycle_of_execute {state : State} {next : Next} (start : state.At index view)
    (found : image.code[index]? = some entry)
    (does : ∀ noted : State, noted.At index view → ∃ after,
      execute ⟨image, entry.tick⟩ checked entry.instr noted = .ok next after ∧
        after.view = view' ∧ after.ip = noted.ip ∧ after.exit = noted.exit) :
    ∃ after, cycle image checked state = .ok (decide (next = .finished)) after ∧
      after.view = view' ∧ after.exit = none ∧
      (next = .following → after.ip = index + 1) ∧ ∀ ip, next = .index ip → after.ip = ip := by
  let counted : State := { state with steps := state.steps + 1 }
  let noted : State := { counted with recent := (index :: counted.recent).take recentCount }
  obtain ⟨after, ran, view, ip, exit⟩ := does noted ⟨start.ip, start.view, start.exit⟩
  have positive : ¬ state.ip < 0 := by
    rw [start.ip]
    exact Int.not_lt.mpr (Int.natCast_nonneg index)
  have fetched : cycle image checked state = (do
      let finished ← step image checked index entry
      return finished || (← get).exit.isSome : Exec Bool) counted := by
    unfold cycle
    rw [Success.bind_of_ok (Success.get_ok.mpr ⟨rfl, rfl⟩)]
    dsimp only
    rw [if_neg positive]
    have same : state.ip.toNat = index := by
      rw [start.ip]
      rfl
    rw [same, found]
    rfl
  have stepped : step image checked index entry counted = next.proceed after := by
    unfold step
    rw [Success.bind_of_ok (a := ⟨⟩) (Success.modify_eq), Success.bind_of_ok ran]
    cases next <;> rfl
  have quiet : after.exit = none := exit.trans start.exit
  have ends : ∀ {finished : Bool} {last : State}, step image checked index entry counted =
      .ok finished last → last.exit = none →
      cycle image checked state = .ok finished last := by
    intro finished last ran quiet
    rw [fetched, Success.bind_of_ok ran]
    change EStateM.Result.ok (finished || last.exit.isSome) last = _
    rw [quiet, Option.isSome_none, Bool.or_false]
  cases next with
  | finished => exact ⟨after, ends stepped quiet, view, quiet, by simp, by simp⟩
  | following =>
      refine ⟨_, ends stepped quiet, view, quiet, fun _ => ?_, by simp⟩
      change after.ip + 1 = index + 1
      rw [ip]
      exact congrArg (· + 1) start.ip
  | index target =>
      refine ⟨_, ends stepped quiet, view, quiet, by simp, fun ip same => ?_⟩
      cases same
      rfl

theorem cycle_at {state : State} {next : Next} (start : state.At index view)
    (found : image.code[index]? = some entry)
    (does : Yields (execute ⟨image, entry.tick⟩ checked entry.instr) view next view') :
    ∃ after, cycle image checked state = .ok (decide (next = .finished)) after ∧
      after.view = view' ∧ after.exit = none ∧
      (next = .following → after.ip = index + 1) ∧ ∀ ip, next = .index ip → after.ip = ip :=
  cycle_of_execute start found fun noted reached => does noted reached.view

theorem Runs.of_does (found : image.code[index]? = some entry)
    (does : Does ⟨image, entry.tick⟩ checked entry.instr view view') :
    Runs image checked index view (index + 1) view' := by
  intro state start
  obtain ⟨after, ran, seen, quiet, ip, _⟩ := cycle_at start found does
  refine ⟨1, after, ?_, ip rfl, seen, quiet⟩
  rw [cycles, Success.bind_of_ok ran]
  rfl

/-- Entries that stay in line, with the effect of all of them. -/
def Straight (image : Image) (checked : Bool) : List Entry → View → View → Prop
  | [], view, view' => view' = view
  | entry :: rest, view, view' =>
      ∃ view₁, Does ⟨image, entry.tick⟩ checked entry.instr view view₁ ∧
        Straight image checked rest view₁ view'

theorem Straight.append {front back : List Entry} (first : Straight image checked front view view₁)
    (second : Straight image checked back view₁ view') :
    Straight image checked (front ++ back) view view' := by
  induction front generalizing view with
  | nil => exact (show view₁ = view from first) ▸ second
  | cons entry rest inductionHypothesis =>
      obtain ⟨next, does, others⟩ := first
      exact ⟨next, does, inductionHypothesis others⟩

theorem Runs.of_straight {entries : List Entry} (holds : image.Holds index entries)
    (straight : Straight image checked entries view view') :
    Runs image checked index view (index + entries.length) view' := by
  induction entries generalizing index view with
  | nil => exact (show view' = view from straight) ▸ Runs.refl index view'
  | cons entry rest inductionHypothesis =>
      obtain ⟨next, does, others⟩ := straight
      have later := inductionHypothesis holds.tail others
      rw [List.length_cons, Nat.add_comm rest.length, ← Nat.add_assoc]
      exact (Runs.of_does holds.first does).trans later

/-- The view behind a call from an instruction: the return address is pushed, and what the call
promises is recorded. -/
def View.called (view : View) (index : Nat) (name : String) : View :=
  let pushed := view.push (codeBase + Literal.wordOfInt (index + 1))
  { pushed with frames := ⟨name, pushed.get .rsp, pushed.registers⟩ :: view.frames }

/-- A call goes to where its operand leads. -/
theorem Runs.call {target : Nat} {name : String} {operand : Operand}
    (found : image.code[index]? = some entry) (call : entry.instr = .unary .call operand)
    (leads : Yields (Scope.target ⟨image, entry.tick⟩ operand) view (target, name) view)
    (aligned : view.get .rsp % 16 = 0) :
    Runs image checked index view target (view.called index name) := by
  intro state start
  have does : ∀ noted : State, noted.At index view → ∃ after,
      execute ⟨image, entry.tick⟩ checked entry.instr noted = .ok (.index target) after ∧
        after.view = view.called index name ∧ after.ip = noted.ip ∧ after.exit = noted.exit := by
    intro noted reached
    obtain ⟨led, ran, seen, ip, exit⟩ := leads noted reached.view
    have level : Exec.getReg .rsp led = .ok (view.get .rsp) led := by
      rw [← seen]
      rfl
    have here : led.ip = index := ip.trans reached.ip
    obtain ⟨after, pushed, seen', ip', exit'⟩ :=
      Yields.push (codeBase + Literal.wordOfInt (index + 1)) led seen
    let entered : State :=
      { after with frames := ⟨name, after.registers.get .rsp, after.registers⟩ :: after.frames }
    have transferred : unary ⟨image, entry.tick⟩ checked .call operand noted =
        .ok (some target) entered := by
      unfold unary
      dsimp only
      rw [Success.bind_of_ok ran]
      dsimp only
      rw [Success.bind_of_ok level, aligned]
      rw [if_neg (by simp), Success.bind_of_ok (Success.get_ok.mpr ⟨rfl, rfl⟩), here,
        Success.bind_of_ok pushed]
      rfl
    have frames : after.frames = view.frames := congrArg View.frames seen'
    refine ⟨entered, ?_, ?_, ip'.trans ip, exit'.trans exit⟩
    · rw [call]
      exact (Success.bind_of_ok transferred).trans rfl
    · unfold View.called
      rw [← seen', ← frames]
      rfl
  obtain ⟨after, ran, seen, quiet, _, ip⟩ := cycle_of_execute start found does
  refine ⟨1, after, ?_, ip _ rfl, seen, quiet⟩
  rw [cycles, Success.bind_of_ok ran]
  rfl

/-- From an instruction and a view the machine comes to a return to an address: it stops if that is
the address of the outermost call, and otherwise goes on there. -/
def Returns (image : Image) (checked : Bool) (index : Nat) (view : View) (address : UInt64)
    (view' : View) : Prop :=
  ∀ state, state.At index view → ∃ count after,
    cycles image checked count state = .ok (decide (returnTo address = .finished)) after ∧
      after.view = view' ∧ ∀ ip, returnTo address = .index ip → after.ip = ip

theorem Runs.returns {call : Frame} {outer : List Frame}
    (runs : Runs image checked index view index₁ view₁)
    (found : image.code[index₁]? = some entry) (ret : entry.instr = .nullary .ret)
    (frames : view₁.frames = call :: outer) (restored : checked = true → view₁.Restored call) :
    Returns image checked index view (view₁.memory.load (view₁.get .rsp) 8)
      { view₁.set .rsp (view₁.get .rsp + 8) with frames := outer } := by
  intro state start
  obtain ⟨count, between, ran, reached⟩ := runs state start
  have does : Yields (execute ⟨image, entry.tick⟩ checked (.nullary .ret)) view₁ _ _ :=
    Yields.ret frames restored
  rw [← ret] at does
  obtain ⟨after, ran', seen, _, _, ip⟩ := cycle_at reached found does
  refine ⟨count + 1, after, ?_, seen, ip⟩
  rw [cycles_add ran, cycles, Success.bind_of_ok ran']
  cases decide (returnTo (view₁.memory.load (view₁.get .rsp) 8) = .finished) <;> rfl

end Runs

end X64Backend.Machine
