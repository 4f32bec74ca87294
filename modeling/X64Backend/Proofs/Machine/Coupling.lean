import Mathlib.Tactic.Common
import X64Backend.Machine.Step
import X64Backend.Proofs.Code.Registers
import X64Backend.Proofs.Success

/-!
Two executions of one instruction that differ in the registers its operands stand for.

A pairing says which register of the first machine plays the part of which register of the second.
If the operands of the two instructions are paired, the executions agree: they end alike, paired
registers hold the same word, and the registers of the first machine that are set apart keep theirs.
The one difference left is the upper byte, which not every register has: the pairing says where the
first machine is asked for one that the second has and it has not.
-/

namespace X64Backend.Machine

namespace Registers

@[simp]
theorem get_set (registers : Registers) (phys other : Phys) (word : UInt64) :
    (registers.set phys word).get other = if other = phys then word else registers.get other := by
  change (registers.words.set phys.index word)[other.index.val] = _
  by_cases same : other = phys
  · simp [same]
  · have different : phys.index.val ≠ other.index.val := by
      revert same
      cases phys <;> cases other <;> decide
    rw [Vector.getElem_set_ne _ _ different]
    simp only [same, if_false]
    rfl

end Registers

/-- Which register of one machine plays the part of which register of another. -/
structure Pairing where
  paired : Phys → Phys → Prop
  /-- The registers of the first machine that the instruction does not touch. -/
  kept : Phys → Prop
  /-- The registers of the first machine that are asked for an upper byte and have none. -/
  lacking : Phys → Prop
  unique : ∀ {first second first' second'}, paired first second → paired first' second' →
    (first = first' ↔ second = second')
  apart : ∀ {first second}, kept first → ¬ paired first second
  outside : ∀ {phys}, Pool.slotOfPhys? phys = none → paired phys phys
  upper : ∀ {first second}, paired first second → first.hasHigh8 = true → second.hasHigh8 = true

/-- Two states that differ only in where the words of the registers are. -/
structure Twin (pairing : Pairing) (word : Phys → UInt64) (first second : State) : Prop where
  registers : ∀ {phys other}, pairing.paired phys other →
    first.registers.get phys = second.registers.get other
  kept : ∀ {phys}, pairing.kept phys → first.registers.get phys = word phys
  memory : first.memory = second.memory
  flags : first.flags = second.flags
  heap : first.heap = second.heap
  frames : first.frames = second.frames
  exit : first.exit = second.exit

/-- The first outcome is matched by the second: both succeed alike, or both fault alike, unless the
first faults on a register that lacks an upper byte. -/
def Follows {α β : Type} {σ τ : Type} (lacking : Phys → Prop) (same : α → β → Prop)
    (related : σ → τ → Prop) : EStateM.Result Fault σ α → EStateM.Result Fault τ β → Prop
  | .ok value state, other => ∃ value' state', other = .ok value' state' ∧ same value value' ∧
      related state state'
  | .error fault _, other => (∃ phys, lacking phys ∧ fault = .noHigh8 phys) ∨
      ∃ state', other = .error fault state'

theorem Follows.mono {α β σ τ : Type} {lacking lacking' : Phys → Prop} {same : α → β → Prop}
    {related related' : σ → τ → Prop} {first : EStateM.Result Fault σ α}
    {second : EStateM.Result Fault τ β} (excused : ∀ phys, lacking phys → lacking' phys)
    (weaker : ∀ {state state'}, related state state' → related' state state')
    (follows : Follows lacking same related first second) :
    Follows lacking' same related' first second := by
  cases first with
  | ok value state =>
      obtain ⟨value', state', ran, equal, close⟩ := follows
      exact ⟨value', state', ran, equal, weaker close⟩
  | error fault state =>
      rcases follows with ⟨phys, lacks, missing⟩ | faulted
      · exact .inl ⟨phys, excused phys lacks, missing⟩
      · exact .inr faulted

/-- Two computations that agree on all twin states. -/
def Agree {α : Type} (pairing : Pairing) (word : Phys → UInt64) (first second : Exec α) : Prop :=
  ∀ state state', Twin pairing word state state' →
    Follows pairing.lacking Eq (Twin pairing word) (first state) (second state')

namespace Agree

variable {α β : Type} {pairing : Pairing} {word : Phys → UInt64}

theorem pure (value : α) : Agree pairing word (pure value) (pure value) := by
  intro state state' twin
  exact ⟨value, state', rfl, rfl, twin⟩

theorem throw (fault : Fault) : Agree (α := α) pairing word (throw fault) (throw fault) := by
  intro state state' _
  exact .inr ⟨state', rfl⟩

theorem bind {first second : Exec α} {next next' : α → Exec β}
    (head : Agree pairing word first second)
    (tail : ∀ value, Agree pairing word (next value) (next' value)) :
    Agree pairing word (first >>= next) (second >>= next') := by
  intro state state' twin
  have headed := head state state' twin
  simp only [Bind.bind, EStateM.bind]
  cases ran : first state with
  | ok value after =>
      rw [ran] at headed
      obtain ⟨_, after', ran', rfl, twin'⟩ := headed
      rw [ran']
      exact tail value after after' twin'
  | error fault after =>
      rw [ran] at headed
      rcases headed with missing | ⟨after', ran'⟩
      · exact .inl missing
      · rw [ran']
        exact .inr ⟨after', rfl⟩

theorem ite {condition : Prop} [Decidable condition] {first second first' second' : Exec α}
    (yes : Agree pairing word first first') (no : Agree pairing word second second') :
    Agree pairing word (if condition then first else second)
      (if condition then first' else second') := by
  split
  · exact yes
  · exact no

/-- A change of both states that keeps them twins. -/
theorem modify {change change' : State → State}
    (keeps : ∀ {state state'}, Twin pairing word state state' →
      Twin pairing word (change state) (change' state')) :
    Agree pairing word (modify change) (modify change') := by
  intro state state' twin
  exact ⟨(), change' state', rfl, rfl, keeps twin⟩

theorem gets {next next' : State → Exec α}
    (tail : ∀ state state', Twin pairing word state state' →
      Agree pairing word (next state) (next' state')) :
    Agree pairing word (get >>= next) (get >>= next') := by
  intro state state' twin
  exact tail state state' twin state state' twin

theorem replace {change change' : State → State} {next next' : State → Exec α}
    (keeps : ∀ {state state'}, Twin pairing word state state' →
      Twin pairing word (change state) (change' state'))
    (tail : ∀ state state', Twin pairing word state state' →
      Agree pairing word (next state) (next' state')) :
    Agree pairing word (get >>= fun state => set (change state) >>= fun _ => next state)
      (get >>= fun state => set (change' state) >>= fun _ => next' state) := by
  intro state state' twin
  exact tail state state' twin _ _ (keeps twin)

theorem fails (fault : Fault) {next next' : α → Exec β} :
    Agree pairing word (MonadExcept.throw fault >>= next) (MonadExcept.throw fault >>= next') := by
  intro state state' _
  exact .inr ⟨state', rfl⟩

theorem getReg {phys other : Phys} (paired : pairing.paired phys other) :
    Agree pairing word (Exec.getReg phys) (Exec.getReg other) := by
  intro state state' twin
  exact ⟨_, state', rfl, twin.registers paired, twin⟩

theorem setReg {phys other : Phys} (paired : pairing.paired phys other) (value : UInt64) :
    Agree pairing word (Exec.setReg phys value) (Exec.setReg other value) := by
  apply modify
  intro state state' twin
  refine { twin with registers := ?_, kept := ?_ }
  · intro place place' paired'
    have same := pairing.unique paired' paired
    simp [same, twin.registers paired']
  · intro place kept
    have different : place ≠ phys := by
      rintro rfl
      exact pairing.apart kept paired
    simp [different, twin.kept kept]

theorem setFlags (flags : Flags) :
    Agree pairing word (Exec.setFlags flags) (Exec.setFlags flags) := by
  apply modify
  intro state state' twin
  exact { twin with flags := rfl }

theorem load (address : UInt64) (count : Nat) :
    Agree pairing word (Exec.load address count) (Exec.load address count) := by
  intro state state' twin
  exact ⟨_, state', rfl, by rw [twin.memory], twin⟩

theorem store (address : UInt64) (count : Nat) (value : UInt64) :
    Agree pairing word (Exec.store address count value) (Exec.store address count value) := by
  apply modify
  intro state state' twin
  exact { twin with memory := by simp only [twin.memory] }

theorem stackPointer : pairing.paired .rsp .rsp := pairing.outside rfl

theorem push (value : UInt64) :
    Agree pairing word (Exec.push value) (Exec.push value) := by
  refine bind (getReg stackPointer) fun top => ?_
  exact bind (setReg stackPointer _) fun _ => store _ _ _

theorem pop : Agree pairing word Exec.pop Exec.pop := by
  refine bind (getReg stackPointer) fun top => ?_
  refine bind (load _ _) fun value => ?_
  exact bind (setReg stackPointer _) fun _ => pure value

end Agree

section Operands

variable {pairing : Pairing} {word : Phys → UInt64} {image : Image} {tick tick' : Nat}

/-- Two register operands of one width that stand for paired registers, or for none.  Where the
first is an upper byte that its register has not, the pairing knows of it or the second has none
either. -/
def Matches (pairing : Pairing) (image : Image) (tick tick' : Nat) (first second : Register) :
    Prop :=
  first.size = second.size ∧
    ((∃ phys other, image.timeline.resolve first tick = some phys ∧
        image.timeline.resolve second tick' = some other ∧ pairing.paired phys other ∧
        (first.size = .high8 → phys.hasHigh8 = false → pairing.lacking phys ∨ phys = other)) ∨
      (image.timeline.resolve first tick = none ∧ image.timeline.resolve second tick' = none ∧
        first = second))

/-- Two operands that are alike but for the registers in them, which match. -/
inductive Alike (pairing : Pairing) (image : Image) (tick tick' : Nat) : Operand → Operand → Prop
    where
  | absent : Alike pairing image tick tick' .absent .absent
  | lit (literal : Literal) : Alike pairing image tick tick' (.lit literal) (.lit literal)
  | reg {first second : Register} : Matches pairing image tick tick' first second →
      Alike pairing image tick tick' (.reg first) (.reg second)
  | mem {first second : Register} (disp : Int32) (size : Size) :
      Matches pairing image tick tick' first second →
      Alike pairing image tick tick' (.mem ⟨first, disp, size⟩) (.mem ⟨second, disp, size⟩)

namespace Agree

theorem phys {first second : Register} (matching : Matches pairing image tick tick' first second)
    {α : Type} {next next' : Phys → Exec α}
    (tail : ∀ {phys other}, pairing.paired phys other →
      Agree pairing word (next phys) (next' other)) :
    Agree pairing word (Scope.phys ⟨image, tick⟩ first >>= next)
      (Scope.phys ⟨image, tick'⟩ second >>= next') := by
  obtain ⟨size, ⟨phys, other, resolved, resolved', paired, lacks⟩ | ⟨resolved, resolved', rfl⟩⟩ :=
    matching
  · simp only [Scope.phys, resolved, resolved', ← size]
    by_cases upper : first.size = .high8
    · by_cases has : phys.hasHigh8 = true
      · have has' := pairing.upper paired has
        simpa [has, has'] using tail paired
      · rw [Bool.not_eq_true] at has
        rcases lacks upper has with lacking | rfl
        · intro state state' _
          simp only [upper, has, decide_true, Bool.not_false, Bool.and_self, if_true]
          exact .inl ⟨phys, lacking, rfl⟩
        · simp only [upper, has, decide_true, Bool.not_false, Bool.and_self, if_true]
          exact fails _
    · simpa [upper] using tail paired
  · simp only [Scope.phys, resolved, resolved']
    intro state state' _
    exact .inr ⟨state', rfl⟩

theorem address {first second : Register} (disp : Int32) (size : Size)
    (matching : Matches pairing image tick tick' first second) :
    Agree pairing word (Scope.address ⟨image, tick⟩ ⟨first, disp, size⟩)
      (Scope.address ⟨image, tick'⟩ ⟨second, disp, size⟩) :=
  phys matching fun paired => bind (getReg paired) fun _ => pure _

theorem symbol (name : String) :
    Agree pairing word (Scope.symbol ⟨image, tick⟩ name) (Scope.symbol ⟨image, tick'⟩ name) := by
  unfold Scope.symbol
  cases symbolValue? image.labels image.data name with
  | some value => exact pure value
  | none => exact throw _

theorem read {operand operand' : Operand} (alike : Alike pairing image tick tick' operand operand')
    (size : Size) :
    Agree pairing word (Scope.read ⟨image, tick⟩ operand size)
      (Scope.read ⟨image, tick'⟩ operand' size) := by
  cases alike with
  | absent => exact throw _
  | lit literal =>
      refine ite (symbol literal.text) ?_
      cases literal.bits with
      | ok value => exact pure _
      | error fault => exact throw _
  | reg matching =>
      refine phys matching fun paired => bind (getReg paired) fun value => ?_
      rw [matching.1]
      exact pure _
  | mem disp size matching => exact bind (address disp size matching) fun _ => load _ _

theorem write {operand operand' : Operand} (alike : Alike pairing image tick tick' operand operand')
    (value : UInt64) :
    Agree pairing word (Scope.write ⟨image, tick⟩ operand value)
      (Scope.write ⟨image, tick'⟩ operand' value) := by
  cases alike with
  | absent => exact throw _
  | lit literal => exact throw _
  | reg matching =>
      refine phys matching fun paired => bind (getReg paired) fun old => ?_
      rw [matching.1]
      exact setReg paired _
  | mem disp size matching => exact bind (address disp size matching) fun _ => store _ _ _

end Agree

theorem Alike.size_eq {operand operand' : Operand}
    (alike : Alike pairing image tick tick' operand operand') : operand.size = operand'.size := by
  cases alike with
  | absent => rfl
  | lit => rfl
  | reg matching => exact matching.1
  | mem => rfl

theorem Alike.isMem_eq {operand operand' : Operand}
    (alike : Alike pairing image tick tick' operand operand') : operand.isMem = operand'.isMem := by
  cases alike <;> rfl

namespace Agree

theorem modifyOperand {operand operand' : Operand}
    (alike : Alike pairing image tick tick' operand operand')
    (change : Flags → UInt64 → UInt64 × Flags) :
    Agree pairing word (Machine.modifyOperand ⟨image, tick⟩ operand change)
      (Machine.modifyOperand ⟨image, tick'⟩ operand' change) := by
  unfold Machine.modifyOperand
  rw [alike.size_eq]
  refine bind (read alike _) fun value => ?_
  refine gets fun state state' twin => ?_
  rw [twin.flags]
  exact bind (setFlags _) fun _ => write alike _

theorem binary {dst dst' src src' : Operand} (op : Op)
    (into : Alike pairing image tick tick' dst dst')
    (source : Alike pairing image tick tick' src src') :
    Agree pairing word (Machine.binary ⟨image, tick⟩ op dst src)
      (Machine.binary ⟨image, tick'⟩ op dst' src') := by
  unfold Machine.binary
  simp only [← into.size_eq, ← source.size_eq, ← into.isMem_eq, ← source.isMem_eq]
  refine ite (fails _) (ite (fails _) ?_)
  split
  · cases source with
    | mem disp size matching => exact bind (address disp size matching) fun _ => write into _
    | _ => exact throw _
  · exact bind (read source _) fun _ => write into _
  · exact bind (read source _) fun _ => write into _
  · exact bind (read source _) fun _ => write into _
  · refine bind (read source _) fun given => ite (write into _) ?_
    refine bind (read into _) fun first => ?_
    have storing (value : UInt64) : Agree pairing word (Scope.write ⟨image, tick⟩ src value)
        (Scope.write ⟨image, tick'⟩ src' value) := write source value
    -- A literal source is widened; both sides have the same literal.
    cases source <;>
    · refine ite (bind (storing _) fun _ => write into _) (gets fun state state' twin => ?_)
      rw [twin.flags]
      dsimp only
      split
      · refine bind (setFlags _) fun _ => ?_
        split
        · exact write into _
        · exact pure _
      · exact throw _

theorem divide {operand operand' : Operand} (signed : Bool) (op : Op)
    (alike : Alike pairing image tick tick' operand operand')
    (accumulator : pairing.paired .rax .rax) :
    Agree pairing word (Machine.divide ⟨image, tick⟩ signed op operand)
      (Machine.divide ⟨image, tick'⟩ signed op operand') := by
  have upper : pairing.paired .rdx .rdx := pairing.outside rfl
  unfold Machine.divide
  simp only [← alike.size_eq]
  refine ite (fails _) (bind (read alike _) fun divisor => ite (fails _) ?_)
  refine bind (getReg accumulator) fun low => bind (getReg upper) fun high => ?_
  refine ite (ite (fails _) ?_) (ite (fails _) ?_)
  · exact bind (setReg accumulator _) fun _ => setReg upper _
  · exact bind (setReg accumulator _) fun _ => setReg upper _

theorem service (accumulator : pairing.paired .rax .rax) :
    Agree pairing word Machine.service Machine.service := by
  have counter : pairing.paired .rcx .rcx := pairing.outside rfl
  have scratch : pairing.paired .r11 .r11 := pairing.outside rfl
  have status : pairing.paired .rdi .rdi := pairing.outside rfl
  have length : pairing.paired .rsi .rsi := pairing.outside rfl
  unfold Machine.service
  refine bind (getReg accumulator) fun number => ite ?_ (ite ?_ (throw _))
  · refine bind (getReg status) fun code => bind (modify ?_) fun _ => ?_
    · intro state state' twin
      exact { twin with exit := rfl }
    · exact bind (setReg counter _) fun _ => setReg scratch _
  · refine bind (getReg length) fun size => ite (setReg accumulator _) ?_
    refine replace (fun twin => { twin with heap := by simp only [twin.heap] }) ?_
    intro state state' twin
    rw [twin.heap]
    refine bind (setReg accumulator _) fun _ => ?_
    exact bind (setReg counter _) fun _ => setReg scratch _

theorem unary {operand operand' : Operand} (checked : Bool) (op : Op)
    (straight : op.isBranch = false)
    (alike : Alike pairing image tick tick' operand operand')
    (accumulator : op = .idiv ∨ op = .div → pairing.paired .rax .rax) :
    Agree pairing word (Machine.unary ⟨image, tick⟩ checked op operand)
      (Machine.unary ⟨image, tick'⟩ checked op operand') := by
  unfold Machine.unary
  simp only [← alike.size_eq]
  split
  · refine gets fun state state' twin => ?_
    rw [twin.flags]
    exact bind (write alike _) fun _ => pure _
  · contradiction
  · contradiction
  · contradiction
  · refine bind (read alike _) fun value => ?_
    cases alike <;> exact bind (push _) fun _ => pure _
  · exact bind pop fun value => bind (write alike _) fun _ => pure _
  · exact bind (modifyOperand alike _) fun _ => pure _
  · exact bind (modifyOperand alike _) fun _ => pure _
  · exact bind (modifyOperand alike _) fun _ => pure _
  · exact bind (modifyOperand alike _) fun _ => pure _
  · exact bind (divide true _ alike (accumulator (.inl rfl))) fun _ => pure _
  · exact bind (divide false _ alike (accumulator (.inr rfl))) fun _ => pure _
  · exact throw _

theorem nullary (checked : Bool) (op : Op) (straight : op ≠ .ret)
    (accumulator : op = .cqo ∨ op = .cdq ∨ op = .syscall → pairing.paired .rax .rax) :
    Agree pairing word (Machine.nullary checked op) (Machine.nullary checked op) := by
  have upper : pairing.paired .rdx .rdx := pairing.outside rfl
  have frame : pairing.paired .rbp .rbp := pairing.outside rfl
  unfold Machine.nullary
  split
  · contradiction
  · refine bind (getReg (accumulator (.inl rfl))) fun low => ?_
    exact bind (setReg upper _) fun _ => pure _
  · refine bind (getReg (accumulator (.inr (.inl rfl)))) fun low => ?_
    exact bind (setReg upper _) fun _ => pure _
  · refine bind (getReg frame) fun base => bind (setReg stackPointer _) fun _ => ?_
    exact bind pop fun value => bind (setReg frame _) fun _ => pure _
  · exact pure _
  · exact bind (service (accumulator (.inr (.inr rfl)))) fun _ => pure _
  · exact throw _

end Agree

theorem alike_mapRegister {operand : Operand} {change : Register → Register}
    (matching : ∀ register, operand.base? = some register →
      Matches pairing image tick tick' register (change register)) :
    Alike pairing image tick tick' operand (operand.mapRegister change) := by
  cases operand with
  | absent => exact .absent
  | lit literal => exact .lit literal
  | reg register => exact .reg (matching register rfl)
  | mem pointer => exact .mem pointer.disp pointer.size (matching pointer.base rfl)

/-- An instruction does the same with other registers, as long as they are paired with its own. -/
theorem Agree.execute (checked : Bool) {instr : Instr} {change : Register → Register}
    (straight : instr.isStraight = true)
    (matching : ∀ register ∈ instr.registers,
      Matches pairing image tick tick' register (change register))
    (accumulator : instr.impliesAccumulator = true → pairing.paired .rax .rax) :
    Agree pairing word (Machine.execute ⟨image, tick⟩ checked instr)
      (Machine.execute ⟨image, tick'⟩ checked (instr.mapRegisters change)) := by
  cases instr with
  | binary op dst src =>
      have into : Alike pairing image tick tick' dst (dst.mapRegister change) :=
        alike_mapRegister fun register base =>
          matching register (Instr.mem_registers_dst base)
      have source : Alike pairing image tick tick' src (src.mapRegister change) :=
        alike_mapRegister fun register base =>
          matching register (Instr.mem_registers_src base)
      exact bind (binary op into source) fun _ => pure _
  | unary op operand =>
      have alike : Alike pairing image tick tick' operand (operand.mapRegister change) :=
        alike_mapRegister fun register base =>
          matching register (Instr.mem_registers_unary base)
      have divides : op = .idiv ∨ op = .div → pairing.paired .rax .rax := by
        rintro (rfl | rfl) <;> exact accumulator rfl
      have unbranched : op.isBranch = false := by simpa [Instr.isStraight] using straight
      refine bind (unary checked op unbranched alike divides) fun next => ?_
      cases next with
      | some index => exact pure _
      | none => exact pure _
  | nullary op =>
      have returns : op ≠ .ret := by simpa [Instr.isStraight] using straight
      refine nullary checked op returns ?_
      rintro (rfl | rfl | rfl) <;> exact accumulator rfl
  | absent => exact throw _
  | globalName name => exact pure _
  | sectionName name => exact pure _
  | label name procedure => exact pure _
  | data item => exact pure _
  | comment text => exact pure _

end Operands

end X64Backend.Machine
