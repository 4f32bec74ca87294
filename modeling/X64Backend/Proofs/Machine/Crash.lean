import Mathlib.Tactic.Common
import X64Backend.Machine.Run
import X64Backend.Proofs.Success

/-!
Where the interpreter itself breaks off.

An index into the code is made from an address in one place only: where a branch leaves its target
to a register, a cell or a number.  The distance of the address from the code is taken as a signed
number there, and an address so high that it comes out negative passes the test for the end of the
code.  Whatever else goes wrong in a run is reported as a fault of the program.
-/

namespace X64Backend.Machine

variable {image : Image} {checked : Bool} {scope : Scope}

/-- An address whose distance from the code is negative as a signed number. -/
def Wild (address : UInt64) : Prop :=
  codeBase.toNat + 0x8000000000000000 ≤ address.toNat

instance (address : UInt64) : Decidable (Wild address) :=
  inferInstanceAs (Decidable (_ ≤ _))

theorem intOfWord_neg_iff (word : UInt64) :
    Literal.intOfWord word < 0 ↔ 0x8000000000000000 ≤ word.toNat := by
  change word.toBitVec.toInt < 0 ↔ 0x8000000000000000 ≤ word.toBitVec.toNat
  rw [BitVec.toInt_neg_iff]
  omega

/-- The distance comes out negative below the code, too; those addresses are told apart. -/
theorem wild_iff (address : UInt64) :
    Wild address ↔ codeBase ≤ address ∧ Literal.intOfWord (address - codeBase) < 0 := by
  rw [intOfWord_neg_iff, Wild]
  generalize codeBase = base
  constructor
  · intro far
    have above : base ≤ address := UInt64.le_iff_toNat_le.mpr (by omega)
    refine ⟨above, ?_⟩
    rw [UInt64.toNat_sub_of_le _ _ above]
    omega
  · rintro ⟨above, negative⟩
    rw [UInt64.toNat_sub_of_le _ _ above] at negative
    rw [UInt64.le_iff_toNat_le] at above
    omega

/-- Whether a branch is taken.  The conditional ones depend on the flags. -/
def taken (flags : Flags) : Op → Bool
  | .jump cond => flags.holds cond
  | .jmp | .call => true
  | _ => false

/-- Whether an operand is a label. -/
def labelled : Operand → Bool
  | .lit literal => literal.isLabel
  | _ => false

/-- An instruction that leads astray: it branches to an address far above the code, which it does
not know by a label.  The index is the distance. -/
inductive Astray (scope : Scope) (state : State) : Instr → Int → Prop where
  | branch {op : Op} {operand : Operand} {address : UInt64} :
      taken state.flags op = true → labelled operand = false →
      scope.read operand .s64 state = .ok address state → Wild address →
      Astray scope state (.unary op operand) (Literal.intOfWord (address - codeBase))

/-- A computation that stops, if it does, with a fault of the program. -/
def Robust {α : Type} (action : Exec α) : Prop :=
  ∀ state fault state', action state = .error fault state' → fault.class ≠ .crash

namespace Robust

variable {α β : Type}

/-- A computation that always succeeds. -/
theorem of_ok {action : Exec α} (runs : ∀ state, ∃ value state', action state = .ok value state') :
    Robust action := by
  intro state _ _ run
  obtain ⟨value, state', ran⟩ := runs state
  rw [ran] at run
  cases run

theorem pure (value : α) : Robust (pure value) :=
  of_ok fun state => ⟨value, state, rfl⟩

theorem throw {fault : Fault} (blamed : fault.class ≠ .crash) :
    Robust (throw fault : Exec α) := by
  intro state _ _ run
  change EStateM.Result.error fault state = _ at run
  cases run
  exact blamed

theorem bind {action : Exec α} {next : α → Exec β} (first : Robust action)
    (rest : ∀ value, Robust (next value)) : Robust (action >>= next) := by
  intro state fault state' run
  rcases Success.bind_error.mp run with ran | ⟨value, after, -, ran⟩
  · exact first state fault state' ran
  · exact rest value after fault state' ran

theorem fails {fault : Fault} (blamed : fault.class ≠ .crash) {next : β → Exec α} :
    Robust (MonadExcept.throw fault >>= next) := by
  intro state _ _ run
  change EStateM.Result.error fault state = _ at run
  cases run
  exact blamed

theorem get : Robust (get : Exec State) :=
  of_ok fun state => ⟨state, state, rfl⟩

theorem set (state : State) : Robust (set state : Exec Unit) :=
  of_ok fun _ => ⟨(), state, rfl⟩

theorem modify (change : State → State) : Robust (modify change : Exec Unit) :=
  of_ok fun state => ⟨(), change state, rfl⟩

theorem ite {condition : Prop} [Decidable condition] {first second : Exec α}
    (yes : Robust first) (no : Robust second) :
    Robust (if condition then first else second) := by
  split
  · exact yes
  · exact no

theorem forM {list : List α} {action : α → Exec Unit} (each : ∀ value, Robust (action value)) :
    Robust (list.forM action) := by
  induction list with
  | nil => exact pure ()
  | cons first rest inductionHypothesis => exact (each first).bind fun _ => inductionHypothesis

theorem unbroken {action : Exec α} (robust : Robust action) {state state' : State} {index : Int} :
    action state ≠ .error (.negativeIndex index) state' :=
  fun run => robust state _ state' run rfl

end Robust

/-- A computation that leaves the state as it is, if it succeeds. -/
def Still {α : Type} (action : Exec α) : Prop :=
  ∀ state value state', action state = .ok value state' → state = state'

namespace Still

variable {α β : Type}

theorem pure (value : α) : Still (pure value) := by
  intro _ _ _ run
  cases run
  rfl

theorem throw (fault : Fault) : Still (throw fault : Exec α) := by
  intro state _ _ run
  change EStateM.Result.error fault state = _ at run
  cases run

theorem get : Still (get : Exec State) := by
  intro _ _ _ run
  cases run
  rfl

theorem bind {action : Exec α} {next : α → Exec β} (first : Still action)
    (rest : ∀ value, Still (next value)) : Still (action >>= next) := by
  intro state result state' run
  obtain ⟨value, after, ran, run⟩ := Success.bind_ok.mp run
  exact (first _ _ _ ran).trans (rest value _ _ _ run)

end Still

section Access

theorem robust_getReg (phys : Phys) : Robust (Exec.getReg phys) :=
  .bind .get fun _ => .pure _

theorem robust_phys (register : Register) : Robust (scope.phys register) := by
  unfold Scope.phys
  split
  · exact .throw nofun
  · split
    · exact .throw nofun
    · exact .pure _

theorem robust_address (pointer : Pointer) : Robust (scope.address pointer) :=
  .bind (robust_phys _) fun phys => .bind (robust_getReg phys) fun _ => .pure _

theorem robust_load (address : UInt64) (count : Nat) : Robust (Exec.load address count) :=
  .bind .get fun _ => .pure _

theorem robust_pop : Robust Exec.pop :=
  .bind (robust_getReg _) fun _ => .bind (robust_load _ _) fun _ =>
    .bind (.modify _) fun _ => .pure _

theorem robust_push (word : UInt64) : Robust (Exec.push word) :=
  .bind (robust_getReg _) fun _ => .bind (.modify _) fun _ => .modify _

theorem robust_read (operand : Operand) (size : Size) : Robust (scope.read operand size) := by
  cases operand with
  | absent => exact .throw nofun
  | reg register =>
      exact .bind (robust_phys _) fun phys => .bind (robust_getReg phys) fun _ => .pure _
  | mem pointer => exact .bind (robust_address _) fun _ => robust_load _ _
  | lit literal =>
      unfold Scope.read
      dsimp only
      split
      · unfold Scope.symbol
        split
        · exact .pure _
        · exact .throw nofun
      · split
        · exact .pure _
        · exact .throw nofun

theorem still_phys (register : Register) : Still (scope.phys register) := by
  unfold Scope.phys
  split
  · exact .throw _
  · split
    · exact .throw _
    · exact .pure _

/-- Reading an operand changes nothing. -/
theorem still_read (operand : Operand) (size : Size) : Still (scope.read operand size) := by
  cases operand with
  | absent => exact .throw _
  | reg register =>
      exact .bind (still_phys _) fun _ => .bind (.bind .get fun _ => .pure _) fun _ => .pure _
  | mem pointer =>
      refine .bind (.bind (still_phys _) fun _ => ?_) fun _ => .bind .get fun _ => .pure _
      exact .bind (.bind .get fun _ => .pure _) fun _ => .pure _
  | lit literal =>
      unfold Scope.read
      dsimp only
      split
      · unfold Scope.symbol
        split
        · exact .pure _
        · exact .throw _
      · split
        · exact .pure _
        · exact .throw _

theorem robust_write (operand : Operand) (value : UInt64) : Robust (scope.write operand value) := by
  cases operand with
  | reg register =>
      exact .bind (robust_phys _) fun phys => .bind (robust_getReg phys) fun _ => .modify _
  | mem pointer => exact .bind (robust_address _) fun _ => .modify _
  | absent => exact .throw nofun
  | lit literal => exact .throw nofun

end Access

section Instructions

theorem robust_setReg (phys : Phys) (word : UInt64) : Robust (Exec.setReg phys word) :=
  .modify _

theorem robust_enter (target : String) : Robust (enter target) :=
  .modify _

theorem robust_leave (checked : Bool) : Robust (leave checked) := by
  refine .bind .get fun state => ?_
  split
  · exact .throw nofun
  · refine .bind (.set _) fun _ => .ite (.ite (.fails (by nofun)) ?_) (.pure _)
    split
    · exact .throw nofun
    · exact .pure _

theorem robust_service : Robust service := by
  refine .bind (robust_getReg _) fun number => .ite ?_ (.ite ?_ (.throw nofun))
  · exact .bind (robust_getReg _) fun _ => .bind (.modify _) fun _ =>
      .bind (robust_setReg _ _) fun _ => robust_setReg _ _
  · refine .bind (robust_getReg _) fun size => .ite (robust_setReg _ _) ?_
    exact .bind .get fun _ => .bind (.set _) fun _ => .bind (robust_setReg _ _) fun _ =>
      .bind (robust_setReg _ _) fun _ => robust_setReg _ _

theorem robust_divide (signed : Bool) (op : Op) (operand : Operand) :
    Robust (divide scope signed op operand) := by
  refine .ite (.fails (by nofun)) (.bind (robust_read _ _) fun divisor => ?_)
  refine .ite (.fails (by nofun)) ?_
  refine .bind (robust_getReg _) fun low => .bind (robust_getReg _) fun high => ?_
  refine .ite (.ite (.fails (by nofun)) ?_) (.ite (.fails (by nofun)) ?_)
  · exact .bind (robust_setReg _ _) fun _ => robust_setReg _ _
  · exact .bind (robust_setReg _ _) fun _ => robust_setReg _ _

theorem robust_modifyOperand (operand : Operand)
    (change : Flags → UInt64 → UInt64 × Flags) : Robust (modifyOperand scope operand change) := by
  refine .bind (robust_read _ _) fun value => .bind .get fun state => ?_
  exact .bind (.modify _) fun _ => robust_write _ _

theorem robust_binary (op : Op) (dst src : Operand) : Robust (binary scope op dst src) := by
  refine .ite (.fails (by nofun)) (.ite (.fails (by nofun)) ?_)
  split
  · split
    · exact .bind (robust_address _) fun _ => robust_write _ _
    · exact .throw nofun
  · exact .bind (robust_read _ _) fun _ => robust_write _ _
  · exact .bind (robust_read _ _) fun _ => robust_write _ _
  · exact .bind (robust_read _ _) fun _ => robust_write _ _
  · refine .bind (robust_read _ _) fun given => .ite (robust_write _ _) ?_
    refine .bind (robust_read _ _) fun first => .ite ?_ (.bind .get fun state => ?_)
    · exact .bind (robust_write _ _) fun _ => robust_write _ _
    · split
      · refine .bind (.modify _) fun _ => ?_
        split
        · exact robust_write _ _
        · exact .pure _
      · exact .throw nofun

theorem robust_nullary (op : Op) : Robust (nullary checked op) := by
  unfold nullary
  split
  · refine .bind (robust_leave _) fun _ => .bind robust_pop fun address => ?_
    exact .ite (.pure _) (.pure _)
  · exact .bind (robust_getReg _) fun _ => .bind (robust_setReg _ _) fun _ => .pure _
  · exact .bind (robust_getReg _) fun _ => .bind (robust_setReg _ _) fun _ => .pure _
  · refine .bind (robust_getReg _) fun _ => .bind (robust_setReg _ _) fun _ => ?_
    exact .bind robust_pop fun _ => .bind (robust_setReg _ _) fun _ => .pure _
  · exact .pure _
  · exact .bind robust_service fun _ => .pure _
  · exact .throw nofun

/-- Only a branch that is taken makes an index from an address. -/
theorem robust_unary {op : Op} (straight : op.isBranch = false) (operand : Operand) :
    Robust (unary scope checked op operand) := by
  unfold unary
  split
  · exact .bind .get fun _ => .bind (robust_write _ _) fun _ => .pure _
  · contradiction
  · contradiction
  · contradiction
  · refine .bind (robust_read _ _) fun value => ?_
    dsimp only
    split
    · exact .bind (robust_push _) fun _ => .pure _
    · exact .bind (robust_push _) fun _ => .pure _
  · exact .bind robust_pop fun _ => .bind (robust_write _ _) fun _ => .pure _
  · exact .bind (robust_modifyOperand _ _) fun _ => .pure _
  · exact .bind (robust_modifyOperand _ _) fun _ => .pure _
  · exact .bind (robust_modifyOperand _ _) fun _ => .pure _
  · exact .bind (robust_modifyOperand _ _) fun _ => .pure _
  · exact .bind (robust_divide _ _ _) fun _ => .pure _
  · exact .bind (robust_divide _ _ _) fun _ => .pure _
  · exact .throw nofun

end Instructions

section Branches

variable {state state' : State} {operand : Operand} {index : Int}

/-- What follows on a computation does not matter if it cannot break off. -/
theorem bind_crash {α β : Type} {action : Exec α} {next : α → Exec β}
    (rest : ∀ value, Robust (next value)) :
    (action >>= next) state = .error (.negativeIndex index) state' ↔
      action state = .error (.negativeIndex index) state' := by
  rw [Success.bind_error, or_iff_left]
  rintro ⟨value, after, -, ran⟩
  exact rest value _ _ _ ran rfl

theorem indirect_crash {address : UInt64} :
    Scope.target.indirect scope address state = .error (.negativeIndex index) state' ↔
      Wild address ∧ Literal.intOfWord (address - codeBase) = index ∧ state = state' := by
  rw [wild_iff, Scope.target.indirect]
  by_cases outside : address < codeBase ∨
      (scope.image.code.size : Int) ≤ Literal.intOfWord (address - codeBase)
  · simp only [if_pos outside]
    refine iff_of_false (Robust.throw (by nofun)).unbroken ?_
    rintro ⟨⟨above, negative⟩, -⟩
    rcases outside with below | behind
    · exact absurd above (UInt64.not_le.mpr below)
    · omega
  · simp only [if_neg outside]
    by_cases negative : Literal.intOfWord (address - codeBase) < 0
    · rw [if_pos negative]
      have above : codeBase ≤ address := UInt64.not_lt.mp fun below => outside (.inl below)
      constructor
      · intro run
        cases run
        exact ⟨⟨above, negative⟩, rfl, rfl⟩
      · rintro ⟨-, rfl, rfl⟩
        rfl
    · rw [if_neg negative]
      refine iff_of_false (Robust.unbroken ?_) fun wild => negative wild.1.2
      split
      · exact .pure _
      · exact .pure _

theorem target_crash :
    scope.target operand state = .error (.negativeIndex index) state' ↔
      labelled operand = false ∧ ∃ address,
        scope.read operand .s64 state = .ok address state ∧ Wild address ∧
          Literal.intOfWord (address - codeBase) = index ∧ state = state' := by
  have through : (scope.read operand .s64 >>= Scope.target.indirect scope) state =
      .error (.negativeIndex index) state' ↔ ∃ address,
        scope.read operand .s64 state = .ok address state ∧ Wild address ∧
          Literal.intOfWord (address - codeBase) = index ∧ state = state' := by
    rw [Success.bind_error, or_iff_right fun ran => robust_read _ _ _ _ _ ran rfl]
    constructor
    · rintro ⟨address, after, ran, crash⟩
      obtain rfl := still_read _ _ _ _ _ ran
      exact ⟨address, ran, indirect_crash.mp crash⟩
    · rintro ⟨address, ran, crash⟩
      exact ⟨address, state, ran, indirect_crash.mpr crash⟩
  cases operand with
  | lit literal =>
      cases known : literal.isLabel with
      | true =>
          refine iff_of_false (Robust.unbroken ?_) fun aimed => ?_
          · simp only [Scope.target, known, if_true]
            split
            · exact .pure _
            · exact .throw nofun
          · exact Bool.false_ne_true (aimed.1.symm.trans known)
      | false => simpa [Scope.target, labelled, known] using through
  | absent => simpa [Scope.target, labelled] using through
  | reg register => simpa [Scope.target, labelled] using through
  | mem pointer => simpa [Scope.target, labelled] using through

theorem unary_crash {op : Op} :
    unary scope checked op operand state = .error (.negativeIndex index) state' ↔
      taken state.flags op = true ∧
        scope.target operand state = .error (.negativeIndex index) state' := by
  have leads : (do return some (← scope.target operand).1 : Exec (Option Nat)) state =
      .error (.negativeIndex index) state' ↔
        scope.target operand state = .error (.negativeIndex index) state' :=
    bind_crash fun _ => .pure _
  cases branches : op.isBranch with
  | false =>
      have straight : taken state.flags op = false := by
        cases op <;> first | rfl | contradiction
      refine iff_of_false (robust_unary branches operand).unbroken fun branched => ?_
      exact Bool.false_ne_true (straight.symm.trans branched.1)
  | true =>
      cases op with
      | jmp => simpa [unary, taken] using leads
      | jump cond =>
          cases holds : state.flags.holds cond with
          | true =>
              change (if state.flags.holds cond then (do return some (← scope.target operand).1)
                else return none : Exec (Option Nat)) state = _ ↔ _
              simpa only [holds, taken, if_true, true_and] using leads
          | false =>
              change (if state.flags.holds cond then (do return some (← scope.target operand).1)
                else return none : Exec (Option Nat)) state = _ ↔ _
              rw [if_neg (by simp [holds])]
              simp [taken, holds, (Robust.pure _).unbroken]
      | call =>
          refine (bind_crash fun (index, name) => ?_).trans (by simp [taken])
          refine .bind (robust_getReg _) fun rsp => .ite (.fails (by nofun)) ?_
          refine .bind .get fun _ => ?_
          exact .bind (robust_push _) fun _ => .bind (robust_enter _) fun _ => .pure _
      | _ => contradiction

/-- An instruction breaks off exactly where it leads astray, before it has changed anything. -/
theorem execute_crash {instr : Instr} :
    execute scope checked instr state = .error (.negativeIndex index) state' ↔
      Astray scope state instr index ∧ state = state' := by
  cases instr with
  | unary op operand =>
      refine (bind_crash fun next => ?_).trans ?_
      · cases next with
        | none => exact .pure _
        | some index => exact .pure _
      rw [unary_crash, target_crash]
      constructor
      · rintro ⟨branches, unknown, address, held, wild, rfl, rfl⟩
        exact ⟨.branch branches unknown held wild, rfl⟩
      · rintro ⟨⟨branches, unknown, held, wild⟩, rfl⟩
        exact ⟨branches, unknown, _, held, wild, rfl, rfl⟩
  | absent => exact iff_of_false (Robust.throw (by nofun)).unbroken nofun
  | binary op dst src =>
      refine iff_of_false (Robust.unbroken ?_) nofun
      exact .bind (robust_binary _ _ _) fun _ => .pure _
  | nullary op => exact iff_of_false (robust_nullary op).unbroken nofun
  | globalName name => exact iff_of_false (Robust.pure _).unbroken nofun
  | sectionName name => exact iff_of_false (Robust.pure _).unbroken nofun
  | label name procedure => exact iff_of_false (Robust.pure _).unbroken nofun
  | data item => exact iff_of_false (Robust.pure _).unbroken nofun
  | comment text => exact iff_of_false (Robust.pure _).unbroken nofun

end Branches

section Runs

variable {state state' : State} {index : Int}

/-- The state in which an instruction is executed: it is noted as the newest one. -/
def State.noting (state : State) (index : Nat) : State :=
  { state with recent := (index :: state.recent).take recentCount }

theorem step_crash {position : Nat} {entry : Entry} :
    step image checked position entry state = .error (.negativeIndex index) state' ↔
      Astray ⟨image, entry.tick⟩ (state.noting position) entry.instr index ∧
        state.noting position = state' := by
  change (execute ⟨image, entry.tick⟩ checked entry.instr >>= _) (state.noting position) = _ ↔ _
  refine Iff.trans (bind_crash fun next => ?_) execute_crash
  cases next with
  | finished => exact .pure _
  | following => exact .bind (.modify _) fun _ => .pure _
  | index ip => exact .bind (.modify _) fun _ => .pure _

/-- The machine stands at an instruction that leads astray. -/
def Derailed (image : Image) (state : State) (index : Int) : Prop :=
  0 ≤ state.ip ∧ ∃ entry, image.code[state.ip.toNat]? = some entry ∧
    Astray ⟨image, entry.tick⟩ state entry.instr index

/-- A run that breaks off does so at an instruction that leads astray. -/
theorem loop_crash {remaining : Nat}
    (run : loop image checked remaining state = .error (.negativeIndex index) state') :
    Derailed image state' index := by
  induction remaining generalizing state with
  | zero =>
      have reported : Robust (loop image checked 0) :=
        .bind .get fun state => .ite (.throw nofun) (.throw nofun)
      exact absurd run reported.unbroken
  | succ remaining inductionHypothesis =>
      rw [loop] at run
      rcases Success.bind_error.mp run with ran | ⟨_, _, got, run⟩
      · cases ran
      obtain ⟨rfl, rfl⟩ := Success.get_ok.mp got
      dsimp only at run
      by_cases below : state.ip < 0
      · rw [if_pos below] at run
        exact absurd run (Robust.fails (by nofun)).unbroken
      rw [if_neg below] at run
      cases found : image.code[state.ip.toNat]? with
      | none =>
          rw [found] at run
          exact absurd run (Robust.throw (by nofun)).unbroken
      | some entry =>
          rw [found] at run
          dsimp only at run
          rcases Success.bind_error.mp run with ran | ⟨_, counted, ran, run⟩
          · cases ran
          obtain rfl := Success.modify_ok.mp ran
          rcases Success.bind_error.mp run with ran | ⟨finished, stepped, _, run⟩
          · obtain ⟨astray, rfl⟩ := step_crash.mp ran
            exact ⟨Int.not_lt.mp below, entry, found, astray⟩
          rcases Success.bind_error.mp run with ran | ⟨_, _, got, run⟩
          · cases ran
          obtain ⟨rfl, rfl⟩ := Success.get_ok.mp got
          split at run
          · cases run
          · exact inductionHypothesis run

theorem runFrom_crash {maxSteps : Int} {start : Nat}
    (run : runFrom image checked maxSteps start state = .error (.negativeIndex index) state') :
    Derailed image state' index := by
  rcases Success.bind_error.mp run with ran | ⟨_, _, _, ran⟩
  · cases ran
  · exact loop_crash ran

theorem robust_passArguments (arguments : List UInt64) : Robust (passArguments arguments) := by
  refine .bind (.forM fun (phys, argument) => robust_setReg _ _) fun _ => ?_
  refine .ite (.bind (robust_push _) fun _ => ?_) ?_
  · exact .bind (.forM robust_push) fun _ => robust_push _
  · exact .bind (.forM robust_push) fun _ => robust_push _

variable {machine : Machine} {failure : Failure}

/-- The failure of a machine that broke off where it stands now. -/
def BrokeOff (machine : Machine) (failure : Failure) : Prop :=
  ∃ index, Derailed machine.image machine.state index ∧
    failure = .stopped machine.state.ip (.negativeIndex index) machine.recentLines

theorem perform_crash {action : Exec Unit}
    (derails : ∀ index state', action machine.state = .error (.negativeIndex index) state' →
      Derailed machine.image state' index)
    (ended : (machine.perform action).2 = .error failure) (crash : failure.class = .crash) :
    BrokeOff (machine.perform action).1 failure := by
  unfold perform at ended ⊢
  split at ended
  · cases ended
  · rename_i fault state' ran
    cases ended
    cases fault <;> cases crash
    exact ⟨_, derails _ _ ran, rfl⟩

/-- A program breaks off only at an instruction that leads astray. -/
theorem run_crash {entry : String} (ended : (machine.run entry).2 = .error failure)
    (crash : failure.class = .crash) : BrokeOff (machine.run entry).1 failure := by
  unfold run at ended ⊢
  cases known : machine.image.labels[entry]? with
  | none =>
      rw [known] at ended
      cases ended
      cases crash
  | some start =>
      rw [known] at ended
      dsimp only at ended ⊢
      cases outcome : (machine.reset.perform
          (runFrom machine.image machine.checked machine.maxSteps start)).2 with
      | error reported =>
          rw [outcome] at ended
          cases ended
          exact perform_crash (fun _ _ ran => runFrom_crash ran) outcome crash
      | ok _ =>
          rw [outcome] at ended
          split at ended
          · contradiction
          · cases ended
          · cases ended
            cases crash

/-- A procedure breaks off only at an instruction that leads astray, whatever it is given. -/
theorem call_crash {name : String} {arguments : List UInt64}
    (ended : (machine.call name arguments).2 = .error failure) (crash : failure.class = .crash) :
    BrokeOff (machine.call name arguments).1 failure := by
  unfold call at ended ⊢
  cases known : machine.image.labels[name]? with
  | none =>
      rw [known] at ended
      cases ended
      cases crash
  | some start =>
      rw [known] at ended
      dsimp only at ended ⊢
      refine perform_crash (fun index state' ran => ?_) ?_ crash
      · rcases Success.bind_error.mp ran with ran | ⟨_, _, _, ran⟩
        · exact absurd ran (robust_passArguments _).unbroken
        rcases Success.bind_error.mp ran with ran | ⟨_, _, _, ran⟩
        · exact absurd ran (robust_enter _).unbroken
        · exact runFrom_crash ran
      · generalize (machine.reset.perform _).2 = outcome at ended ⊢
        cases outcome with
        | error reported =>
            cases ended
            rfl
        | ok _ => cases ended

/-- Code whose branches all go to labels. -/
def Labelled (image : Image) : Prop :=
  ∀ (index : Nat) (entry : Entry), image.code[index]? = some entry →
    ∀ op operand, entry.instr = .unary op operand → op.isBranch = true → labelled operand = true

theorem isBranch_of_taken {flags : Flags} {op : Op} (branches : taken flags op = true) :
    op.isBranch = true := by
  cases op <;> first | rfl | contradiction

theorem Labelled.sound (labels : Labelled machine.image) (failure : Failure) :
    ¬ BrokeOff machine failure := by
  rintro ⟨index, ⟨_, entry, found, astray⟩, _⟩
  cases instr : entry.instr with
  | unary op operand =>
      rw [instr] at astray
      cases astray with
      | branch branches unknown _ _ =>
          have known := labels _ entry found op operand instr (isBranch_of_taken branches)
          exact Bool.false_ne_true (unknown.symm.trans known)
  | _ =>
      rw [instr] at astray
      cases astray

@[simp]
theorem perform_image (action : Exec Unit) : (machine.perform action).1.image = machine.image := by
  unfold perform
  split <;> rfl

@[simp]
theorem run_image (entry : String) : (machine.run entry).1.image = machine.image := by
  unfold run
  split
  · rfl
  · dsimp only
    split <;> exact perform_image _

@[simp]
theorem call_image (name : String) (arguments : List UInt64) :
    (machine.call name arguments).1.image = machine.image := by
  unfold call
  split
  · rfl
  · exact perform_image _

/-- Where all branches go to labels, running and calling end with a value or a fault of the
program. -/
theorem reports_of_labelled (labels : Labelled machine.image) :
    (∀ entry failure, (machine.run entry).2 = .error failure → failure.class ≠ .crash) ∧
      ∀ name arguments failure, (machine.call name arguments).2 = .error failure →
        failure.class ≠ .crash := by
  constructor
  · intro entry failure ended crash
    rw [← run_image entry] at labels
    exact labels.sound failure (run_crash ended crash)
  · intro name arguments failure ended crash
    rw [← call_image name arguments] at labels
    exact labels.sound failure (call_crash ended crash)

end Runs

end X64Backend.Machine
