import X64Backend.Proofs.Machine.Crash
import X64Backend.Proofs.Machine.Runs

/-!
The level of the stack.  Code that pushes and pops, and leaves the stack pointer and the frame
pointer alone otherwise, stands as many words below where it began as it has pushed and not popped.
-/

namespace X64Backend.Machine

/-- An action moves the stack pointer by a distance and keeps the frame pointer, if it succeeds. -/
def Displaces {α : Type} (distance : UInt64) (action : Exec α) : Prop :=
  ∀ state value state', action state = .ok value state' →
    state'.registers.get .rsp = state.registers.get .rsp + distance ∧
      state'.registers.get .rbp = state.registers.get .rbp

namespace Displaces

variable {α β : Type} {distance : UInt64}

theorem throw (fault : Fault) : Displaces distance (throw fault : Exec α) := by
  intro state _ _ run
  change EStateM.Result.error fault state = _ at run
  cases run

theorem fails (fault : Fault) {next : β → Exec α} :
    Displaces distance ((MonadExcept.throw fault : Exec β) >>= next) := by
  intro state _ _ run
  change EStateM.Result.error fault state = _ at run
  cases run

theorem still {action : Exec α} (still : Still action) : Displaces 0 action := by
  intro state value state' run
  rw [still _ _ _ run, UInt64.add_zero]
  exact ⟨rfl, rfl⟩

theorem pure (value : α) : Displaces 0 (pure value : Exec α) := .still (.pure value)

theorem get : Displaces 0 (get : Exec State) := .still .get

/-- An action that moves the stack pointer behind one that does not. -/
theorem behind {action : Exec α} {next : α → Exec β} (first : Displaces 0 action)
    (rest : ∀ value, Displaces distance (next value)) : Displaces distance (action >>= next) := by
  intro state result state' run
  obtain ⟨value, after, ran, run⟩ := Success.bind_ok.mp run
  obtain ⟨level, base⟩ := first _ _ _ ran
  obtain ⟨level', base'⟩ := rest value _ _ _ run
  rw [level', level, UInt64.add_zero]
  exact ⟨rfl, base'.trans base⟩

/-- An action that moves the stack pointer in front of one that does not. -/
theorem before {action : Exec α} {next : α → Exec β} (first : Displaces distance action)
    (rest : ∀ value, Displaces 0 (next value)) : Displaces distance (action >>= next) := by
  intro state result state' run
  obtain ⟨value, after, ran, run⟩ := Success.bind_ok.mp run
  obtain ⟨level, base⟩ := first _ _ _ ran
  obtain ⟨level', base'⟩ := rest value _ _ _ run
  rw [level', level, UInt64.add_zero]
  exact ⟨rfl, base'.trans base⟩

theorem ite {condition : Prop} [Decidable condition] {first second : Exec α}
    (yes : Displaces distance first) (no : Displaces distance second) :
    Displaces distance (if condition then first else second) := by
  split
  · exact yes
  · exact no

theorem modify {change : State → State}
    (same : ∀ state, (change state).registers = state.registers) :
    Displaces 0 (modify change : Exec Unit) := by
  intro state _ _ run
  cases run
  rw [same, UInt64.add_zero]
  exact ⟨rfl, rfl⟩

end Displaces

section Access

variable {scope : Scope} {image : Image} {checked : Bool}

theorem displaces_getReg (phys : Phys) : Displaces 0 (Exec.getReg phys) :=
  .behind .get fun _ => .pure _

theorem displaces_setReg {phys : Phys} (level : phys ≠ .rsp) (base : phys ≠ .rbp) (word : UInt64) :
    Displaces 0 (Exec.setReg phys word) := by
  intro state _ _ run
  cases run
  rw [Registers.get_set, Registers.get_set, if_neg level.symm, if_neg base.symm, UInt64.add_zero]
  exact ⟨rfl, rfl⟩

theorem displaces_push (word : UInt64) : Displaces (0 - 8) (Exec.push word) := by
  intro state _ _ run
  cases run
  change (state.registers.set .rsp (state.registers.get .rsp - 8)).get .rsp = _ ∧
    (state.registers.set .rsp (state.registers.get .rsp - 8)).get .rbp = _
  rw [Registers.get_set, Registers.get_set, if_pos rfl, if_neg (by decide)]
  exact ⟨by grind, rfl⟩

theorem displaces_pop : Displaces 8 Exec.pop := by
  intro state _ _ run
  cases run
  change (state.registers.set .rsp (state.registers.get .rsp + 8)).get .rsp = _ ∧
    (state.registers.set .rsp (state.registers.get .rsp + 8)).get .rbp = _
  rw [Registers.get_set, Registers.get_set, if_pos rfl, if_neg (by decide)]
  exact ⟨rfl, rfl⟩

theorem displaces_read (operand : Operand) (size : Size) :
    Displaces 0 (scope.read operand size) :=
  .still (still_read operand size)

/-- What goes on with the hardware register of an operand. -/
theorem Displaces.named {α : Type} {distance : UInt64} {register : Register} {next : Phys → Exec α}
    (rest : ∀ phys, scope.image.timeline.resolve register scope.tick = some phys →
      Displaces distance (next phys)) : Displaces distance (scope.phys register >>= next) := by
  unfold Scope.phys
  split
  · exact .fails _
  · rename_i phys named
    split
    · exact .fails _
    · exact rest phys named

/-- An operand does not stand for the stack pointer or the frame pointer. -/
def Scope.Clear (scope : Scope) (operand : Operand) : Prop :=
  ∀ register phys, operand = .reg register →
    scope.image.timeline.resolve register scope.tick = some phys → phys ≠ .rsp ∧ phys ≠ .rbp

theorem displaces_write {operand : Operand} (clear : scope.Clear operand) (value : UInt64) :
    Displaces 0 (scope.write operand value) := by
  cases operand with
  | absent => exact .throw _
  | lit literal => exact .throw _
  | mem pointer =>
      refine .behind (.behind (.still (still_phys _)) fun _ => ?_) fun _ => .modify fun _ => rfl
      exact .behind (displaces_getReg _) fun _ => .pure _
  | reg register =>
      refine .named fun phys named => ?_
      obtain ⟨level, base⟩ := clear register phys rfl named
      exact .behind (displaces_getReg _) fun _ => displaces_setReg level base _

end Access

section Instructions

variable {scope : Scope} {checked : Bool}

/-- An instruction that stays in line, and names neither the stack pointer nor the frame pointer as
what it writes. -/
def Tame (scope : Scope) : Instr → Prop
  | .binary op dst src => scope.Clear dst ∧ (op = .xchg → scope.Clear src)
  | .unary op operand => op = .push ∨ op.isBranch = false ∧ scope.Clear operand
  | .nullary op => op ≠ .ret ∧ op ≠ .leave
  | _ => True

/-- How far an instruction moves the stack pointer. -/
def distance : Instr → UInt64
  | .unary .push _ => 0 - 8
  | .unary .pop _ => 8
  | _ => 0

theorem displaces_service : Displaces 0 service := by
  have others : Displaces 0 (do
      Exec.setReg .rcx 0
      Exec.setReg .r11 0) :=
    .behind (displaces_setReg (by decide) (by decide) 0) fun _ =>
      displaces_setReg (by decide) (by decide) 0
  have answered : ∀ word, Displaces 0 (Exec.setReg .rax word) :=
    fun word => displaces_setReg (by decide) (by decide) word
  refine .behind (displaces_getReg _) fun number => .ite ?_ (.ite ?_ (.throw _))
  · exact .behind (displaces_getReg _) fun _ => .behind (.modify fun _ => rfl) fun _ => others
  · refine .behind (displaces_getReg _) fun size => .ite (answered _) ?_
    intro state _ state' run
    obtain ⟨_, _, got, run⟩ := Success.bind_ok.mp run
    obtain ⟨rfl, rfl⟩ := Success.get_ok.mp got
    obtain ⟨_, _, mapped, run⟩ := Success.bind_ok.mp run
    obtain rfl := Success.set_ok.mp mapped
    have answers := Displaces.behind (answered _) (fun _ => others) _ _ _ run
    exact answers

theorem displaces_divide (signed : Bool) (op : Op) (operand : Operand) :
    Displaces 0 (divide scope signed op operand) := by
  have outcome : ∀ quotient remainder, Displaces 0 (do
      Exec.setReg .rax quotient
      Exec.setReg .rdx remainder) := fun _ _ =>
    .behind (displaces_setReg (by decide) (by decide) _) fun _ =>
      displaces_setReg (by decide) (by decide) _
  refine .ite (.fails _) (.behind (displaces_read _ _) fun divisor => .ite (.fails _) ?_)
  refine .behind (displaces_getReg _) fun low => .behind (displaces_getReg _) fun high => ?_
  exact .ite (.ite (.fails _) (outcome _ _)) (.ite (.fails _) (outcome _ _))

theorem displaces_modifyOperand {operand : Operand} (clear : scope.Clear operand)
    (change : Flags → UInt64 → UInt64 × Flags) :
    Displaces 0 (modifyOperand scope operand change) :=
  .behind (displaces_read _ _) fun _ => .behind .get fun _ =>
    .behind (.modify fun _ => rfl) fun _ => displaces_write clear _

theorem displaces_binary {op : Op} {dst src : Operand} (clear : scope.Clear dst)
    (exchanged : op = .xchg → scope.Clear src) : Displaces 0 (binary scope op dst src) := by
  refine .ite (.fails _) (.ite (.fails _) ?_)
  split
  · split
    · refine .behind (.behind (.still (still_phys _)) fun _ => ?_) fun _ => displaces_write clear _
      exact .behind (displaces_getReg _) fun _ => .pure _
    · exact .throw _
  · exact .behind (displaces_read _ _) fun _ => displaces_write clear _
  · exact .behind (displaces_read _ _) fun _ => displaces_write clear _
  · exact .behind (displaces_read _ _) fun _ => displaces_write clear _
  · refine .behind (displaces_read _ _) fun given => .ite (displaces_write clear _) ?_
    refine .behind (displaces_read _ _) fun first => ?_
    split
    · rename_i isXchg
      exact .behind (displaces_write (exchanged isXchg) _) fun _ => displaces_write clear _
    · refine .behind .get fun state => ?_
      split
      · refine .behind (.modify fun _ => rfl) fun _ => ?_
        split
        · exact displaces_write clear _
        · exact .pure _
      · exact .throw _

/-- An instruction with one operand that stays in line. -/
theorem displaces_unary {op : Op} {operand : Operand} (other : op ≠ .push)
    (straight : op.isBranch = false) (clear : scope.Clear operand) :
    Displaces (distance (.unary op operand)) (unary scope checked op operand) := by
  unfold unary
  split
  · exact .behind .get fun _ => .behind (displaces_write clear _) fun _ => .pure _
  · contradiction
  · contradiction
  · contradiction
  · contradiction
  · exact .before displaces_pop fun _ => .behind (displaces_write clear _) fun _ => .pure _
  · exact .behind (displaces_modifyOperand clear _) fun _ => .pure _
  · exact .behind (displaces_modifyOperand clear _) fun _ => .pure _
  · exact .behind (displaces_modifyOperand clear _) fun _ => .pure _
  · exact .behind (displaces_modifyOperand clear _) fun _ => .pure _
  · exact .behind (displaces_divide _ _ _) fun _ => .pure _
  · exact .behind (displaces_divide _ _ _) fun _ => .pure _
  · exact .throw _

theorem displaces_pushOperand (operand : Operand) :
    Displaces (0 - 8) (unary scope checked .push operand) := by
  refine .behind (displaces_read _ _) fun value => ?_
  dsimp only
  split
  · exact .before (displaces_push _) fun _ => .pure _
  · exact .before (displaces_push _) fun _ => .pure _

theorem displaces_nullary {op : Op} (stays : op ≠ .ret) (keeps : op ≠ .leave) :
    Displaces 0 (nullary checked op) := by
  have dividend : ∀ word, Displaces 0 (Exec.setReg .rdx word) :=
    fun word => displaces_setReg (by decide) (by decide) word
  unfold nullary
  split
  · contradiction
  · exact .behind (displaces_getReg _) fun _ => .behind (dividend _) fun _ => .pure _
  · exact .behind (displaces_getReg _) fun _ => .behind (dividend _) fun _ => .pure _
  · contradiction
  · exact .pure _
  · exact .behind displaces_service fun _ => .pure _
  · exact .throw _

theorem displaces_execute {instr : Instr} (tame : Tame scope instr) :
    Displaces (distance instr) (execute scope checked instr) := by
  cases instr with
  | absent => exact .throw _
  | binary op dst src =>
      exact .behind (displaces_binary tame.1 tame.2) fun _ => .pure _
  | unary op operand =>
      have moves : Displaces (distance (.unary op operand)) (unary scope checked op operand) := by
        by_cases isPush : op = .push
        · rw [isPush]
          exact displaces_pushOperand operand
        · obtain ⟨straight, clear⟩ := tame.resolve_left isPush
          exact displaces_unary isPush straight clear
      refine .before moves fun branch => ?_
      split
      · exact .pure _
      · exact .pure _
  | nullary op => exact displaces_nullary tame.1 tame.2
  | globalName | sectionName | label | data | comment => exact .pure _

end Instructions

section Runs

variable {scope : Scope} {image : Image} {checked : Bool} {view view' : View}

/-- A state with a view. -/
def View.state (view : View) : State :=
  { registers := view.registers, memory := view.memory, flags := view.flags, ip := 0
    heap := view.heap, frames := view.frames, recent := [], exit := none, steps := 0 }

theorem Does.displaced {instr : Instr} (does : Does scope checked instr view view')
    (tame : Tame scope instr) :
    view'.get .rsp = view.get .rsp + distance instr ∧ view'.get .rbp = view.get .rbp := by
  obtain ⟨after, ran, rfl, _⟩ := does view.state rfl
  exact displaces_execute tame _ _ after ran

/-- A push writes the word below the stack pointer, and nothing else. -/
theorem Does.pushed {operand : Operand}
    (does : Does scope checked (.unary .push operand) view view') :
    ∃ word, view' = view.push word := by
  obtain ⟨after, ran, rfl, _⟩ := does view.state rfl
  obtain ⟨branch, ended, ran, last⟩ := Success.bind_ok.mp ran
  obtain ⟨value, read, found, ran⟩ := Success.bind_ok.mp ran
  obtain rfl := still_read _ _ _ _ _ found
  have stored : ∀ word, (do
      Exec.push word
      return none : Exec (Option Nat)) view.state = .ok branch ended →
        after.view = view.push word := by
    intro word run
    cases run
    cases last
    rfl
  dsimp only at ran
  split at ran
  · exact ⟨_, stored _ ran⟩
  · exact ⟨_, stored _ ran⟩

/-- How many words are on the stack behind an instruction, if it does not take off any of those that
are not counted. -/
def depthBehind? (depth : Nat) : Instr → Option Nat
  | .unary .push _ => some (depth + 1)
  | .unary .pop _ => if depth = 0 then none else some (depth - 1)
  | _ => some depth

/-- How many words are on the stack behind instructions, if they never take off any of those that
were there before. -/
def depth? : (depth : Nat) → List Instr → Option Nat
  | depth, [] => some depth
  | depth, instr :: rest => (depthBehind? depth instr).bind (depth? · rest)

theorem distance_of_depthBehind? {depth depth' : Nat} {instr : Instr}
    (counted : depthBehind? depth instr = some depth') :
    0 - 8 * UInt64.ofNat depth + distance instr = 0 - 8 * UInt64.ofNat depth' := by
  unfold depthBehind? at counted
  split at counted
  · cases counted
    rw [distance, UInt64.ofNat_add]
    grind
  · split at counted
    · contradiction
    · rename_i some
      cases counted
      obtain ⟨fewer, rfl⟩ := Nat.exists_eq_add_one_of_ne_zero some
      rw [distance, Nat.add_sub_cancel, UInt64.ofNat_add]
      grind
  · rename_i notPush notPop
    cases counted
    rw [show distance instr = 0 by
      unfold distance
      split
      · exact absurd rfl (notPush _)
      · exact absurd rfl (notPop _)
      · rfl]
    grind

/-- Tame code stands below where it began by the words that it has pushed and not popped. -/
theorem Straight.level {top : UInt64} {depth depth' : Nat} {entries : List Entry}
    (straight : Straight image checked entries view view')
    (tame : ∀ entry ∈ entries, Tame ⟨image, entry.tick⟩ entry.instr)
    (counted : depth? depth (entries.map Entry.instr) = some depth')
    (start : view.get .rsp = top - 8 * UInt64.ofNat depth) :
    view'.get .rsp = top - 8 * UInt64.ofNat depth' ∧ view'.get .rbp = view.get .rbp := by
  induction entries generalizing view depth with
  | nil =>
      cases straight
      cases counted
      exact ⟨start, rfl⟩
  | cons entry rest inductionHypothesis =>
      obtain ⟨next, does, others⟩ := straight
      obtain ⟨between, first, last⟩ := Option.bind_eq_some_iff.mp counted
      obtain ⟨level, base⟩ := does.displaced (tame entry List.mem_cons_self)
      have moved := distance_of_depthBehind? first
      obtain ⟨level', base'⟩ := inductionHypothesis others
        (fun other member => tame other (List.mem_cons_of_mem _ member)) last
        (by rw [level, start]; grind)
      exact ⟨level', base'.trans base⟩

end Runs

end X64Backend.Machine
