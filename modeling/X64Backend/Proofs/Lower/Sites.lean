import X64Backend.Proofs.Lower.Balance
import X64Backend.Proofs.Lower.Fit

/-!
Every state that is visited is reached by moves of the generator from the start of a body, so what
the moves keep holds at every call that is emitted, where it starts and where it is done.
-/

namespace X64Backend.Lower

open X64Backend.Tree

variable {program : TypedProgram} {options : Options} {since : Handle} {c c' : Config}
  {d d' : Nat} {s s' : State}

/-- The blocks of an expression are blocks of the program. -/
def ContainsAll (program : TypedProgram) (e : Expr) : Prop :=
  ∀ block, Expr.Contains block e → program.Contains block

/-- The blocks of a statement are blocks of the program. -/
def ContainsAllIn (program : TypedProgram) (stmt : Stmt) : Prop :=
  ∀ block, Stmt.Contains block stmt → program.Contains block

theorem ContainsAll.part {e part : Expr} (all : ContainsAll program e) (member : part ∈ e.parts) :
    ContainsAll program part :=
  contained_part member all

theorem ContainsAllIn.expr {stmt : Stmt} {e : Expr} (all : ContainsAllIn program stmt)
    (member : e ∈ stmt.exprs) : ContainsAll program e :=
  contained_expr member all

theorem ContainsAllIn.part {stmt part : Stmt} (all : ContainsAllIn program stmt)
    (member : part ∈ stmt.parts) : ContainsAllIn program part :=
  contained_stmt member all

/-- An operand that can be computed: an expression of the program, or one that may be named. -/
def Item.Placed (program : TypedProgram) (since : Handle) (c : Config) : Item → Prop
  | .value e | .address e => ContainsAll program e
  | .made operand => operand.Usable since c.count

/-- A task that can be done: it is a part of the program, its operands may be named, and its labels
may be aimed at. -/
def Task.Placed (program : TypedProgram) (since : Handle) (c : Config) : Task → Prop
  | .item subject => subject.Placed program since c
  | .place e => ContainsAll program e
  | .branch e label _ => ContainsAll program e ∧ label ∈ c.targets
  | .sides _ left right label _ =>
      ContainsAll program left ∧ ContainsAll program right ∧ label ∈ c.targets
  | .stmt part => ContainsAllIn program part
  | .body parts => ∀ part ∈ parts, ContainsAllIn program part
  | .call _ receiver arguments _ =>
      (∀ item, receiver = some item → item.Placed program since c) ∧
        ∀ e ∈ arguments, ContainsAll program e
  | .expansion _ arguments => ∀ argument ∈ arguments, argument.Usable since c.count

/-- The moves of the generator lead to a state outside of the passing of arguments, and a task can
be done there. -/
def Arrives (program : TypedProgram) (since : Handle) (c : Config) (s : State) (task : Task) :
    Prop :=
  ∃ c', c'.state = s ∧ Moves program since c c' ∧ c'.words = 0 ∧ task.Placed program since c'

theorem Follows.arrives {α : Type} {action : Gen α} {P : α → Config → Prop} {a : α} {task : Task}
    (follows : Follows program since c action P) (valid : c.Valid since)
    (run : action c.state = .ok a s')
    (placed : ∀ c', P a c' → c'.words = 0 ∧ task.Placed program since c') :
    Arrives program since c s' task := by
  obtain ⟨c', same, moves, promise⟩ := follows.ok valid run
  exact ⟨c', same, moves, placed c' promise⟩

theorem Keeps.arrives {α : Type} {action : Gen α} {P : α → Config → Prop} {a : α} {task : Task}
    (keeps : Keeps program since c action P) (valid : c.Valid since) (idle : c.words = 0)
    (run : action c.state = .ok a s')
    (placed : ∀ c', Kept c c' → P a c' → task.Placed program since c') :
    Arrives program since c s' task :=
  Follows.arrives keeps valid run fun c' promise =>
    ⟨promise.1.words.trans idle, placed c' promise.1 promise.2⟩

/-- The moves to a state come before those behind it. -/
theorem Arrives.after {task : Task} (moves : Moves program since c c')
    (arrives : Arrives program since c' s task) : Arrives program since c s task := by
  obtain ⟨c'', same, moves', idle, placed⟩ := arrives
  exact ⟨c'', same, moves.trans moves', idle, placed⟩

/-- A task that begins where its caller does. -/
theorem Arrives.here {task : Task} (idle : c.words = 0) (placed : task.Placed program since c) :
    Arrives program since c c.state task :=
  ⟨c, rfl, .refl, idle, placed⟩

theorem tracked_at {e : Expr} (contained : ContainsAll program e) :
    (lower (envAt program options d) e).Tracked program since :=
  tracked_lower (expandable_envAt program options d) e contained

theorem performs_at {stmt : Stmt} (contained : ContainsAllIn program stmt) :
    Performs program since (statement (envAt program options d) stmt) :=
  performs_statement (expandable_envAt program options d) stmt contained

theorem performs_block_at {body : List Stmt}
    (contained : ∀ stmt ∈ body, ContainsAllIn program stmt) :
    Performs program since (block (envAt program options d) body) :=
  performs_statements (expandable_envAt program options d) body contained

section Operands

theorem produces_item {item : Item} (placed : item.Placed program since c)
    (later : c.count ≤ c'.count) (idle : c'.words = 0) :
    Keeps program since c' (item.action (envAt program options d)) (Yield since) := by
  cases item with
  | value e => exact (tracked_at placed).value c' idle
  | address e => exact produces_addressOf (tracked_at placed) c' idle
  | made operand => exact Keeps.pure (Operand.Usable.later placed later)

theorem Item.Placed.later {item : Item} (placed : item.Placed program since c)
    (later : c.count ≤ c'.count) : item.Placed program since c' := by
  cases item with
  | made operand => exact Operand.Usable.later placed later
  | _ => exact placed

theorem Turn.arrives {items : List Item} {item : Item}
    (turn : Turn (envAt program options d) items s item s') (same : c.state = s)
    (valid : c.Valid since) (idle : c.words = 0)
    (placed : ∀ item ∈ items, item.Placed program since c) :
    Arrives program since c s' (.item item) := by
  induction turn generalizing c with
  | now =>
      subst same
      exact .here idle (placed _ (List.mem_cons_self ..))
  | later ran _ inductionHypothesis =>
      subst same
      obtain ⟨c₁, same₁, moves₁, kept₁, _⟩ := Follows.ok
        (produces_item (placed _ (List.mem_cons_self ..)) (Nat.le_refl _) idle) valid ran
      obtain ⟨c₂, same₂, moves₂, idle₂, placed₂⟩ := inductionHypothesis same₁ (moves₁.valid valid)
        (kept₁.words.trans idle)
        fun other member => (placed other (by simp [member])).later kept₁.count
      exact ⟨c₂, same₂, moves₁.trans moves₂, idle₂, placed₂⟩

theorem Item.placed_of_mem {item : Item} {fn : Function} {receiver : Option Item}
    {arguments : List Expr} (placed : ∀ item, receiver = some item → item.Placed program since c)
    (contained : ∀ e ∈ arguments, ContainsAll program e)
    (member : item ∈ callItems fn receiver arguments) : item.Placed program since c := by
  rcases List.mem_append.mp member with member | member
  · split at member
    · obtain rfl := List.mem_singleton.mp member
      exact placed item rfl
    · simp at member
  · obtain ⟨⟨e, parameter⟩, among, rfl⟩ := List.mem_map.mp member
    have inside := contained e (List.of_mem_zip among).1
    dsimp only
    split
    · exact inside
    · exact inside

theorem keeps_operandsAt {callee : FnId} {receiver : Option Item} {arguments : List Expr}
    (placed : ∀ item, receiver = some item → item.Placed program since c)
    (contained : ∀ e ∈ arguments, ContainsAll program e) (later : c.count ≤ c'.count)
    (idle : c'.words = 0) :
    Keeps program since c' (operandsAt (envAt program options d) callee receiver arguments)
      (YieldAll since) := by
  refine keeps_operandsOf idle ?_ ?_
  · intro value given
    obtain ⟨item, known, rfl⟩ := Option.map_eq_some_iff.mp given
    exact produces_item (placed item known) later idle
  · exact tracked_lowerAll (expandable_envAt program options d) arguments contained

end Operands

theorem performs_statement? {stmt : Stmt} (contained : ContainsAllIn program stmt) (action : Gen Unit)
    (given : statement? (envAt program options d) stmt = some action) :
    Performs program since action := by
  unfold statement? at given
  split at given
  · contradiction
  · cases given
    exact performs_at contained

theorem tracked_lower? {e : Expr} (contained : ContainsAll program e) (lowered : Lowered)
    (given : lower? (envAt program options d) e = some lowered) :
    lowered.Tracked program since := by
  unfold lower? at given
  split at given
  · contradiction
  · cases given
    exact tracked_at contained

/-- The arguments of a call begin to be computed. -/
theorem moves_calling (c : Config) (callee : FnId) : Moves program since c (c.calling callee) := by
  refine .single (.enter rfl rfl ?_)
  intro operand member
  rw [List.mem_singleton.mp member]
  exact Operand.usable_absent

/-- The body of an expansion begins, outside of the loops around it. -/
theorem moves_inside {callee : FnId} {opening : Opening} (usable : opening.bound.Usable since c) :
    Moves program since c (c.turn { c.state with
      loops := []
      activations := opening.activation callee :: c.state.activations }) := by
  have outside : Move program since c (c.turn { c.state with loops := [] }) := .loops (by simp)
  refine .tail (.single outside) (.enter rfl rfl ?_)
  intro operand member
  rcases List.mem_cons.mp member with rfl | member
  · exact Operand.usable_absent
  · obtain ⟨entry, among, rfl⟩ := List.mem_map.mp member
    exact usable entry among

/-- The body of a loop begins. -/
theorem moves_entry {entry : Loop} (valid : c.Valid since) (exit : entry.exit ∈ c.targets)
    (next : entry.next ∈ c.targets) :
    Moves program since c (c.turn { c.state with loops := entry :: c.state.loops }) := by
  refine .single (.loops ?_)
  intro loop member
  rcases List.mem_cons.mp member with rfl | member
  · exact ⟨exit, next⟩
  · exact valid.loops loop member

section Steps

variable {task' : Task} (valid : c.Valid since) (idle : c.words = 0)
include valid idle

/-- What the value of an expression calls. -/
theorem Calls.arrives_value {e : Expr} (contained : ContainsAll program e)
    (calls : Calls program options d (.item (.value e)) c.state d' task' s') :
    Arrives program since c s' task' := by
  cases calls with
  | field => exact .here idle (ContainsAll.part contained (by simp [Expr.parts]))
  | left => exact .here idle (ContainsAll.part contained (by simp [Expr.parts]))
  | unary => exact .here idle (ContainsAll.part contained (by simp [Expr.parts]))
  | decided => exact .here idle (ContainsAll.part contained (by simp [Expr.parts]))
  | @right _ _ left _ _ _ _ _ ran =>
      have ofLeft : ContainsAll program left := contained.part (by simp [Expr.parts])
      exact ((tracked_at ofLeft).value c idle).arrives valid idle ran
        fun _ _ _ => ContainsAll.part contained (by simp [Expr.parts])
  | logical _ started =>
      refine follows_logicalStart.arrives valid started fun c' promise => ?_
      refine ⟨promise.1.words.trans idle, ?_, ?_, ?_⟩
      · exact ContainsAll.part contained (by simp [Expr.parts])
      · exact ContainsAll.part contained (by simp [Expr.parts])
      · exact promise.1.targets (Config.targets_owing (c.mem_owing _))
  | overloaded =>
      refine .here idle ⟨nofun, ?_⟩
      intro e member
      exact ContainsAll.part contained member
  | method =>
      refine .here idle ⟨?_, fun e member =>
        ContainsAll.part contained (by simp [Expr.parts, member])⟩
      intro item given
      split at given
      · contradiction
      · cases given
        exact ContainsAll.part contained (by simp [Expr.parts])
  | construct _ allocated locked =>
      obtain ⟨c₁, rfl, moves₁, kept₁, fresh⟩ :=
        Follows.ok (keeps_allocateObject _) valid allocated
      refine .after moves₁ ?_
      refine (keeps_lock _).arrives (moves₁.valid valid) (kept₁.words.trans idle) locked
        fun c₂ kept₂ _ => ⟨?_, fun e member =>
          ContainsAll.part contained (by simp [Expr.parts, member])⟩
      rintro item ⟨⟩
      exact kept₂.usable fresh

/-- What two sides of a logical operator call, where their label may be aimed at. -/
theorem Calls.arrives_sides {op : LogicalOp} {left right : Expr} {label : String} {wanted : Bool}
    (ofLeft : ContainsAll program left) (ofRight : ContainsAll program right)
    (aimed : label ∈ c.targets)
    (calls : Calls program options d (.sides op left right label wanted) c.state d' task' s') :
    Arrives program since c s' task' := by
  cases calls with
  | sidesValue => exact .here idle ofLeft
  | sidesLeft => exact .here idle ⟨ofLeft, aimed⟩
  | sidesOnlyRight => exact .here idle ⟨ofRight, aimed⟩
  | sidesRight ran =>
      exact ((tracked_at ofLeft).branch c _ _ idle aimed).arrives valid idle ran
        fun _ kept _ => ⟨ofRight, kept.targets aimed⟩
  | sidesSkip labelled =>
      refine follows_newLabel.arrives valid labelled fun c' kept => ?_
      exact ⟨kept.words.trans idle, ofLeft, kept.targets (c.mem_owing _)⟩
  | sidesUnskipped labelled ran =>
      obtain ⟨c₁, rfl, moves₁, kept₁⟩ := follows_newLabel.ok valid labelled
      have idle₁ := kept₁.words.trans idle
      have skip := kept₁.targets (c.mem_owing _)
      refine .after moves₁ (((tracked_at ofLeft).branch c₁ _ _ idle₁ skip).arrives
        (moves₁.valid valid) idle₁ ran fun _ kept₂ _ => ⟨ofRight, ?_⟩)
      exact kept₂.targets (kept₁.targets (Config.targets_owing aimed))

omit idle in
/-- An operand of a call that has its turn behind some moves. -/
theorem Turn.arrives_operand {callee : FnId} {receiver : Option Item} {arguments : List Expr}
    {item : Item} {c₁ : Config} (moves : Moves program since c c₁) (later : c.count ≤ c₁.count)
    (idle : c₁.words = 0)
    (placed : ∀ item, receiver = some item → item.Placed program since c)
    (contained : ∀ e ∈ arguments, ContainsAll program e)
    (turn : Turn (envAt program options d)
      (callItems (program.function callee) receiver arguments) c₁.state item s') :
    Arrives program since c s' (.item item) := by
  refine .after moves (turn.arrives rfl (moves.valid valid) idle fun item member => ?_)
  exact Item.placed_of_mem (fun item given => (placed item given).later later) contained member

/-- What a call calls: its operands, and its expansion. -/
theorem Calls.arrives_call {callee : FnId} {receiver : Option Item} {arguments : List Expr}
    {isVirtual : Bool} (placed : ∀ item, receiver = some item → item.Placed program since c)
    (contained : ∀ e ∈ arguments, ContainsAll program e)
    (calls : Calls program options d (.call callee receiver arguments isVirtual) c.state d' task'
      s') :
    Arrives program since c s' task' := by
  cases calls with
  | expandOperand decided turn =>
      obtain ⟨c₁, rfl, moves₁, kept₁, _⟩ := Follows.ok keeps_shouldExpand valid decided
      exact turn.arrives_operand valid moves₁ kept₁.count (kept₁.words.trans idle) placed contained
  | expand decided evaluated =>
      obtain ⟨c₁, rfl, moves₁, kept₁, _⟩ := Follows.ok keeps_shouldExpand valid decided
      have idle₁ := kept₁.words.trans idle
      exact .after moves₁ ((keeps_operandsAt placed contained kept₁.count idle₁).arrives
        (moves₁.valid valid) idle₁ evaluated fun _ _ usable => usable)
  | emitOperand decided turn =>
      obtain ⟨c₁, rfl, moves₁, kept₁, _⟩ := Follows.ok keeps_shouldExpand valid decided
      have moves := moves₁.trans (moves_calling c₁ callee)
      exact turn.arrives_operand valid moves kept₁.count (kept₁.words.trans idle) placed contained
  | virtualOperand turn =>
      exact turn.arrives_operand valid (moves_calling c callee) (Nat.le_refl _) idle placed
        contained

/-- What a choice calls. -/
theorem Calls.arrives_ite {cond : Expr} {thenBody : List Stmt} {elseBody : Stmt}
    (contained : ContainsAllIn program (.ite cond thenBody elseBody))
    (calls : Calls program options d (.stmt (.ite cond thenBody elseBody)) c.state d' task' s') :
    Arrives program since c s' task' := by
  have ofCond : ContainsAll program cond := contained.expr (by simp [Stmt.exprs])
  have ofThen : ∀ stmt ∈ thenBody, ContainsAllIn program stmt := fun stmt member =>
    contained.part (by simp [Stmt.parts, member])
  have ofElse : ContainsAllIn program elseBody := contained.part (by simp [Stmt.parts])
  cases calls with
  | thenKnown => exact .here idle ofThen
  | elseKnown => exact .here idle ofElse
  | chooseCond _ labelled =>
      exact follows_newLabel.arrives valid labelled fun c' kept =>
        ⟨kept.words.trans idle, ofCond, kept.targets (c.mem_owing _)⟩
  | thenBody _ ran =>
      exact (follows_beforeThen (tracked_at ofCond) idle).arrives valid ran fun c' kept =>
        ⟨kept.words.trans idle, ofThen⟩
  | elseBody _ ran =>
      exact (follows_beforeElse (tracked_at ofCond) (performs_block_at ofThen) idle).arrives valid
        ran fun c' resumed => ⟨resumed.words.trans idle, ofElse⟩

omit idle in
/-- The body of a loop begins behind some moves that its labels may be aimed at. -/
theorem Arrives.round {entry : Loop} {body : List Stmt} (moves : Moves program since c c')
    (idle' : c'.words = 0) (exit : entry.exit ∈ c'.targets) (next : entry.next ∈ c'.targets)
    (contained : ∀ stmt ∈ body, ContainsAllIn program stmt) :
    Arrives program since c { c'.state with loops := entry :: c'.state.loops } (.body body) :=
  ⟨_, rfl, moves.trans (moves_entry (moves.valid valid) exit next), idle', contained⟩

/-- What a loop with a condition calls. -/
theorem Calls.arrives_while {cond : Expr} {body : List Stmt}
    (contained : ContainsAllIn program (.while cond body))
    (calls : Calls program options d (.stmt (.while cond body)) c.state d' task' s') :
    Arrives program since c s' task' := by
  have ofCond : ContainsAll program cond := contained.expr (by simp [Stmt.exprs])
  have ofBody : ∀ stmt ∈ body, ContainsAllIn program stmt := fun stmt member =>
    contained.part (by simp [Stmt.parts, member])
  cases calls with
  | whileCond ran =>
      exact follows_beforeWhile.arrives valid ran fun c' promise =>
        ⟨promise.1.words.trans idle, ofCond, promise.1.targets (c.mem_owing _)⟩
  | whileBody ran =>
      obtain ⟨c₁, rfl, moves₁, kept₁, defined⟩ :=
        (follows_beforeRound (tracked_at ofCond) idle).ok valid ran
      exact .round valid moves₁ (kept₁.words.trans idle) (kept₁.targets (c.mem_owing _))
        (Multiset.mem_add.mpr (.inr defined)) ofBody

/-- What a loop with a header calls. -/
theorem Calls.arrives_for {start post : Stmt} {cond : Expr} {body : List Stmt}
    (contained : ContainsAllIn program (.for start cond post body))
    (calls : Calls program options d (.stmt (.for start cond post body)) c.state d' task' s') :
    Arrives program since c s' task' := by
  have ofCond : ContainsAll program cond := contained.expr (by simp [Stmt.exprs])
  have ofStart : ContainsAllIn program start := contained.part (by simp [Stmt.parts])
  have ofPost : ContainsAllIn program post := contained.part (by simp [Stmt.parts])
  have ofBody : ∀ stmt ∈ body, ContainsAllIn program stmt := fun stmt member =>
    contained.part (by simp [Stmt.parts, member])
  cases calls with
  | forStart => exact .here idle ofStart
  | forCond ran =>
      exact (follows_beforeFor (performs_statement? ofStart) idle).arrives valid ran
        fun c' promise =>
          ⟨promise.1.words.trans idle, ofCond, promise.1.targets (Config.mem_owing _ _)⟩
  | forBody ran =>
      obtain ⟨c₁, rfl, moves₁, owed, _⟩ := (follows_beforeForRound (performs_statement? ofStart)
        (tracked_lower? ofCond) idle).ok valid ran
      exact .round valid moves₁ (owed.words.trans idle) (owed.targets (Config.mem_owing _ _))
        (owed.targets (Config.targets_owing (c.mem_owing _))) ofBody
  | forPost ran =>
      exact (follows_beforePost (performs_statement? ofStart) (tracked_lower? ofCond)
        (performs_block_at ofBody) idle).arrives valid ran
        fun c' promise => ⟨promise.1.words.trans idle, ofPost⟩

end Steps

/-- A task calls only what can be done, and moves lead there. -/
theorem Calls.arrives {task task' : Task} (calls : Calls program options d task s d' task' s')
    (same : c.state = s) (valid : c.Valid since) (idle : c.words = 0)
    (placed : task.Placed program since c) : Arrives program since c s' task' := by
  subst same
  cases task with
  | item subject =>
      cases subject with
      | value e => exact calls.arrives_value valid idle placed
      | address e =>
          cases calls with
          | address => exact .here idle placed
      | made operand => contradiction
  | place e =>
      cases calls with
      | placeField => exact .here idle (ContainsAll.part placed (by simp [Expr.parts]))
  | branch e label wanted =>
      cases calls with
      | branchValue => exact .here idle placed.1
      | branchNot => exact .here idle ⟨placed.1.part (by simp [Expr.parts]), placed.2⟩
      | branchSides =>
          exact .here idle ⟨placed.1.part (by simp [Expr.parts]),
            placed.1.part (by simp [Expr.parts]), placed.2⟩
  | sides op left right label wanted =>
      exact calls.arrives_sides valid idle placed.1 placed.2.1 placed.2.2
  | call callee receiver arguments isVirtual =>
      exact calls.arrives_call valid idle placed.1 placed.2
  | expansion callee arguments =>
      cases calls with
      | inside ran =>
          obtain ⟨c₁, rfl, moves₁, kept₁, bound⟩ :=
            Follows.ok (keeps_openExpansion placed) valid ran
          refine ⟨_, rfl, moves₁.trans (moves_inside bound), kept₁.words.trans idle, ?_⟩
          exact fun stmt member block inside => contains_body member inside
  | body parts =>
      cases calls with
      | first => exact .here idle (placed _ (List.mem_cons_self ..))
      | rest ran ended =>
          obtain ⟨c₁, rfl, moves₁, resumed₁⟩ :=
            (performs_at (placed _ (List.mem_cons_self ..)) c idle).ok valid ran
          refine .after moves₁ ?_
          exact keeps_endStatement.arrives (moves₁.valid valid) (resumed₁.words.trans idle) ended
            fun _ _ _ part member => placed part (List.mem_cons_of_mem _ member)
  | stmt part =>
      cases part with
      | ite cond thenBody elseBody => exact calls.arrives_ite valid idle placed
      | «while» cond body => exact calls.arrives_while valid idle placed
      | «for» start cond post body => exact calls.arrives_for valid idle placed
      | block body =>
          cases calls with
          | block =>
              exact .here idle fun stmt member => placed.part (by simp [Stmt.parts, member])
      | expr value =>
          cases calls with
          | expr => exact .here idle (placed.expr (by simp [Stmt.exprs]))
      | assign target value =>
          have ofValue : ContainsAll program value := placed.expr (by simp [Stmt.exprs])
          have ofTarget : ContainsAll program target := placed.expr (by simp [Stmt.exprs])
          cases calls with
          | assigned => exact .here idle ofValue
          | target ran =>
              exact ((tracked_at ofValue).value c idle).arrives valid idle ran
                fun _ _ _ => ofTarget
      | ret value =>
          cases calls with
          | ret => exact .here idle (placed.expr (by simp [Stmt.exprs]))
      | absent => contradiction
      | «break» => contradiction
      | «continue» => contradiction

/-- The body of a function begins with nothing owed. -/
theorem Begins.arrives {id : FnId} {body : List Stmt} (begins : Begins program options id body s) :
    ∃ s₀, (Config.begun s₀ id (program.function id)).Valid s₀.draft.timeline.count ∧
      Arrives program s₀.draft.timeline.count (.begun s₀ id (program.function id)) s (.body body) := by
  obtain ⟨_, found, run⟩ := begins
  obtain ⟨_, _, _, run⟩ := Success.bind_ok.mp run
  obtain ⟨_, _, _, run⟩ := Success.bind_ok.mp run
  obtain ⟨_, s₀, _, run⟩ := Success.bind_ok.mp run
  obtain ⟨_, s₁, begun, spilled⟩ := Success.bind_ok.mp run
  rw [beginProcedure_eq] at begun
  cases begun
  have valid := Config.valid_begun s₀ id (program.function id)
  refine ⟨s₀, valid, (keeps_spillArguments _).arrives valid rfl spilled fun _ _ _ => ?_⟩
  exact fun stmt member block inside => ⟨id, body, found, .part member inside⟩

/-- Whatever the generation of a program leads to is reached by moves from the start of a body. -/
theorem Visits.arrives {task : Task} (visits : Visits program options d task s) :
    ∃ id s₀, (Config.begun s₀ id (program.function id)).Valid s₀.draft.timeline.count ∧
      Arrives program s₀.draft.timeline.count (.begun s₀ id (program.function id)) s task := by
  induction visits with
  | start begins => exact ⟨_, begins.arrives⟩
  | call _ calls inductionHypothesis =>
      obtain ⟨id, s₀, valid, c, same, moves, idle, placed⟩ := inductionHypothesis
      exact ⟨id, s₀, valid, .after moves (calls.arrives same (moves.valid valid) idle placed)⟩

section Sites

/-- A call that the generation of a program emits, with its operands, in the state where they have
been computed. -/
inductive Emits (program : TypedProgram) (options : Options) :
    FnId → List Operand → Bool → State → Prop where
  | direct {d callee receiver arguments operands s s₁ s'} :
      Visits program options d (.call callee receiver arguments false) s →
      shouldExpand (envAt program options d) callee s = .ok false s₁ →
      operandsAt (envAt program options d) callee receiver arguments (s₁.calling callee) =
        .ok operands s' →
      Emits program options callee operands false s'
  | virtual {d callee receiver arguments operands s s'} :
      Visits program options d (.call callee receiver arguments true) s →
      operandsAt (envAt program options d) callee receiver arguments (s.calling callee) =
        .ok operands s' →
      Emits program options callee operands true s'

/-- The stack holds an even number of words, those that the epilogue of the procedure reclaims.
Their number of bytes fits a machine word where there are fewer instructions than that. -/
structure Level (s : State) (frame : Frame) : Prop where
  found : s.frame = some frame
  even : s.depth.words % 2 = 0
  bytes : s.depth.bytes = frame.leaked
  words : s.draft.text.clock < 2 ^ 60 → s.depth.words = frame.leaked / 8

theorem Balanced.level {left : Nat} {frame : Frame} (balanced : Balanced c left frame)
    (idle : c.words = 0) : Level c.state frame := by
  have depth : c.state.depth.words = .ofNat left := by
    rw [balanced.depth, idle, Nat.add_zero]
  have written : left ≤ c.state.draft.text.clock := by
    rw [← Nat.add_zero left, ← idle]
    exact balanced.written
  refine ⟨balanced.found, ?_, balanced.bytes idle, fun few => ?_⟩
  · rw [depth]
    exact StackDepth.even_mod balanced.even
  · rw [depth, balanced.leaked, StackDepth.bytes_div (Nat.lt_of_le_of_lt written few)]

theorem Emits.arrives {callee : FnId} {operands : List Operand} {isVirtual : Bool}
    (emits : Emits program options callee operands isVirtual s) :
    ∃ id s₀ c, (Config.begun s₀ id (program.function id)).Valid s₀.draft.timeline.count ∧
      c.state = s ∧
      Moves program s₀.draft.timeline.count (.begun s₀ id (program.function id)) c ∧
      c.words = 0 ∧ ∀ operand ∈ operands, operand.Usable s₀.draft.timeline.count c.count := by
  have computed : ∀ {d id s₀ c₁ receiver arguments},
      (Config.begun s₀ id (program.function id)).Valid s₀.draft.timeline.count →
      Moves program s₀.draft.timeline.count (.begun s₀ id (program.function id)) c₁ →
      c₁.words = 0 →
      (Task.call callee receiver arguments isVirtual).Placed program s₀.draft.timeline.count c₁ →
      operandsAt (envAt program options d) callee receiver arguments (c₁.state.calling callee) =
        .ok operands s →
      ∃ c, c.state = s ∧
        Moves program s₀.draft.timeline.count (.begun s₀ id (program.function id)) c ∧
        c.words = 0 ∧ ∀ operand ∈ operands, operand.Usable s₀.draft.timeline.count c.count := by
    intro d id s₀ c₁ receiver arguments valid moves idle placed ran
    have moves₁ : Moves program s₀.draft.timeline.count _ _ := moves.trans (moves_calling c₁ callee)
    have later : c₁.count ≤ (c₁.calling callee).count := Nat.le_refl _
    obtain ⟨c₂, same, moves₂, kept₂, usable⟩ := Follows.ok
      (keeps_operandsAt placed.1 placed.2 later idle) (moves₁.valid valid) ran
    exact ⟨c₂, same, moves₁.trans moves₂, kept₂.words.trans idle, usable⟩
  cases emits with
  | virtual visits ran =>
      obtain ⟨id, s₀, valid, c₁, rfl, moves, idle, placed⟩ := visits.arrives
      obtain ⟨c, site⟩ := computed valid moves idle placed ran
      exact ⟨id, s₀, c, valid, site⟩
  | direct visits decided ran =>
      obtain ⟨id, s₀, valid, c₁, rfl, moves, idle, placed⟩ := visits.arrives
      obtain ⟨c₂, rfl, moves₂, kept₂, _⟩ := Follows.ok keeps_shouldExpand (moves.valid valid) decided
      have placed₂ : (Task.call callee _ _ false).Placed program s₀.draft.timeline.count c₂ :=
        ⟨fun item given => (placed.1 item given).later kept₂.count, placed.2⟩
      obtain ⟨c, site⟩ := computed valid (moves.trans moves₂) (kept₂.words.trans idle) placed₂ ran
      exact ⟨id, s₀, c, valid, site⟩

/-- The bookkeeping of the stack never fails.  Where a call is emitted the stack is level, and it is
level again where the call is done. -/
theorem wholeProgram_balanced (addressable : program.Addressable) (options : Options) :
    (∀ fault s, wholeProgram (.of program options) .initial = .error fault s →
      fault.isStack = false) ∧
    ∀ callee operands isVirtual s, Emits program options callee operands isVirtual s →
      (∃ frame, Level s frame) ∧
      ∀ result s', emitCall (program.function callee) operands isVirtual s = .ok result s' →
        ∃ frame, Level s' frame := by
  refine ⟨calm_wholeProgram addressable options .initial, ?_⟩
  intro callee operands isVirtual s emits
  obtain ⟨id, s₀, c, valid, rfl, moves, idle, usable⟩ := emits.arrives
  obtain ⟨_, begun⟩ := balanced_begun s₀ id (program.function id)
  obtain ⟨left, frame, balanced⟩ := moves.balanced addressable begun
  refine ⟨⟨frame, balanced.level idle⟩, ?_⟩
  intro result s' ran
  obtain ⟨c', rfl, moves', kept, _⟩ := Follows.ok (keeps_emitCall idle usable) (moves.valid valid) ran
  obtain ⟨left', frame', balanced'⟩ := moves'.balanced addressable balanced
  exact ⟨frame', balanced'.level (kept.words.trans idle)⟩

/-- A program with a call that takes seven arguments, the last of which is such a call. -/
def sevenArguments : TypedProgram :=
  let parameter (name : String) : Variable := ⟨name, .int, false, true, 0⟩
  let one : Expr := .lit (.ofInt 1) .int
  let call (last : Expr) : Expr := .call 1 .absent [one, one, one, one, one, one, last] false
  let mods : Mods := { Mods.none with isStatic := true }
  .ofParts "Main" #[]
    #[{ (default : Function) with
        name := "Main"
        returnType := .int
        mods
        body := some [.ret (call (call one))] },
      { (default : Function) with
        name := "last"
        returnType := .int
        mods
        params := ["a", "b", "c", "d", "e", "f", "g"].map parameter
        body := some [.ret (.var ⟨1, 6⟩)] }]

theorem addressable_sevenArguments : sevenArguments.Addressable := by
  intro id
  match id with
  | 0 => decide +kernel
  | 1 => decide +kernel
  | later + 2 =>
      have two : sevenArguments.functions.size = 2 := by decide +kernel
      have outside : sevenArguments.functions.size ≤ later + 2 := by omega
      rw [TypedProgram.function, Array.getD_eq_getD_getElem?, Array.getElem?_eq_none outside]
      decide +kernel

theorem sevenArguments_balanced : sevenArguments.Addressable ∧
    ∃ operands s result s', Emits sevenArguments .default 1 operands false s ∧
      emitCall (sevenArguments.function 1) operands false s = .ok result s' ∧
      (∃ frame, Level s frame) ∧ ∃ frame, Level s' frame := by
  have addressable := addressable_sevenArguments
  let one : Expr := .lit (.ofInt 1) .int
  let inner : Expr := .call 1 .absent [one, one, one, one, one, one, one] false
  let arguments : List Expr := [one, one, one, one, one, one, inner]
  let computation : Gen Operand := do
    upToBody sevenArguments .default 0
    let operands ← fun s =>
      operandsAt (envAt sevenArguments .default 16) 1 none arguments (s.calling 1)
    emitCall (sevenArguments.function 1) operands false
  have succeeds : Success.succeeds (computation .initial) = true := by decide +kernel
  obtain ⟨result, s', ran⟩ := Success.exists_of_succeeds succeeds
  obtain ⟨_, s₀, began, ran⟩ := Success.bind_ok.mp ran
  obtain ⟨operands, s, computed, called⟩ := Success.bind_ok.mp ran
  have begins : Begins sevenArguments .default 0 [.ret (.call 1 .absent arguments false)] s₀ :=
    ⟨by decide +kernel, by with_unfolding_all rfl, began⟩
  have visits : Visits sevenArguments .default 16 (.call 1 none arguments false) s₀ :=
    .call (.call (.call (.start begins) .first) .ret) .method
  have emits : Emits sevenArguments .default 1 operands false s :=
    .direct visits (by with_unfolding_all rfl) computed
  obtain ⟨before, after⟩ :=
    (wholeProgram_balanced addressable .default).2 1 operands false s emits
  exact ⟨addressable, operands, s, result, s', emits, called, before, after result s' called⟩

end Sites

end X64Backend.Lower
