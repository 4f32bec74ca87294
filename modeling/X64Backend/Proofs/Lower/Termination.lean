import Mathlib.Order.RelClasses
import X64Backend.Proofs.Lower.Nesting
import X64Backend.Proofs.Lower.Visits

/-!
Generation comes to an end.  A task only calls for smaller ones, except that the body of a function
may be expanded; but then one more of at most so many different functions is being expanded.
-/

namespace X64Backend.Lower

open X64Backend.Tree

variable {program : TypedProgram} {options : Options} {d d' : Nat} {s s' : State}
  {task task' : Task}

/-- The size of what an operand is computed from. -/
noncomputable def Item.size : Item → Nat
  | .value e => 4 * sizeOf e + 1
  | .address e => 4 * sizeOf e + 3
  | .made _ => 0

/-- The size of the code that a task is about, which does not include the bodies of the functions
that are called there. -/
noncomputable def Task.size : Task → Nat
  | .item subject => subject.size
  | .place e | .branch e _ _ => 4 * sizeOf e + 2
  | .sides _ left right _ _ => 4 * (sizeOf left + sizeOf right) + 3
  | .stmt part => 4 * sizeOf part
  | .body parts => 4 * sizeOf parts
  | .call _ receiver arguments _ => (receiver.map Item.size).getD 0 + 4 * sizeOf arguments
  | .expansion _ _ => 0

section Sizes

theorem sizeOf_pos (es : List Expr) : 0 < sizeOf es := by
  cases es with
  | nil => simp
  | cons e rest => simp only [List.cons.sizeOf_spec]; omega

theorem size_lt_of_mem_callItems {item : Item} {fn : Function} {callee : FnId}
    {receiver : Option Item} {arguments : List Expr} {isVirtual : Bool}
    (member : item ∈ callItems fn receiver arguments) :
    item.size < (Task.call callee receiver arguments isVirtual).size := by
  rcases List.mem_append.mp member with member | member
  · have some := sizeOf_pos arguments
    split at member
    · obtain rfl := List.mem_singleton.mp member
      simp only [Task.size, Option.map_some, Option.getD_some]
      omega
    · contradiction
  · obtain ⟨⟨e, parameter⟩, among, rfl⟩ := List.mem_map.mp member
    have part : sizeOf e < sizeOf arguments := List.sizeOf_lt_of_mem (List.of_mem_zip among).1
    dsimp only [Task.size]
    split
    · simp only [Item.size]
      omega
    · simp only [Item.size]
      omega

theorem Turn.mem {env : Env} {items : List Item} {item : Item} (turn : Turn env items s item s') :
    item ∈ items := by
  induction turn with
  | now => exact List.mem_cons_self ..
  | later _ _ inductionHypothesis => exact List.mem_cons_of_mem _ inductionHypothesis

end Sizes

/-- As long as no body is expanded, a task calls for smaller ones. -/
theorem Calls.size_lt (calls : Calls program options d task s d task' s') :
    task'.size < task.size := by
  cases calls with
  | expandOperand _ turn => exact size_lt_of_mem_callItems turn.mem
  | emitOperand _ turn => exact size_lt_of_mem_callItems turn.mem
  | virtualOperand turn => exact size_lt_of_mem_callItems turn.mem
  | @method _ callee receiver arguments isVirtual _ =>
      have self : ((if receiver.isAbsent then none else some (Item.value receiver)).map
          Item.size).getD 0 ≤ 4 * sizeOf receiver + 1 := by
        split
        · exact Nat.zero_le _
        · exact Nat.le_refl _
      simp only [Task.size, Item.size, Expr.call.sizeOf_spec] at self ⊢
      omega
  | @construct _ _ arguments _ _ _ _ _ _ =>
      simp only [Task.size, Item.size, Expr.new.sizeOf_spec, Option.map_some, Option.getD_some]
      omega
  | @expand _ _ _ arguments _ _ _ _ _ _ =>
      have some := sizeOf_pos arguments
      simp only [Task.size]
      omega
  | @overloaded _ op left right type callee _ =>
      have ofOp : 0 < sizeOf op := by cases op <;> simp +arith
      have ofType : 0 < sizeOf type := by cases type; simp +arith
      simp only [Task.size, Item.size, Expr.overloaded.sizeOf_spec, Option.map_none,
        Option.getD_none, List.cons.sizeOf_spec, List.nil.sizeOf_spec]
      omega
  | _ =>
      simp only [Task.size, Item.size, Expr.field.sizeOf_spec, Expr.binary.sizeOf_spec,
        Expr.unary.sizeOf_spec, Expr.logical.sizeOf_spec, List.cons.sizeOf_spec,
        Stmt.block.sizeOf_spec, Stmt.expr.sizeOf_spec, Stmt.assign.sizeOf_spec,
        Stmt.ret.sizeOf_spec, Stmt.ite.sizeOf_spec, Stmt.while.sizeOf_spec, Stmt.for.sizeOf_spec]
      omega

section Parts

variable {cond : Lowered}

/-- What is generated for an expression leaves the calls in progress alone. -/
theorem alike_at (e : Expr) :
    (lower (envAt program options d) e).Alike options d (lower (envAt program options d) e) :=
  alike_lower (expandAt_alike (Nat.le_refl d)) e

theorem agrees_at (stmt : Stmt) :
    Agrees options d (statement (envAt program options d) stmt)
      (statement (envAt program options d) stmt) :=
  agrees_statement (expandAt_alike (Nat.le_refl d)) stmt

theorem agrees_body (body : List Stmt) :
    Agrees options d (block (envAt program options d) body)
      (block (envAt program options d) body) :=
  agrees_statements (expandAt_alike (Nat.le_refl d)) body

theorem rel_statement? (stmt : Stmt) :
    Option.Rel (Agrees options d) (statement? (envAt program options d) stmt)
      (statement? (envAt program options d) stmt) := by
  unfold statement?
  split
  · exact .none
  · exact .some (agrees_at stmt)

theorem rel_lower? (e : Expr) :
    Option.Rel (Lowered.Alike options d) (lower? (envAt program options d) e)
      (lower? (envAt program options d) e) := by
  unfold lower?
  split
  · exact .none
  · exact .some (alike_at e)

theorem agrees_item (item : Item) :
    Agrees options d (item.action (envAt program options d))
      (item.action (envAt program options d)) := by
  cases item with
  | value e => exact (alike_at e).value
  | address e => exact agrees_addressOf (alike_at e).place
  | made operand => exact .pure operand

theorem agrees_operandsAt (callee : FnId) (receiver : Option Item) (arguments : List Expr) :
    Agrees options d (operandsAt (envAt program options d) callee receiver arguments)
      (operandsAt (envAt program options d) callee receiver arguments) := by
  refine agrees_operandsOf ?_ (alike_lowerAll (expandAt_alike (Nat.le_refl d)) arguments)
  cases receiver with
  | none => exact .none
  | some item => exact .some (agrees_item item)

theorem agrees_beforeThen (alike : cond.Alike options d cond) :
    Agrees options d (beforeThen cond) (beforeThen cond) :=
  .after local_newLabel fun _ => (alike.branch _ _).bind fun _ =>
    .of_local (local_endStatement.bind fun _ => .pure _)

theorem agrees_beforeElse (alike : cond.Alike options d cond) {body : Gen Unit}
    (agrees : Agrees options d body body) :
    Agrees options d (beforeElse cond body) (beforeElse cond body) := by
  refine (agrees_beforeThen alike).bind fun otherwise => agrees.bind fun _ =>
    .after local_newLabel fun done => .after local_lastInstr fun last => .of_local ?_
  have ended : Local (do defineLabel otherwise; return done) :=
    (local_defineLabel _).bind fun _ => .pure _
  dsimp only
  split
  · exact (local_jumpTo _).bind fun _ => ended
  · exact ended

theorem local_beforeWhile : Local beforeWhile :=
  local_newLabel.bind fun _ => local_newLabel.bind fun _ => (local_defineLabel _).bind fun _ =>
    .pure _

theorem agrees_beforeRound (alike : cond.Alike options d cond) :
    Agrees options d (beforeRound cond) (beforeRound cond) :=
  .after local_beforeWhile fun _ => (alike.branch _ _).bind fun _ =>
    .of_local (local_endStatement.bind fun _ => .pure _)

variable {start : Option (Gen Unit)} {given : Option Lowered}

theorem agrees_beforeFor (ofStart : Option.Rel (Agrees options d) start start) :
    Agrees options d (beforeFor start) (beforeFor start) :=
  (agrees_headerPart ofStart).bind fun _ => .of_local
    (local_newLabel.bind fun _ => local_newLabel.bind fun _ => local_newLabel.bind fun _ =>
      (local_defineLabel _).bind fun _ => .pure _)

theorem agrees_beforeForRound (ofStart : Option.Rel (Agrees options d) start start)
    (ofGiven : Option.Rel (Lowered.Alike options d) given given) :
    Agrees options d (beforeForRound start given) (beforeForRound start given) := by
  refine (agrees_beforeFor ofStart).bind fun (top, entry) => ?_
  refine (agrees_headerPart ?_).bind fun _ => .pure _
  cases ofGiven with
  | none => exact .none
  | some alike => exact .some (alike.branch _ _)

theorem agrees_beforePost (ofStart : Option.Rel (Agrees options d) start start)
    (ofGiven : Option.Rel (Lowered.Alike options d) given given) {body : Gen Unit}
    (agrees : Agrees options d body body) :
    Agrees options d (beforePost start given body) (beforePost start given body) :=
  (agrees_beforeForRound ofStart ofGiven).bind fun (_, entry) =>
    (agrees_inLoop agrees entry).bind fun _ =>
      .of_local ((local_defineLabel _).bind fun _ => .pure _)

end Parts

section Steps

theorem Agrees.expanding {α : Type} {action action' : Gen α} {a : α}
    (agrees : Agrees options d action action') (room : s.Room options d)
    (ran : action s = .ok a s') : s'.expanding = s.expanding :=
  State.expanding_congr ((agrees s room).ok ran).calls

theorem Leaves.expanding {α : Type} {action : Gen α} {a : α} (ofAction : Local action)
    (ran : action s = .ok a s') : s'.expanding = s.expanding :=
  State.expanding_congr (congrArg Prod.fst (ofAction.ok ran))

theorem Turn.expanding {items : List Item} {item : Item}
    (turn : Turn (envAt program options d) items s item s') (room : s.Room options d) :
    s'.expanding = s.expanding := by
  induction turn with
  | now => rfl
  | later ran _ inductionHypothesis =>
      have kept := (agrees_item _).expanding room ran
      exact (inductionHypothesis (room.of_expanding kept)).trans kept

/-- As long as no body is expanded, the same functions are being expanded. -/
theorem Calls.expanding (calls : Calls program options d task s d task' s')
    (room : s.Room options d) : s'.expanding = s.expanding := by
  cases calls with
  | right ran => exact (alike_at _).value.expanding room ran
  | logical _ started => exact local_logicalStart.expanding started
  | sidesRight ran => exact ((alike_at _).branch _ _).expanding room ran
  | sidesSkip labelled => exact local_newLabel.expanding labelled
  | sidesUnskipped labelled ran =>
      have first := local_newLabel.expanding labelled
      exact (((alike_at _).branch _ _).expanding (room.of_expanding first) ran).trans first
  | construct _ allocated locked =>
      exact ((local_lock _).expanding locked).trans ((local_allocateObject _).expanding allocated)
  | expandOperand decided turn =>
      have first := (local_shouldExpand _ _).expanding decided
      exact (turn.expanding (room.of_expanding first)).trans first
  | expand decided computed =>
      have first := (local_shouldExpand _ _).expanding decided
      exact ((agrees_operandsAt _ _ _).expanding (room.of_expanding first) computed).trans first
  | emitOperand decided turn =>
      have first := (local_shouldExpand _ _).expanding decided
      exact (turn.expanding ((room.of_expanding first).calling _)).trans first
  | virtualOperand turn => exact turn.expanding (room.calling _)
  | rest ran ended =>
      have first := (agrees_at _).expanding room ran
      exact (local_endStatement.expanding ended).trans first
  | target ran => exact (alike_at _).value.expanding room ran
  | chooseCond _ labelled => exact local_newLabel.expanding labelled
  | thenBody _ ran => exact (agrees_beforeThen (alike_at _)).expanding room ran
  | elseBody _ ran =>
      exact (agrees_beforeElse (alike_at _) (agrees_body _)).expanding room ran
  | whileCond ran => exact local_beforeWhile.expanding ran
  | whileBody ran =>
      have kept := (agrees_beforeRound (alike_at _)).expanding room ran
      exact kept
  | forCond ran => exact (agrees_beforeFor (rel_statement? _)).expanding room ran
  | forBody ran =>
      have kept := (agrees_beforeForRound (rel_statement? _) (rel_lower? _)).expanding room ran
      exact kept
  | forPost ran =>
      exact (agrees_beforePost (rel_statement? _) (rel_lower? _) (agrees_body _)).expanding room ran
  | _ => rfl

/-- A function whose body is to be expanded is not being expanded yet, and there is room. -/
def Task.Ready (options : Options) (s : State) : Task → Prop
  | .expansion callee _ => callee ∉ s.expanding ∧ s.expanding.length < options.inlineDepth.toNat
  | _ => True

theorem Calls.ready (calls : Calls program options d task s d' task' s')
    (room : s.Room options d) : task'.Ready options s' := by
  cases calls with
  | @expand _ callee _ _ _ _ s₁ _ decided computed =>
      have kept := (local_shouldExpand _ _).expanding decided
      have expanding := (agrees_operandsAt _ _ _).expanding (room.of_expanding kept) computed
      obtain ⟨new, below⟩ := shouldExpand_room decided
      exact ⟨expanding ▸ new, expanding ▸ below⟩
  | _ => trivial

/-- Either the body of a function is expanded, or the depth stays the same. -/
theorem Calls.inside_or (calls : Calls program options d task s d' task' s') :
    d' = d ∨ d = d' + 1 ∧ ∃ callee arguments activation, ∃ s₁ : State,
      task = .expansion callee arguments ∧
      activation.inlining = true ∧ activation.fn = callee ∧ s₁.expanding = s.expanding ∧
      s'.activations = activation :: s₁.activations := by
  cases calls with
  | @inside _ callee arguments opening _ s₁ opened =>
      exact .inr ⟨rfl, callee, arguments, opening.activation callee, s₁, rfl, rfl, rfl,
        (local_openExpansion _ _ _).expanding opened, rfl⟩
  | _ => exact .inl rfl

/-- Less is left to do: the task is smaller and the same functions are being expanded, or one more
function is being expanded. -/
def Smaller (options : Options) (next work : Task × State) : Prop :=
  (next.2.expanding = work.2.expanding ∧ next.1.size < work.1.size) ∨
    (next.2.expanding.length = work.2.expanding.length + 1 ∧
      next.2.expanding.length ≤ options.inlineDepth.toNat)

/-- One step: where there is room, there is room for the next task, and less is left to do. -/
theorem Calls.shrinks (calls : Calls program options d task s d' task' s')
    (room : s.Room options d) (ready : task.Ready options s) :
    s'.Room options d' ∧ Smaller options (task', s') (task, s) := by
  rcases calls.inside_or with rfl | ⟨rfl, callee, arguments, activation, s₁, rfl, inlining, rfl,
    kept, entered⟩
  · have expanding := calls.expanding room
    exact ⟨room.of_expanding expanding, .inl ⟨expanding, calls.size_lt⟩⟩
  · have inner : s'.Room options d' :=
      (room.of_expanding kept).inside inlining (kept ▸ ready.1) (kept ▸ ready.2) entered
    refine ⟨inner, .inr ⟨?_, inner.within⟩⟩
    dsimp only
    rw [← kept]
    simp [State.expanding, entered, inlining]

/-- Every run: wherever generation comes to, there is room. -/
theorem Visits.room (visits : Visits program options d task s) :
    s.Room options d ∧ task.Ready options s := by
  induction visits with
  | @start id body s begins =>
      obtain ⟨_, _, run⟩ := begins
      obtain ⟨_, s₁, _, run⟩ := Success.bind_ok.mp run
      obtain ⟨_, s₂, _, run⟩ := Success.bind_ok.mp run
      obtain ⟨_, s₃, _, run⟩ := Success.bind_ok.mp run
      obtain ⟨_, s₄, begun, spilled⟩ := Success.bind_ok.mp run
      have idle : s₄.calls = [] := by
        cases begun
        rfl
      have kept : s.calls = s₄.calls := congrArg Prod.fst ((local_emit _).ok spilled)
      exact ⟨.of_idle (kept.trans idle) (Nat.le_refl _), trivial⟩
  | call _ calls inductionHypothesis =>
      obtain ⟨room, ready⟩ := inductionHypothesis
      exact ⟨(calls.shrinks room ready).1, calls.ready room⟩

end Steps

section Moments

/-- What is done for a task. -/
def Task.run (env : Env) : Task → Gen Unit
  | .item subject => do let _ ← subject.action env
  | .place e => do let _ ← placeOf env e (lower env e).place?
  | .branch e label wanted => (lower env e).branch label wanted
  | .sides op left right label wanted =>
      shortCircuit op (lower env left) (lower env right) label wanted
  | .stmt part => statement env part
  | .body parts => Lower.block env parts
  | .call callee receiver arguments isVirtual => do
      let _ ← invoke env callee (operandsAt env callee receiver arguments) isVirtual
  | .expansion callee arguments => do let _ ← env.expand callee arguments

/-- A state that the generation of a program is in: where a task begins, where the operands of a call
that is not expanded begin to be computed, where a task ends or fails, and where the generation of
the whole program ends or fails. -/
inductive Passes (program : TypedProgram) (options : Options) : State → Prop where
  | begins {d : Nat} {task : Task} {s : State} : Visits program options d task s →
      Passes program options s
  | calling {d : Nat} {callee : FnId} {receiver : Option Item} {arguments : List Expr}
      {isVirtual : Bool} {s : State} :
      Visits program options d (.call callee receiver arguments isVirtual) s →
      Passes program options (s.calling callee)
  | ends {d : Nat} {task : Task} {u : Unit} {s s' : State} : Visits program options d task s →
      task.run (envAt program options d) s = .ok u s' → Passes program options s'
  | fails {d : Nat} {task : Task} {fault : Fault} {s s' : State} :
      Visits program options d task s →
      task.run (envAt program options d) s = .error fault s' → Passes program options s'
  | done {u : Unit} {s : State} :
      wholeProgram (.of program options) .initial = .ok u s → Passes program options s
  | stopped {fault : Fault} {s : State} :
      wholeProgram (.of program options) .initial = .error fault s → Passes program options s

/-- A task that is ready leaves the calls in progress alone. -/
theorem same_run (room : s.Room options d) (ready : task.Ready options s) :
    Same options s (task.run (envAt program options d)) (task.run (envAt program options d)) := by
  have drop : ∀ {α : Type} {action : Gen α}, Agrees options d action action →
      Agrees options d (do let _ ← action) (do let _ ← action) :=
    fun agrees => agrees.bind fun _ => .pure ()
  cases task with
  | item subject => exact drop (agrees_item subject) s room
  | place e => exact drop (agrees_placeOf (alike_at e).place) s room
  | branch e label wanted => exact (alike_at e).branch label wanted s room
  | sides op left right label wanted =>
      exact agrees_shortCircuit (alike_at left) (alike_at right) op label wanted s room
  | stmt part => exact agrees_at part s room
  | body parts => exact agrees_body parts s room
  | call callee receiver arguments isVirtual =>
      exact drop (agrees_invoke (expandAt_alike (Nat.le_refl d))
        (agrees_operandsAt callee receiver arguments)) s room
  | expansion callee arguments =>
      refine (expandAt_alike (Nat.le_refl d) callee arguments s room ready.1 ready.2).bind
        fun _ _ _ kept => ?_
      exact .of_local (room.toNests.congr kept) (.pure ())

theorem same_generation :
    Same options .initial (wholeProgram (.of program options))
      (wholeProgram (.of program options)) :=
  same_wholeProgram rfl (Nat.le_refl _) (Nat.le_refl _)

/-- At every moment the expansions are nested in order. -/
theorem Passes.nests (passes : Passes program options s) : s.Nests options := by
  have initial : State.initial.Nests options :=
    (State.Room.of_idle rfl (Nat.le_refl _)).toNests
  cases passes with
  | begins visits => exact visits.room.1.toNests
  | calling visits => exact (visits.room.1.calling _).toNests
  | ends visits ran =>
      obtain ⟨room, ready⟩ := visits.room
      exact room.toNests.congr ((same_run room ready).ok ran).calls
  | fails visits ran =>
      obtain ⟨room, ready⟩ := visits.room
      exact ((same_run room ready).error ran).1
  | done ran => exact initial.congr (same_generation.ok ran).calls
  | stopped ran => exact (same_generation.error ran).1

end Moments

/-- The generation of a program comes to a task, which calls for another one. -/
def CallsFor (program : TypedProgram) (options : Options) (next work : Task × State) : Prop :=
  ∃ d d', Visits program options d work.1 work.2 ∧
    Calls program options d work.1 work.2 d' next.1 next.2

/-- Tasks do not call for others forever. -/
theorem wellFounded_callsFor (program : TypedProgram) (options : Options) :
    WellFounded (CallsFor program options) := by
  let measure : Task × State → Nat × Nat := fun work =>
    (options.inlineDepth.toNat - work.2.expanding.length, work.1.size)
  have lex : WellFounded (Prod.Lex (· < · : Nat → Nat → Prop) (· < · : Nat → Nat → Prop)) :=
    WellFounded.prod_lex Nat.lt_wfRel.wf Nat.lt_wfRel.wf
  refine Subrelation.wf ?_ (InvImage.wf measure lex)
  rintro ⟨task', s'⟩ ⟨task, s⟩ ⟨d, d', visits, calls⟩
  obtain ⟨room, ready⟩ := visits.room
  rcases (calls.shrinks room ready).2 with ⟨expanding, smaller⟩ | ⟨more, within⟩
  · refine Prod.lex_def.mpr (.inr ⟨?_, smaller⟩)
    exact congrArg (options.inlineDepth.toNat - List.length ·) expanding
  · refine Prod.lex_def.mpr (.inl ?_)
    dsimp only [measure] at more within ⊢
    omega

/-- Inline expansion ends.  At every moment the functions that are being expanded are pairwise
different and no more than the options allow; tasks do not call for others forever; more room than
the options allow changes nothing; and generation never fails for want of room. -/
theorem wholeProgram_expansions_end (program : TypedProgram) (options : Options) :
    (∀ s, Passes program options.normalize s →
      s.expanding.Nodup ∧ s.expanding.length ≤ options.normalize.inlineDepth) ∧
    WellFounded (CallsFor program options.normalize) ∧
    (∀ depth, options.normalize.inlineDepth.toNat ≤ depth →
      wholeProgram (envAt program options.normalize depth) .initial =
        wholeProgram (.of program options.normalize) .initial) ∧
    ∀ fault s, wholeProgram (.of program options.normalize) .initial = .error fault s →
      fault ≠ .expansionDepth := by
  refine ⟨?_, wellFounded_callsFor _ _, ?_, ?_⟩
  · intro s passes
    have allowed : 0 ≤ options.normalize.inlineDepth := by
      unfold Options.normalize
      dsimp only
      split
      · decide
      · omega
    have nests := passes.nests
    refine ⟨nests.distinct, ?_⟩
    have within := nests.within
    omega
  · intro depth enough
    exact (same_wholeProgram rfl (Nat.le_refl _) enough).run.symm
  · intro fault s ran
    exact (same_generation.error ran).2

/-- A program with two functions that are to be expanded in place and that call each other. -/
def mutualRecursion : TypedProgram :=
  let inlined : Mods := { Mods.none with isStatic := true, isInline := true }
  let call (callee : FnId) : Stmt := .ret (.call callee .absent [] false)
  .ofParts "Main" #[]
    #[{ (default : Function) with
        name := "Main"
        returnType := .int
        mods := { Mods.none with isStatic := true }
        body := some [call 1] },
      { (default : Function) with
        name := "even"
        returnType := .int
        mods := inlined
        body := some [call 2] },
      { (default : Function) with
        name := "odd"
        returnType := .int
        mods := inlined
        body := some [call 1] }]

/-- The expansion of a function without parameters, up to its body. -/
def expandFirst (depth : Nat) (callee : FnId) : Gen Bool := do
  let expanded ← shouldExpand (envAt mutualRecursion .default (depth + 1)) callee
  let operands ← operandsAt (envAt mutualRecursion .default (depth + 1)) callee none []
  let opening ← openExpansion (envAt mutualRecursion .default depth) callee operands
  modify fun s => { s with loops := [], activations := opening.activation callee :: s.activations }
  return expanded

theorem visits_expandFirst {depth : Nat} {callee : FnId}
    (visits : Visits mutualRecursion .default (depth + 1)
      (.body [.ret (.call callee .absent [] false)]) s)
    (ran : expandFirst depth callee s = .ok true s') :
    Visits mutualRecursion .default depth
      (.body ((mutualRecursion.function callee).body.getD [])) s' := by
  obtain ⟨expanded, s₁, decided, ran⟩ := Success.bind_ok.mp ran
  obtain ⟨operands, s₂, computed, ran⟩ := Success.bind_ok.mp ran
  obtain ⟨opening, s₃, opened, ran⟩ := Success.bind_ok.mp ran
  obtain ⟨_, s₄, entered, ran⟩ := Success.bind_ok.mp ran
  obtain ⟨rfl, rfl⟩ := Success.pure_ok.mp ran
  obtain rfl := Success.modify_ok.mp entered
  exact .call (.call (.call (.call (.call visits .first) .ret) .method) (.expand decided computed))
    (.inside opened)

theorem mutualRecursion_expansions_end :
    (∃ s, Passes mutualRecursion .default s ∧ s.expanding = [2, 1] ∧ s.expanding.Nodup ∧
      s.expanding.length ≤ Options.default.inlineDepth ∧
      ∃ s', shouldExpand (envAt mutualRecursion .default 14) 1 s = .ok false s') ∧
    wholeProgram (envAt mutualRecursion .default 20) .initial =
      wholeProgram (.of mutualRecursion .default) .initial := by
  let computation : Gen Unit := do
    upToBody mutualRecursion .default 0
    let first ← expandFirst 15 1
    let second ← expandFirst 14 2
    let s ← get
    let third ← shouldExpand (envAt mutualRecursion .default 14) 1
    if first && second && !third && s.expanding = [2, 1] then pure () else throw .poolExhausted
  have succeeds : Success.succeeds (computation .initial) = true := by decide +kernel
  obtain ⟨_, _, ran⟩ := Success.exists_of_succeeds succeeds
  obtain ⟨_, s₀, began, ran⟩ := Success.bind_ok.mp ran
  obtain ⟨first, s₁, one, ran⟩ := Success.bind_ok.mp ran
  obtain ⟨second, s₂, two, ran⟩ := Success.bind_ok.mp ran
  obtain ⟨_, _, got, ran⟩ := Success.bind_ok.mp ran
  obtain ⟨rfl, rfl⟩ := Success.get_ok.mp got
  obtain ⟨third, s₃, three, ran⟩ := Success.bind_ok.mp ran
  rw [Success.ite_apply] at ran
  split at ran
  · rename_i outcome
    simp only [Bool.and_eq_true, Bool.not_eq_true', decide_eq_true_eq] at outcome
    obtain ⟨⟨⟨rfl, rfl⟩, rfl⟩, expanding⟩ := outcome
    have begins : Begins mutualRecursion .default 0 [.ret (.call 1 .absent [] false)] s₀ :=
      ⟨by decide +kernel, by with_unfolding_all rfl, began⟩
    have even : (mutualRecursion.function 1).body.getD [] = [.ret (.call 2 .absent [] false)] := by
      with_unfolding_all rfl
    have outer := visits_expandFirst (.start begins) one
    rw [even] at outer
    have inner := visits_expandFirst outer two
    obtain ⟨nests, _, room, _⟩ := wholeProgram_expansions_end mutualRecursion .default
    obtain ⟨distinct, within⟩ := nests s₂ (.begins inner)
    exact ⟨⟨s₂, .begins inner, expanding, distinct, within, s₃, three⟩, room 20 (by decide)⟩
  · simp at ran

end X64Backend.Lower
