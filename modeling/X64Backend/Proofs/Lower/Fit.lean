import X64Backend.Proofs.Lower.Visits

/-!
In every state that is visited, the calls in progress rely on locked values only.  This holds where
the body of a procedure begins, and a task passes it on to those that it calls.
-/

namespace X64Backend.Lower

open X64Backend.Tree

variable {program : TypedProgram} {options : Options} {d : Nat} {s s' : State}

/-- An operand at hand is locked. -/
def Item.Fit (s : State) : Item → Prop
  | .made operand => Owned (Issued s) s operand
  | _ => True

/-- A task can be done in a state.  The arguments of an expansion may be freed without harm to the
calls in progress. -/
def Task.Fit (s : State) : Task → Prop
  | .call _ receiver _ _ => Prepared s ∧ ∀ item, receiver = some item → item.Fit s
  | .expansion _ arguments => ∃ guarded, Ready guarded s ∧
      ∀ argument ∈ arguments, Owned guarded s argument
  | _ => Prepared s

theorem Task.Fit.prepared {task : Task} (fit : task.Fit s) : Prepared s := by
  cases task with
  | call => exact fit.1
  | expansion =>
      obtain ⟨guarded, ready, _⟩ := fit
      exact ready.prepared
  | _ => exact fit

theorem sound_at (guarded : Handle → Prop) (e : Expr) :
    (lower (envAt program options d) e).Sound guarded fun _ => True :=
  sound_lower (expanding_expandAt program options d guarded _) e fun _ _ => trivial

theorem executes_at (stmt : Stmt) :
    Executes (fun _ => True) (statement (envAt program options d) stmt) :=
  executes_statement (fun guarded => expanding_expandAt program options d guarded _) stmt
    fun _ _ => trivial

theorem executes_block_at (body : List Stmt) :
    Executes (fun _ => True) (block (envAt program options d) body) :=
  executes_statements (fun guarded => expanding_expandAt program options d guarded _) body
    fun _ _ _ _ => trivial

theorem Plain.prepared {α : Type} {action : Gen α} {a : α} (plain : Plain action)
    (prepared : Prepared s) (run : action s = .ok a s') : Prepared s' :=
  (plain.steady (C := fun _ => True) prepared run).prepared prepared

theorem executes_beforeThen {cond : Lowered}
    (sound : ∀ guarded, cond.Sound guarded fun _ => True) :
    Executes (fun _ => True) (beforeThen cond) := by
  refine (Executes.of_plain plain_newLabel).bind fun otherwise => ?_
  refine (Executes.branch sound otherwise false).bind fun _ => ?_
  exact executes_endStatement.bind fun _ => .of_plain (by simp)

theorem executes_beforeElse {cond : Lowered} {thenBody : Gen Unit}
    (sound : ∀ guarded, cond.Sound guarded fun _ => True)
    (executes : Executes (fun _ => True) thenBody) :
    Executes (fun _ => True) (beforeElse cond thenBody) := by
  refine (executes_beforeThen sound).bind fun otherwise => executes.bind fun _ => ?_
  refine (Executes.of_plain plain_newLabel).bind fun done => ?_
  exact (Executes.of_plain plain_lastInstr).bind fun last =>
    Executes.ite (.of_plain (by simp)) (.of_plain (by simp))

theorem plain_beforeWhile : Plain beforeWhile := by
  refine plain_newLabel.bind fun top => plain_newLabel.bind fun done => ?_
  simp

theorem executes_beforeRound {cond : Lowered}
    (sound : ∀ guarded, cond.Sound guarded fun _ => True) :
    Executes (fun _ => True) (beforeRound cond) := by
  refine (Executes.of_plain plain_beforeWhile).bind fun entry => ?_
  refine (Executes.branch sound entry.exit false).bind fun _ => ?_
  exact executes_endStatement.bind fun _ => .of_plain (by simp)

theorem executes_beforeFor {start : Option (Gen Unit)}
    (starts : ∀ action, start = some action → Executes (fun _ => True) action) :
    Executes (fun _ => True) (beforeFor start) := by
  refine (executes_headerPart starts).bind fun _ => .of_plain ?_
  refine plain_newLabel.bind fun top => plain_newLabel.bind fun next => ?_
  refine plain_newLabel.bind fun done => ?_
  simp

theorem executes_beforeForRound {start : Option (Gen Unit)} {cond : Option Lowered}
    (starts : ∀ action, start = some action → Executes (fun _ => True) action)
    (sound : ∀ lowered, cond = some lowered → ∀ guarded, lowered.Sound guarded fun _ => True) :
    Executes (fun _ => True) (beforeForRound start cond) := by
  refine (executes_beforeFor starts).bind fun ⟨top, entry⟩ => ?_
  refine Executes.bind ?_ fun _ => .of_plain (by simp)
  apply executes_headerPart
  intro action given
  obtain ⟨lowered, known, rfl⟩ := Option.map_eq_some_iff.mp given
  exact Executes.branch (sound lowered known) entry.exit false

theorem executes_beforePost {start : Option (Gen Unit)} {cond : Option Lowered} {body : Gen Unit}
    (starts : ∀ action, start = some action → Executes (fun _ => True) action)
    (sound : ∀ lowered, cond = some lowered → ∀ guarded, lowered.Sound guarded fun _ => True)
    (executes : Executes (fun _ => True) body) :
    Executes (fun _ => True) (beforePost start cond body) := by
  refine (executes_beforeForRound starts sound).bind fun ⟨top, entry⟩ => ?_
  exact (executes_inLoop executes).bind fun _ => .of_plain (by simp)

theorem executes_statement? (stmt : Stmt) (action : Gen Unit)
    (given : statement? (envAt program options d) stmt = some action) :
    Executes (fun _ => True) action := by
  unfold statement? at given
  split at given
  · contradiction
  · cases given
    exact executes_at stmt

theorem sound_lower? (e : Expr) (lowered : Lowered)
    (given : lower? (envAt program options d) e = some lowered) (guarded : Handle → Prop) :
    lowered.Sound guarded fun _ => True := by
  unfold lower? at given
  split at given
  · contradiction
  · cases given
    exact sound_at guarded e

theorem yields_item {item : Item} (fit : item.Fit s) :
    Yields (Issued s) (fun _ => True) s.draft (item.action (envAt program options d)) := by
  cases item with
  | value e => exact (sound_at _ e).value.yields _
  | address e => exact (evaluates_addressOf (sound_at _ e)).yields _
  | made operand =>
      intro s₁ result s₂ ready guards ran
      obtain ⟨rfl, rfl⟩ := Success.pure_ok.mp ran
      exact ⟨.refl ready, Owned.later fit guards⟩

theorem prepared_item {item : Item} {operand : Operand} (prepared : Prepared s)
    (run : item.action (envAt program options d) s = .ok operand s') : Prepared s' := by
  have evaluated : ∀ {action : Gen Operand}, Evaluates (Issued s) (fun _ => True) action →
      action s = .ok operand s' → Prepared s' := by
    intro action evaluates run
    exact (evaluates s operand s' prepared run).1.prepared prepared
  cases item with
  | value e => exact evaluated (sound_at _ e).value run
  | address e => exact evaluated (evaluates_addressOf (sound_at _ e)) run
  | made given =>
      obtain ⟨_, rfl⟩ := Success.pure_ok.mp run
      exact prepared

theorem Turn.prepared {items : List Item} {item : Item}
    (turn : Turn (envAt program options d) items s item s') (prepared : Prepared s) :
    Prepared s' := by
  induction turn with
  | now => exact prepared
  | later ran _ inductionHypothesis =>
      apply inductionHypothesis
      exact prepared_item prepared ran

theorem Prepared.calling (prepared : Prepared s) (callee : FnId) : Prepared (s.calling callee) :=
  Ready.pushed_call prepared callee

theorem Prepared.loops (prepared : Prepared s) (loops : List Loop) : Prepared { s with loops } :=
  ⟨prepared.tidy, prepared.issued, prepared.settled⟩

theorem Item.Fit.quiet {item : Item} (fit : item.Fit s) (quiet : Quiet s s') : item.Fit s' := by
  cases item with
  | made operand =>
      intro handle behind
      obtain ⟨issued, held⟩ := fit handle behind
      unfold Issued Draft.Held Draft.Carries
      rw [quiet.pool, quiet.timeline]
      exact ⟨issued, held⟩
  | _ => trivial

theorem lowerAll_eq (env : Env) (arguments : List Expr) : lower.lowerAll env arguments =
    arguments.map fun e => ((lower env e).value, addressOf env e (lower env e).place?) := by
  induction arguments with
  | nil => simp [lower.lowerAll]
  | cons e rest inductionHypothesis => simp [lower.lowerAll, inductionHypothesis]

/-- The operands of a call are computed in this order, and by these computations. -/
theorem operandActions_eq (env : Env) (fn : Function) (receiver : Option Item)
    (arguments : List Expr) :
    operandActions fn (receiver.map (Item.action env)) (lower.lowerAll env arguments) =
      (callItems fn receiver arguments).map (Item.action env) := by
  have others : ∀ parameters : List Variable,
      ((lower.lowerAll env arguments).zip parameters).map
        (fun item => if item.2.byRef then item.1.2 else item.1.1) =
      ((arguments.zip parameters).map fun item =>
        if item.2.byRef then Item.address item.1 else .value item.1).map (Item.action env) := by
    intro parameters
    rw [lowerAll_eq, List.zip_map_left, List.map_map, List.map_map]
    refine List.map_congr_left ?_
    rintro ⟨e, parameter⟩ _
    simp only [Function.comp_apply, Prod.map_apply, id_eq]
    split
    · rfl
    · rfl
  unfold operandActions callItems
  cases fn.receiver with
  | none =>
      simp only [List.nil_append, List.length_nil]
      exact others _
  | some self =>
      cases receiver with
      | none =>
          simp only [Option.map_none, List.nil_append, List.length_nil]
          exact others _
      | some item =>
          simp only [Option.map_some, List.map_append, List.map_singleton, List.length_singleton]
          rw [others]

theorem Item.fit_of_mem {item : Item} {fn : Function} {receiver : Option Item}
    {arguments : List Expr} (fit : ∀ item, receiver = some item → item.Fit s)
    (member : item ∈ callItems fn receiver arguments) : item.Fit s := by
  rcases List.mem_append.mp member with member | member
  · split at member
    · obtain rfl := List.mem_singleton.mp member
      exact fit item rfl
    · simp at member
  · obtain ⟨⟨e, parameter⟩, _, rfl⟩ := List.mem_map.mp member
    dsimp only
    split
    · trivial
    · trivial

/-- The operands of an expanded call may be released. -/
theorem operandsAt_ok {callee : FnId} {receiver : Option Item} {arguments : List Expr}
    {operands : List Operand} (prepared : Prepared s)
    (fit : ∀ item, receiver = some item → item.Fit s)
    (run : operandsAt (envAt program options d) callee receiver arguments s = .ok operands s') :
    Steady (Issued s) (fun _ => True) s s' ∧ ∀ operand ∈ operands, Owned (Issued s) s' operand := by
  have run := operandsOf_ok run
  rw [operandActions_eq] at run
  refine steady_mapM prepared ?_ run
  intro action member
  obtain ⟨item, among, rfl⟩ := List.mem_map.mp member
  exact yields_item (item.fit_of_mem fit among)

/-- A task calls only what can be done. -/
theorem Calls.fit {d' : Nat} {task task' : Task}
    (calls : Calls program options d task s d' task' s') (fit : task.Fit s) : task'.Fit s' := by
  have prepared := fit.prepared
  cases calls with
  | field | placeField | address | left | unary | decided | branchValue | branchNot | branchSides
  | sidesValue | sidesLeft | sidesOnlyRight | first | block | expr | assigned | ret | thenKnown
  | elseKnown | forStart => exact prepared
  | right ran => exact ((sound_at _ _).value s _ s' prepared ran).1.prepared prepared
  | logical _ started => exact (steady_logicalStart (C := fun _ => True) prepared started).1.prepared prepared
  | sidesRight ran => exact ((sound_at _ _).branch _ _ s _ s' prepared ran).prepared prepared
  | sidesSkip labelled => exact plain_newLabel.prepared prepared labelled
  | sidesUnskipped labelled ran =>
      have prepared₁ := plain_newLabel.prepared prepared labelled
      exact ((sound_at _ _).branch _ _ _ _ s' prepared₁ ran).prepared prepared₁
  | overloaded => exact ⟨prepared, by simp⟩
  | method =>
      refine ⟨prepared, ?_⟩
      intro item given
      split at given
      · contradiction
      · cases given
        trivial
  | @construct _ _ _ _ object _ _ s₁ _ _ allocated locked =>
      obtain ⟨one, fresh⟩ := steady_allocateObject (C := fun _ => True) prepared allocated
      have ready₁ := one.ready prepared
      have two := steady_lock (C := fun _ => True) ready₁ fresh locked
      refine ⟨(two.ready ready₁).prepared, ?_⟩
      rintro item ⟨⟩ handle behind
      have issued := (fresh.steady two handle behind).1
      exact ⟨issued, fun _ => held_lock ready₁.tidy behind locked⟩
  | expandOperand decided turn =>
      exact turn.prepared ((plain_shouldExpand _ _).prepared prepared decided)
  | expand decided evaluated =>
      have quiet := plain_shouldExpand _ _ _ _ _ decided
      have prepared₁ := (plain_shouldExpand _ _).prepared prepared decided
      obtain ⟨steady, owned⟩ := operandsAt_ok prepared₁
        (fun item given => (fit.2 item given).quiet quiet) evaluated
      exact ⟨_, steady.ready prepared₁, owned⟩
  | emitOperand decided turn =>
      have prepared₁ := (plain_shouldExpand _ _).prepared prepared decided
      exact turn.prepared (prepared₁.calling _)
  | virtualOperand turn => exact turn.prepared (prepared.calling _)
  | inside ran =>
      obtain ⟨guarded, ready, owned⟩ := fit
      obtain ⟨free, locked, opened⟩ := openExpansion_ok (C := fun _ => True) ready owned ran
      exact opened.prepared.expansion opened.allLocked opened.entries _
  | rest ran ended =>
      have advances := executes_at _ s _ _ prepared ran
      exact (advances.trans (executes_endStatement _ _ s' advances.prepared ended)).prepared
  | target ran => exact ((sound_at _ _).value s _ s' prepared ran).1.prepared prepared
  | chooseCond _ labelled => exact plain_newLabel.prepared prepared labelled
  | thenBody _ ran =>
      exact (executes_beforeThen (sound_at · _) s _ s' prepared ran).prepared
  | elseBody _ ran =>
      exact (executes_beforeElse (sound_at · _) (executes_block_at _) s _ s' prepared ran).prepared
  | whileCond ran => exact plain_beforeWhile.prepared prepared ran
  | whileBody ran =>
      have advances := executes_beforeRound (sound_at · _) s _ _ prepared ran
      exact advances.prepared.loops _
  | forCond ran => exact (executes_beforeFor (executes_statement? _) s _ s' prepared ran).prepared
  | forBody ran =>
      have advances := executes_beforeForRound (executes_statement? _) (sound_lower? _) s _ _ prepared
        ran
      exact advances.prepared.loops _
  | forPost ran =>
      exact (executes_beforePost (executes_statement? _) (sound_lower? _) (executes_block_at _) s _ s'
        prepared ran).prepared

section Start

variable {u : Unit}

theorem plain_insert (index : Int) (instrs : List Instr) :
    Plain (modifyText fun text => text.insert index instrs) := by
  apply Plain.modify
  intro s
  exact ⟨rfl, rfl, Nat.le_refl _, rfl⟩

theorem plain_closeBody (frame : Frame) : Plain (closeBody frame) := by
  refine plain_lastInstr.bind fun last => Plain.ite ?_ ?_
  · exact plain_removeLast.bind fun _ => Plain.ite (plain_defineLabel _) (Plain.pure _)
  · exact Plain.ite (plain_defineLabel _) (Plain.pure _)

theorem plain_finishProcedure (options : Options) (fn : Function) (frame : Frame) :
    Plain (finishProcedure options fn frame) := by
  refine (plain_closeBody frame).bind fun _ => ?_
  refine Plain.bind (by simp [checkBalance]) fun _ => Plain.get.bind fun s => ?_
  refine (plain_log _).bind fun _ => (plain_emit _).bind fun _ => ?_
  exact plain_insert _ _

theorem plain_entryPoint (env : Env) : Plain (entryPoint env) := by
  refine (plain_emit _).bind fun _ => ?_
  cases env.program.lookup (if env.program.entry = "" then env.options.entry else env.program.entry)
  · simp
  · simp

/-- A procedure begins without values and calls. -/
theorem prepared_beginProcedure {id : FnId} {fn : Function} (tidy : s.draft.Tidy)
    (run : beginProcedure id fn s = .ok u s') : Prepared s' := by
  obtain ⟨_, s₁, emptied, run⟩ := Success.bind_ok.mp run
  obtain ⟨_, s₂, cleared, run⟩ := Success.bind_ok.mp run
  obtain ⟨draft, drafted, rfl⟩ := drafting_ok.mp emptied
  obtain rfl := Success.modify_ok.mp drafted
  obtain rfl := Success.modify_ok.mp cleared
  have prepared : Prepared { s with
      draft := s.draft.mapPool fun _ => Pool.empty
      depth := .start
      activations := []
      loops := [] } := by
    refine ⟨⟨?_, ?_, ?_, tidy.past⟩, fun _ issued => issued, ?_⟩
    · intro slot occupant occupied
      simp [Draft.mapPool] at occupied
    · intro slot occupant occupied
      simp [Draft.mapPool] at occupied
    · intro occupant occupied
      simp [Draft.mapPool] at occupied
    · intro activation member
      simp at member
  have plain : Plain (do
      emit [.label fn.linkName true]
      let exit ← newLabel
      let frame : Frame :=
        { name := fn.linkName
          fn := id
          start := (← get).draft.text.size
          leaf := true
          stackSize := fn.frameSize
          exit
          jumps := 0
          leaked := 0 }
      modify fun state => { state with frame := some frame }
      log ("function " ++ fn.linkName ++ ": frame " ++ toString fn.frameSize ++ " bytes")) := by
    refine (plain_emit _).bind fun _ => plain_newLabel.bind fun _ => Plain.get.bind fun _ => ?_
    refine Plain.bind (Plain.modify fun s => ?_) fun _ => plain_log _
    exact ⟨rfl, rfl, Nat.le_refl _, rfl⟩
  exact plain.prepared prepared run

theorem tidy_functionCode {id : FnId} (tidy : s.draft.Tidy)
    (run : functionCode (envAt program options d) id s = .ok u s') : s'.draft.Tidy := by
  unfold functionCode at run
  cases found : ((envAt program options d).program.function id).body with
  | none =>
      rw [found] at run
      obtain ⟨_, rfl⟩ := Success.pure_ok.mp run
      exact tidy
  | some body =>
      rw [found] at run
      obtain ⟨_, s₁, begun, run⟩ := Success.bind_ok.mp run
      obtain ⟨_, s₂, spilled, run⟩ := Success.bind_ok.mp run
      obtain ⟨_, s₃, generated, run⟩ := Success.bind_ok.mp run
      obtain ⟨_, _, got, run⟩ := Success.bind_ok.mp run
      obtain ⟨rfl, rfl⟩ := Success.get_ok.mp got
      have prepared := (plain_emit _).prepared (prepared_beginProcedure tidy begun) spilled
      have done := (executes_block_at body s₂ _ s₃ prepared generated).prepared
      cases framed : s₃.frame with
      | none =>
          rw [framed] at run
          obtain ⟨_, rfl⟩ := Success.pure_ok.mp run
          exact done.tidy
      | some frame =>
          rw [framed] at run
          exact ((plain_finishProcedure _ _ _).prepared done run).tidy

theorem tidy_functions {ids : List FnId} (tidy : s.draft.Tidy)
    (run : ids.forM (functionCode (envAt program options d)) s = .ok u s') : s'.draft.Tidy := by
  induction ids generalizing s with
  | nil =>
      obtain ⟨_, rfl⟩ := Success.pure_ok.mp run
      exact tidy
  | cons id rest inductionHypothesis =>
      obtain ⟨_, s₁, ran, run⟩ := Success.bind_ok.mp run
      exact inductionHypothesis (tidy_functionCode tidy ran) run

theorem Begins.prepared {id : FnId} {body : List Stmt} (begins : Begins program options id body s) :
    Prepared s := by
  obtain ⟨_, _, run⟩ := begins
  obtain ⟨_, s₁, headed, run⟩ := Success.bind_ok.mp run
  obtain ⟨_, s₂, entered, run⟩ := Success.bind_ok.mp run
  obtain ⟨_, s₃, earlier, run⟩ := Success.bind_ok.mp run
  obtain ⟨_, s₄, begun, spilled⟩ := Success.bind_ok.mp run
  have quiet := (plain_emit _ _ _ _ headed).trans (plain_entryPoint _ _ _ _ entered)
  have tidy := tidy_functions (d := options.inlineDepth.toNat) (quiet.tidy Draft.tidy_empty) earlier
  exact (plain_emit _).prepared (prepared_beginProcedure tidy begun) spilled

/-- Whatever the generation of a program leads to can be done. -/
theorem Visits.fit {task : Task} (visits : Visits program options d task s) : task.Fit s := by
  induction visits with
  | start begins => exact begins.prepared
  | call _ calls inductionHypothesis => exact calls.fit inductionHypothesis

end Start

end X64Backend.Lower
