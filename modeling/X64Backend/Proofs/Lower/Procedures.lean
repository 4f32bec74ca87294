import X64Backend.Proofs.Lower.Inlining

/-!
Procedures as moves of the generator.  The body is written by moves from a fresh start; then the
label of the epilogue is defined if a jump to it is left, the epilogue goes behind the body and the
prologue in front of it.
-/

namespace X64Backend.Lower

open X64Backend.Tree

variable {program : TypedProgram} {options : Options} {since : Handle} {c c' : Config}

/-- The state in which the body of a procedure begins. -/
def State.begun (s : State) (id : FnId) (fn : Function) : State :=
  let text := s.draft.text.emit (.label fn.linkName true)
  { s with
    draft := { s.draft with
      pool := .empty
      text
      trace := ("function " ++ fn.linkName ++ ": frame " ++ toString fn.frameSize ++ " bytes") ::
        s.draft.trace }
    frame := some
      { name := fn.linkName
        fn := id
        start := text.size
        leaf := true
        stackSize := fn.frameSize
        exit := s.nextLabel
        jumps := 0
        leaked := 0 }
    activations := []
    loops := []
    labels := s.labels + 1
    depth := .start }

theorem beginProcedure_eq (id : FnId) (fn : Function) (s : State) :
    beginProcedure id fn s = .ok () (s.begun id fn) :=
  rfl

/-- Where the body of a procedure begins nothing is owed. -/
def Config.begun (s : State) (id : FnId) (fn : Function) : Config :=
  { state := s.begun id fn
    awaited := 0
    defined := 0
    words := 0 }

theorem Config.valid_begun (s : State) (id : FnId) (fn : Function) :
    (Config.begun s id fn).Valid s.draft.timeline.count := by
  refine ⟨Nat.le_refl _, ?_, ?_⟩
  · intro activation member
    contradiction
  · intro loop member
    contradiction

theorem keeps_spillArguments (fn : Function) :
    Keeps program since c (emit (spillArguments fn)) Any := by
  apply keeps_emit
  intro instr member
  obtain ⟨⟨v, phys⟩, among, rfl⟩ := List.mem_map.mp member
  refine Instr.plain_binary.mpr ⟨Operand.usable_frameCell, ?_⟩
  exact usable_argumentRegister (List.of_mem_zip among).2

/-- The body of a function has been written and owes nothing. -/
structure Written (program : TypedProgram) (id : FnId) (s : State) (c : Config) : Prop where
  moves : Moves program s.draft.timeline.count (.begun s id (program.function id)) c
  awaited : c.awaited = 0
  words : c.words = 0
  activations : c.state.activations = []

/-- The frame of a body that has been written is that of its procedure. -/
theorem Written.frame {id : FnId} {s : State} (written : Written program id s c) :
    ∃ frame, c.state.frame = some frame ∧ frame.name = (program.function id).linkName ∧
      frame.fn = id ∧ frame.start = s.draft.text.size + 1 ∧ frame.exit = s.nextLabel := by
  have same := written.moves.identity
  obtain ⟨frame, found, identity⟩ := Option.map_eq_some_iff.mp same
  simp only [Frame.identity, Prod.mk.injEq] at identity
  obtain ⟨name, fn, start, exit⟩ := identity
  refine ⟨frame, found, name, fn, start.trans ?_, exit⟩
  simp [Stream.size, Stream.emit]

theorem follows_body (options : Options) (depth : Nat) {id : FnId} {body : List Stmt} (s : State)
    (found : (program.function id).body = some body) :
    Follows program s.draft.timeline.count (.begun s id (program.function id)) (do
      emit (spillArguments (program.function id))
      block (envAt program options depth) body) fun _ c => Written program id s c := by
  refine Follows.bind (keeps_spillArguments _).withMoves ?_
  rintro _ c₁ ⟨moves₁, kept₁, _⟩
  have performs : Performs program s.draft.timeline.count
      (block (envAt program options depth) body) :=
    performs_statements (expandable_envAt program options depth) body
      fun stmt member block inside => ⟨id, body, found, .part member inside⟩
  refine (performs c₁ kept₁.words).mono fun _ c₂ moves₂ resumed₂ => ?_
  have resumed := kept₁.resumed.trans resumed₂
  exact ⟨moves₁.trans moves₂, resumed.awaited, resumed.words,
    List.eq_nil_of_length_eq_zero resumed.length⟩

theorem closeBody_eq (frame : Frame) (s : State) : closeBody frame s =
    .ok () (s.withText (closedText s.draft.text frame.exit frame.jumps)) := by
  refine Success.bind_ok.mpr ⟨s.draft.text.last?.getD .absent, s, rfl, ?_⟩
  dsimp only
  by_cases direct : isJumpTo frame.exit (s.draft.text.last?.getD .absent) = true
  · by_cases jumps : 0 < frame.jumps - 1
    · simp only [closedText, direct, if_true, jumps]
      rfl
    · simp only [closedText, direct, if_true, jumps, if_false]
      rfl
  · by_cases jumps : 0 < frame.jumps
    · simp only [closedText, direct, Bool.false_eq_true, if_false, jumps, if_true]
      rfl
    · simp only [closedText, direct, Bool.false_eq_true, if_false, jumps]
      rfl

/-- The plan of a procedure whose body has come to a state. -/
def State.plan (s : State) (options : Options) (fn : Function) (frame : Frame) : FramePlan :=
  .ofFrame frame (CallingConvention.argumentRegisters.length < fn.args.length)
    s.draft.pool.usedSaved options.redZone

/-- The code with the procedure whose body has come to a state. -/
def State.finishedText (s : State) (plan : FramePlan) (frame : Frame) : Stream :=
  ((closedText s.draft.text frame.exit frame.jumps).append plan.epilogue).insert frame.start
    plan.prologue

theorem checkBalance_ok {frame : Frame} {s : State} (balanced : s.depth.bytes = frame.leaked) :
    checkBalance frame s = .ok () s :=
  (Success.bind_of_ok rfl).trans (Success.ite_apply.trans (if_neg (not_not.mpr balanced)))

theorem checkBalance_error {frame : Frame} {s : State} (left : s.depth.bytes ≠ frame.leaked) :
    checkBalance frame s = .error (.stackLeft frame.name s.depth.bytes frame.leaked) s :=
  (Success.bind_of_ok rfl).trans (Success.ite_apply.trans (if_pos left))

/-- What has become of the state behind a procedure. -/
structure Finished (options : Options) (fn : Function) (frame : Frame) (s s' : State) : Prop where
  balanced : s.depth.bytes = frame.leaked
  text : s'.draft.text = s.finishedText (s.plan options fn frame) frame
  timeline : s'.draft.timeline = s.draft.timeline
  labels : s'.labels = s.labels
  filed : s.Filed → s'.Filed

theorem finishProcedure_ok {fn : Function} {frame : Frame} {s s' : State} {u : Unit}
    (run : finishProcedure options fn frame s = .ok u s') :
    Finished options fn frame s s' := by
  rw [finishProcedure, Success.bind_of_ok (closeBody_eq frame s)] at run
  by_cases balanced : s.depth.bytes = frame.leaked
  · rw [Success.bind_of_ok (checkBalance_ok (by exact balanced))] at run
    obtain ⟨_, _, got, run⟩ := Success.bind_ok.mp run
    obtain ⟨rfl, rfl⟩ := Success.get_ok.mp got
    obtain ⟨_, s₂, logged, run⟩ := Success.bind_ok.mp run
    obtain ⟨_, s₃, emitted, inserted⟩ := Success.bind_ok.mp run
    unfold logPlan log at logged
    obtain ⟨draft, traced, rfl⟩ := drafting_ok.mp logged
    obtain rfl := Success.modify_ok.mp traced
    obtain rfl := Success.modify_ok.mp emitted
    obtain rfl := Success.modify_ok.mp inserted
    exact ⟨balanced, rfl, rfl, rfl, id⟩
  · rw [Success.bind_of_error (checkBalance_error (by exact balanced))] at run
    contradiction

/-- A procedure fails in the end only if its body does not leave what the epilogue reclaims. -/
theorem finishProcedure_error {fn : Function} {frame : Frame} {s s' : State} {fault : Fault}
    (run : finishProcedure options fn frame s = .error fault s') :
    s.depth.bytes ≠ frame.leaked := by
  intro balanced
  rw [finishProcedure, Success.bind_of_ok (closeBody_eq frame s),
    Success.bind_of_ok (checkBalance_ok (by exact balanced))] at run
  cases run

section Procedure

variable {id : FnId} {body : List Stmt} {depth : Nat} {s s' : State}

theorem procedure_eq : procedure (envAt program options depth) id body s = (do
    (do
      emit (spillArguments (program.function id))
      block (envAt program options depth) body)
    match (← get).frame with
    | some frame => finishProcedure options (program.function id) frame
    | none => return () : Gen Unit) (s.begun id (program.function id)) := by
  rw [bind_assoc]
  exact Success.bind_of_ok (beginProcedure_eq id (program.function id) s)

/-- A procedure that is generated without a fault. -/
theorem procedure_ok {u : Unit} (found : (program.function id).body = some body)
    (run : procedure (envAt program options depth) id body s = .ok u s') :
    ∃ c frame, Written program id s c ∧ c.state.frame = some frame ∧
      Finished options (program.function id) frame c.state s' := by
  rw [procedure_eq] at run
  obtain ⟨_, s₁, ran, run⟩ := Success.bind_ok.mp run
  obtain ⟨c, rfl, _, written⟩ := (follows_body options depth s found).ok
    (Config.valid_begun s id _) ran
  obtain ⟨_, _, got, run⟩ := Success.bind_ok.mp run
  obtain ⟨rfl, rfl⟩ := Success.get_ok.mp got
  obtain ⟨frame, same, _⟩ := written.frame
  rw [same] at run
  exact ⟨c, frame, written, same, finishProcedure_ok run⟩

/-- A procedure faults in the middle of its body, or it does not leave what the epilogue
reclaims. -/
theorem procedure_error {fault : Fault} (found : (program.function id).body = some body)
    (run : procedure (envAt program options depth) id body s = .error fault s') :
    (∃ c, Moves program s.draft.timeline.count (.begun s id (program.function id)) c ∧
      Fails program c fault) ∨
    ∃ c frame, Written program id s c ∧ c.state.frame = some frame ∧
      c.state.depth.bytes ≠ frame.leaked := by
  rw [procedure_eq] at run
  have follows := follows_body options depth s found
  cases ran : (do
      emit (spillArguments (program.function id))
      block (envAt program options depth) body : Gen Unit) (s.begun id (program.function id)) with
  | error fault' s₁ =>
      rw [Success.bind_of_error ran] at run
      cases run
      exact .inl (follows.error (Config.valid_begun s id _) ran)
  | ok a s₁ =>
      obtain ⟨c, rfl, _, written⟩ := follows.ok (Config.valid_begun s id _) ran
      rw [Success.bind_of_ok ran] at run
      obtain ⟨frame, same, _⟩ := written.frame
      refine .inr ⟨c, frame, written, same, ?_⟩
      have ended : (match c.state.frame with
          | some frame => finishProcedure options (program.function id) frame
          | none => return () : Gen Unit) c.state = .error fault s' := run
      rw [same] at ended
      exact finishProcedure_error ended

end Procedure

end X64Backend.Lower
