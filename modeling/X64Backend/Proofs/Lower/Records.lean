import X64Backend.Proofs.Lower.LocalWork

/-!
What a computation puts on record.  Problems are collected while generation goes on, so a program is
accepted if nothing is on record at the end.  A judgement about a computation says what its silence
means: if nothing is on record behind it, nothing was before, and what it checks holds; and what is
enough for it to be silent, even where it fails.
-/

namespace X64Backend.Lower

open X64Backend.Tree Drafting

/-- No problem has been recorded, and the next one will be. -/
def State.Unreported (s : State) : Prop :=
  s.collector.errors = #[] ∧ 0 < s.collector.maxErrors

/-- The calls in progress, the loops, the procedure, and how many problems are recorded at most. -/
def State.surroundings (s : State) : List Activation × List Loop × Option FnId × Nat :=
  (s.activations, s.loops, s.frame.map Frame.fn, s.collector.maxErrors)

/-- What a computation may neither add to nor change. -/
def State.record (s : State) : Collector × List Activation × List Loop × Option FnId × Nat :=
  (s.collector, s.surroundings)

/-- A computation that records nothing, whatever comes of it. -/
abbrev Mute {α : Type} (action : Gen α) : Prop := Leaves State.record action

/-- Where a computation has come to, whether it succeeds or not. -/
def final {α : Type} : EStateM.Result Fault State α → State
  | .ok _ s | .error _ s => s

/-- What the silence of a computation means, and what is enough for it. -/
structure Checks {α : Type} (s : State) (action : Gen α) (checked enough : Prop)
    (promise : α → State → Prop) : Prop where
  ok : ∀ {a s'}, action s = .ok a s' →
    promise a s' ∧ (s'.Unreported → s.Unreported ∧ checked)
  silent : enough → s.Unreported → (final (action s)).Unreported

/-- A computation of expressions, which leaves the surroundings alone.  What it promises about its
result holds as long as nothing is on record. -/
abbrev Judges {α : Type} (s : State) (action : Gen α) (checked enough : Prop)
    (promise : α → Prop) : Prop :=
  Checks s action checked enough fun a s' =>
    s'.surroundings = s.surroundings ∧ (s'.Unreported → promise a)

section Rules

variable {α β : Type} {s s' : State} {action : Gen α} {next : α → Gen β} {checked enough : Prop}

/-- A problem is put on record behind the others, unless there are too many already. -/
theorem collector_add_problem (collector : Collector) (problem : Problem) (location : Location) :
    ∃ diagnostic, collector.add (.ofProblem problem location) =
      if collector.errors.size < collector.maxErrors then
        { collector with errors := collector.errors.push diagnostic }
      else collector := by
  refine ⟨{ Diagnostic.ofProblem problem location with
    sourceLine := collector.sourceLine location.line }, ?_⟩
  rfl

theorem collector_add_maxErrors (collector : Collector) (problem : Problem) (location : Location) :
    (collector.add (.ofProblem problem location)).maxErrors = collector.maxErrors := by
  obtain ⟨diagnostic, added⟩ := collector_add_problem collector problem location
  rw [added]
  split
  · rfl
  · rfl

/-- Behind a report something is on record, if anything can be. -/
theorem collector_add_errors (collector : Collector) (problem : Problem) (location : Location)
    (open' : 0 < collector.maxErrors) :
    (collector.add (.ofProblem problem location)).errors ≠ #[] := by
  obtain ⟨diagnostic, added⟩ := collector_add_problem collector problem location
  rw [added]
  split
  · exact Array.push_ne_empty
  · rename_i full
    intro none
    rw [none] at full
    exact full open'

/-- What has been recorded decides whether anything has been. -/
theorem State.Unreported.of_same (unreported : s.Unreported) (same : s'.collector = s.collector) :
    s'.Unreported := by
  unfold State.Unreported
  rw [same]
  exact unreported

namespace Checks

variable {promise : α → State → Prop}

theorem of_error {fault : Fault} (fails : action s = .error fault s) :
    Checks s action checked enough promise := by
  refine ⟨fun run => ?_, fun _ unreported => ?_⟩
  · rw [fails] at run
    cases run
  · rw [fails]
    exact unreported

theorem congr {action' : Gen α} (same : action s = action' s)
    (checks : Checks s action' checked enough promise) : Checks s action checked enough promise :=
  ⟨fun run => checks.ok (same ▸ run), fun adequate unreported =>
    same ▸ checks.silent adequate unreported⟩

theorem throw (fault : Fault) : Checks s (throw fault : Gen α) checked enough promise :=
  of_error rfl

theorem pure {a : α} (promised : promise a s) (checks : checked) :
    Checks s (Pure.pure a) checked enough promise := by
  refine ⟨fun run => ?_, fun _ unreported => unreported⟩
  obtain ⟨rfl, rfl⟩ := Success.pure_ok.mp run
  exact ⟨promised, fun unreported => ⟨unreported, checks⟩⟩

theorem mono {checked' enough' : Prop} {promise' : α → State → Prop}
    (checks : Checks s action checked enough promise)
    (ofChecked : ∀ a s', promise a s' → s'.Unreported → checked → checked')
    (ofEnough : enough' → enough)
    (ofPromise : ∀ a s', (s'.Unreported → checked) → promise a s' → promise' a s') :
    Checks s action checked' enough' promise' := by
  refine ⟨fun run => ?_, fun adequate unreported => checks.silent (ofEnough adequate) unreported⟩
  obtain ⟨promised, earlier⟩ := checks.ok run
  refine ⟨ofPromise _ _ (fun unreported => (earlier unreported).2) promised, fun unreported => ?_⟩
  exact ⟨(earlier unreported).1, ofChecked _ _ promised unreported (earlier unreported).2⟩

theorem bind {checked' enough' : α → State → Prop} {promise' : β → State → Prop}
    (first : Checks s action checked enough promise)
    (second : ∀ a s₁, promise a s₁ →
      Checks s₁ (next a) (checked' a s₁) (enough' a s₁) promise') :
    Checks s (action >>= next)
      (checked ∧ ∃ a s₁, promise a s₁ ∧ s₁.Unreported ∧ checked' a s₁)
      (enough ∧ ∀ a s₁, promise a s₁ → s₁.Unreported → enough' a s₁) promise' := by
  constructor
  · intro b s' run
    obtain ⟨a, s₁, ran, run⟩ := Success.bind_ok.mp run
    obtain ⟨promised, earlier⟩ := first.ok ran
    obtain ⟨promised', earlier'⟩ := (second a s₁ promised).ok run
    refine ⟨promised', fun unreported => ?_⟩
    obtain ⟨unreported₁, checks'⟩ := earlier' unreported
    obtain ⟨unreported₀, checks⟩ := earlier unreported₁
    exact ⟨unreported₀, checks, a, s₁, promised, unreported₁, checks'⟩
  · rintro ⟨adequate, others⟩ unreported
    have behind := first.silent adequate unreported
    cases ran : action s with
    | error fault s₁ =>
        rw [ran] at behind
        rw [Success.bind_of_error ran]
        exact behind
    | ok a s₁ =>
        rw [ran] at behind
        rw [Success.bind_of_ok ran]
        obtain ⟨promised, _⟩ := first.ok ran
        exact (second a s₁ promised).silent (others a s₁ promised behind) behind

end Checks

namespace Judges

variable {promise : α → Prop} {promise' : β → Prop}

theorem pure {a : α} (promised : promise a) (checks : checked) :
    Judges s (Pure.pure a) checked enough promise :=
  Checks.pure ⟨rfl, fun _ => promised⟩ checks

theorem mono {checked' enough' : Prop} {promise' : α → Prop}
    (judges : Judges s action checked enough promise) (ofChecked : checked → checked')
    (ofEnough : enough' → enough) (ofPromise : ∀ a, checked → promise a → promise' a) :
    Judges s action checked' enough' promise' :=
  Checks.mono judges (fun _ _ _ _ => ofChecked) ofEnough fun a _ checks promised =>
    ⟨promised.1, fun unreported => ofPromise a (checks unreported) (promised.2 unreported)⟩

/-- One computation after another: the silence of the second one covers the first. -/
theorem bind (checked' enough' : α → Prop) (further : α → β → Prop)
    (first : Judges s action checked enough promise)
    (second : ∀ a s₁, s₁.surroundings = s.surroundings →
      Judges s₁ (next a) (checked' a) (enough' a) (further a)) :
    Judges s (action >>= next) (checked ∧ ∃ a, promise a ∧ checked' a)
      (enough ∧ ∀ a, promise a → enough' a) fun b => ∃ a, promise a ∧ further a b := by
  constructor
  · intro b s' run
    obtain ⟨a, s₁, ran, run⟩ := Success.bind_ok.mp run
    obtain ⟨⟨same, promised⟩, earlier⟩ := first.ok ran
    obtain ⟨⟨same', promised'⟩, earlier'⟩ := (second a s₁ same).ok run
    refine ⟨⟨same'.trans same, fun unreported => ?_⟩, fun unreported => ?_⟩
    · exact ⟨a, promised (earlier' unreported).1, promised' unreported⟩
    · obtain ⟨unreported₁, checks'⟩ := earlier' unreported
      obtain ⟨unreported₀, checks⟩ := earlier unreported₁
      exact ⟨unreported₀, checks, a, promised unreported₁, checks'⟩
  · rintro ⟨adequate, others⟩ unreported
    have behind := first.silent adequate unreported
    cases ran : action s with
    | error fault s₁ =>
        rw [ran] at behind
        rw [Success.bind_of_error ran]
        exact behind
    | ok a s₁ =>
        rw [ran] at behind
        rw [Success.bind_of_ok ran]
        obtain ⟨⟨same, promised⟩, _⟩ := first.ok ran
        exact (second a s₁ same).silent (others a (promised behind)) behind

end Judges

theorem Mute.same {a : α} (mute : Mute action) (run : action s = .ok a s') :
    s'.surroundings = s.surroundings :=
  congrArg Prod.snd (mute.ok run)

/-- A computation that records nothing is judged by its results alone. -/
theorem Mute.judges {promise : α → Prop} (mute : Mute action)
    (promised : ∀ a s', action s = .ok a s' → promise a) (checks : checked) :
    Judges s action checked enough promise := by
  constructor
  · intro a s' run
    refine ⟨⟨mute.same run, fun _ => promised a s' run⟩, fun unreported => ⟨?_, checks⟩⟩
    have same : s'.collector = s.collector := congrArg Prod.fst (mute.ok run)
    exact unreported.of_same same.symm
  · intro _ unreported
    cases ran : action s with
    | ok a s₁ =>
        have same : s₁.collector = s.collector := congrArg Prod.fst (mute.ok ran)
        exact unreported.of_same same
    | error fault s₁ =>
        have same : s₁.collector = s.collector := congrArg Prod.fst (mute.error ran).1
        exact unreported.of_same same

theorem Mute.silent (mute : Mute action) : Judges s action True True fun _ => True :=
  mute.judges (fun _ _ _ => trivial) trivial

/-- What comes behind a computation that records nothing is all that counts. -/
theorem Mute.before {promise : β → Prop} (mute : Mute action)
    (rest : ∀ a s₁, action s = .ok a s₁ → s₁.surroundings = s.surroundings →
      Judges s₁ (next a) checked enough promise) :
    Judges s (action >>= next) checked enough promise := by
  constructor
  · intro b s' run
    obtain ⟨a, s₁, ran, run⟩ := Success.bind_ok.mp run
    obtain ⟨⟨same, promised⟩, earlier⟩ := (rest a s₁ ran (mute.same ran)).ok run
    refine ⟨⟨same.trans (mute.same ran), promised⟩, fun unreported => ?_⟩
    obtain ⟨unreported₁, checks⟩ := earlier unreported
    have same : s₁.collector = s.collector := congrArg Prod.fst (mute.ok ran)
    exact ⟨unreported₁.of_same same.symm, checks⟩
  · intro adequate unreported
    cases ran : action s with
    | error fault s₁ =>
        rw [Success.bind_of_error ran]
        have same : s₁.collector = s.collector := congrArg Prod.fst (mute.error ran).1
        exact unreported.of_same same
    | ok a s₁ =>
        rw [Success.bind_of_ok ran]
        have same : s₁.collector = s.collector := congrArg Prod.fst (mute.ok ran)
        exact (rest a s₁ ran (mute.same ran)).silent adequate (unreported.of_same same)

/-- A computation with others behind it that record nothing. -/
theorem Judges.after {promise : α → Prop} {promise' : β → Prop}
    (judges : Judges s action checked enough promise) (mute : ∀ a, Mute (next a))
    (promised : ∀ a s₁ b s₂, promise a → next a s₁ = .ok b s₂ → promise' b) :
    Judges s (action >>= next) checked enough promise' := by
  constructor
  · intro b s' run
    obtain ⟨a, s₁, ran, run⟩ := Success.bind_ok.mp run
    obtain ⟨⟨same, holds⟩, earlier⟩ := judges.ok ran
    have kept : s'.collector = s₁.collector := congrArg Prod.fst ((mute a).ok run)
    refine ⟨⟨((mute a).same run).trans same, fun unreported => ?_⟩, fun unreported => ?_⟩
    · exact promised a s₁ b s' (holds (unreported.of_same kept.symm)) run
    · exact earlier (unreported.of_same kept.symm)
  · intro adequate unreported
    have behind := judges.silent adequate unreported
    cases ran : action s with
    | error fault s₁ =>
        rw [ran] at behind
        rw [Success.bind_of_error ran]
        exact behind
    | ok a s₁ =>
        rw [ran] at behind
        rw [Success.bind_of_ok ran]
        exact ((mute a).silent (s := s₁)).silent trivial behind

/-- A report is the end of silence. -/
theorem judges_report {promise : Unit → Prop} (problem : Problem) (never : ¬ enough) :
    Judges s (report problem) checked enough promise := by
  refine ⟨fun run => ?_, fun adequate => absurd adequate never⟩
  cases run
  have reported : ¬ State.Unreported { s with
      draft := s.draft.traced ("codegen: " ++ problem.message)
      collector := s.collector.add (.ofProblem problem s.location) } := by
    rintro ⟨none, limit⟩
    rw [collector_add_maxErrors] at limit
    exact collector_add_errors _ _ _ limit none
  refine ⟨⟨?_, fun unreported => absurd unreported reported⟩,
    fun unreported => absurd unreported reported⟩
  simp only [State.surroundings, Prod.mk.injEq]
  exact ⟨trivial, trivial, trivial, collector_add_maxErrors _ _ _⟩

/-- Where a problem is reported first, nothing behind it matters but that it does not fail. -/
theorem judges_reporting {promise : β → Prop} (problem : Problem) {rest : Gen β}
    (mute : Mute rest) (never : ¬ enough) :
    Judges s (report problem >>= fun _ => rest) checked enough promise :=
  have ends : Judges s (report problem) checked enough fun _ => False :=
    judges_report problem never
  ends.after (fun _ => mute) fun _ _ _ _ impossible => absurd impossible id

theorem Judges.ite {c : Prop} [Decidable c] {first second : Gen α} {promise : α → Prop}
    (ofFirst : c → Judges s first checked enough promise)
    (ofSecond : ¬ c → Judges s second checked enough promise) :
    Judges s (if c then first else second) checked enough promise := by
  split
  · exact ofFirst ‹_›
  · exact ofSecond ‹_›

end Rules

section Mutes

variable {α : Type}

theorem mute_drafting {action : Drafting α} (draws : Draws action) : Mute (drafting action) := by
  constructor
  · intro s a s' run
    unfold drafting at run
    cases ran : action s.draft with
    | ok b draft => rw [ran] at run; cases run; rfl
    | error fault draft => rw [ran] at run; cases run
  · intro s fault s' run
    unfold drafting at run
    cases ran : action s.draft with
    | ok b draft => rw [ran] at run; cases run
    | error fault draft => rw [ran] at run; cases run; exact ⟨rfl, (draws.error ran).2⟩

theorem mute_log (message : String) : Mute (log message) :=
  mute_drafting (draws_log message)

theorem mute_tracking {action : Tracking String} (counts : StackDepth.Counts action) :
    Mute (tracking action) := by
  refine Leaves.bind ⟨?_, ?_⟩ mute_log
  · intro s a s' run
    cases ran : action s.depth with
    | ok b depth => simp only [ran] at run; cases run; rfl
    | error fault depth => simp only [ran] at run; cases run
  · intro s fault s' run
    cases ran : action s.depth with
    | ok b depth => simp only [ran] at run; cases run
    | error fault depth => simp only [ran] at run; cases run; exact ⟨rfl, (counts.error ran).2⟩

theorem mute_emit (instrs : List Instr) : Mute (emit instrs) :=
  .modify fun _ => rfl

theorem mute_modifyText (change : Stream → Stream) : Mute (modifyText change) :=
  .modify fun _ => rfl

/-- The bookkeeping of a procedure may change as long as it stays the same procedure. -/
theorem mute_modifyFrame (change : Frame → Frame)
    (same : ∀ frame, (change frame).fn = frame.fn) : Mute (modifyFrame change) := by
  refine .modify fun s => ?_
  cases found : s.frame with
  | none => simp [State.record, State.surroundings, found]
  | some frame => simp [State.record, State.surroundings, found, same]

theorem mute_get : Mute get :=
  Leaves.get

theorem mute_lastInstr : Mute lastInstr :=
  Leaves.get.bind fun _ => .pure _

theorem mute_newLabel : Mute newLabel :=
  ⟨fun run => by cases run; rfl, nofun⟩

theorem mute_stackTemp (size : Size) : Mute (stackTemp size) := by
  refine Leaves.bind ?_ fun _ => Leaves.get.bind fun _ => .pure _
  exact mute_modifyFrame _ fun _ => rfl

theorem mute_nextRegister (size : Size) : Mute (drafting (nextRegister size)) :=
  mute_drafting (draws_nextRegister size)

theorem mute_reserve : Mute (drafting reserve) :=
  mute_drafting draws_reserve

theorem mute_callAlloc (size : Size) : Mute (drafting (callAlloc size)) :=
  mute_drafting (draws_callAlloc size)

theorem mute_lock (operand : Operand) : Mute (drafting (lock operand)) :=
  mute_drafting (draws_lock operand)

theorem mute_endStatement : Mute endStatement :=
  mute_drafting (draws_modify _)

theorem mute_temp (operand : Operand) : Mute (temp operand) :=
  Leaves.get.bind fun _ => .pure _

theorem mute_release (operand : Operand) : Mute (release operand) :=
  (mute_drafting (draws_free _ _)).bind fun _ => .pure ()

theorem mute_freeAnyway (operand : Operand) : Mute (freeAnyway operand) :=
  (mute_drafting (draws_free _ _)).bind fun _ => .pure ()

theorem mute_moveRegister (dst src : Register) (signed : Bool) :
    Mute (moveRegister dst src signed) := by
  unfold moveRegister
  split
  · exact mute_emit _
  · exact mute_emit _

theorem mute_moveCell (dst : Register) (src : Pointer) (signed : Bool) :
    Mute (moveCell dst src signed) := by
  unfold moveCell
  split
  · exact mute_emit _
  · exact mute_emit _

theorem mute_viaTemp (dst : Operand) {fill : Register → Gen Unit}
    (ofFill : ∀ register, Mute (fill register)) : Mute (viaTemp dst fill) :=
  (mute_nextRegister _).bind fun register => (ofFill register).bind fun _ =>
    (mute_emit _).bind fun _ => mute_freeAnyway _

theorem mute_lastSet? (location : Operand) : Mute (lastSet? location) :=
  mute_lastInstr.bind fun _ => .pure _

theorem mute_test (operand : Operand) : Mute (test operand) := by
  unfold test
  split
  · exact mute_emit _
  · exact mute_emit _
  · exact .throw nofun

theorem mute_testAndBranch (operand : Operand) (label : String) (wanted : Bool) :
    Mute (testAndBranch operand label wanted) := by
  unfold testAndBranch
  split
  · split
    · exact mute_emit _
    · exact .pure ()
  · refine (mute_lastSet? operand).bind fun found => ?_
    split
    · refine (mute_temp operand).bind fun mine => ?_
      dsimp only
      split
      · exact (mute_modifyText _).bind fun _ => (mute_log _).bind fun _ => mute_release _
      · exact (mute_emit _).bind fun _ => mute_release _
    · exact (mute_test _).bind fun _ => (mute_release _).bind fun _ => mute_emit _

theorem mute_fuseStore (dst value : Operand) : Mute (fuseStore dst value) := by
  refine (mute_temp value).bind fun mine => ?_
  split
  · refine (mute_lastSet? value).bind fun found => ?_
    split
    · exact (mute_modifyText _).bind fun _ => (mute_release _).bind fun _ =>
        (mute_log _).bind fun _ => .pure _
    · exact .pure _
  · exact .pure _

theorem mute_negate (operand : Operand) : Mute (negate operand) := by
  refine (mute_lastSet? operand).bind fun found => (mute_temp operand).bind fun mine => ?_
  split
  · exact (mute_modifyText _).bind fun _ => .pure _
  · exact (mute_test _).bind fun _ => (mute_release _).bind fun _ =>
      (mute_nextRegister _).bind fun _ => (mute_emit _).bind fun _ => .pure _

theorem mute_variableOperand (program : TypedProgram) (id : VarId) :
    Mute (variableOperand program id) := by
  have ofCell : ∀ v offset, Mute (variableOperand.cell v offset) := by
    intro v offset
    unfold variableOperand.cell
    split
    · exact (mute_nextRegister _).bind fun _ => (mute_emit _).bind fun _ => .pure _
    · exact .pure _
  refine Leaves.get.bind fun s => ?_
  dsimp only
  split
  · exact .pure _
  · exact ofCell _ _
  · exact ofCell _ _

theorem mute_literal (value : Literal) : Mute (literal value) := by
  unfold literal
  split
  · exact .pure _
  · refine Leaves.get.bind fun s => ?_
    dsimp only
    split
    · exact .pure _
    · exact Leaves.bind (.modify fun _ => rfl) fun _ => .pure _

theorem mute_reserveIfBusy : Mute reserveIfBusy := by
  refine Leaves.get.bind fun s => ?_
  dsimp only
  split
  · exact mute_reserve
  · exact .pure ()

theorem mute_stable (size : Size) : Mute (stable size) := by
  refine Leaves.get.bind fun s => ?_
  dsimp only
  split
  · exact (mute_nextRegister _).bind fun _ => .pure _
  · exact (mute_log _).bind fun _ => mute_stackTemp _

theorem mute_referent (parameter : Variable) (argument : Operand) :
    Mute (referent parameter argument) := by
  unfold referent
  split
  · exact .pure _
  · exact .throw nofun

theorem mute_stackArgument (parameter : Variable) (argument : Operand) :
    Mute (stackArgument parameter argument) := by
  unfold stackArgument
  split
  · exact (mute_referent _ _).bind fun _ => (mute_nextRegister _).bind fun _ =>
      (mute_emit _).bind fun _ => .pure _
  · exact .pure _

theorem mute_reclaim (words : Nat) (wasLeaf : Bool) : Mute (reclaim words wasLeaf) := by
  unfold reclaim
  dsimp only
  split
  · exact .pure ()
  · split
    · exact (mute_emit _).bind fun _ => mute_tracking (StackDepth.counts_add _)
    · exact mute_modifyFrame _ fun _ => rfl

theorem mute_callResult (size : Size) : Mute (callResult size) := by
  unfold callResult
  split
  · exact .pure _
  · exact (mute_callAlloc _).bind fun _ => .pure _

theorem mute_allocateObject (c : Tree.Class) : Mute (allocateObject c) := by
  refine mute_reserve.bind fun _ => (mute_callAlloc _).bind fun object =>
    (mute_emit _).bind fun _ => (mute_log _).bind fun _ => ?_
  split
  · exact (mute_emit _).bind fun _ => .pure _
  · exact .pure _

theorem mute_shouldExpand (env : Env) (callee : FnId) : Mute (shouldExpand env callee) := by
  unfold shouldExpand
  dsimp only
  split
  · exact .pure _
  · refine Leaves.get.bind fun s => ?_
    split
    · exact (mute_log _).bind fun _ => .pure _
    · split
      · exact (mute_log _).bind fun _ => .pure _
      · exact .pure _

theorem mute_closeExpansion (activation : Activation) : Mute (closeExpansion activation) := by
  have dropped : ∀ label jumps, Mute (dropJump label jumps) := by
    intro label jumps
    refine mute_lastInstr.bind fun last => ?_
    split
    · exact (mute_modifyText _).bind fun _ => (mute_log _).bind fun _ => .pure _
    · exact .pure _
  unfold closeExpansion
  split
  · exact .pure ()
  · refine (dropped _ _).bind fun jumps => ?_
    split
    · exact mute_emit _
    · exact .pure ()

end Mutes

end X64Backend.Lower
