import X64Backend.Proofs.Lower.Replays
import X64Backend.Proofs.Lower.Visits

/-!
Calls as moves of the generator.  The words that a call pushes are even in number; behind the call
they are taken back or left for the epilogue.
-/

namespace X64Backend.Lower

open X64Backend.Tree

variable {program : TypedProgram} {since : Handle} {c c' : Config}

section Arguments

variable {parameter : Variable} {argument : Operand}

theorem keeps_referent (usable : argument.Usable since c.count) :
    Keeps program since c (referent parameter argument) (Yield since) := by
  unfold referent
  split
  · exact Keeps.pure (Operand.usable_resize.mpr usable)
  · exact Keeps.throw rfl

theorem keeps_stackArgument (usable : argument.Usable since c.count) :
    Keeps program since c (stackArgument parameter argument) (Yield since) := by
  unfold stackArgument
  split
  · refine (keeps_referent usable).bind fun cell c₁ _ ofCell => ?_
    refine (keeps_nextRegister _).bind fun register c₂ kept fresh => ?_
    exact (keeps_emitBinary fresh (kept.usable ofCell)).bind fun _ c₃ kept' _ =>
      Keeps.pure (kept'.usable fresh)
  · exact Keeps.pure usable

theorem keeps_pushable {type : TypeRef} {value : Operand} (usable : value.Usable since c.count) :
    Keeps program since c (pushable type value) (Yield since) := by
  unfold pushable
  split
  · split
    · exact Keeps.pure usable
    · exact keeps_loaded usable
  · exact Keeps.pure (usable.resize _)
  · split
    · exact Keeps.pure usable
    · exact keeps_loaded usable
  · exact Keeps.pure usable

/-- One more word is on the stack for the call that is being made. -/
def Config.pushed (c : Config) (words : Nat) : Config :=
  { c with words := c.words + words }

theorem Config.pushed_pushed (c : Config) (first second : Nat) :
    (c.pushed first).pushed second = c.pushed (first + second) := by
  simp [Config.pushed, Nat.add_assoc]

theorem Kept.pushed (kept : Kept c c') (words : Nat) : Kept (c.pushed words) (c'.pushed words) :=
  ⟨kept.awaited, congrArg (· + words) kept.words, kept.loops, kept.activations, kept.count,
    kept.defined⟩

/-- An instruction that changes the depth of the stack, in one step. -/
def stacking (instr : Instr) (action : Tracking String) : Gen String := fun s =>
  match action s.depth with
  | .ok message depth => .ok message { s.emitted instr with depth }
  | .error fault depth => .error fault { s.emitted instr with depth }

theorem stacking_eq (instr : Instr) (action : Tracking String) :
    (do emit [instr]; tracking action) = (do log (← stacking instr action)) :=
  rfl

/-- A word is pushed and counted. -/
theorem follows_push {instr : Instr} {action : Tracking String} (plain : instr.Plain since c.count)
    (counts : ∃ message depth, action c.state.depth = .ok message depth ∧
      depth.words = c.state.depth.words + 1) :
    Follows program since c (do emit [instr]; tracking action) fun _ c' =>
      Kept (c.pushed 1) c' := by
  obtain ⟨message, depth, ran, counted⟩ := counts
  obtain ⟨op, proper⟩ := plain.proper
  have pushed : Follows program since c (stacking instr action) fun _ c' =>
      Kept (c.pushed 1) c' := by
    intro valid
    simp only [stacking, ran]
    exact ⟨_, rfl, .single (.push proper plain.inLine plain.usable counted),
      ⟨rfl, rfl, rfl, rfl, Nat.le_refl _, .refl _⟩⟩
  rw [stacking_eq]
  refine pushed.bind fun message c₁ kept => ?_
  exact Follows.mono (keeps_log message) fun _ c₂ _ promise => kept.trans promise.1

theorem follows_pushArgument (usable : argument.Usable since c.count) :
    Follows program since c (pushArgument parameter argument) fun _ c' =>
      Kept (c.pushed 1) c' := by
  refine Follows.bind (keeps_stackArgument usable) ?_
  rintro value c₁ ⟨kept₁, ofValue⟩
  refine Follows.bind (keeps_pushable ofValue) ?_
  rintro word c₂ ⟨kept₂, ofWord⟩
  rw [← bind_assoc]
  refine Follows.bind (follows_push (Instr.plain_unary rfl ofWord) ⟨_, _, rfl, rfl⟩) ?_
  intro _ c₃ kept₃
  refine Follows.mono (keeps_release word) fun _ c₄ _ promise => ?_
  exact ((kept₁.trans kept₂).pushed 1).trans (kept₃.trans promise.1)

theorem follows_pushArguments {items : List (Variable × Operand)}
    (usable : ∀ item ∈ items, item.2.Usable since c.count) :
    Follows program since c (items.forM fun item => pushArgument item.1 item.2) fun _ c' =>
      Kept (c.pushed items.length) c' := by
  induction items generalizing c with
  | nil => exact Follows.pure (.refl c)
  | cons item rest inductionHypothesis =>
      refine Follows.bind (follows_pushArgument (usable item (by simp))) ?_
      intro _ c₁ kept
      have later := inductionHypothesis (c := c₁) fun other member =>
        (usable other (by simp [member])).later kept.count
      refine later.mono fun _ c₂ _ kept' => ?_
      rw [List.length_cons, Nat.add_comm, ← Config.pushed_pushed]
      exact (kept.pushed _).trans kept'

theorem follows_padStack :
    Follows program since c padStack fun _ c' => Kept (c.pushed 1) c' := by
  have counted : (8 / 8 : Int64) = 1 := by decide
  have lowered : ∃ message depth, StackDepth.sub 8 c.state.depth = .ok message depth ∧
      depth.words = c.state.depth.words + 1 :=
    ⟨_, _, rfl, congrArg (c.state.depth.words + ·) counted⟩
  refine follows_push (Instr.plain_binary.mpr ⟨?_, Operand.usable_lit _⟩) lowered
  exact Operand.usable_reg.mpr Register.usable_rsp

/-- The registers of arguments need not be restored. -/
theorem usable_argumentRegister {phys : Phys} {size : Size} {count : Handle}
    (member : phys ∈ CallingConvention.argumentRegisters) :
    (Operand.reg (.fix phys size)).Usable since count := by
  have free : ∀ phys ∈ CallingConvention.argumentRegisters, ∀ slot,
      slot ≠ Pool.accumulator → Pool.slotPhys slot ≠ phys := by
    decide
  exact usable_fixed (free phys member)

theorem keeps_passInRegister {phys : Phys} (member : phys ∈ CallingConvention.argumentRegisters)
    (usable : argument.Usable since c.count) :
    Keeps program since c (passInRegister parameter argument phys) Any := by
  unfold passInRegister
  split
  · refine (keeps_referent usable).bind fun cell c₁ _ ofCell => ?_
    exact keeps_emitBinary (usable_argumentRegister member) ofCell
  · exact keeps_move (usable_argumentRegister member) usable

end Arguments

/-- The arguments of a call take an even number of words, and not more than there are parameters. -/
theorem follows_passArguments {params : List Variable} {arguments : List Operand}
    (usable : ∀ argument ∈ arguments, argument.Usable since c.count) :
    Follows program since c (passArguments params arguments) fun words c' =>
      Kept (c.pushed words) c' ∧ Even words ∧ words ≤ params.length := by
  unfold passArguments
  dsimp only
  generalize onStack : (params.zip arguments).drop CallingConvention.argumentRegisters.length =
    items
  have among : ∀ item ∈ items, item.2 ∈ arguments := by
    rintro ⟨parameter, argument⟩ member
    rw [← onStack] at member
    exact (List.of_mem_zip (List.mem_of_mem_drop member)).2
  have fewer : items.length + items.length % 2 ≤ params.length := by
    have length : items.length = min params.length arguments.length - 6 := by
      rw [← onStack, List.length_drop, List.length_zip]
      rfl
    omega
  have even : Even (items.length + items.length % 2) := by
    rw [Nat.even_iff]
    omega
  have rest : ∀ {c₁ : Config}, Kept (c.pushed (items.length % 2)) c₁ →
      Follows program since c₁ (do
        items.reverse.forM fun item => pushArgument item.1 item.2
        ((params.zip arguments).zip CallingConvention.argumentRegisters).forM
          fun item => passInRegister item.1.1 item.1.2 item.2
        arguments.forM release
        return items.length + items.length % 2) fun words c' =>
        Kept (c.pushed words) c' ∧ Even words ∧ words ≤ params.length := by
    intro c₁ kept₁
    have usable₁ : ∀ argument ∈ arguments, argument.Usable since c₁.count :=
      fun argument member => (usable argument member).later kept₁.count
    refine Follows.bind (follows_pushArguments fun item member =>
      usable₁ item.2 (among item (List.mem_reverse.mp member))) ?_
    intro _ c₂ kept₂
    have passed : Keeps program since c₂
        (((params.zip arguments).zip CallingConvention.argumentRegisters).forM
          fun item => passInRegister item.1.1 item.1.2 item.2) Any := by
      refine Keeps.forM ?_
      rintro ⟨⟨parameter, argument⟩, phys⟩ member c₃ kept₃
      obtain ⟨pair, register⟩ := List.of_mem_zip member
      refine keeps_passInRegister register ?_
      exact (usable₁ argument (List.of_mem_zip pair).2).later
        (Nat.le_trans kept₂.count kept₃.count)
    refine Follows.bind passed ?_
    rintro _ c₃ ⟨kept₃, _⟩
    refine Follows.bind (Keeps.forM fun argument _ c₄ _ => keeps_release argument) ?_
    rintro _ c₄ ⟨kept₄, _⟩
    refine Follows.pure ⟨?_, even, fewer⟩
    rw [List.length_reverse] at kept₂
    rw [Nat.add_comm, ← Config.pushed_pushed]
    exact (kept₁.pushed _).trans (kept₂.trans (kept₃.trans kept₄))
  split
  · rename_i odd
    refine Follows.bind follows_padStack fun _ c₁ kept₁ => rest ?_
    rw [odd]
    exact kept₁
  · rename_i notOdd
    have none : items.length % 2 = 0 := by omega
    refine rest ?_
    rw [none]
    exact .refl c

theorem keeps_callResult (size : Size) :
    Keeps program since c (callResult size) fun result c' =>
      Yield since result c' ∧ SameFrame c result c' := by
  unfold callResult
  split
  · exact Keeps.pure ⟨Operand.usable_absent, rfl⟩
  · exact (keeps_callAlloc size).bind fun _ _ _ allocated => Keeps.pure allocated

theorem keeps_trackCall {target : String} (even : Even c.words) :
    Keeps program since c (tracking (StackDepth.call target)) (SameFrame c) := by
  have first : Keeps program since c (fun state : State =>
      match StackDepth.call target state.depth with
      | .ok message depth => .ok message { state with depth }
      | .error fault depth => .error fault { state with depth })
      fun _ c' => c'.state.frame = c.state.frame := by
    intro valid
    dsimp only
    cases ran : StackDepth.call target c.state.depth with
    | ok message depth =>
        have same : depth.words = c.state.depth.words := by
          simp only [StackDepth.call, StackDepth.record, Success.bind_ok, Success.get_ok,
            Success.ite_apply] at ran
          obtain ⟨_, _, ⟨rfl, rfl⟩, ran⟩ := ran
          split at ran
          · simp at ran
          · simp only [Success.bind_ok, Success.get_ok, Success.set_ok, Success.pure_ok] at ran
            obtain ⟨_, _, ⟨rfl, rfl⟩, _, _, rfl, _, rfl⟩ := ran
            rfl
        exact ⟨c.turn { c.state with depth }, rfl,
          .single (.note ⟨rfl, rfl, rfl, rfl, rfl, rfl, rfl, same, id⟩),
          ⟨rfl, rfl, rfl, rfl, Nat.le_refl _, .refl _⟩, rfl⟩
    | error fault depth => exact ⟨c, .refl, .call even ran⟩
  refine first.bind fun message c₁ _ same => ?_
  exact (keeps_log message).mono fun _ c₂ _ same' => same'.trans same

theorem keeps_transfer (callee : FnId) (isVirtual : Bool) :
    Keeps program since c (emit (transfer (program.function callee) isVirtual)) (SameFrame c) := by
  intro valid
  refine ⟨c.turn (c.state.withText (c.state.draft.text.append
    (transfer (program.function callee) isVirtual))), rfl, ?_,
    ⟨rfl, rfl, rfl, rfl, Nat.le_refl _, .refl _⟩, rfl⟩
  cases isVirtual with
  | false => exact .single (.transfer callee)
  | true =>
      have table : (Operand.reg (.fix .r11 .s64)).Usable since c.count := usable_fixed (by decide)
      have receiver : (Operand.reg (.fix .rdi .s64)).Usable since c.count :=
        usable_fixed (by decide)
      have loaded : (Instr.binary .mov (.reg (.fix .r11 .s64))
          (.mem (.ofBase (.fix .rdi .s64) 0 .s64))).Plain since c.count :=
        Instr.plain_binary.mpr ⟨table, Operand.usable_ofBase.mpr (Operand.usable_reg.mp receiver)⟩
      have first : Move program since c _ := .emit rfl (.inl loaded.inLine) loaded.usable
      refine .tail (.single first) (.emit rfl (.inl rfl) ?_)
      intro operand member
      rw [List.mem_singleton.mp member]
      exact Operand.usable_ofBase.mpr (Operand.usable_reg.mp table)

theorem modifyFrame_modifyFrame (first second : Frame → Frame) :
    (do modifyFrame first; modifyFrame second) = modifyFrame (second ∘ first) := by
  funext s
  have composed : (s.frame.map first).map second = s.frame.map (second ∘ first) :=
    Option.map_map ..
  change EStateM.Result.ok () { s with frame := (s.frame.map first).map second } = _
  rw [composed]
  rfl

/-- The end of the first call, in one step. -/
def takeBack (number : Operand) (bytes : Int64) : Gen String := fun s =>
  stacking (.binary .add (.reg rsp) number) (StackDepth.add bytes)
    { s with frame := s.frame.map fun frame => { frame with leaf := false } }

theorem takeBack_eq (number : Operand) (bytes : Int64) : (do
    modifyFrame fun frame => { frame with leaf := false }
    emit [.binary .add (.reg rsp) number]
    tracking (StackDepth.add bytes)) = (do log (← takeBack number bytes)) :=
  rfl

theorem words_of_add {amount : Int64} {message : String} {depth depth' : StackDepth}
    (run : StackDepth.add amount depth = .ok message depth') :
    depth'.words = depth.words + -(amount / 8) := by
  simp only [StackDepth.add, StackDepth.move, StackDepth.record, Success.bind_ok, Success.get_ok,
    Success.ite_apply] at run
  obtain ⟨_, _, ⟨rfl, rfl⟩, run⟩ := run
  split at run
  · simp at run
  · simp only [Success.bind_ok, Success.modify_ok, Success.get_ok, Success.set_ok,
      Success.pure_ok] at run
    obtain ⟨_, _, rfl, _, _, ⟨rfl, rfl⟩, _, _, rfl, _, rfl⟩ := run
    rfl

/-- The words of the first call are taken back. -/
theorem follows_takeBack {number : Operand} (measured : c.Measured program)
    (leaf : ∀ frame, c.state.frame = some frame → frame.leaf = true)
    (usable : number.Usable since c.count) :
    Follows program since c (do log (← takeBack number (8 * .ofNat c.words))) fun _ c' =>
      Kept { c with words := 0 } c' := by
  have plain : (Instr.binary .add (.reg rsp) number).Plain since c.count :=
    Instr.plain_binary.mpr ⟨Operand.usable_reg.mpr Register.usable_rsp, usable⟩
  let c₁ := c.turn (c.state.emitted (.binary .add (.reg rsp) number))
  have first : Move program since c c₁ := .emit rfl (.inl plain.inLine) plain.usable
  have counts : Follows program since c (takeBack number (8 * .ofNat c.words)) fun _ c' =>
      Kept { c with words := 0 } c' := by
    intro valid
    simp only [takeBack, stacking]
    cases ran : StackDepth.add (8 * .ofNat c.words) c.state.depth with
    | error fault depth => exact ⟨c₁, .single first, .reclaim measured leaf ran⟩
    | ok message depth =>
        have second : Move program since c₁ _ := .reclaim measured leaf (words_of_add ran)
        exact ⟨_, rfl, .tail (.single first) second, ⟨rfl, rfl, rfl, rfl, Nat.le_refl _, .refl _⟩⟩
  refine counts.bind fun message c₂ kept => ?_
  exact Follows.mono (keeps_log message) fun _ c₃ _ promise => kept.trans promise.1

/-- The end of a call: the words that it took are taken back or left for the epilogue. -/
theorem follows_reclaim {words : Nat} {wasLeaf : Bool} (measured : c.Measured program)
    (even : Even c.words) (counted : c.words = words) (leaf : wasLeaf = (c.state.frame.map Frame.leaf).getD true) :
    Follows program since c (do
      modifyFrame fun frame => { frame with leaf := false }
      reclaim words wasLeaf) fun _ c' => Kept { c with words := 0 } c' := by
  subst counted
  by_cases none : c.words = 0
  · have idle : reclaim c.words wasLeaf = pure () := by simp [reclaim, none]
    rw [idle]
    refine Follows.bind (P := fun _ c' => Kept { c with words := 0 } c') ?_ fun _ c₁ kept =>
      Follows.pure kept
    exact Follows.modify (.called none) rfl ⟨rfl, none, rfl, rfl, Nat.le_refl _, .refl _⟩
  simp only [reclaim, none, if_false]
  cases wasLeaf with
  | false =>
      have leaks : ∀ frame, c.state.frame = some frame → frame.leaf = false := by
        intro frame found
        rw [found] at leaf
        exact leaf.symm
      simp only [Bool.false_eq_true, if_false, modifyFrame_modifyFrame]
      exact Follows.modify (.leak even leaks) rfl ⟨rfl, rfl, rfl, rfl, Nat.le_refl _, .refl _⟩
  | true =>
      have first : ∀ frame, c.state.frame = some frame → frame.leaf = true := by
        intro frame found
        rw [found] at leaf
        exact leaf.symm
      simp only [if_true, takeBack_eq]
      exact follows_takeBack measured first (Operand.usable_lit _)

theorem keeps_emitCall {callee : FnId} {arguments : List Operand} {isVirtual : Bool}
    (idle : c.words = 0) (usable : ∀ argument ∈ arguments, argument.Usable since c.count) :
    Keeps program since c (emitCall (program.function callee) arguments isVirtual)
      (Yield since) := by
  refine Follows.bind (follows_passArguments usable) ?_
  rintro words c₁ ⟨kept₁, even, fewer⟩
  have counted : c₁.words = words := by
    rw [kept₁.words, Config.pushed, idle, Nat.zero_add]
  refine Follows.bind (Follows.get (P := fun s c' => c₁.state = s ∧ c₁ = c') ⟨rfl, rfl⟩) ?_
  rintro _ _ ⟨rfl, rfl⟩
  refine Follows.bind keeps_reserve ?_
  rintro _ c₂ ⟨kept₂, frame₂⟩
  refine Follows.bind (keeps_callResult _) ?_
  rintro result c₃ ⟨kept₃, ofResult, frame₃⟩
  have kept : Kept (c.pushed words) c₃ := kept₁.trans (kept₂.trans kept₃)
  have counted₃ : c₃.words = words := by rw [kept.words, ← kept₁.words, counted]
  refine Follows.bind (keeps_trackCall (by rw [counted₃]; exact even)) ?_
  rintro _ c₄ ⟨kept₄, frame₄⟩
  refine Follows.bind (keeps_transfer callee isVirtual) ?_
  rintro _ c₅ ⟨kept₅, frame₅⟩
  have kept' : Kept (c.pushed words) c₅ := kept.trans (kept₄.trans kept₅)
  have counted₅ : c₅.words = words := by rw [kept'.words, ← kept₁.words, counted]
  have measured : c₅.Measured program := ⟨callee, by rw [counted₅]; exact fewer⟩
  have leaf : (c₁.state.frame.map Frame.leaf).getD true =
      (c₅.state.frame.map Frame.leaf).getD true := by
    rw [frame₅, frame₄, frame₃, frame₂]
  rw [← bind_assoc]
  refine Follows.bind (follows_reclaim measured (by rw [counted₅]; exact even) counted₅ leaf) ?_
  intro _ c₆ kept₆
  have restored : Kept c { c₅ with words := 0 } :=
    ⟨kept'.awaited, idle.symm, kept'.loops, kept'.activations, kept'.count, kept'.defined⟩
  refine Follows.pure ⟨restored.trans kept₆, ?_⟩
  exact ofResult.later (Nat.le_trans (kept₄.trans kept₅).count kept₆.count)

/-- A computation of an operand, anywhere outside of the passing of arguments. -/
def Produces (program : TypedProgram) (since : Handle) (action : Gen Operand) : Prop :=
  ∀ c : Config, c.words = 0 → Keeps program since c action (Yield since)

/-- Calls can be expanded in place. -/
def Env.Expandable (env : Env) (since : Handle) : Prop :=
  ∀ callee (c : Config) arguments, c.words = 0 →
    (∀ argument ∈ arguments, argument.Usable since c.count) →
    Keeps env.program since c (env.expand callee arguments) (Yield since)

/-- The arguments of a call are being computed. -/
def Config.calling (c : Config) (callee : FnId) : Config :=
  c.turn (c.state.calling callee)

/-- A call in progress ends where it began. -/
theorem keeps_withCall {callee : FnId} {action : Gen Operand}
    (keeps : Keeps program since (c.calling callee) action (Yield since)) :
    Keeps program since c (do
      let (result, _) ← withActivation (.ofCall callee) action
      return result) (Yield since) := by
  have none : ∀ operand ∈ (Activation.ofCall callee).operands, operand.Usable since c.count := by
    intro operand member
    rw [List.mem_singleton.mp member]
    exact Operand.usable_absent
  have entered : Follows program since c
      (modify fun s => { s with activations := .ofCall callee :: s.activations }) fun _ c' =>
        c.calling callee = c' :=
    Follows.modify (.enter rfl rfl none) rfl rfl
  simp only [withActivation, bind_assoc, pure_bind]
  refine Follows.bind entered ?_
  rintro _ _ rfl
  refine Follows.bind keeps ?_
  rintro result c₁ ⟨kept, usable⟩
  refine Follows.bind (Follows.get (P := fun s c' => c₁.state = s ∧ c₁ = c') ⟨rfl, rfl⟩) ?_
  rintro _ _ ⟨rfl, rfl⟩
  have left : c₁.state.activations = .ofCall callee :: c.state.activations := kept.activations
  have ended : Follows program since c₁
      (modify fun s => { s with activations := c₁.state.activations.drop 1 }) fun _ c' =>
        Kept c c' ∧ Yield since result c' := by
    refine Follows.modify (.done left rfl) (by rw [left]; rfl) ⟨?_, usable⟩
    exact ⟨kept.awaited, kept.words, kept.loops, rfl, kept.count, kept.defined⟩
  exact Follows.bind ended fun _ c₂ promise => Follows.pure promise

section Invocation

variable {env : Env} {callee : FnId}

theorem keeps_shouldExpand : Keeps program since c (shouldExpand env callee) Any := by
  unfold shouldExpand
  dsimp only
  split
  · exact Keeps.pure trivial
  · refine (Keeps.get (P := Any) trivial).bind fun s c₁ _ _ => ?_
    split
    · exact (keeps_log _).bind fun _ _ _ _ => Keeps.pure trivial
    · split
      · exact (keeps_log _).bind fun _ _ _ _ => Keeps.pure trivial
      · exact Keeps.pure trivial

/-- The operands that a call is given may be named. -/
def YieldAll (since : Handle) (operands : List Operand) (c : Config) : Prop :=
  ∀ operand ∈ operands, operand.Usable since c.count

theorem keeps_invoke {arguments : Gen (List Operand)} {isVirtual : Bool}
    (expandable : env.Expandable since) (idle : c.words = 0)
    (computed : ∀ c', c'.words = 0 → c.count ≤ c'.count →
      Keeps env.program since c' arguments (YieldAll since)) :
    Keeps env.program since c (invoke env callee arguments isVirtual) (Yield since) := by
  have emitted : ∀ c₁, Kept c c₁ → Keeps env.program since c₁ (do
      let (result, _) ← withActivation (.ofCall callee) do
        let operands ← arguments
        emitCall (env.program.function callee) operands isVirtual
      return result) (Yield since) := by
    intro c₁ kept
    apply keeps_withCall
    have idle₁ : (c₁.calling callee).words = 0 := kept.words.trans idle
    refine (computed (c₁.calling callee) idle₁ kept.count).bind fun operands c₂ kept₂ usable => ?_
    exact keeps_emitCall (kept₂.words.trans idle₁) usable
  unfold invoke
  cases isVirtual with
  | true => exact emitted c (.refl c)
  | false =>
      refine (keeps_shouldExpand (c := c)).bind fun expanded c₁ kept₁ _ => ?_
      cases expanded with
      | false => exact emitted c₁ kept₁
      | true =>
          have idle₁ : c₁.words = 0 := kept₁.words.trans idle
          refine (computed c₁ idle₁ kept₁.count).bind fun operands c₂ kept₂ usable => ?_
          exact expandable callee c₂ operands (kept₂.words.trans idle₁) usable

theorem keeps_operandsOf {fn : Function} {receiver : Option (Gen Operand)}
    {arguments : List (Gen Operand × Gen Operand)} (idle : c.words = 0)
    (ofReceiver : ∀ value, receiver = some value → Keeps program since c value (Yield since))
    (ofArguments : ∀ pair ∈ arguments,
      Produces program since pair.1 ∧ Produces program since pair.2) :
    Keeps program since c (operandsOf fn receiver arguments) (YieldAll since) := by
  have rest : ∀ operands c₁, Kept c c₁ → YieldAll since operands c₁ →
      Keeps program since c₁ (do
        let given := operands.length + arguments.length
        if given ≠ fn.args.length then
          throw (.argumentCount fn.signature fn.args.length given)
        let rest ← (arguments.zip (fn.args.drop operands.length)).mapM
          fun item => if item.2.byRef then item.1.2 else item.1.1
        return operands ++ rest) (YieldAll since) := by
    intro operands c₁ kept₁ usable
    have idle₁ : c₁.words = 0 := kept₁.words.trans idle
    have others : Keeps program since c₁ ((arguments.zip (fn.args.drop operands.length)).mapM
        fun item => if item.2.byRef then item.1.2 else item.1.1)
        fun results c' => ∀ result ∈ results, Yield since result c' := by
      refine Keeps.mapM (fun operand c₂ c₃ kept usable => kept.usable usable) ?_
      rintro ⟨pair, parameter⟩ member c₂ kept₂
      obtain ⟨ofValue, ofAddress⟩ := ofArguments pair (List.of_mem_zip member).1
      dsimp only
      split
      · exact ofAddress c₂ (kept₂.words.trans idle₁)
      · exact ofValue c₂ (kept₂.words.trans idle₁)
    dsimp only
    split
    · exact Follows.throw_bind rfl
    · refine others.bind fun results c₂ kept₂ usable' => Keeps.pure ?_
      intro operand member
      rcases List.mem_append.mp member with member | member
      · exact kept₂.usable (usable operand member)
      · exact usable' operand member
  unfold operandsOf
  cases fn.receiver with
  | none => exact rest [] c (.refl c) (by simp [YieldAll])
  | some parameter =>
      cases receiver with
      | none => exact Follows.throw_bind rfl
      | some value =>
          refine (ofReceiver value rfl).bind fun operand c₁ kept₁ usable => ?_
          refine rest [operand] c₁ kept₁ ?_
          intro other member
          rw [List.mem_singleton.mp member]
          exact usable

theorem produces_newObject {cls : ClassId} {arguments : List (Gen Operand × Gen Operand)}
    (expandable : env.Expandable since)
    (ofArguments : ∀ pair ∈ arguments,
      Produces env.program since pair.1 ∧ Produces env.program since pair.2) :
    Produces env.program since (newObject env cls arguments) := by
  intro c idle
  refine (keeps_allocateObject _).bind fun object c₁ kept₁ fresh => ?_
  split
  · exact Keeps.pure fresh
  · refine (keeps_lock _).bind fun _ c₂ kept₂ _ => ?_
    have idle₂ : c₂.words = 0 := (kept₁.trans kept₂).words.trans idle
    refine (keeps_invoke expandable idle₂ ?_).bind fun result c₃ kept₃ _ => ?_
    · intro c' idle' later
      refine keeps_operandsOf idle' ?_ ofArguments
      intro value same
      cases same
      exact Keeps.pure ((kept₂.usable fresh).later later)
    · refine (keeps_release result).bind fun _ c₄ kept₄ _ => ?_
      refine (keeps_unlock _).bind fun _ c₅ kept₅ _ => Keeps.pure ?_
      exact (kept₂.trans (kept₃.trans (kept₄.trans kept₅))).usable fresh

end Invocation

end X64Backend.Lower
