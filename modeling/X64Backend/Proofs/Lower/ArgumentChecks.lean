import X64Backend.Proofs.Lower.OperatorChecks

/-!
Which arguments are checked.  An argument that goes to a register has to fit its parameter, and so
does one that an expansion copies.  An argument on the stack is pushed as it is, whatever the width
of its parameter, and a parameter that is not copied stands for the argument itself.
-/

namespace X64Backend.Lower

open X64Backend.Tree Drafting

variable {s s' : State}

section Loops

variable {α : Type} {checked enough : α → Prop}

theorem judges_forM {items : List α} {action : α → Gen Unit}
    (each : ∀ item s, Judges s (action item) (checked item) (enough item) fun _ => True) :
    Judges s (items.forM action) (∀ item ∈ items, checked item) (∀ item ∈ items, enough item)
      fun _ => True := by
  induction items generalizing s with
  | nil => exact .pure trivial nofun
  | cons item rest inductionHypothesis =>
      refine (Judges.bind (fun _ => ∀ item ∈ rest, checked item)
        (fun _ => ∀ item ∈ rest, enough item) (fun _ _ => True) (each item s)
        fun _ s₁ _ => inductionHypothesis).mono ?_ ?_ fun _ _ _ => trivial
      · rintro ⟨first, _, _, others⟩
        simp only [List.mem_cons, forall_eq_or_imp]
        exact ⟨first, others⟩
      · intro adequate
        simp only [List.mem_cons, forall_eq_or_imp] at adequate
        exact ⟨adequate.1, fun _ _ => adequate.2⟩

/-- What holds of the first ones is what holds of those that have a partner. -/
theorem forall_zip_iff {β : Type} {P : α → Prop} {items : List α} {partners : List β} :
    (∀ pair ∈ items.zip partners, P pair.1) ↔ ∀ item ∈ items.take partners.length, P item := by
  induction items generalizing partners with
  | nil => simp
  | cons item rest inductionHypothesis =>
      cases partners with
      | nil => simp
      | cons partner others =>
          simp only [List.zip_cons_cons, List.mem_cons, forall_eq_or_imp, List.length_cons,
            List.take_succ_cons, inductionHypothesis]

end Loops

section Passing

variable {parameter : Variable} {argument : Operand}

theorem judges_passInRegister (phys : Phys) :
    Judges s (passInRegister parameter argument phys)
      (parameter.byRef = false → Fit argument.constant? parameter.operandSize)
      ((parameter.byRef = false → Fit argument.constant? parameter.operandSize) ∧
        Sound argument.constant?) fun _ => True := by
  unfold passInRegister
  refine .ite (fun byRef => ?_) fun byValue => ?_
  · refine Mute.judges ((mute_referent _ _).bind fun _ => mute_emit _) (fun _ _ _ => trivial) ?_
    rw [byRef]
    exact nofun
  · have byValue := Bool.eq_false_of_not_eq_true byValue
    exact (judges_move .lowFirst).mono (fun fits _ => fits)
      (fun adequate => ⟨adequate.1 byValue, adequate.2⟩) fun _ _ => id

/-- Of a literal on the stack nothing is checked but that it has a value. -/
theorem judges_pushArgument : Judges s (pushArgument parameter argument) True
    (Sound argument.constant?) fun _ => True := by
  refine (mute_stackArgument parameter argument).before fun value s₁ ran _ => ?_
  have same : value.constant? = none ∨ value = argument := by
    simp only [stackArgument, Success.ite_apply] at ran
    split at ran
    · simp only [Success.bind_ok, Success.pure_ok] at ran
      obtain ⟨_, _, _, _, _, _, _, _, _, rfl, _⟩ := ran
      exact .inl rfl
    · obtain ⟨rfl, _⟩ := Success.pure_ok.mp ran
      exact .inr rfl
  have pushed : Judges s₁ (pushable parameter.type value) True (Sound value.constant?)
      fun _ => True := by
    unfold pushable
    split
    · refine .ite (fun _ => .pure trivial trivial) fun _ => ?_
      exact judges_loaded.mono (fun _ => trivial) (fun sound => ⟨sound.fit (by decide), sound⟩)
        fun _ _ _ => trivial
    · exact .pure trivial trivial
    · refine .ite (fun _ => .pure trivial trivial) fun _ => ?_
      exact judges_loaded.mono (fun _ => trivial) (fun _ => ⟨fit_none _, sound_none⟩)
        fun _ _ _ => trivial
    · exact .pure trivial trivial
  refine (pushed.after (fun word => ?_) fun _ _ _ _ _ _ => trivial).mono id (fun sound => ?_)
    fun _ _ => id
  · exact (mute_emit _).bind fun _ => (mute_tracking (StackDepth.counts_push _)).bind fun _ =>
      mute_release _
  · rcases same with none | rfl
    · rw [none]
      exact sound_none
    · exact sound

/-- The literals among the arguments that go to registers fit their parameters. -/
def Passable (arguments : List (Variable × Option Literal)) : Prop :=
  ∀ pair ∈ arguments.take CallingConvention.argumentRegisters.length,
    pair.1.byRef = false → Fit pair.2 pair.1.operandSize

/-- The parameters of a call, each with the literal that its argument is known to be. -/
def passed (params : List Variable) (arguments : List Operand) :
    List (Variable × Option Literal) :=
  params.zip (arguments.map Operand.constant?)

theorem judges_passArguments (params : List Variable) (arguments : List Operand) :
    Judges s (passArguments params arguments) (Passable (passed params arguments))
      (Passable (passed params arguments) ∧ ∀ argument ∈ arguments, Sound argument.constant?)
      fun _ => True := by
  have zipped : passed params arguments =
      (params.zip arguments).map fun pair => (pair.1, pair.2.constant?) := by
    rw [passed, List.zip_map_right]
    rfl
  have inRegisters : Passable (passed params arguments) ↔
      ∀ item ∈ (params.zip arguments).zip CallingConvention.argumentRegisters,
        item.1.1.byRef = false → Fit item.1.2.constant? item.1.1.operandSize := by
    rw [Passable, zipped, ← List.map_take, List.forall_mem_map]
    exact forall_zip_iff.symm
  have sound : (∀ argument ∈ arguments, Sound argument.constant?) →
      ∀ pair ∈ params.zip arguments, Sound pair.2.constant? :=
    fun sound pair member => sound _ (List.of_mem_zip member).2
  have rest : ∀ (padding : Nat) s₁, Judges s₁ (do
      let pairs := params.zip arguments
      let onStack := pairs.drop CallingConvention.argumentRegisters.length
      onStack.reverse.forM fun pair => pushArgument pair.1 pair.2
      (pairs.zip CallingConvention.argumentRegisters).forM fun passed =>
        passInRegister passed.1.1 passed.1.2 passed.2
      arguments.forM release
      return onStack.length + padding) (Passable (passed params arguments))
      (Passable (passed params arguments) ∧ ∀ argument ∈ arguments, Sound argument.constant?)
      fun _ => True := by
    intro padding s₁
    refine (Judges.bind (fun _ => Passable (passed params arguments))
      (fun _ => Passable (passed params arguments) ∧
        ∀ argument ∈ arguments, Sound argument.constant?)
      (fun _ _ => True) (judges_forM fun _ _ => judges_pushArgument) fun _ s₂ _ => ?_).mono
      (fun checks => checks.2.choose_spec.2) (fun adequate => ⟨?_, fun _ _ => adequate⟩)
      fun _ _ _ => trivial
    · refine ((judges_forM fun _ _ => judges_passInRegister _).after (fun _ => ?_)
        fun _ _ _ _ _ _ => trivial).mono inRegisters.mpr (fun adequate item member => ?_)
        fun _ _ => id
      · exact (Leaves.forM fun _ _ => mute_release _).bind fun _ => .pure _
      · exact ⟨inRegisters.mp adequate.1 item member,
          sound adequate.2 _ (List.of_mem_zip member).1⟩
    · intro pair member
      exact sound adequate.2 _ (List.mem_of_mem_drop (List.mem_reverse.mp member))
  unfold passArguments
  dsimp only
  refine .ite (fun _ => ?_) fun _ => rest _ s
  have padded : Mute padStack :=
    (mute_emit _).bind fun _ => mute_tracking (StackDepth.counts_sub _)
  exact padded.before fun _ s₁ _ _ => rest _ s₁

/-- The result of a call is a register, if there is one. -/
theorem judges_emitCall (fn : Function) (arguments : List Operand) (isVirtual : Bool) :
    Judges s (emitCall fn arguments isVirtual) (Passable (passed fn.args arguments))
      (Passable (passed fn.args arguments) ∧ ∀ argument ∈ arguments, Sound argument.constant?)
      fun result => result.constant? = none := by
  refine (judges_passArguments fn.args arguments).after (fun words => ?_)
    fun words s₁ result s₂ _ run => ?_
  · exact mute_get.bind fun _ => mute_reserve.bind fun _ => (mute_callResult _).bind fun _ =>
      (mute_tracking (StackDepth.counts_call _)).bind fun _ => (mute_emit _).bind fun _ =>
        Leaves.bind (by exact mute_modifyFrame _ fun _ => rfl) fun _ =>
          (mute_reclaim _ _).bind fun _ => .pure _
  · obtain ⟨_, _, _, run⟩ := Success.bind_ok.mp run
    obtain ⟨_, _, _, run⟩ := Success.bind_ok.mp run
    obtain ⟨value, _, called, run⟩ := Success.bind_ok.mp run
    obtain ⟨_, _, _, run⟩ := Success.bind_ok.mp run
    obtain ⟨_, _, _, run⟩ := Success.bind_ok.mp run
    obtain ⟨_, _, _, run⟩ := Success.bind_ok.mp run
    obtain ⟨_, _, _, run⟩ := Success.bind_ok.mp run
    obtain ⟨rfl, _⟩ := Success.pure_ok.mp run
    simp only [callResult, Success.ite_apply] at called
    split at called
    · obtain ⟨rfl, _⟩ := Success.pure_ok.mp called
      rfl
    · simp only [Success.bind_ok, Success.pure_ok] at called
      obtain ⟨_, _, _, rfl, _⟩ := called
      rfl

end Passing

end X64Backend.Lower
