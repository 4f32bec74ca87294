import X64Backend.Proofs.Lower.StatementChecks

/-!
An expansion records what the analysis finds in it.  If nothing is on record behind it then the
literals fit that it has copied; and where it may bind its operands it records nothing, since no
parameter stands for a literal in the body.
-/

namespace X64Backend.Lower

open X64Backend.Tree Drafting

section Binding

variable {program : TypedProgram} {callee : FnId} {s : State}

/-- What a parameter may stand for where no literal does. -/
def Harmless (program : TypedProgram) (entry : VarId × Operand) : Prop :=
  entry.2.constant? = none ∧
    (program.writesOwn entry.1 = true → entry.2.size = (program.var entry.1).type.operandSize)

/-- The arguments of a function are variables of the program. -/
theorem argumentIds_ok {parameter : VarId × Variable}
    (member : parameter ∈ argumentIds callee (program.function callee)) :
    parameter.1.fn = callee ∧ program.var parameter.1 = parameter.2 := by
  obtain ⟨index, bound, rfl⟩ := List.mem_mapIdx.mp member
  refine ⟨rfl, ?_⟩
  simp [TypedProgram.var, Function.var, Function.vars, List.getElem?_append_left bound, bound]

theorem judges_copyArgument {body : List Stmt} {id : VarId} {v : Variable} {argument : Operand} :
    Judges s (copyArgument program body id v argument)
      (Fit argument.constant? v.operandSize)
      (Fit argument.constant? v.operandSize ∧ Sound argument.constant?)
      fun copy => copy.constant? = none ∧ copy.size = v.operandSize := by
  have copied : ∀ {copy : Operand} s₁, copy.constant? = none → copy.size = v.operandSize →
      Judges s₁ (do
        move copy argument v.type.isSigned .lowFirst
        drafting (Drafting.lock copy)
        return copy)
        (Fit argument.constant? v.operandSize)
        (Fit argument.constant? v.operandSize ∧ Sound argument.constant?)
        fun copy => copy.constant? = none ∧ copy.size = v.operandSize := by
    intro copy s₁ isNone size
    rw [← size]
    refine (judges_move .lowFirst).after (fun _ => (mute_lock _).bind fun _ => .pure _)
      fun _ _ _ _ _ run => ?_
    obtain ⟨_, _, _, run⟩ := Success.bind_ok.mp run
    obtain ⟨rfl, _⟩ := Success.pure_ok.mp run
    exact ⟨isNone, rfl⟩
  unfold copyArgument
  refine .ite (fun _ => ?_) fun _ => ?_
  · refine (mute_stackTemp _).before fun copy s₁ ran _ => ?_
    obtain ⟨_, _, _, ran⟩ := Success.bind_ok.mp ran
    obtain ⟨_, _, _, ran⟩ := Success.bind_ok.mp ran
    obtain ⟨rfl, _⟩ := Success.pure_ok.mp ran
    exact copied s₁ rfl rfl
  · refine (mute_stable _).before fun copy s₁ ran _ => ?_
    obtain ⟨isNone, size, _⟩ := stable_ok ran
    exact copied s₁ isNone size

/-- Only an argument with a copy of its own is checked. -/
theorem judges_bindArgument {parameter : VarId × Variable} {argument : Operand} {bound : Bound}
    (member : parameter ∈ argumentIds callee (program.function callee)) :
    Judges s (bindArgument program (program.function callee)
        ((program.function callee).body.getD []) bound (parameter, argument))
      (parameter.2.byRef = false → program.writesOwn parameter.1 = true →
        Fit argument.constant? parameter.2.operandSize)
      (Bindable program parameter argument)
      fun bound' => ∃ entry, bound'.entries = bound.entries ++ [(parameter.1, entry)] ∧
        (Bindable program parameter argument → Harmless program (parameter.1, entry)) := by
  obtain ⟨own, known⟩ := argumentIds_ok member
  have changed : writes program ((program.function callee).body.getD []) parameter.1 =
      program.writesOwn parameter.1 := by
    rw [TypedProgram.writesOwn, own]
  unfold bindArgument
  refine .ite (fun copies => ?_) fun stands => ?_
  · simp only [needsCopy, changed, Bool.and_eq_true, Bool.not_eq_true', Bool.or_eq_true] at copies
    obtain ⟨byValue, copies⟩ := copies
    have size : parameter.2.operandSize = parameter.2.type.operandSize := by
      simp [Variable.operandSize, byValue]
    refine (judges_copyArgument.after (fun _ => .pure _) fun copy s₁ bound' s₂ made run => ?_).mono
      (fun fits _ _ => fits) (fun bindable => ?_) fun _ _ => id
    · obtain ⟨rfl, _⟩ := Success.pure_ok.mp run
      exact ⟨copy, rfl, fun _ => ⟨made.1, fun _ => by rw [known, ← size]; exact made.2⟩⟩
    · rcases bindable.1 byValue with isNone | ⟨_, fits, sound⟩
      · rw [isNone]
        exact ⟨fit_none _, sound_none⟩
      · exact ⟨fits, sound⟩
  · simp only [needsCopy, changed, Bool.and_eq_true, Bool.not_eq_true', Bool.or_eq_true, not_and,
      not_or] at stands
    refine .pure ⟨argument, rfl, fun bindable => ?_⟩ fun byValue writes =>
      absurd writes (stands byValue).1
    cases byRef : parameter.2.byRef with
    | false =>
        exact ⟨(bindable.1 byRef).resolve_right fun copied => (stands byRef).1 copied.1,
          fun writes => absurd writes (stands byRef).1⟩
    | true =>
        obtain ⟨isNone, size⟩ := bindable.2 byRef
        exact ⟨isNone, fun writes => by rw [known]; exact size writes⟩

theorem judges_bindArguments {items : List ((VarId × Variable) × Operand)} {bound : Bound}
    (among : ∀ item ∈ items, item.1 ∈ argumentIds callee (program.function callee)) :
    Judges s (items.foldlM (bindArgument program (program.function callee)
        ((program.function callee).body.getD [])) bound)
      (∀ item ∈ items, item.1.2.byRef = false → program.writesOwn item.1.1 = true →
        Fit item.2.constant? item.1.2.operandSize)
      (∀ item ∈ items, Bindable program item.1 item.2)
      fun bound' => (∀ item ∈ items, Bindable program item.1 item.2) →
        (∀ entry ∈ bound.entries, Harmless program entry) →
        ∀ entry ∈ bound'.entries, Harmless program entry := by
  induction items generalizing s bound with
  | nil => exact .pure (fun _ entries => entries) (by simp)
  | cons item rest inductionHypothesis =>
      obtain ⟨parameter, argument⟩ := item
      simp only [List.mem_cons, forall_eq_or_imp] at among
      rw [List.foldlM_cons]
      refine (Judges.bind
        (fun _ => ∀ item ∈ rest, item.1.2.byRef = false → program.writesOwn item.1.1 = true →
          Fit item.2.constant? item.1.2.operandSize)
        (fun _ => ∀ item ∈ rest, Bindable program item.1 item.2)
        (fun (bound' bound'' : Bound) => (∀ item ∈ rest, Bindable program item.1 item.2) →
          (∀ entry ∈ bound'.entries, Harmless program entry) →
          ∀ entry ∈ bound''.entries, Harmless program entry)
        (judges_bindArgument among.1) fun bound' s₁ _ => inductionHypothesis among.2).mono
        (fun checks => ?_) (fun bindable => ?_) ?_
      · simp only [List.mem_cons, forall_eq_or_imp]
        exact ⟨checks.1, checks.2.choose_spec.2⟩
      · simp only [List.mem_cons, forall_eq_or_imp] at bindable
        exact ⟨bindable.1, fun _ _ => bindable.2⟩
      · rintro bound'' _ ⟨bound', ⟨entry, entries, harmless⟩, kept⟩ bindable earlier
        simp only [List.mem_cons, forall_eq_or_imp] at bindable
        refine kept bindable.2 fun other member => ?_
        rw [entries] at member
        rcases List.mem_append.mp member with member | member
        · exact earlier other member
        · rw [List.mem_singleton.mp member]
          exact harmless bindable.1

end Binding

section Parts

variable {program : TypedProgram} {expands : FnId → Bool} {env : Env} {callee : FnId}
  {operands : List Operand} {s : State}

theorem mute_takeLocals (callee : FnId) (fn : Function) : Mute (takeLocals callee fn) := by
  refine mute_get.bind fun _ => ?_
  dsimp only
  exact Leaves.bind (by exact mute_modifyFrame _ fun _ => rfl) fun _ => .pure _

/-- The parameters are bound, and nothing else is on record. -/
theorem judges_openExpansion (sameProgram : env.program = program) :
    Judges s (openExpansion env callee operands)
      (Copied program callee (operands.map Operand.constant?))
      (∀ binding ∈ (argumentIds callee (program.function callee)).zip operands,
        Bindable program binding.1 binding.2)
      fun opening => (∀ binding ∈ (argumentIds callee (program.function callee)).zip operands,
        Bindable program binding.1 binding.2) →
        ∀ entry ∈ opening.bound.entries, Harmless program entry := by
  subst sameProgram
  have copied : (∀ item ∈ (argumentIds callee (env.program.function callee)).zip operands,
      item.1.2.byRef = false → env.program.writesOwn item.1.1 = true →
        Fit item.2.constant? item.1.2.operandSize) →
      Copied env.program callee (operands.map Operand.constant?) := by
    intro fits binding member
    rw [List.zip_map_right] at member
    obtain ⟨item, among, rfl⟩ := List.mem_map.mp member
    exact fits item among
  unfold openExpansion
  refine mute_reserveIfBusy.before fun _ s₁ _ _ => ?_
  refine mute_get.before fun _ s₂ _ _ => ?_
  refine (mute_drafting draws_lockLive).before fun locked s₃ _ _ => ?_
  refine ((judges_bindArguments fun item member => (List.of_mem_zip member).1).after
    (fun bound => ?_) fun bound s₄ opening s₅ harmless run => ?_).mono copied id fun _ _ => id
  · exact (mute_takeLocals _ _).bind fun _ => mute_get.bind fun _ => (mute_log _).bind fun _ =>
      .pure _
  · simp only [Success.bind_ok, Success.pure_ok] at run
    obtain ⟨_, _, _, _, _, _, _, _, _, rfl, _⟩ := run
    exact fun bindable => harmless bindable (List.forall_mem_nil _)

/-- Where a body is generated. -/
def State.opened (s : State) (activation : Activation) : State :=
  { s with loops := [], activations := activation :: s.activations }

/-- A body that is expanded leaves nothing behind but what it has handed over. -/
theorem judges_outsideLoops {fn : Function} {activation : Activation} {action : Gen Unit}
    {checked enough answers : Prop} (fresh : activation.result = .absent)
    (inner : Proceeds fn (s.opened activation) action checked enough answers) :
    Judges s (outsideLoops (withActivation activation action)) checked enough
      fun result => (result.2.result = .absent ∨ result.2.result.constant? = none) ∧
        (answers → result.2.result ≠ .absent) := by
  have start : outsideLoops (withActivation activation action) s =
      (do
        let result ← withActivation activation action
        modify fun state => { state with loops := s.loops }
        return result : Gen (Unit × Activation)) { s with loops := [] } := rfl
  constructor
  · intro result s' run
    rw [start] at run
    cases ran : action (s.opened activation) with
    | error fault s₁ =>
        rw [Success.bind_of_error (withActivation_of_error ran)] at run
        cases run
    | ok _ s₁ =>
        rw [Success.bind_of_ok (withActivation_of_ok ran)] at run
        cases run
        obtain ⟨⟨stand, hands⟩, earlier⟩ := inner.ok ran
        obtain ⟨innermost, calls⟩ : ∃ innermost, s₁.activations = innermost :: s.activations := by
          rcases stand_cases stand with ⟨_, none⟩ | ⟨innermost, _, _, calls, opened, _⟩
          · contradiction
          · cases opened
            exact ⟨innermost, calls⟩
        have handed : s₁.handed = innermost.result := by simp [State.handed, calls]
        refine ⟨⟨?_, fun unreported => ?_⟩, earlier⟩
        · simp only [State.stand, Prod.mk.injEq] at stand
          simp only [State.surroundings, Prod.mk.injEq, calls, List.drop_one, List.tail_cons]
          exact ⟨trivial, trivial, stand.2.2.2⟩
        · have hands := hands unreported
          simp only [calls, List.head?_cons, Option.getD_some, ← handed]
          refine ⟨(hands.keeping (.inl fresh)).imp id And.left, fun answers => ?_⟩
          exact hands.answers answers (List.cons_ne_nil _ _)
  · intro adequate unreported
    have behind := inner.silent ⟨.inl fresh, adequate⟩ unreported
    rw [start]
    cases ran : action (s.opened activation) with
    | error fault s₁ =>
        rw [ran] at behind
        rw [Success.bind_of_error (withActivation_of_error ran)]
        exact behind
    | ok _ s₁ =>
        rw [ran] at behind
        rw [Success.bind_of_ok (withActivation_of_ok ran)]
        exact behind

/-- A body hands over its result, and everything else is as before. -/
theorem judges_expansionBody (judged : env.Judged program expands) {opening : Opening}
    {body : List Stmt} (found : (program.function callee).body = some body)
    (free : ∀ block, ¬ (Stmt.block body).Contains block) :
    Judges s (expansionBody env callee opening) True
      (Unfolded program s.activations ∧ (∀ entry ∈ opening.bound.entries, Harmless program entry) ∧
        program.Careful ∧ (program.function callee).mods.isInline = true)
      fun final => (final.result = .absent ∨ final.result.constant? = none) ∧
        ((Stmt.block body).Answers → final.result ≠ .absent) := by
  have inside : Inside program (program.function callee) false
      (s.opened (opening.activation callee)) :=
    ⟨.inr ⟨opening.activation callee, s.activations, rfl, rfl, rfl⟩, by simp [State.opened]⟩
  have inner := proceeds_statements judged body
    (fun part member => free_stmt free (by simp [Stmt.parts, member])) inside
  unfold expansionBody
  rw [judged.same, found]
  refine ((judges_outsideLoops rfl inner).after
    (fun result => (mute_closeExpansion _).bind fun _ => .pure _)
    fun result s₁ final s₂ promised run => ?_).mono (fun _ => trivial) ?_ fun _ _ => id
  · obtain ⟨_, _, _, run⟩ := Success.bind_ok.mp run
    obtain ⟨rfl, _⟩ := Success.pure_ok.mp run
    refine ⟨promised.1, fun answers => promised.2 ?_⟩
    simpa [Stmt.emitted] using answers_cases answers
  · rintro ⟨unfolded, entries, careful, isInline⟩ part member
    have all : GrantedIn program (program.function callee)
        (opening.activation callee :: s.activations) false (.block body) := by
      refine ⟨careful, ?_, (careful callee body found isInline).1⟩
      intro activation member
      rcases List.mem_cons.mp member with rfl | member
      · exact entries
      · exact unfolded activation member
    exact all.part (show (false, part) ∈ _ by simp [Stmt.emitted, member])

/-- The result of an expansion is no literal, and it is there if it is asked for. -/
theorem judges_closeOpening {fn : Function} {opening : Opening} {result : Operand} :
    Judges s (closeOpening fn opening result) True
      (fn.returnType.operandSize ≠ .unsized → result ≠ .absent)
      fun value => result = .absent ∨ result.constant? = none → value.constant? = none := by
  have freed : ∀ operands : List Operand, Mute (operands.forM freeAnyway) :=
    fun _ => .forM fun _ _ => mute_freeAnyway _
  have unlocked : Mute (opening.locked.forM fun register =>
      drafting (Drafting.unlock (.reg register))) :=
    .forM fun _ _ => mute_drafting (draws_unlock _)
  refine (freed _).before fun _ s₁ _ _ => ?_
  refine (freed _).before fun _ s₂ _ _ => ?_
  refine unlocked.before fun _ s₃ _ _ => ?_
  unfold expansionValue
  refine .ite (fun _ => .pure (fun _ => rfl) trivial) fun sized => ?_
  split
  · exact judges_reporting _ (.pure _) fun present => present sized rfl
  · refine (mute_drafting (draws_settle _)).before fun _ s₄ _ _ => ?_
    exact .pure (fun _ => rfl) trivial
  · rename_i present _
    exact .pure (fun known => known.resolve_left present) trivial

end Parts

section Expansions

variable {program : TypedProgram} {expands : FnId → Bool}

/-- An expansion is judged by the analysis, if those in its body are. -/
theorem expansion_expandBody {env : Env} (judged : env.Judged program expands)
    (free : ∀ block, ¬ program.Contains block) {callee : FnId}
    (isInline : (program.function callee).mods.isInline = true)
    (hasBody : (program.function callee).body.isSome = true) :
    Expansion program callee (expandBody env callee) := by
  obtain ⟨body, found⟩ := Option.isSome_iff_exists.mp hasBody
  have bodyFree : ∀ block, ¬ (Stmt.block body).Contains block :=
    fun block inside => free block ⟨callee, body, found, inside⟩
  intro operands s
  rw [expandBody_eq, judged.same]
  refine (Judges.bind (fun _ => True)
    (fun opening => Unfolded program s.activations ∧
      (∀ entry ∈ opening.bound.entries, Harmless program entry) ∧ program.Careful)
    (fun _ (result : Operand) => result.constant? = none)
    (judges_openExpansion judged.same) fun opening s₁ same => ?_).mono
    (fun checks _ => checks.1) ?_ fun _ _ promised => promised.choose_spec.2
  · rw [← activations_of_same same]
    refine (Judges.bind (fun _ => True)
      (fun final => (program.function callee).returnType.operandSize ≠ .unsized →
        final.result ≠ .absent)
      (fun final (result : Operand) => final.result = .absent ∨ final.result.constant? = none →
        result.constant? = none)
      (judges_expansionBody judged found bodyFree) fun final s₂ _ =>
        judges_closeOpening).mono (fun _ => trivial) ?_ ?_
    · rintro ⟨unfolded, entries, careful⟩
      exact ⟨⟨unfolded, entries, careful, isInline⟩, fun final promised sized =>
        promised.2 ((careful callee body found isInline).2 sized)⟩
    · rintro result _ ⟨final, promised, kept⟩
      exact kept promised.1
  · rintro ⟨careful, unfolded, bindable⟩
    exact ⟨bindable, fun opening harmless => ⟨unfolded, harmless bindable, careful⟩⟩

/-- The calls that are expanded outside of expansions. -/
def expandsFirst (program : TypedProgram) (options : Options) (callee : FnId) : Bool :=
  (program.function callee).mods.isInline && (program.function callee).body.isSome &&
    decide (0 < options.inlineDepth)

theorem shouldExpand_exact {options : Options} {depth : Nat} {callee : FnId} {expanded : Bool}
    {s s' : State} (exact : Exact s.activations)
    (run : shouldExpand (envAt program options depth) callee s = .ok expanded s') :
    expanded = expandsFirst program options callee := by
  have none : s.activations.filter Activation.inlining = [] :=
    List.filter_eq_nil_iff.mpr fun activation member => by simp [(exact activation member).1]
  simp only [shouldExpand, Success.ite_apply] at run
  unfold expandsFirst
  split at run
  · rename_i called
    obtain ⟨rfl, _⟩ := Success.pure_ok.mp run
    simp only [envAt, Bool.or_eq_true, Bool.not_eq_true', Option.isNone_iff_eq_none] at called
    rcases called with called | called
    · rw [called]
      rfl
    · simp [called]
  · rename_i expandable
    obtain ⟨_, _, got, run⟩ := Success.bind_ok.mp run
    obtain ⟨rfl, rfl⟩ := Success.get_ok.mp got
    have given : (program.function callee).mods.isInline = true ∧
        (program.function callee).body.isSome = true := by
      simpa [envAt, Option.isSome_iff_ne_none] using expandable
    simp only [none, List.any_nil, List.length_nil, Success.ite_apply] at run
    rw [given.1, given.2]
    split at run
    · contradiction
    · split at run
      · rename_i full
        obtain ⟨_, _, _, run⟩ := Success.bind_ok.mp run
        obtain ⟨rfl, _⟩ := Success.pure_ok.mp run
        simpa [envAt] using full
      · rename_i room
        obtain ⟨rfl, _⟩ := Success.pure_ok.mp run
        simpa [envAt] using room

/-- Every expansion is judged by the analysis, however deep it may go. -/
theorem judged_envAt (options : Options) (depth : Nat) (free : ∀ block, ¬ program.Contains block) :
    (envAt program options depth).Judged program (expandsFirst program options) := by
  induction depth with
  | zero => exact ⟨rfl, shouldExpand_exact, fun _ _ _ _ _ => .of_error rfl⟩
  | succ depth inductionHypothesis =>
      exact ⟨rfl, shouldExpand_exact, fun callee isInline hasBody =>
        expansion_expandBody inductionHypothesis free isInline hasBody⟩

end Expansions

end X64Backend.Lower
