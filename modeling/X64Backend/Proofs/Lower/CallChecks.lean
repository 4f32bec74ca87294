import X64Backend.Proofs.Lower.ExpressionChecks
import X64Backend.Proofs.Lower.Fit

/-!
Calls record what the analysis finds in their operands.  If nothing is on record behind a call that
is emitted, the literals fit that go to registers; behind one that is expanded, those fit that are
copied.  Every expression is judged by the analysis, provided that the expansions in it are.
-/

namespace X64Backend.Lower

open X64Backend.Tree Drafting

section Sequences

variable {ι α : Type} {s : State}

/-- One computation after the other, each judged by itself. -/
theorem judges_mapM {items : List ι} {action : ι → Gen α} {checked enough : ι → Prop}
    {promise : ι → α → Prop} (each : ∀ item ∈ items, ∀ s₁, s₁.surroundings = s.surroundings →
      Judges s₁ (action item) (checked item) (enough item) (promise item)) :
    Judges s (items.mapM action) (∀ item ∈ items, checked item) (∀ item ∈ items, enough item)
      (List.Forall₂ promise items) := by
  induction items generalizing s with
  | nil => exact .pure .nil nofun
  | cons item rest inductionHypothesis =>
      rw [List.mapM_cons]
      simp only [List.mem_cons, forall_eq_or_imp] at each ⊢
      refine (Judges.bind (fun _ => ∀ item ∈ rest, checked item)
        (fun _ => ∀ item ∈ rest, enough item)
        (fun result results => ∃ others, results = result :: others ∧
          List.Forall₂ promise rest others)
        (each.1 s rfl) fun result s₁ same => ?_).mono
        (fun checks => ⟨checks.1, checks.2.choose_spec.2⟩)
        (fun adequate => ⟨adequate.1, fun _ _ => adequate.2⟩) ?_
      · refine (inductionHypothesis fun item member s₂ same₂ =>
          each.2 item member s₂ (same₂.trans same)).after (fun _ => .pure _) ?_
        intro others s₂ results s₃ promised run
        obtain ⟨rfl, _⟩ := Success.pure_ok.mp run
        exact ⟨others, rfl, promised⟩
      · rintro _ _ ⟨result, promised, others, rfl, promised'⟩
        exact .cons promised promised'

/-- What is with an item on one side is with what it has become on the other. -/
theorem exists_of_mem_zip {β γ : Type} {R : α → β → Prop} {keys : List γ} {items : List α}
    {results : List β} (related : List.Forall₂ R items results) {pair : γ × β}
    (member : pair ∈ keys.zip results) :
    ∃ item, (pair.1, item) ∈ keys.zip items ∧ R item pair.2 := by
  induction related generalizing keys with
  | nil => simp at member
  | @cons item result items results holds _ inductionHypothesis =>
      cases keys with
      | nil => simp at member
      | cons key keys =>
          rw [List.zip_cons_cons, List.mem_cons] at member
          rcases member with rfl | member
          · exact ⟨item, by simp, holds⟩
          · obtain ⟨other, among, holds'⟩ := inductionHypothesis member
            exact ⟨other, by simp [among], holds'⟩

/-- What a computation inside of an activation puts on record stays there. -/
theorem judges_withActivation {activation : Activation} {action : Gen α} {checked enough : Prop}
    {promise : α → Prop}
    (inside : Judges { s with activations := activation :: s.activations } action checked enough
      promise) :
    Judges s (withActivation activation action) checked enough fun result => promise result.1 := by
  constructor
  · intro result s' run
    cases ran : action { s with activations := activation :: s.activations } with
    | error fault s₁ =>
        rw [withActivation_of_error ran] at run
        cases run
    | ok a s₁ =>
        rw [withActivation_of_ok ran] at run
        cases run
        obtain ⟨⟨same, promised⟩, earlier⟩ := inside.ok ran
        refine ⟨⟨?_, promised⟩, earlier⟩
        simp only [State.surroundings, Prod.mk.injEq] at same ⊢
        exact ⟨by rw [same.1, List.drop_one, List.tail_cons], same.2⟩
  · intro adequate unreported
    have behind := inside.silent adequate unreported
    cases ran : action { s with activations := activation :: s.activations } with
    | error fault s₁ =>
        rw [ran] at behind
        rw [withActivation_of_error ran]
        exact behind
    | ok a s₁ =>
        rw [ran] at behind
        rw [withActivation_of_ok ran]
        exact behind

end Sequences

section Operands

variable (program : TypedProgram) (expands : FnId → Bool)

/-- What an operand of a call turns out to be. -/
def Item.Becomes (calls : List Activation) : Item → Operand → Prop
  | .value e, result => Unfolded program calls → result.constant? = e.constant? program
  | .address e, result => result.constant? = none ∧
      (Known program calls e → result.size = e.width program)
  | .made _, result => result.constant? = none

/-- The computation of an operand of a call is judged by the analysis. -/
def Item.Judged (item : Item) (action : Gen Operand) : Prop :=
  ∀ s, Judges s action (∀ e ∈ item.expr?, Shown program expands s.activations e)
    (∀ e ∈ item.expr?, Granted program s.activations e)
    (item.Becomes program s.activations)

/-- The computation of the operands of a call is judged by the analysis. -/
def Evaluated (site : CallSite) (arguments : Gen (List Operand)) : Prop :=
  ∀ s, Judges s arguments (∀ e ∈ site.exprs program, Shown program expands s.activations e)
    (∀ e ∈ site.exprs program, Granted program s.activations e)
    (List.Forall₂ (Item.Becomes program s.activations) (site.items program))

variable {program expands} {env : Env} {s : State} {calls : List Activation} {e : Expr}

section Called

variable {callee : FnId}

@[simp]
theorem shown_ofCall : Shown program expands (.ofCall callee :: calls) e ↔
    Shown program expands calls e := by
  simp [Shown]

@[simp]
theorem granted_ofCall : Granted program (.ofCall callee :: calls) e ↔
    Granted program calls e := by
  simp [Granted]

@[simp]
theorem becomes_ofCall :
    Item.Becomes program (.ofCall callee :: calls) = Item.Becomes program calls := by
  funext item result
  cases item with
  | value e => simp [Item.Becomes]
  | address e => simp [Item.Becomes]
  | made operand => rfl

end Called

theorem Item.Becomes.constant? {item : Item} {result : Operand}
    (becomes : item.Becomes program calls result) (unfolded : Unfolded program calls) :
    result.constant? = item.constant? program := by
  cases item with
  | value e => exact becomes unfolded
  | address e => exact becomes.1
  | made operand => exact becomes

/-- The operands of a call are the literals that they are known to be. -/
theorem constants_of_becomes {items : List Item} {results : List Operand}
    (becomes : List.Forall₂ (Item.Becomes program calls) items results)
    (unfolded : Unfolded program calls) :
    results.map Operand.constant? = items.map (Item.constant? program) := by
  induction becomes with
  | nil => rfl
  | cons becomes _ inductionHypothesis =>
      rw [List.map_cons, List.map_cons, becomes.constant? unfolded, inductionHypothesis]

/-- The literals among the operands of a call have values. -/
theorem sound_of_becomes {items : List Item} {results : List Operand}
    (becomes : List.Forall₂ (Item.Becomes program calls) items results)
    (unfolded : Unfolded program calls)
    (granted : ∀ e ∈ items.filterMap Item.expr?, Granted program calls e) :
    ∀ result ∈ results, Sound result.constant? := by
  intro result member
  have among : result.constant? ∈ items.map (Item.constant? program) := by
    rw [← constants_of_becomes becomes unfolded]
    exact List.mem_map_of_mem member
  obtain ⟨item, among, same⟩ := List.mem_map.mp among
  rw [← same]
  cases item with
  | value e => exact (granted e (List.mem_filterMap.mpr ⟨_, among, rfl⟩)).sound
  | address e => exact sound_none
  | made operand => exact sound_none

theorem Item.Judged.ofValue {lowered : Lowered}
    (judged : lowered.Judged program expands e) :
    (Item.value e).Judged program expands lowered.value := by
  intro s
  simp only [Item.expr?, Option.mem_def, Option.some.injEq, forall_eq']
  exact judged.value s

theorem Item.Judged.ofAddress {lowered : Lowered}
    (judged : lowered.Judged program expands e) :
    (Item.address e).Judged program expands (addressOf env e lowered.place?) := by
  intro s
  simp only [Item.expr?, Option.mem_def, Option.some.injEq, forall_eq']
  unfold addressOf placeOf
  cases known : lowered.place? with
  | none => exact .of_error rfl
  | some place =>
      refine (judged.place place known s).after (fun found => ?_)
        fun found s₁ result s₂ size run => ?_
      · split
        · exact .pure _
        · exact .throw nofun
      · split at run
        · rename_i isMem
          obtain ⟨rfl, _⟩ := Success.pure_ok.mp run
          exact ⟨Operand.constant?_of_isMem isMem, size⟩
        · cases run

/-- The way in which an argument reaches its parameter. -/
def Item.given (pair : Expr × Variable) : Item :=
  if pair.2.byRef then .address pair.1 else .value pair.1

theorem forall_exprs {items : List Item} {P : Expr → Prop} :
    (∀ e ∈ items.filterMap Item.expr?, P e) ↔ ∀ item ∈ items, ∀ e ∈ item.expr?, P e := by
  simp only [List.mem_filterMap, forall_exists_index, and_imp, Option.mem_def]
  exact ⟨fun all item member e found => all e item member found,
    fun all e item member found => all item member e found⟩

theorem judges_arguments {arguments : List Expr} (params : List Variable)
    (ofArguments : ∀ e ∈ arguments, (lower env e).Judged program expands e) :
    Judges s (((lower.lowerAll env arguments).zip params).mapM
        fun ((value, address), parameter) => if parameter.byRef then address else value)
      (∀ item ∈ (arguments.zip params).map Item.given, ∀ e ∈ item.expr?,
        Shown program expands s.activations e)
      (∀ item ∈ (arguments.zip params).map Item.given, ∀ e ∈ item.expr?,
        Granted program s.activations e)
      (List.Forall₂ (Item.Becomes program s.activations)
        ((arguments.zip params).map Item.given)) := by
  rw [lowerAll_eq, List.zip_map_left, List.mapM_map, List.forall_mem_map, List.forall_mem_map]
  refine (judges_mapM fun pair member s₁ same => ?_).mono id id
    fun _ _ => List.forall₂_map_left_iff.mpr
  have judged := ofArguments pair.1 (List.of_mem_zip member).1
  rw [← activations_of_same same]
  unfold Item.given
  cases byRef : pair.2.byRef with
  | true => simpa [byRef] using Item.Judged.ofAddress judged s₁
  | false => simpa [byRef] using Item.Judged.ofValue judged s₁

/-- The operands of a call are judged one by one. -/
theorem evaluated_operandsOf {callee : FnId} {receiver : Option Item}
    {value? : Option (Gen Operand)} {arguments : List Expr} {isVirtual : Bool}
    (ofReceiver : ∀ value, value? = some value →
      ∃ item, receiver = some item ∧ item.Judged program expands value)
    (ofArguments : ∀ e ∈ arguments, (lower env e).Judged program expands e) :
    Evaluated program expands ⟨callee, receiver, arguments, isVirtual⟩
      (operandsOf (program.function callee) value? (lower.lowerAll env arguments)) := by
  intro s
  have counted : ∀ (first : List Item) (given : List Operand) s₁,
      s₁.surroundings = s.surroundings → first.length = given.length → Judges s₁ (do
        let total := given.length + (lower.lowerAll env arguments).length
        if total ≠ (program.function callee).args.length then
          throw (.argumentCount (program.function callee).signature
            (program.function callee).args.length total)
        let rest ← ((lower.lowerAll env arguments).zip
            ((program.function callee).args.drop given.length)).mapM
          fun ((value, address), parameter) => if parameter.byRef then address else value
        return given ++ rest)
      (∀ item ∈ (arguments.zip ((program.function callee).args.drop first.length)).map Item.given,
        ∀ e ∈ item.expr?, Shown program expands s.activations e)
      (∀ item ∈ (arguments.zip ((program.function callee).args.drop first.length)).map Item.given,
        ∀ e ∈ item.expr?, Granted program s.activations e)
      fun results => ∃ rest, results = given ++ rest ∧
        List.Forall₂ (Item.Becomes program s.activations)
          ((arguments.zip ((program.function callee).args.drop first.length)).map Item.given)
          rest := by
    intro first given s₁ same length
    rw [length, ← activations_of_same same]
    dsimp only
    split
    · exact .of_error rfl
    · refine (judges_arguments _ ofArguments).after (fun _ => .pure _)
        fun rest s₂ _ _ becomes run => ?_
      obtain ⟨rfl, _⟩ := Success.pure_ok.mp run
      exact ⟨rest, rfl, becomes⟩
  unfold operandsOf CallSite.exprs CallSite.items callItems
  simp only [forall_exprs]
  generalize (program.function callee).receiver = self
  cases self with
  | none =>
      rw [pure_bind]
      exact (counted [] [] s rfl rfl).mono id id fun _ _ ⟨rest, same, becomes⟩ => by
        rw [same]
        exact becomes
  | some self =>
      cases given : value? with
      | none => exact .of_error rfl
      | some value =>
          obtain ⟨item, rfl, judged⟩ := ofReceiver value given
          dsimp only
          simp only [pure_bind, List.mem_append, List.mem_singleton, or_imp, forall_and, forall_eq]
          refine (Judges.bind _ _ _ (judged s) fun first s₁ same =>
            counted [item] [first] s₁ same rfl).mono
            (fun checks => ⟨checks.1, checks.2.choose_spec.2⟩)
            (fun adequate => ⟨adequate.1, fun _ _ => adequate.2⟩) ?_
          rintro _ _ ⟨first, becomes, rest, rfl, others⟩
          exact .cons becomes others

end Operands

section Calls

variable (program : TypedProgram) (expands : FnId → Bool)

/-- An operand may be bound to a parameter.  A parameter without a copy of its own stands for no
literal, and one that the body changes is as wide as what it stands for. -/
def Bindable (parameter : VarId × Variable) (operand : Operand) : Prop :=
  (parameter.2.byRef = false → operand.constant? = none ∨
    program.writesOwn parameter.1 = true ∧
      Fit operand.constant? parameter.2.operandSize ∧ Sound operand.constant?) ∧
  (parameter.2.byRef = true → operand.constant? = none ∧
    (program.writesOwn parameter.1 = true → operand.size = parameter.2.type.operandSize))

/-- What an expansion in a state is checked for, what is enough for it, and that its result is no
literal. -/
def Expansion (callee : FnId) (expand : List Operand → Gen Operand) : Prop :=
  ∀ operands s, Judges s (expand operands)
    (Exact s.activations → Copied program callee (operands.map Operand.constant?))
    (program.Careful ∧ Unfolded program s.activations ∧
      ∀ binding ∈ (argumentIds callee (program.function callee)).zip operands,
        Bindable program binding.1 binding.2)
    fun result => result.constant? = none

/-- Expansions are judged by the analysis, and it is known which calls in a procedure are
expanded. -/
structure Env.Judged (env : Env) : Prop where
  same : env.program = program
  decides : ∀ {callee expanded s s'}, Exact s.activations →
    shouldExpand env callee s = .ok expanded s' → expanded = expands callee
  expand : ∀ callee, (program.function callee).mods.isInline = true →
    (program.function callee).body.isSome = true →
    Expansion program callee (env.expand callee)

variable {program expands} {env : Env} {s : State} {calls : List Activation} {e : Expr}
  {site : CallSite}

theorem checked_of_site (isSite : e.site? program = some site) : e.Checked program expands ↔
    if !site.isVirtual && expands site.callee then site.Copies program else site.Fits program := by
  have rule : e.Checked program expands ↔ ∀ site ∈ e.site? program,
      if !site.isVirtual && expands site.callee then site.Copies program
      else site.Fits program := by
    cases e with
    | overloaded | call | new => rfl
    | _ => cases isSite
  rw [rule, isSite]
  exact ⟨fun all => all site rfl, fun holds _ same => by cases same; exact holds⟩

theorem evaluated_of_site (isSite : e.site? program = some site) :
    e.evaluated program = site.exprs program := by
  have evaluated :
      e.evaluated program = ((e.site? program).map (CallSite.exprs program)).getD [] := by
    cases e with
    | overloaded | call | new => rfl
    | _ => cases isSite
  rw [evaluated, isSite]
  rfl

theorem copied_of_becomes {results : List Operand}
    (becomes : List.Forall₂ (Item.Becomes program calls) (site.items program) results)
    (unfolded : Unfolded program calls) :
    Copied program site.callee (results.map Operand.constant?) ↔ site.Copies program := by
  rw [constants_of_becomes becomes unfolded]
  rfl

theorem passable_of_becomes {results : List Operand}
    (becomes : List.Forall₂ (Item.Becomes program calls) (site.items program) results)
    (unfolded : Unfolded program calls) :
    Passable (passed (program.function site.callee).args results) ↔ site.Fits program := by
  rw [passed, constants_of_becomes becomes unfolded]
  rfl

/-- What may be bound according to the analysis may be bound. -/
theorem bindable_of_becomes {results : List Operand}
    (becomes : List.Forall₂ (Item.Becomes program calls) (site.items program) results)
    (unfolded : Unfolded program calls) (binds : site.Binds program)
    (sound : ∀ result ∈ results, Sound result.constant?) :
    ∀ binding ∈ (argumentIds site.callee (program.function site.callee)).zip results,
      Bindable program binding.1 binding.2 := by
  intro binding member
  obtain ⟨item, among, become⟩ := exists_of_mem_zip becomes member
  obtain ⟨ofValue, ofReference⟩ := binds _ among
  have known := become.constant? unfolded
  refine ⟨fun byValue => ?_, fun byRef => ⟨known.trans (ofReference byRef).1, fun changed => ?_⟩⟩
  · refine (ofValue byValue).imp known.trans fun ⟨changed, fits⟩ => ⟨changed, ?_, ?_⟩
    · rw [known]
      exact fits
    · exact sound _ (List.of_mem_zip member).2
  · obtain ⟨e, same, lent, width⟩ := (ofReference byRef).2 changed
    dsimp only at same
    subst same
    exact (become.2 (unfolded.known lent)).trans width

theorem invoke_eq (env : Env) (callee : FnId) (arguments : Gen (List Operand)) (isVirtual : Bool) :
    invoke env callee arguments isVirtual = (do
      let expanded ← show Gen Bool from if isVirtual then pure false else shouldExpand env callee
      if expanded then
        let operands ← arguments
        env.expand callee operands
      else
        let called ← withActivation (.ofCall callee) do
          let operands ← arguments
          emitCall (env.program.function callee) operands isVirtual
        return called.1) := by
  cases isVirtual with
  | true => rfl
  | false => rfl

section Invoked

variable (judged : env.Judged program expands) (isSite : e.site? program = some site)
include judged

/-- A call is expanded only if its function is inline and has a body, and whether it is, is known
in a procedure. -/
theorem expands_of_decided {expanded : Bool} {s' : State}
    (ran : (if site.isVirtual then pure false else shouldExpand env site.callee) s =
      .ok expanded s') :
    (expanded = true → site.isVirtual = false ∧
      (program.function site.callee).mods.isInline = true ∧
      (program.function site.callee).body.isSome = true) ∧
    (Exact s.activations → (!site.isVirtual && expands site.callee) = expanded) := by
  simp only [Success.ite_apply] at ran
  split at ran
  · rename_i isVirtual
    obtain ⟨rfl, _⟩ := Success.pure_ok.mp ran
    exact ⟨nofun, fun _ => by rw [isVirtual]; rfl⟩
  · rename_i direct
    have direct := Bool.eq_false_of_not_eq_true direct
    refine ⟨?_, fun exact => ?_⟩
    · rintro rfl
      rw [← judged.same]
      exact ⟨direct, shouldExpand_ok ran⟩
    · rw [judged.decides exact ran, direct]
      rfl

include isSite

variable {arguments : Gen (List Operand)} (evaluated : Evaluated program expands site arguments)
include evaluated

theorem judges_expanded (direct : site.isVirtual = false)
    (isInline : (program.function site.callee).mods.isInline = true)
    (hasBody : (program.function site.callee).body.isSome = true)
    (known : Exact s.activations → (!site.isVirtual && expands site.callee) = true) :
    Judges s (do env.expand site.callee (← arguments))
      (Shown program expands s.activations e) (Granted program s.activations e)
      fun result => result.constant? = none := by
  refine (Judges.bind
    (fun operands => Exact s.activations →
      Copied program site.callee (operands.map Operand.constant?))
    (fun operands => program.Careful ∧ Unfolded program s.activations ∧
      ∀ binding ∈ (argumentIds site.callee (program.function site.callee)).zip operands,
        Bindable program binding.1 binding.2)
    (fun _ (result : Operand) => result.constant? = none) (evaluated s)
    fun operands s₁ same => ?_).mono ?_ ?_ fun _ _ promised => promised.choose_spec.2
  · rw [← activations_of_same same]
    exact judged.expand site.callee isInline hasBody operands s₁
  · rintro ⟨shown, operands, becomes, copied⟩
    refine .intro (fun exact => (checked_of_site isSite).mpr ?_)
      (by rwa [evaluated_of_site isSite])
    rw [known exact]
    exact (copied_of_becomes becomes exact.unfolded).mp (copied exact)
  · intro all
    have granted : ∀ inner ∈ site.exprs program, Granted program s.activations inner :=
      fun inner member => all.part (by rwa [evaluated_of_site isSite])
    refine ⟨granted, fun operands becomes => ⟨all.1, all.2.1, ?_⟩⟩
    exact bindable_of_becomes becomes all.2.1
      (all.2.2.rule.2.2 site isSite direct isInline hasBody)
      (sound_of_becomes becomes all.2.1 granted)

theorem judges_emitted
    (known : Exact s.activations → (!site.isVirtual && expands site.callee) = false) :
    Judges s (do
        let called ← withActivation (.ofCall site.callee) do
          let operands ← arguments
          emitCall (env.program.function site.callee) operands site.isVirtual
        return called.1)
      (Shown program expands s.activations e) (Granted program s.activations e)
      fun result => result.constant? = none := by
  have inside := evaluated { s with activations := .ofCall site.callee :: s.activations }
  simp only [shown_ofCall, granted_ofCall, becomes_ofCall] at inside
  have called := Judges.bind
    (fun operands => Passable (passed (program.function site.callee).args operands))
    (fun operands => Passable (passed (program.function site.callee).args operands) ∧
      ∀ operand ∈ operands, Sound operand.constant?)
    (fun _ (result : Operand) => result.constant? = none) inside
    fun operands s₁ _ => judges_emitCall _ operands site.isVirtual
  rw [judged.same]
  refine ((judges_withActivation called).after (fun _ => .pure _)
    fun result s₁ value s₂ promised run => ?_).mono ?_ ?_ fun _ _ => id
  · obtain ⟨rfl, _⟩ := Success.pure_ok.mp run
    exact promised.choose_spec.2
  · rintro ⟨shown, operands, becomes, passable⟩
    refine .intro (fun exact => (checked_of_site isSite).mpr ?_)
      (by rwa [evaluated_of_site isSite])
    rw [known exact]
    exact (passable_of_becomes becomes exact.unfolded).mp passable
  · intro all
    have granted : ∀ inner ∈ site.exprs program, Granted program s.activations inner :=
      fun inner member => all.part (by rwa [evaluated_of_site isSite])
    have fits : site.Fits program := by
      simpa using (checked_of_site isSite).mp all.2.2.rule.1
    exact ⟨granted, fun operands becomes => ⟨(passable_of_becomes becomes all.2.1).mpr fits,
      sound_of_becomes becomes all.2.1 granted⟩⟩

/-- A call is judged by the analysis, whether it is expanded or not. -/
theorem judges_invoke : Judges s (invoke env site.callee arguments site.isVirtual)
    (Shown program expands s.activations e) (Granted program s.activations e)
    fun result => result.constant? = none := by
  have decided : Mute (if site.isVirtual then pure false else shouldExpand env site.callee) := by
    split
    · exact .pure _
    · exact mute_shouldExpand _ _
  rw [invoke_eq]
  refine decided.before fun expanded s₁ ran same => ?_
  obtain ⟨possible, known⟩ := expands_of_decided judged ran
  rw [← activations_of_same same] at *
  cases expanded with
  | true =>
      obtain ⟨direct, isInline, hasBody⟩ := possible rfl
      exact judges_expanded judged isSite evaluated direct isInline hasBody known
  | false => exact judges_emitted judged isSite evaluated known

end Invoked

/-- The object that a constructor works on is in a register. -/
theorem values_newObject (judged : env.Judged program expands) (cls : ClassId)
    {arguments : List Expr}
    (ofArguments : ∀ e ∈ arguments, (lower env e).Judged program expands e) :
    Values program expands (.new cls arguments)
      (newObject env cls (lower.lowerAll env arguments)) := by
  intro s
  unfold newObject
  rw [judged.same]
  have allocated : Mute (allocateObject (program.cls cls)) := mute_allocateObject _
  refine allocated.before fun object s₁ _ same => ?_
  rw [← activations_of_same same]
  cases found : (program.cls cls).ctor with
  | none =>
      refine .pure (fun _ => rfl) (Shown.intro (fun _ => ?_) ?_)
      · simp [Expr.Checked, Expr.site?, found]
      · simp [Expr.evaluated, Expr.site?, found]
  | some ctor =>
      have isSite : (Expr.new cls arguments).site? program =
          some ⟨ctor, some (.made .absent), arguments, false⟩ := by
        simp [Expr.site?, found]
      refine (mute_lock _).before fun _ s₂ _ same₂ => ?_
      rw [← activations_of_same same₂]
      have atHand : (Item.made .absent).Judged program expands (pure (.reg object)) :=
        fun s => .pure rfl (by simp [Item.expr?])
      have evaluated : Evaluated program expands
          ⟨ctor, some (.made .absent), arguments, false⟩
          (operandsOf (program.function ctor) (some (pure (.reg object)))
            (lower.lowerAll env arguments)) :=
        evaluated_operandsOf (by rintro _ ⟨⟩; exact ⟨_, rfl, atHand⟩) ofArguments
      refine (judges_invoke judged isSite evaluated).after (fun _ => ?_)
        fun _ _ result _ _ run _ => ?_
      · exact (mute_release _).bind fun _ => (mute_drafting (draws_unlock _)).bind fun _ => .pure _
      · obtain ⟨_, _, _, run⟩ := Success.bind_ok.mp run
        obtain ⟨_, _, _, run⟩ := Success.bind_ok.mp run
        obtain ⟨rfl, _⟩ := Success.pure_ok.mp run
        rfl

end Calls

section Lowering

variable {program : TypedProgram} {expands : FnId → Bool} {env : Env}

/-- Only literal nodes are known beforehand. -/
theorem literal?_lower (env : Env) (e : Expr) : (lower env e).literal? = e.literal? := by
  cases e with
  | unary op operand type =>
      unfold lower
      dsimp only
      split
      · rfl
      · rfl
  | _ => rw [lower]; rfl

theorem free_part {e part : Expr} (free : ∀ block, ¬ e.Contains block) (member : part ∈ e.parts) :
    ∀ block, ¬ part.Contains block :=
  fun block inside => free block (.part member inside)

mutual

/-- What is generated for an expression without blocks is judged by the analysis. -/
theorem judged_lower (judged : env.Judged program expands) (e : Expr)
    (free : ∀ block, ¬ e.Contains block) : (lower env e).Judged program expands e := by
  cases e with
  | absent =>
      rw [lower]
      exact .ofValue fun s => .of_error rfl
  | lit value type =>
      rw [lower]
      have plain : (Lowered.ofValue (literal value)).Judged program expands
          (.lit value type) := .ofValue (values_literal value type)
      exact ⟨plain.value, plain.branch, nofun⟩
  | var id =>
      rw [lower, judged.same]
      exact judged_variable id
  | field object member =>
      rw [lower]
      exact judged_field member
        (judged_lower judged object (free_part free (by simp [Expr.parts]))).value
  | binary op left right type =>
      have first := judged_lower judged left (free_part free (by simp [Expr.parts]))
      have second := judged_lower judged right (free_part free (by simp [Expr.parts]))
      rw [lower]
      exact .ofValue (values_binary env judged.same op type first.value second.value)
  | overloaded op left right type callee =>
      have first := judged_lower judged left (free_part free (by simp [Expr.parts]))
      have second := judged_lower judged right (free_part free (by simp [Expr.parts]))
      rw [lower, judged.same]
      have evaluated : Evaluated program expands ⟨callee, none, [left, right], false⟩
          (operandsOf (program.function callee) none (lower.lowerAll env [left, right])) :=
        evaluated_operandsOf nofun (by simp [first, second])
      have isSite : (Expr.overloaded op left right type callee).site? program =
          some ⟨callee, none, [left, right], false⟩ := rfl
      exact .ofValue fun s =>
        (judges_invoke judged isSite evaluated).mono id id fun _ _ isNone _ => isNone
  | unary op operand type =>
      have inner := judged_lower judged operand (free_part free (by simp [Expr.parts]))
      have plain := Lowered.Judged.ofValue (values_unary op type inner.value)
      unfold lower
      dsimp only
      split
      · refine ⟨plain.value, fun s label wanted => ?_, nofun⟩
        refine (inner.branch s label (!wanted)).mono (fun shown => ?_) (fun granted => ?_)
          fun _ _ => id
        · refine .intro (fun _ => ?_) (by simpa [Expr.evaluated] using shown)
          simp [Expr.Checked, SuitsUnary]
        · exact granted.part (by simp [Expr.evaluated])
      · exact plain
  | logical op left right =>
      have first := judged_lower judged left (free_part free (by simp [Expr.parts]))
      have second := judged_lower judged right (free_part free (by simp [Expr.parts]))
      rw [lower]
      refine ⟨values_logical op first second (literal?_lower ..) (literal?_lower ..),
        fun s label wanted => ?_, nofun⟩
      exact judges_shortCircuit op first second (literal?_lower ..) (literal?_lower ..) label wanted
  | call callee receiver arguments isVirtual =>
      have self := judged_lower judged receiver (free_part free (by simp [Expr.parts]))
      have others := judged_lowerAll judged arguments fun e member =>
        free_part free (by simp [Expr.parts, member])
      rw [lower, judged.same]
      have evaluated : Evaluated program expands
          ⟨callee, if receiver.isAbsent then none else some (.value receiver), arguments, isVirtual⟩
          (operandsOf (program.function callee)
            (if receiver.isAbsent then none else some (lower env receiver).value)
            (lower.lowerAll env arguments)) := by
        refine evaluated_operandsOf ?_ others
        intro value given
        split at given
        · contradiction
        · rename_i present
          cases given
          exact ⟨_, if_neg present, .ofValue self⟩
      have isSite : (Expr.call callee receiver arguments isVirtual).site? program =
          some ⟨callee, if receiver.isAbsent then none else some (.value receiver), arguments,
            isVirtual⟩ := rfl
      exact .ofValue fun s =>
        (judges_invoke judged isSite evaluated).mono id id fun _ _ isNone _ => isNone
  | new cls arguments =>
      rw [lower]
      exact .ofValue (values_newObject judged cls (judged_lowerAll judged arguments
        fun e member => free_part free (by simp [Expr.parts, member])))
  | asm block vars type => exact absurd .block (free block)

theorem judged_lowerAll (judged : env.Judged program expands) (es : List Expr)
    (free : ∀ e ∈ es, ∀ block, ¬ e.Contains block) :
    ∀ e ∈ es, (lower env e).Judged program expands e := by
  cases es with
  | nil => exact nofun
  | cons e rest =>
      have first := judged_lower judged e (free e (by simp))
      have others := judged_lowerAll judged rest fun other member => free other (by simp [member])
      intro other member
      rcases List.mem_cons.mp member with rfl | member
      · exact first
      · exact others other member

end

end Lowering

end X64Backend.Lower
