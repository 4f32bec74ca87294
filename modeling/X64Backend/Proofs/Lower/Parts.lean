import X64Backend.Proofs.Lower.Fit
import X64Backend.Proofs.Lower.Termination

/-!
What is certain to be generated.  A task undertakes its parts exactly where the generator gets to
them, so when the generation of a program succeeds each part has succeeded in its state, and the
texts that it has filed are still there in the end.
-/

namespace X64Backend.Lower

open X64Backend.Tree

/-- A run includes another one: if it succeeds then the other one has succeeded too, and no text
that was filed until then is lost. -/
def Includes {α β : Type} (whole : Gen α) (s : State) (part : Gen β) (s' : State) : Prop :=
  ∀ b final, whole s = .ok b final →
    ∃ a reached, part s' = .ok a reached ∧ reached.texts <+: final.texts

namespace Includes

variable {α β γ : Type} {whole first : Gen α} {next : α → Gen β} {part : Gen γ} {a : α}
  {options : Options} {d : Nat} {s s₁ s' : State}

theorem refl (whole : Gen α) (s : State) : Includes whole s whole s :=
  fun b final ran => ⟨b, final, ran, List.prefix_refl _⟩

theorem trans {middle : Gen β} (outer : Includes whole s middle s₁)
    (inner : Includes middle s₁ part s') : Includes whole s part s' := by
  intro c final ran
  obtain ⟨b, reached, ran, kept⟩ := outer c final ran
  obtain ⟨a, earlier, ran, kept'⟩ := inner b reached ran
  exact ⟨a, earlier, ran, kept'.trans kept⟩

/-- A part of what comes first, where the rest keeps the texts. -/
theorem head (inside : Includes first s part s')
    (kept : ∀ a s₁ b final, first s = .ok a s₁ → next a s₁ = .ok b final →
      s₁.texts <+: final.texts) : Includes (first >>= next) s part s' := by
  intro b final ran
  obtain ⟨a, s₁, ran, later⟩ := Success.bind_ok.mp ran
  obtain ⟨c, reached, inner, before⟩ := inside a s₁ ran
  exact ⟨c, reached, inner, before.trans (kept a s₁ b final ran later)⟩

theorem of_local (inside : Includes first s part s') (ofNext : ∀ a, Local (next a)) :
    Includes (first >>= next) s part s' :=
  inside.head fun a _ _ _ _ later => (State.Continues.of_standing ((ofNext a).ok later)).texts

theorem of_same (inside : Includes first s part s')
    (ofNext : ∀ a s₁, first s = .ok a s₁ → Same options s₁ (next a) (next a)) :
    Includes (first >>= next) s part s' :=
  inside.head fun a s₁ _ _ ran later => ((ofNext a s₁ ran).ok later).texts

theorem of_agrees (inside : Includes first s part s') (room : s.Room options d)
    (ofFirst : Agrees options d first first) (ofNext : ∀ a, Agrees options d (next a) (next a)) :
    Includes (first >>= next) s part s' :=
  inside.of_same fun a s₁ ran => ofNext a s₁ (room.congr ((ofFirst s room).ok ran).calls)

/-- A part of what comes behind something that is done already. -/
theorem later (ran : first s = .ok a s₁) (inside : Includes (next a) s₁ part s') :
    Includes (first >>= next) s part s' := by
  intro b final run
  rw [Success.bind_of_ok ran] at run
  exact inside b final run

/-- It does not matter that the result is dropped. -/
theorem dropping (inside : Includes whole s part s') :
    Includes (do let _ ← whole) s part s' :=
  inside.of_local fun _ => .pure _

theorem dropped (inside : Includes whole s part s') :
    Includes whole s (do let _ ← part) s' := by
  intro b final ran
  obtain ⟨a, reached, ran, kept⟩ := inside b final ran
  exact ⟨(), reached, Success.bind_of_ok ran, kept⟩

theorem withActivation (activation : Activation) (action : Gen α) (s : State) :
    Includes (withActivation activation action) s
      action { s with activations := activation :: s.activations } := by
  intro result final run
  obtain ⟨s₁, ran, _, rfl⟩ := withActivation_ok run
  exact ⟨result.1, s₁, ran, List.prefix_refl _⟩

theorem outsideLoops (body : Gen α) (s : State) :
    Includes (outsideLoops body) s body { s with loops := [] } := by
  intro a final run
  obtain ⟨s₁, ran, rfl⟩ := outsideLoops_ok run
  exact ⟨a, s₁, ran, List.prefix_refl _⟩

theorem inLoop (entry : Loop) (body : Gen Unit) (s : State) :
    Includes (inLoop entry body) s body { s with loops := entry :: s.loops } :=
  later rfl ((refl _ _).of_local fun _ => local_modify fun _ => rfl)

end Includes

section Undertaking

variable (program : TypedProgram) (options : Options)

/-- A task goes on to its parts: a left side does not decide, a loop runs at all, and there is a
procedure to return from. -/
def Task.Proceeds (env : Env) (s : State) : Task → Prop
  | .item (.value (.logical op left _)) =>
      ∀ known, (lower env left).literal? = some known → truth known ≠ op.decisive
  | .stmt (.ret _) => s.frame.isSome = true
  | .stmt (.while cond _) => (lower env cond).literal?.all truth = true
  | .sides _ _ _ _ _ => False
  | _ => True

/-- There is something to do. -/
def Task.IsPresent : Task → Prop
  | .item (.value e) | .branch e _ _ => e.isAbsent = false
  | .stmt part => part.isAbsent = false
  | _ => True

/-- A task undertakes another one, exactly where the generator does. -/
inductive Undertakes : Nat → Task → State → Nat → Task → State → Prop where
  | call {d task s d' task' s'} : Calls program options d task s d' task' s' →
      task.Proceeds (envAt program options d) s → task'.IsPresent →
      Undertakes d task s d' task' s'
  /-- The left side is known and leaves the outcome to the right one. -/
  | onlyRight {d op left right known label wanted s} :
      (lower (envAt program options d) left).literal? = some known → truth known ≠ op.decisive →
      Undertakes d (.sides op left right label wanted) s d (.branch right label wanted) s
  /-- The right side is known to decide, and the left one is computed for its effects. -/
  | effects {d op left right known label wanted s} :
      (lower (envAt program options d) left).literal? = none →
      (lower (envAt program options d) right).literal? = some known →
      truth known = op.decisive →
      Undertakes d (.sides op left right label wanted) s d (.item (.value left)) s
  /-- The right side is known and leaves the outcome to the left one. -/
  | onlyLeft {d op left right known label wanted s} :
      (lower (envAt program options d) left).literal? = none →
      (lower (envAt program options d) right).literal? = some known →
      truth known ≠ op.decisive →
      Undertakes d (.sides op left right label wanted) s d (.branch left label wanted) s
  | left {d op left right label wanted s} :
      (lower (envAt program options d) left).literal? = none →
      (lower (envAt program options d) right).literal? = none → wanted = op.decisive →
      Undertakes d (.sides op left right label wanted) s d (.branch left label wanted) s
  | right {d op left right label wanted u s s₁} :
      (lower (envAt program options d) left).literal? = none →
      (lower (envAt program options d) right).literal? = none → wanted = op.decisive →
      (lower (envAt program options d) left).branch label wanted s = .ok u s₁ →
      Undertakes d (.sides op left right label wanted) s d (.branch right label wanted) s₁
  | skippingLeft {d op left right label wanted skip s s₁} :
      (lower (envAt program options d) left).literal? = none →
      (lower (envAt program options d) right).literal? = none → wanted ≠ op.decisive →
      newLabel s = .ok skip s₁ →
      Undertakes d (.sides op left right label wanted) s d (.branch left skip (!wanted)) s₁
  | skippingRight {d op left right label wanted skip u s s₁ s₂} :
      (lower (envAt program options d) left).literal? = none →
      (lower (envAt program options d) right).literal? = none → wanted ≠ op.decisive →
      newLabel s = .ok skip s₁ →
      (lower (envAt program options d) left).branch skip (!wanted) s₁ = .ok u s₂ →
      Undertakes d (.sides op left right label wanted) s d (.branch right label wanted) s₂

/-- A task that is undertaken in the generation of a program, in its state. -/
inductive Undertaken : Nat → Task → State → Prop where
  | start {id body s} : Begins program options id body s →
      Undertaken options.inlineDepth.toNat (.body body) s
  | step {d task s d' task' s'} : Undertaken d task s →
      Undertakes program options d task s d' task' s' → Undertaken d' task' s'

end Undertaking

variable {program : TypedProgram} {options : Options} {d d' : Nat} {s s₁ s' : State}
  {task task' : Task}

theorem Undertakes.calls (undertakes : Undertakes program options d task s d' task' s') :
    Calls program options d task s d' task' s' := by
  cases undertakes with
  | call calls _ _ => exact calls
  | onlyRight known _ => exact .sidesOnlyRight known
  | effects _ _ _ => exact .sidesValue
  | onlyLeft _ _ _ => exact .sidesLeft
  | left _ _ _ => exact .sidesLeft
  | right _ _ _ ran => exact .sidesRight ran
  | skippingLeft _ _ _ labelled => exact .sidesSkip labelled
  | skippingRight _ _ _ labelled ran => exact .sidesUnskipped labelled ran

theorem Undertaken.visits (undertaken : Undertaken program options d task s) :
    Visits program options d task s := by
  induction undertaken with
  | start begins => exact .start begins
  | step _ undertakes inductionHypothesis => exact .call inductionHypothesis undertakes.calls

theorem branch_of_isPlain {env : Env} {e : Expr} (plain : Expr.IsPlain e) (label : String)
    (wanted : Bool) :
    (lower env e).branch label wanted = Lowered.branchOn (lower env e).value label wanted := by
  cases e with
  | logical op left right => exact plain.elim
  | unary op operand type =>
      cases op with
      | not => exact plain.elim
      | _ => simp only [lower, Lowered.ofValue]
  | _ => rw [lower]; rfl

section Operands

variable {items : List Item} {item : Item} {callee : FnId} {receiver : Option Item}
  {arguments : List Expr}

theorem agrees_items (items : List Item) :
    Agrees options d (items.mapM (Item.action (envAt program options d)))
      (items.mapM (Item.action (envAt program options d))) :=
  .mapM (List.forall₂_same.mpr fun item _ => agrees_item item)

/-- Each operand has its turn when all of them are computed. -/
theorem Turn.included (turn : Turn (envAt program options d) items s item s')
    (room : s.Room options d) :
    Includes (items.mapM (Item.action (envAt program options d))) s
      (item.action (envAt program options d)) s' := by
  induction turn with
  | now =>
      rw [List.mapM_cons]
      exact (Includes.refl _ _).of_agrees room (agrees_item _) fun _ =>
        (agrees_items _).bind fun _ => .pure _
  | later ran _ inductionHypothesis =>
      rw [List.mapM_cons]
      have room₁ := room.of_expanding ((agrees_item _).expanding room ran)
      exact .later ran ((inductionHypothesis room₁).of_local fun _ => .pure _)

theorem included_operand (room : s.Room options d)
    (turn : Turn (envAt program options d) (callItems (program.function callee) receiver arguments)
      s item s') :
    Includes (operandsAt (envAt program options d) callee receiver arguments) s
      (item.action (envAt program options d)) s' := by
  intro operands final ran
  have ran := operandsOf_ok ran
  rw [operandActions_eq, List.mapM_map] at ran
  exact turn.included room operands final ran

/-- An operand of a call that is expanded. -/
theorem included_expanded (room : s.Room options d)
    (decided : shouldExpand (envAt program options d) callee s = .ok true s₁)
    {β : Type} {part : Gen β}
    (inside : Includes (operandsAt (envAt program options d) callee receiver arguments) s₁
      part s') :
    Includes (invoke (envAt program options d) callee
      (operandsAt (envAt program options d) callee receiver arguments) false) s part s' := by
  have room₁ := room.of_expanding ((local_shouldExpand _ _).expanding decided)
  obtain ⟨new, below⟩ := shouldExpand_room decided
  refine Includes.later decided (inside.head fun operands s₂ _ _ ran later => ?_)
  have same := (agrees_operandsAt _ _ _ _ room₁).ok ran
  have expanding := State.expanding_congr same.calls
  exact ((expandAt_alike (Nat.le_refl d) callee operands s₂ (room₁.congr same.calls)
    (expanding ▸ new) (expanding ▸ below)).ok later).texts

section Called

variable {env : Env} {operands : Gen (List Operand)} {isVirtual : Bool} {β : Type} {part : Gen β}

theorem included_withActivation (inside : Includes operands (s.calling callee) part s') :
    Includes (withActivation (.ofCall callee) do
      let given ← operands
      emitCall (env.program.function callee) given isVirtual) s part s' :=
  (Includes.withActivation _ _ s).trans (inside.of_local fun _ => local_emitCall _ _ _)

/-- An operand of a call that is not expanded. -/
theorem included_called (decided : shouldExpand env callee s = .ok false s₁)
    (inside : Includes operands (s₁.calling callee) part s') :
    Includes (invoke env callee operands false) s part s' :=
  Includes.later decided
    (Includes.of_local (included_withActivation inside) fun _ => .pure _)

theorem included_virtual (inside : Includes operands (s.calling callee) part s') :
    Includes (invoke env callee operands true) s part s' :=
  Includes.later (Success.pure_ok.mpr ⟨rfl, rfl⟩)
    (Includes.of_local (included_withActivation inside) fun _ => .pure _)

end Called

end Operands

section Kinds

/-- What is computed for an operand. -/
theorem Calls.included_item {item : Item}
    (calls : Calls program options d (.item item) s d' task' s')
    (proceeds : (Task.item item).Proceeds (envAt program options d) s) (room : s.Room options d) :
    Includes (item.action (envAt program options d)) s
      (task'.run (envAt program options d')) s' := by
  have operated : ∀ (op : BinaryOp) (left right : Expr) (type : TypeRef) (x y : Operand),
      Local (if op.isComparison then compare op x y (left.type program) (right.type program)
        else arith op x y type) := by
    intro op left right type x y
    split
    · exact local_compare _ _ _ _ _
    · exact local_arith _ _ _ _
  cases calls with
  | @field _ object member _ =>
      change Includes (lower _ (.field object member)).value _ _ _
      rw [lower]
      exact ((Includes.refl _ _).of_local fun _ => local_fieldCell _ _).dropped
  | address =>
      refine ((Includes.refl _ _).of_local fun place => ?_).dropped
      split
      · exact .pure _
      · exact .throw nofun
  | @left _ op left right type _ =>
      change Includes (lower _ (.binary op left right type)).value _ _ _
      rw [lower]
      refine ((Includes.refl _ _).of_agrees room (alike_at left).value fun x => ?_).dropped
      exact (alike_at right).value.bind fun y => .of_local (operated op left right type x y)
  | @right _ op left right type x _ _ ran =>
      change Includes (lower _ (.binary op left right type)).value _ _ _
      rw [lower]
      exact .later ran ((Includes.refl _ _).of_local (operated op left right type x)).dropped
  | @unary _ op operand type _ =>
      have inside := ((Includes.refl (lower (envAt program options d) operand).value s).of_local
        fun value => local_unary op value type).dropped
      change Includes (lower _ (.unary op operand type)).value _ _ _
      unfold lower
      dsimp only
      split
      · exact inside
      · exact inside
  | @decided _ op left right known _ literal =>
      change Includes (lower _ (.logical op left right)).value _ _ _
      rw [lower]
      change Includes (logicalValue _ _ _) _ _ _
      simp only [logicalValue, literal]
      rw [if_neg (proceeds known literal)]
      exact (Includes.refl _ _).dropped
  | @logical _ op left right dst no done _ _ unknown started =>
      change Includes (lower _ (.logical op left right)).value _ _ _
      rw [lower]
      change Includes (logicalValue _ _ _) _ _ _
      rw [logicalValue_eq unknown]
      refine .later started (Includes.of_local ?_ fun _ => local_logicalEnd dst)
      exact (Includes.refl _ _).of_local fun _ => local_emit _
  | @overloaded _ op left right type callee _ =>
      change Includes (lower _ (.overloaded op left right type callee)).value _ _ _
      rw [lower]
      exact (Includes.refl _ _).dropped
  | @method _ callee receiver arguments isVirtual _ =>
      change Includes (lower _ (.call callee receiver arguments isVirtual)).value _ _ _
      rw [lower]
      simp only [Task.run, operandsAt]
      split
      · exact (Includes.refl _ _).dropped
      · exact (Includes.refl _ _).dropped
  | @construct _ cls arguments ctor object _ _ _ _ found allocated locked =>
      change Includes (lower _ (.new cls arguments)).value _ _ _
      rw [lower]
      have found : ((envAt program options d).program.cls cls).ctor = some ctor := found
      refine .later allocated ?_
      dsimp only
      rw [found]
      refine .later locked ?_
      refine ((Includes.refl _ _).of_local fun result => ?_).dropped
      exact (local_release _).bind fun _ => (local_unlock _).bind fun _ => .pure _

theorem Calls.included_place {e : Expr} (calls : Calls program options d (.place e) s d' task' s') :
    Includes (placeOf (envAt program options d) e (lower (envAt program options d) e).place?) s
      (task'.run (envAt program options d')) s' := by
  cases calls with
  | @placeField _ object member _ =>
      rw [lower]
      exact ((Includes.refl _ _).of_local fun _ => local_fieldCell _ _).dropped

theorem Calls.included_branch {e : Expr} {label : String} {wanted : Bool}
    (calls : Calls program options d (.branch e label wanted) s d' task' s') :
    Includes ((lower (envAt program options d) e).branch label wanted) s
      (task'.run (envAt program options d')) s' := by
  cases calls with
  | branchValue plain =>
      rw [branch_of_isPlain plain]
      exact ((Includes.refl _ _).of_local fun _ => local_testAndBranch _ _ _).dropped
  | @branchNot _ operand type _ _ _ =>
      rw [lower]
      exact Includes.refl _ _
  | @branchSides _ op left right _ _ _ =>
      rw [lower]
      exact Includes.refl _ _

/-- What is computed for the sides of a logical operator. -/
theorem Undertakes.included_sides {op : LogicalOp} {left right : Expr} {label : String}
    {wanted : Bool}
    (undertakes : Undertakes program options d (.sides op left right label wanted) s d' task' s')
    (room : s.Room options d) :
    Includes (shortCircuit op (lower (envAt program options d) left)
      (lower (envAt program options d) right) label wanted) s
      (task'.run (envAt program options d')) s' := by
  have ofRight : ∀ skip, Agrees options d
      ((lower (envAt program options d) right).branch skip wanted)
      ((lower (envAt program options d) right).branch skip wanted) :=
    fun skip => (alike_at right).branch skip wanted
  unfold shortCircuit
  cases undertakes with
  | call _ proceeds _ => exact proceeds.elim
  | onlyRight known follows =>
      rw [known]
      dsimp only
      rw [if_neg follows]
      exact Includes.refl _ _
  | effects unknown known decides =>
      rw [unknown, known]
      dsimp only
      rw [if_pos decides]
      refine Includes.dropped (Includes.of_local (Includes.refl _ _) fun value => ?_)
      refine (local_release value).bind fun _ => ?_
      split
      · exact local_jumpTo _
      · exact .pure ()
  | onlyLeft unknown known follows =>
      rw [unknown, known]
      dsimp only
      rw [if_neg follows]
      exact Includes.refl _ _
  | left unknown unknown' same =>
      rw [unknown, unknown']
      dsimp only
      rw [if_pos same]
      exact Includes.of_agrees (Includes.refl _ _) room ((alike_at left).branch _ _)
        fun _ => ofRight label
  | right unknown unknown' same ran =>
      rw [unknown, unknown']
      dsimp only
      rw [if_pos same]
      exact .later ran (Includes.refl _ _)
  | skippingLeft unknown unknown' other labelled =>
      rw [unknown, unknown']
      dsimp only
      rw [if_neg other]
      have room₁ := room.of_expanding (local_newLabel.expanding labelled)
      refine .later labelled (Includes.of_agrees (Includes.refl _ _) room₁
        ((alike_at left).branch _ _) fun _ => ?_)
      exact (ofRight label).bind fun _ => .of_local (local_defineLabel _)
  | skippingRight unknown unknown' other labelled ran =>
      rw [unknown, unknown']
      dsimp only
      rw [if_neg other]
      exact .later labelled (.later ran ((Includes.refl _ _).of_local fun _ => local_defineLabel _))

theorem Calls.included_call {callee : FnId} {receiver : Option Item} {arguments : List Expr}
    {isVirtual : Bool}
    (calls : Calls program options d (.call callee receiver arguments isVirtual) s d' task' s')
    (room : s.Room options d) :
    Includes (invoke (envAt program options d) callee
      (operandsAt (envAt program options d) callee receiver arguments) isVirtual) s
      (task'.run (envAt program options d')) s' := by
  cases calls with
  | expandOperand decided turn =>
      have room₁ := room.of_expanding ((local_shouldExpand _ _).expanding decided)
      exact (included_expanded room decided (included_operand room₁ turn)).dropped
  | expand decided computed =>
      exact .later decided (.later computed (Includes.refl _ _).dropped)
  | emitOperand decided turn =>
      have room₁ := room.of_expanding ((local_shouldExpand _ _).expanding decided)
      exact (included_called decided (included_operand (room₁.calling callee) turn)).dropped
  | virtualOperand turn =>
      exact (included_virtual (included_operand (room.calling callee) turn)).dropped

/-- The body of a function that is expanded. -/
theorem Calls.included_expansion {callee : FnId} {arguments : List Operand}
    (calls : Calls program options d (.expansion callee arguments) s d' task' s') :
    Includes ((envAt program options d).expand callee arguments) s
      (task'.run (envAt program options d')) s' := by
  cases calls with
  | @inside _ _ _ opening _ s₁ opened =>
      change Includes (expandAt program options (d' + 1) callee arguments) _ _ _
      rw [expandAt, expandBody_eq]
      refine .later opened (Includes.of_local ?_ fun final => local_closeOpening _ opening _)
      refine Includes.of_local (.trans (.outsideLoops _ s₁) (.withActivation _ _ _)) fun left => ?_
      exact (local_closeExpansion left.2).bind fun _ => .pure _

theorem Calls.included_body {body : List Stmt}
    (calls : Calls program options d (.body body) s d' task' s') (room : s.Room options d) :
    Includes (Lower.block (envAt program options d) body) s
      (task'.run (envAt program options d')) s' := by
  cases calls with
  | @first _ stmt rest _ =>
      rw [Lower.block, statement.statements]
      exact (Includes.refl _ _).of_agrees room (agrees_at stmt) fun _ =>
        .after local_endStatement fun _ => agrees_body rest
  | rest ran ended =>
      rw [Lower.block, statement.statements]
      exact .later ran (.later ended (Includes.refl _ _))

section Branches

variable {cond : Lowered} {body : Gen Unit} {otherwise start post : Option (Gen Unit)}
  {given : Option Lowered} {β : Type} {part : Gen β}

/-- A choice behind its first body. -/
def afterThen (label : String) (otherwise : Option (Gen Unit)) : Gen Unit :=
  match otherwise with
  | none => defineLabel label
  | some body => do
      let done ← newLabel
      if !isJump (← lastInstr) then jumpTo done
      defineLabel label
      body
      endStatement
      defineLabel done

theorem choose_eq_afterThen (unknown : cond.literal? = none) :
    choose cond body otherwise = (do
      let label ← beforeThen cond
      body
      afterThen label otherwise) := by
  simp only [choose, unknown, beforeThen, bind_assoc, pure_bind]
  rfl

theorem agrees_afterThen (label : String)
    (agrees : Option.Rel (Agrees options d) otherwise otherwise) :
    Agrees options d (afterThen label otherwise) (afterThen label otherwise) := by
  cases agrees with
  | none => exact .of_local (local_defineLabel _)
  | some agrees =>
      have ended : ∀ done, Agrees options d _ _ := fun done =>
        .after (local_defineLabel label) fun _ => agrees.bind fun _ =>
          .of_local (local_endStatement.bind fun _ => local_defineLabel done)
      refine .after local_newLabel fun done => .after local_lastInstr fun last => ?_
      exact .ite (.after (local_jumpTo done) fun _ => ended done) (ended done)

theorem included_headerPart {action : Gen Unit} (inside : Includes action s part s') :
    Includes (headerPart (some action)) s part s' :=
  inside.of_local fun _ => local_endStatement

variable (room : s.Room options d) (ofStart : Option.Rel (Agrees options d) start start)
  (ofGiven : Option.Rel (Lowered.Alike options d) given given)
  (ofPost : Option.Rel (Agrees options d) post post) (agrees : Agrees options d body body)

include ofGiven in
theorem agrees_headerBranch (label : String) :
    Agrees options d (headerPart (given.map fun cond => cond.branch label false))
      (headerPart (given.map fun cond => cond.branch label false)) := by
  refine agrees_headerPart ?_
  cases ofGiven with
  | none => exact .none
  | some alike => exact .some (alike.branch label false)

include room ofStart ofGiven in
theorem included_beforeForRound (inside : Includes (beforeFor start) s part s') :
    Includes (beforeForRound start given) s part s' :=
  inside.of_agrees room (agrees_beforeFor ofStart) fun entry =>
    (agrees_headerBranch ofGiven entry.2.exit).bind fun _ => .pure _

include room ofStart ofGiven agrees in
theorem included_beforePost (inside : Includes (beforeForRound start given) s part s') :
    Includes (beforePost start given body) s part s' :=
  inside.of_agrees room (agrees_beforeForRound ofStart ofGiven) fun entry =>
    (agrees_inLoop agrees entry.2).bind fun _ =>
      .of_local ((local_defineLabel _).bind fun _ => .pure _)

include room ofStart ofGiven ofPost agrees in
theorem included_repeatFor (inside : Includes (beforePost start given body) s part s') :
    Includes (repeatFor start given post body) s part s' := by
  rw [repeatFor_eq]
  exact inside.of_agrees room (agrees_beforePost ofStart ofGiven agrees) fun entry =>
    (agrees_headerPart ofPost).bind fun _ =>
      .of_local ((local_jumpTo _).bind fun _ => local_defineLabel _)

end Branches

theorem statement_ite (env : Env) (cond : Expr) (thenBody : List Stmt) (elseBody : Stmt) :
    statement env (.ite cond thenBody elseBody) =
      choose (lower env cond) (Lower.block env thenBody) (statement? env elseBody) := by
  rw [statement]
  rfl

theorem statement_for (env : Env) (start : Stmt) (cond : Expr) (post : Stmt) (body : List Stmt) :
    statement env (.for start cond post body) =
      repeatFor (statement? env start) (lower? env cond) (statement? env post)
        (Lower.block env body) := by
  rw [statement]
  rfl

theorem statement?_of_present {part : Stmt} (present : (Task.stmt part).IsPresent) :
    statement? (envAt program options d) part = some (statement (envAt program options d) part) :=
  if_neg (by rw [present]; exact Bool.false_ne_true)

/-- The value that is returned, from an expansion or from the procedure. -/
theorem included_ret {value : Expr} (present : (Task.item (.value value)).IsPresent)
    (within : s.frame.isSome = true) :
    Includes (ret (envAt program options d) value) s
      (lower (envAt program options d) value).value s := by
  have returning : (!value.isAbsent) = true := by rw [present]; rfl
  obtain ⟨frame, found⟩ := Option.isSome_iff_exists.mp within
  obtain ⟨innermost, ran⟩ : ∃ innermost, expansion? s = .ok innermost s := by
    unfold expansion?
    rw [Success.bind_of_ok (Success.get_ok.mpr ⟨rfl, rfl⟩)]
    cases s.activations with
    | nil => exact ⟨_, rfl⟩
    | cons _ _ => exact ⟨_, rfl⟩
  refine .later ran (.later (Success.get_ok.mpr ⟨rfl, rfl⟩) ?_)
  rw [found]
  cases innermost with
  | some activation =>
      change Includes (returnInside _ activation value) _ _ _
      unfold returnInside
      rw [if_pos returning]
      refine (Includes.refl _ _).of_local fun returned => ?_
      exact (local_storeResult _ _ _ _).bind fun _ => (local_expansionExit _).bind fun _ =>
        (local_jumpTo _).bind fun _ => local_modifyActivation (fun _ => rfl) fun _ => rfl
  | none =>
      change Includes (returnFrom _ frame value) _ _ _
      unfold returnFrom
      rw [if_pos returning]
      refine (Includes.refl _ _).of_local fun returned => ?_
      have left : Local (do
          jumpTo frame.exit
          modifyFrame fun frame => { frame with jumps := frame.jumps + 1 }) :=
        (local_jumpTo _).bind fun _ => local_modifyFrame _
      dsimp only
      split
      · exact (local_report _).bind fun _ => (local_release _).bind fun _ => left
      · exact (local_store _ _ _ _).bind fun _ => left

section Compounds

variable {cond : Expr} {body : List Stmt}

theorem Calls.included_ite {thenBody : List Stmt} {elseBody : Stmt}
    (calls : Calls program options d (.stmt (.ite cond thenBody elseBody)) s d' task' s')
    (present : task'.IsPresent) (room : s.Room options d) :
    Includes (statement (envAt program options d) (.ite cond thenBody elseBody)) s
      (task'.run (envAt program options d')) s' := by
  cases calls with
  | thenKnown known holds =>
      rw [statement_ite]
      simp only [choose, known]
      rw [if_pos holds]
      exact Includes.refl _ _
  | elseKnown known fails =>
      rw [statement_ite, statement?_of_present present]
      simp only [choose, known]
      rw [if_neg (by simp [fails])]
      exact Includes.refl _ _
  | chooseCond unknown labelled =>
      rw [statement_ite, choose_eq_afterThen unknown]
      have inside : Includes (beforeThen (lower (envAt program options d) cond)) s _ s' :=
        .later labelled ((Includes.refl _ _).of_local fun _ => local_endStatement.bind fun _ =>
          .pure _)
      exact inside.of_agrees room (agrees_beforeThen (alike_at cond)) fun label =>
        (agrees_body thenBody).bind fun _ => agrees_afterThen label (rel_statement? elseBody)
  | thenBody unknown ran =>
      rw [statement_ite, choose_eq_afterThen unknown]
      have room₁ := room.of_expanding ((agrees_beforeThen (alike_at cond)).expanding room ran)
      exact .later ran ((Includes.refl _ _).of_agrees room₁ (agrees_body thenBody) fun _ =>
        agrees_afterThen _ (rel_statement? elseBody))
  | elseBody unknown ran =>
      rw [statement_ite, statement?_of_present present, choose_eq unknown]
      exact .later ran ((Includes.refl _ _).of_local fun _ =>
        local_endStatement.bind fun _ => local_defineLabel _)

theorem Calls.included_while
    (calls : Calls program options d (.stmt (.while cond body)) s d' task' s')
    (proceeds : (Task.stmt (.while cond body)).Proceeds (envAt program options d) s)
    (room : s.Room options d) :
    Includes (statement (envAt program options d) (.while cond body)) s
      (task'.run (envAt program options d')) s' := by
  cases calls with
  | whileCond ran =>
      rw [statement, repeatWhile_eq proceeds]
      have inside : Includes (beforeRound (lower (envAt program options d) cond)) s _ s' :=
        .later ran ((Includes.refl _ _).of_local fun _ => local_endStatement.bind fun _ => .pure _)
      exact inside.of_agrees room (agrees_beforeRound (alike_at cond)) fun entry =>
        (agrees_inLoop (agrees_body body) entry).bind fun _ =>
          .of_local ((local_jumpTo _).bind fun _ => local_defineLabel _)
  | @whileBody _ _ _ entry _ s₁ ran =>
      rw [statement, repeatWhile_eq proceeds]
      exact .later ran ((Includes.inLoop entry _ s₁).of_local fun _ =>
        (local_jumpTo _).bind fun _ => local_defineLabel _)

/-- What is generated up to the last part of a loop header is generated for the loop. -/
theorem included_for_of_beforePost {start post : Stmt} {part : Gen α} (room : s.Room options d)
    (inside : Includes (beforePost (statement? (envAt program options d) start)
      (lower? (envAt program options d) cond) (Lower.block (envAt program options d) body))
      s part s') :
    Includes (statement (envAt program options d) (.for start cond post body)) s part s' := by
  rw [statement_for]
  exact included_repeatFor room (rel_statement? start) (rel_lower? cond) (rel_statement? post)
    (agrees_body body) inside

theorem Calls.included_for {start post : Stmt}
    (calls : Calls program options d (.stmt (.for start cond post body)) s d' task' s')
    (present : task'.IsPresent) (room : s.Room options d) :
    Includes (statement (envAt program options d) (.for start cond post body)) s
      (task'.run (envAt program options d')) s' := by
  cases calls with
  | forStart =>
      refine included_for_of_beforePost room ?_
      refine included_beforePost room (rel_statement? start) (rel_lower? cond) (agrees_body body)
        (included_beforeForRound room (rel_statement? start) (rel_lower? cond) ?_)
      rw [statement?_of_present present]
      exact (included_headerPart (Includes.refl _ _)).of_local fun _ =>
        local_newLabel.bind fun _ => local_newLabel.bind fun _ => local_newLabel.bind fun _ =>
          (local_defineLabel _).bind fun _ => .pure _
  | forCond ran =>
      refine included_for_of_beforePost room ?_
      refine included_beforePost room (rel_statement? start) (rel_lower? cond) (agrees_body body) ?_
      refine .later ran (Includes.of_local ?_ fun _ => .pure _)
      have given : lower? (envAt program options d) cond =
          some (lower (envAt program options d) cond) :=
        if_neg (by rw [present]; exact Bool.false_ne_true)
      rw [given]
      exact included_headerPart (Includes.refl _ _)
  | @forBody _ _ _ _ _ _ entry _ s₁ ran =>
      refine included_for_of_beforePost room ?_
      exact .later ran ((Includes.inLoop entry _ s₁).of_local fun _ =>
        (local_defineLabel _).bind fun _ => .pure _)
  | forPost ran =>
      rw [statement_for, repeatFor_eq]
      refine .later ran (Includes.of_local ?_ fun _ =>
        (local_jumpTo _).bind fun _ => local_defineLabel _)
      rw [statement?_of_present present]
      exact included_headerPart (Includes.refl _ _)

end Compounds

/-- What is generated for a statement. -/
theorem Calls.included_stmt {part : Stmt}
    (calls : Calls program options d (.stmt part) s d' task' s')
    (proceeds : (Task.stmt part).Proceeds (envAt program options d) s) (present : task'.IsPresent)
    (room : s.Room options d) :
    Includes (statement (envAt program options d) part) s
      (task'.run (envAt program options d')) s' := by
  cases part with
  | ite cond thenBody elseBody => exact calls.included_ite present room
  | «while» cond body => exact calls.included_while proceeds room
  | «for» start cond post body => exact calls.included_for present room
  | block =>
      cases calls
      rw [statement]
      exact Includes.refl _ _
  | expr =>
      cases calls
      rw [statement]
      exact ((Includes.refl _ _).of_local fun _ => local_release _).dropped
  | assign target value =>
      rw [statement]
      cases calls with
      | assigned =>
          refine Includes.dropped ?_
          refine (Includes.refl _ _).of_agrees room (alike_at value).value fun _ => ?_
          exact (agrees_placeOf (alike_at target).place).bind fun _ =>
            .of_local ((local_store _ _ _ _).bind fun _ => local_release _)
      | target ran =>
          exact .later ran ((Includes.refl _ _).of_local fun _ =>
            (local_store _ _ _ _).bind fun _ => local_release _).dropped
  | ret value =>
      cases calls
      rw [statement]
      exact (included_ret present proceeds).dropped
  | _ => cases calls

end Kinds

/-- One step: what is undertaken is included in what undertakes it. -/
theorem Undertakes.included (undertakes : Undertakes program options d task s d' task' s')
    (room : s.Room options d) :
    Includes (task.run (envAt program options d)) s (task'.run (envAt program options d')) s' := by
  cases task with
  | sides op left right label wanted => exact undertakes.included_sides room
  | item subject =>
      cases undertakes with
      | call calls proceeds _ => exact (calls.included_item proceeds room).dropping
  | place e =>
      cases undertakes with
      | call calls _ _ => exact calls.included_place.dropping
  | branch e label wanted =>
      cases undertakes with
      | call calls _ _ => exact calls.included_branch
  | stmt part =>
      cases undertakes with
      | call calls proceeds present => exact calls.included_stmt proceeds present room
  | body parts =>
      cases undertakes with
      | call calls _ _ => exact calls.included_body room
  | call callee receiver arguments isVirtual =>
      cases undertakes with
      | call calls _ _ => exact (calls.included_call room).dropping
  | expansion callee arguments =>
      cases undertakes with
      | call calls _ _ => exact calls.included_expansion.dropping

theorem exists_range_eq {id count : Nat} (inside : id < count) :
    ∃ others, List.range count = List.range id ++ id :: others := by
  obtain ⟨more, rfl⟩ : ∃ more, count = id + (more + 1) := ⟨count - id - 1, by omega⟩
  refine ⟨List.range' (id + 1) more, ?_⟩
  rw [List.range_eq_range', List.range_eq_range', ← List.range'_append_1, Nat.zero_add,
    List.range'_succ]

/-- The body of a function is generated in the state in which it begins. -/
theorem Begins.included {id : FnId} {body : List Stmt} (begins : Begins program options id body s) :
    Includes (wholeProgram (.of program options)) .initial
      (block (envAt program options options.inlineDepth.toNat) body) s := by
  obtain ⟨inside, found, run⟩ := begins
  obtain ⟨_, s₁, started, run⟩ := Success.bind_ok.mp run
  obtain ⟨_, s₂, entered, run⟩ := Success.bind_ok.mp run
  obtain ⟨_, s₃, earlier, run⟩ := Success.bind_ok.mp run
  obtain ⟨_, s₄, begun, spilled⟩ := Success.bind_ok.mp run
  obtain ⟨others, split⟩ := exists_range_eq inside
  have least := Nat.le_refl options.inlineDepth.toNat
  have idle₂ : s₂.calls = [] :=
    (congrArg Prod.fst ((local_entryPoint _).ok entered)).trans
      (congrArg Prod.fst ((local_emit _).ok started))
  have idle₃ : s₃.calls = [] :=
    ((same_functions idle₂ least least _).ok earlier).calls.trans idle₂
  have among : Includes ((List.range program.functions.size).forM
      (functionCode (.of program options))) s₂
      (block (envAt program options options.inlineDepth.toNat) body) s := by
    rw [split, List.forM_eq_forM, List.forM_append, List.forM_cons]
    have whole :
        functionCode (.of program options) id = procedure (.of program options) id body := by
      unfold functionCode
      rw [show (Env.of program options).program.function id = program.function id from rfl, found]
    have procedure : Includes (procedure (.of program options) id body) s₃
        (block (envAt program options options.inlineDepth.toNat) body) s := by
      refine .later begun (.later spilled ((Includes.refl _ _).of_local fun _ => ?_))
      refine Leaves.get.bind fun s₅ => ?_
      split
      · exact local_finishProcedure _ _ _
      · exact .pure ()
    refine .later earlier ?_
    rw [whole]
    refine procedure.of_same fun _ s₅ ran => same_functions ?_ least least _
    exact ((same_procedure idle₃ least least id body).ok ran).calls.trans idle₃
  exact .later started (.later entered (among.of_local fun _ => local_modify fun _ => rfl))

/-- Every run: whatever is undertaken has succeeded when the generation of the program succeeds, and
the texts that it has filed are still there. -/
theorem Undertaken.included (undertaken : Undertaken program options d task s) :
    Includes (wholeProgram (.of program options)) .initial
      (task.run (envAt program options d)) s := by
  induction undertaken with
  | start begins => exact begins.included
  | step earlier undertakes inductionHypothesis =>
      exact inductionHypothesis.trans (undertakes.included earlier.visits.room.1)

end X64Backend.Lower
