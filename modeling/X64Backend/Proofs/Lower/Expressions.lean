import X64Backend.Proofs.Lower.Blocks
import X64Backend.Proofs.Lower.Calls

/-!
Expressions leave the guarded values alone.  The slots that the code of an expression may clear are
those whose registers are named by a block in it, or by a block in a function that is expanded in
it.
-/

namespace X64Backend

namespace Tree

/-- The expressions right below an expression. -/
def Expr.parts : Expr → List Expr
  | .absent | .lit _ _ | .var _ | .asm _ _ _ => []
  | .field object _ => [object]
  | .binary _ left right _ | .overloaded _ left right _ _ | .logical _ left right => [left, right]
  | .unary _ operand _ => [operand]
  | .call _ receiver arguments _ => receiver :: arguments
  | .new _ arguments => arguments

/-- The function that an expression calls directly. -/
def Expr.callee? (program : TypedProgram) : Expr → Option FnId
  | .overloaded _ _ _ _ callee => some callee
  | .call callee _ _ isVirtual => if isVirtual then none else some callee
  | .new cls _ => (program.cls cls).ctor
  | _ => none

/-- The expressions of a statement itself. -/
def Stmt.exprs : Stmt → List Expr
  | .absent | .break | .continue | .block _ => []
  | .expr value | .ret value => [value]
  | .assign target value => [target, value]
  | .ite cond _ _ | .while cond _ | .for _ cond _ _ => [cond]

/-- The statements right below a statement. -/
def Stmt.parts : Stmt → List Stmt
  | .absent | .break | .continue | .expr _ | .ret _ | .assign _ _ => []
  | .ite _ thenBody elseBody => elseBody :: thenBody
  | .while _ body | .block body => body
  | .for start _ post body => start :: post :: body

mutual

/-- A block in the code of an expression names the register of a slot. -/
inductive Expr.Claims (program : TypedProgram) (slot : Pool.Slot) : Expr → Prop where
  | block {block : Block} {vars : List (String × VarId)} {type : TypeRef} :
      Pool.slotPhys slot ∈ block.registers → Expr.Claims program slot (.asm block vars type)
  | part {e part : Expr} : part ∈ e.parts → Expr.Claims program slot part →
      Expr.Claims program slot e
  /-- The body of an inline function may stand in place of its call. -/
  | callee {e : Expr} {callee : FnId} {body : List Stmt} : e.callee? program = some callee →
      (program.function callee).mods.isInline = true →
      (program.function callee).body = some body → Stmt.Claims program slot (.block body) →
      Expr.Claims program slot e

/-- A block in the code of a statement names the register of a slot. -/
inductive Stmt.Claims (program : TypedProgram) (slot : Pool.Slot) : Stmt → Prop where
  | expr {s : Stmt} {e : Expr} : e ∈ s.exprs → Expr.Claims program slot e →
      Stmt.Claims program slot s
  | part {s part : Stmt} : part ∈ s.parts → Stmt.Claims program slot part →
      Stmt.Claims program slot s

end

end Tree

namespace Lower

open X64Backend.Tree

variable {guarded : Handle → Prop} {C : Pool.Slot → Prop} {s s' : State} {u : Unit}

/-- A computation that yields an operand from any state. -/
def Evaluates (guarded : Handle → Prop) (C : Pool.Slot → Prop) (action : Gen Operand) : Prop :=
  ∀ s operand s', Ready guarded s → action s = .ok operand s' →
    Steady guarded C s s' ∧ Owned guarded s' operand

theorem Evaluates.yields {action : Gen Operand} (evaluates : Evaluates guarded C action)
    (draft : Draft) : Yields guarded C draft action := by
  intro s operand s' ready _ run
  exact evaluates s operand s' ready run

/-- An evaluated operand, and what is made of it. -/
theorem Evaluates.bind {first : Gen Operand} {rest : Operand → Gen Operand}
    (evaluates : Evaluates guarded C first)
    (continues : ∀ {s operand result s'}, Ready guarded s → Owned guarded s operand →
      rest operand s = .ok result s' → Steady guarded C s s' ∧ Owned guarded s' result) :
    Evaluates guarded C (first >>= rest) := by
  intro s result s' ready run
  obtain ⟨operand, s₁, evaluated, run⟩ := Success.bind_ok.mp run
  obtain ⟨one, owned⟩ := evaluates s operand s₁ ready evaluated
  obtain ⟨two, owned'⟩ := continues (one.ready ready) owned run
  exact ⟨one.trans two, owned'⟩

/-- Whatever is generated for an expression leaves the guarded values alone. -/
structure Lowered.Sound (guarded : Handle → Prop) (C : Pool.Slot → Prop) (lowered : Lowered) :
    Prop where
  value : Evaluates guarded C lowered.value
  branch : ∀ label wanted s u s', Ready guarded s → lowered.branch label wanted s = .ok u s' →
    Steady guarded C s s'
  place : ∀ place, lowered.place? = some place → Evaluates guarded C place

theorem steady_branchOn {value : Gen Operand} {label : String} {wanted : Bool}
    (evaluates : Evaluates guarded C value) (ready : Ready guarded s)
    (run : Lowered.branchOn value label wanted s = .ok u s') : Steady guarded C s s' := by
  obtain ⟨operand, s₁, evaluated, branched⟩ := Success.bind_ok.mp run
  obtain ⟨first, owned⟩ := evaluates s operand s₁ ready evaluated
  exact first.trans (steady_testAndBranch (first.ready ready) owned branched)

theorem Lowered.Sound.ofValue {value : Gen Operand} (evaluates : Evaluates guarded C value) :
    (Lowered.ofValue value).Sound guarded C := by
  refine ⟨evaluates, ?_, ?_⟩
  · intro label wanted s u s' ready run
    exact steady_branchOn evaluates ready run
  · intro place impossible
    contradiction

theorem Lowered.Sound.ofPlace {place : Gen Operand} (evaluates : Evaluates guarded C place) :
    (Lowered.ofPlace place).Sound guarded C := by
  refine ⟨evaluates, (ofValue evaluates).branch, ?_⟩
  intro other same
  cases same
  exact evaluates

/-- Before the sides of a logical operator: the accumulator is cleared, the destination chosen and
locked, and the labels are made. -/
def logicalStart : Gen (Operand × String × String) := do
  reserveIfBusy
  let dst ← stable .s8
  drafting (Drafting.lock dst)
  let no ← newLabel
  let done ← newLabel
  return (dst, no, done)

/-- The sides of a logical operator, up to the label at its end. -/
def logicalSides (op : LogicalOp) (left right : Lowered) (dst : Operand) (no done : String) :
    Gen Unit := do
  shortCircuit op left right no false
  emit
    [.binary .mov dst (.lit (.ofInt 1)),
      .branch .jmp done,
      .label no false,
      .binary .mov dst (.lit (.ofInt 0)),
      .label done false]

/-- Behind a logical operator its destination is an ordinary value. -/
def logicalEnd (dst : Operand) : Gen Operand := do
  match dst with
  | .reg register => drafting (Drafting.settle register)
  | _ => pure ()
  return dst

theorem logicalValue_eq {op : LogicalOp} {left right : Lowered} (unknown : left.literal? = none) :
    logicalValue op left right = (do
      let (dst, no, done) ← logicalStart
      logicalSides op left right dst no done
      logicalEnd dst) := by
  simp only [logicalValue, unknown, logicalStart, logicalSides, bind_assoc, pure_bind]
  rfl

theorem steady_logicalStart {start : Operand × String × String} (ready : Ready guarded s)
    (run : logicalStart s = .ok start s') :
    Steady guarded C s s' ∧ Fresh guarded s' start.1 := by
  simp only [logicalStart, Success.bind_ok, Success.pure_ok] at run
  obtain ⟨_, s₁, reserved, dst, s₂, chosen, _, s₃, locked, no, s₄, labelled, done, s₅, labelled',
    rfl, rfl⟩ := run
  have one := steady_reserveIfBusy (C := C) ready reserved
  obtain ⟨two, fresh⟩ := steady_stable (C := C) (one.ready ready) chosen
  have ready₂ := two.ready (one.ready ready)
  have three := steady_lock (C := C) ready₂ fresh locked
  have four := three.trans (plain_newLabel.steady (three.ready ready₂) labelled)
  have five := four.trans (plain_newLabel.steady (four.ready ready₂) labelled')
  exact ⟨one.trans (two.trans five), fresh.steady five⟩

theorem steady_logicalEnd {dst result : Operand} (ready : Ready guarded s)
    (fresh : Fresh guarded s dst) (run : logicalEnd dst s = .ok result s') :
    Steady guarded C s s' ∧ Owned guarded s' result := by
  have plain : (pure dst : Gen Operand) s = .ok result s' →
      Steady guarded C s s' ∧ Owned guarded s' result := by
    intro run
    obtain ⟨rfl, rfl⟩ := Success.pure_ok.mp run
    exact ⟨.refl ready, fresh.owned⟩
  cases dst with
  | reg register =>
      obtain ⟨_, s₁, settled, run⟩ := Success.bind_ok.mp run
      obtain ⟨rfl, rfl⟩ := Success.pure_ok.mp run
      have step := steady_settle (C := C) ready fresh settled
      exact ⟨step, (fresh.steady step).owned⟩
  | _ => exact plain run

section Logical

variable {left right : Lowered} (leftSound : left.Sound guarded C)
  (rightSound : right.Sound guarded C)
include leftSound rightSound

theorem steady_shortCircuit {op : LogicalOp} {label : String} {wanted : Bool}
    (ready : Ready guarded s) (run : shortCircuit op left right label wanted s = .ok u s') :
    Steady guarded C s s' := by
  unfold shortCircuit at run
  have decided : Plain (if op.decisive = wanted then jumpTo label else pure ()) := by simp
  cases knownLeft : left.literal? with
  | some first =>
      simp only [knownLeft, Success.ite_apply] at run
      split at run
      · exact decided.steady ready (by simpa only [Success.ite_apply] using run)
      · exact rightSound.branch label wanted s u s' ready run
  | none =>
      cases knownRight : right.literal? with
      | some second =>
          simp only [knownLeft, knownRight, Success.ite_apply] at run
          split at run
          · simp only [Success.bind_ok] at run
            obtain ⟨operand, s₁, evaluated, _, s₂, released, jumped⟩ := run
            obtain ⟨one, owned⟩ := leftSound.value s operand s₁ ready evaluated
            have two := one.trans (steady_release (one.ready ready) owned released)
            exact two.trans (decided.steady (two.ready ready) jumped)
          · exact leftSound.branch label wanted s u s' ready run
      | none =>
          simp only [knownLeft, knownRight, Success.ite_apply] at run
          split at run
          · simp only [Success.bind_ok] at run
            obtain ⟨_, s₁, first, second⟩ := run
            have one := leftSound.branch label wanted s _ s₁ ready first
            exact one.trans (rightSound.branch label wanted s₁ u s' (one.ready ready) second)
          · simp only [Success.bind_ok] at run
            obtain ⟨skip, s₁, labelled, _, s₂, first, _, s₃, second, defined⟩ := run
            have one := plain_newLabel.steady (C := C) ready labelled
            have two := one.trans (leftSound.branch skip _ s₁ _ s₂ (one.ready ready) first)
            have three := two.trans (rightSound.branch label _ s₂ _ s₃ (two.ready ready) second)
            exact three.trans ((plain_defineLabel skip).steady (three.ready ready) defined)

theorem steady_logicalSides {op : LogicalOp} {dst : Operand} {no done : String}
    (ready : Ready guarded s) (run : logicalSides op left right dst no done s = .ok u s') :
    Steady guarded C s s' := by
  obtain ⟨_, s₁, branched, emitted⟩ := Success.bind_ok.mp run
  have one := steady_shortCircuit leftSound rightSound ready branched
  exact one.trans ((plain_emit _).steady (one.ready ready) emitted)

theorem evaluates_logicalValue {op : LogicalOp} :
    Evaluates guarded C (logicalValue op left right) := by
  intro s result s' ready run
  cases known : left.literal? with
  | some first =>
      simp only [logicalValue, known, Success.ite_apply] at run
      split at run
      · obtain ⟨rfl, rfl⟩ := Success.pure_ok.mp run
        exact ⟨.refl ready, (Fresh.of_none rfl).owned⟩
      · exact rightSound.value s result s' ready run
  | none =>
      rw [logicalValue_eq known] at run
      obtain ⟨⟨dst, no, done⟩, s₁, started, run⟩ := Success.bind_ok.mp run
      obtain ⟨_, s₂, sides, ended⟩ := Success.bind_ok.mp run
      obtain ⟨one, fresh⟩ := steady_logicalStart (C := C) ready started
      have two := steady_logicalSides leftSound rightSound (one.ready ready) sides
      obtain ⟨three, owned⟩ := steady_logicalEnd (C := C) (two.ready (one.ready ready))
        (fresh.steady two) ended
      exact ⟨one.trans (two.trans three), owned⟩

end Logical

theorem evaluates_placeOf {env : Env} {e : Expr} {lowered : Lowered}
    (sound : lowered.Sound guarded C) :
    Evaluates guarded C (placeOf env e lowered.place?) := by
  intro s result s' ready run
  unfold placeOf at run
  cases known : lowered.place? with
  | some place =>
      rw [known] at run
      exact sound.place place known s result s' ready run
  | none =>
      rw [known] at run
      simp at run

theorem evaluates_addressOf {env : Env} {e : Expr} {lowered : Lowered}
    (sound : lowered.Sound guarded C) :
    Evaluates guarded C (addressOf env e lowered.place?) := by
  intro s result s' ready run
  obtain ⟨place, s₁, placed, run⟩ := Success.bind_ok.mp run
  simp only [Success.ite_apply] at run
  split at run
  · obtain ⟨rfl, rfl⟩ := Success.pure_ok.mp run
    exact evaluates_placeOf sound s place s₁ ready placed
  · simp at run

theorem evaluates_binary {env : Env} {op : BinaryOp} {left right : Expr} {type : TypeRef}
    {first second : Gen Operand} (evaluates : Evaluates guarded C first)
    (evaluates' : Evaluates guarded C second) :
    Evaluates guarded C (binary env op left right type first second) := by
  intro s result s' ready run
  simp only [binary, Success.bind_ok] at run
  obtain ⟨x, s₁, ran, y, s₂, ran', run⟩ := run
  obtain ⟨one, owned⟩ := evaluates s x s₁ ready ran
  obtain ⟨two, owned'⟩ := evaluates' s₁ y s₂ (one.ready ready) ran'
  have both := one.trans two
  have last : Steady guarded C s₂ s' ∧ Owned guarded s' result := by
    simp only [Success.ite_apply] at run
    split at run
    · exact steady_compare (both.ready ready) (owned.steady two) owned' run
    · exact steady_arith (both.ready ready) (owned.steady two) owned' run
  exact ⟨both.trans last.1, last.2⟩

theorem handle?_of_literal {value : Literal} {operand : Operand}
    (run : literal value s = .ok operand s') : operand.handle? = none := by
  simp only [literal, Success.ite_apply] at run
  split at run
  · obtain ⟨rfl, _⟩ := Success.pure_ok.mp run
    rfl
  · obtain ⟨_, _, got, run⟩ := Success.bind_ok.mp run
    obtain ⟨rfl, rfl⟩ := Success.get_ok.mp got
    cases found : s.texts.idxOf? value.text with
    | some number =>
        rw [found] at run
        obtain ⟨rfl, _⟩ := Success.pure_ok.mp run
        rfl
    | none =>
        rw [found] at run
        obtain ⟨_, _, _, run⟩ := Success.bind_ok.mp run
        obtain ⟨rfl, _⟩ := Success.pure_ok.mp run
        rfl

theorem evaluates_literal (value : Literal) : Evaluates guarded C (literal value) := by
  intro s operand s' ready run
  refine ⟨(plain_literal value).steady ready run, (Fresh.of_none ?_).owned⟩
  exact handle?_of_literal run

/-- Every inline function can be expanded under guard, if its body clears only slots that may be
claimed. -/
def Env.Expanding (env : Env) (guarded : Handle → Prop) (C : Pool.Slot → Prop) : Prop :=
  ∀ callee body, (env.program.function callee).body = some body →
    (∀ slot, Stmt.Claims env.program slot (.block body) → C slot) →
    Expands guarded C (env.expand callee)

variable {env : Env}

/-- The functions that an expression calls can be expanded. -/
theorem expands_callee (expanding : env.Expanding guarded C) {e : Expr} {callee : FnId}
    (calls : e.callee? env.program = some callee)
    (claimed : ∀ slot, Expr.Claims env.program slot e → C slot)
    (inline : (env.program.function callee).mods.isInline = true)
    (defined : (env.program.function callee).body.isSome = true) :
    Expands guarded C (env.expand callee) := by
  obtain ⟨body, found⟩ := Option.isSome_iff_exists.mp defined
  refine expanding callee body found ?_
  intro slot claims
  exact claimed slot (.callee calls inline found claims)

theorem claimed_part {e part : Expr} (claimed : ∀ slot, Expr.Claims env.program slot e → C slot)
    (member : part ∈ e.parts) : ∀ slot, Expr.Claims env.program slot part → C slot := by
  intro slot claims
  exact claimed slot (.part member claims)

section Forms

variable {object operand left right receiver : Expr} {arguments : List Expr}

theorem sound_field {member : Field} (inner : (lower env object).Sound guarded C) :
    (lower env (.field object member)).Sound guarded C := by
  rw [lower]
  exact .ofPlace (inner.value.bind steady_fieldCell)

/-- A negated condition branches as its operand does, the other way round. -/
theorem sound_unary {op : UnaryOp} {type : TypeRef} (inner : (lower env operand).Sound guarded C) :
    (lower env (.unary op operand type)).Sound guarded C := by
  have plain : (Lowered.ofValue do
      unary op (← (lower env operand).value) type).Sound guarded C :=
    .ofValue (inner.value.bind steady_unary)
  unfold lower
  dsimp only
  split
  · exact ⟨plain.value, fun label wanted => inner.branch label (!wanted), plain.place⟩
  · exact plain

theorem sound_logical {op : LogicalOp} (first : (lower env left).Sound guarded C)
    (second : (lower env right).Sound guarded C) :
    (lower env (.logical op left right)).Sound guarded C := by
  have value : Evaluates guarded C (logicalValue op (lower env left) (lower env right)) :=
    evaluates_logicalValue first second
  rw [lower]
  refine ⟨value, ?_, (Lowered.Sound.ofValue value).place⟩
  intro label wanted s u s' ready run
  exact steady_shortCircuit first second ready run

variable (expanding : env.Expanding guarded C)
include expanding

theorem sound_overloaded {op : BinaryOp} {type : TypeRef} {callee : FnId}
    (claimed : ∀ slot, Expr.Claims env.program slot (.overloaded op left right type callee) →
      C slot)
    (first : (lower env left).Sound guarded C) (second : (lower env right).Sound guarded C) :
    (lower env (.overloaded op left right type callee)).Sound guarded C := by
  rw [lower]
  refine .ofValue ?_
  intro s result s' ready run
  refine steady_invoke ready (fun _ => expands_callee expanding rfl claimed) ?_ ?_ run
  · rintro value impossible
    contradiction
  · intro pair member
    simp only [List.mem_cons, List.not_mem_nil, or_false] at member
    rcases member with rfl | rfl
    · exact ⟨first.value.yields _, (evaluates_addressOf first).yields _⟩
    · exact ⟨second.value.yields _, (evaluates_addressOf second).yields _⟩

theorem sound_call {callee : FnId} {isVirtual : Bool}
    (claimed : ∀ slot, Expr.Claims env.program slot (.call callee receiver arguments isVirtual) →
      C slot)
    (self : (lower env receiver).Sound guarded C)
    (others : ∀ pair ∈ lower.lowerAll env arguments,
      Evaluates guarded C pair.1 ∧ Evaluates guarded C pair.2) :
    (lower env (.call callee receiver arguments isVirtual)).Sound guarded C := by
  rw [lower]
  refine .ofValue ?_
  intro s result s' ready run
  refine steady_invoke ready ?_ ?_ (fun pair member =>
    ⟨(others pair member).1.yields _, (others pair member).2.yields _⟩) run
  · rintro rfl
    exact expands_callee expanding (by simp [Expr.callee?]) claimed
  · intro value given
    split at given
    · contradiction
    · cases given
      exact self.value.yields _

theorem sound_new {cls : ClassId}
    (claimed : ∀ slot, Expr.Claims env.program slot (.new cls arguments) → C slot)
    (others : ∀ pair ∈ lower.lowerAll env arguments,
      Evaluates guarded C pair.1 ∧ Evaluates guarded C pair.2) :
    (lower env (.new cls arguments)).Sound guarded C := by
  rw [lower]
  refine .ofValue ?_
  intro s result s' ready run
  refine steady_newObject ready ?_ (fun pair member =>
    ⟨(others pair member).1.yields _, (others pair member).2.yields _⟩) run
  intro ctor found
  exact expands_callee expanding (by simp [Expr.callee?, found]) claimed

end Forms

mutual

theorem sound_lower (expanding : env.Expanding guarded C) (e : Expr)
    (claimed : ∀ slot, Expr.Claims env.program slot e → C slot) :
    (lower env e).Sound guarded C := by
  cases e with
  | absent =>
      rw [lower]
      refine .ofValue ?_
      intro s operand s' _ run
      simp at run
  | lit value type =>
      rw [lower]
      have sound : (Lowered.ofValue (literal value)).Sound guarded C :=
        .ofValue (evaluates_literal value)
      exact ⟨sound.value, sound.branch, sound.place⟩
  | var id =>
      rw [lower]
      refine .ofPlace ?_
      intro s operand s' ready run
      exact steady_variableOperand ready run
  | field object member =>
      exact sound_field (sound_lower expanding object (claimed_part claimed (by simp [Expr.parts])))
  | binary op left right type =>
      have first := sound_lower expanding left (claimed_part claimed (by simp [Expr.parts]))
      have second := sound_lower expanding right (claimed_part claimed (by simp [Expr.parts]))
      rw [lower]
      exact .ofValue (evaluates_binary first.value second.value)
  | overloaded op left right type callee =>
      have first := sound_lower expanding left (claimed_part claimed (by simp [Expr.parts]))
      have second := sound_lower expanding right (claimed_part claimed (by simp [Expr.parts]))
      exact sound_overloaded expanding claimed first second
  | unary op operand type =>
      exact sound_unary (sound_lower expanding operand (claimed_part claimed (by simp [Expr.parts])))
  | logical op left right =>
      have first := sound_lower expanding left (claimed_part claimed (by simp [Expr.parts]))
      have second := sound_lower expanding right (claimed_part claimed (by simp [Expr.parts]))
      exact sound_logical first second
  | call callee receiver arguments isVirtual =>
      have self := sound_lower expanding receiver (claimed_part claimed (by simp [Expr.parts]))
      have others := sound_lowerAll expanding arguments fun argument member =>
        claimed_part claimed (by simp [Expr.parts, member])
      exact sound_call expanding claimed self others
  | new cls arguments =>
      have others := sound_lowerAll expanding arguments fun argument member =>
        claimed_part claimed (by simp [Expr.parts, member])
      exact sound_new expanding claimed others
  | asm block vars type =>
      rw [lower]
      refine .ofValue ?_
      intro s operand s' ready run
      refine steady_asmBlock ready ?_ run
      intro slot named
      exact claimed slot (.block named)

theorem sound_lowerAll (expanding : env.Expanding guarded C) (es : List Expr)
    (claimed : ∀ e ∈ es, ∀ slot, Expr.Claims env.program slot e → C slot) :
    ∀ pair ∈ lower.lowerAll env es,
      Evaluates guarded C pair.1 ∧ Evaluates guarded C pair.2 := by
  cases es with
  | nil =>
      intro pair member
      simp [lower.lowerAll] at member
  | cons e rest =>
      have first := sound_lower expanding e (claimed e (by simp))
      have others := sound_lowerAll expanding rest fun other member => claimed other (by simp [member])
      intro pair member
      simp only [lower.lowerAll, List.mem_cons] at member
      rcases member with rfl | member
      · exact ⟨first.value, evaluates_addressOf first⟩
      · exact others pair member

end

end Lower

end X64Backend
