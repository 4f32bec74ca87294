import X64Backend.Proofs.Lower.Calling

/-!
Expressions as moves of the generator.  A branch aims at a label that is still to be defined; the
labels inside an expression are made and defined there.
-/

namespace X64Backend.Lower

open X64Backend.Tree

variable {program : TypedProgram} {since : Handle} {c c' : Config}

/-- Whatever is generated for an expression follows the moves of the generator. -/
structure Lowered.Tracked (program : TypedProgram) (since : Handle) (lowered : Lowered) :
    Prop where
  value : Produces program since lowered.value
  branch : ∀ (c : Config) label wanted, c.words = 0 → label ∈ c.targets →
    Keeps program since c (lowered.branch label wanted) Any
  place : ∀ place, lowered.place? = some place → Produces program since place

theorem Lowered.Tracked.ofValue {value : Gen Operand} (produces : Produces program since value) :
    (Lowered.ofValue value).Tracked program since := by
  refine ⟨produces, ?_, ?_⟩
  · intro c label wanted idle aimed
    refine (produces c idle).bind fun operand c₁ kept usable => ?_
    exact keeps_testAndBranch usable (kept.targets aimed)
  · intro place impossible
    contradiction

theorem Lowered.Tracked.ofPlace {place : Gen Operand} (produces : Produces program since place) :
    (Lowered.ofPlace place).Tracked program since := by
  refine ⟨produces, (ofValue produces).branch, ?_⟩
  intro other same
  cases same
  exact produces

theorem Config.owing_comm (c : Config) (first second : String) :
    (c.owing first).owing second = (c.owing second).owing first :=
  congrArg (Config.mk c.state · c.defined c.words) (Multiset.cons_swap second first c.awaited)

section Logical

variable {left right : Lowered} {op : LogicalOp} {label : String} {wanted : Bool}

theorem keeps_shortCircuit (ofLeft : left.Tracked program since)
    (ofRight : right.Tracked program since) (idle : c.words = 0) (aimed : label ∈ c.targets) :
    Keeps program since c (shortCircuit op left right label wanted) Any := by
  have decided : ∀ c' : Config, label ∈ c'.targets →
      Keeps program since c' (if op.decisive = wanted then jumpTo label else pure ()) Any := by
    intro c' aimed'
    split
    · exact keeps_jumpTo nofun aimed'
    · exact Keeps.pure trivial
  unfold shortCircuit
  dsimp only
  split
  · split
    · exact decided c aimed
    · exact ofRight.branch c label wanted idle aimed
  · split
    · refine (ofLeft.value c idle).bind fun operand c₁ kept₁ usable => ?_
      refine (keeps_release operand).bind fun _ c₂ kept₂ _ => decided c₂ ?_
      exact (kept₁.trans kept₂).targets aimed
    · exact ofLeft.branch c label wanted idle aimed
  · split
    · refine (ofLeft.branch c label wanted idle aimed).bind fun _ c₁ kept₁ _ => ?_
      exact ofRight.branch c₁ label wanted (kept₁.words.trans idle)
        (kept₁.targets aimed)
    · refine Follows.bind follows_newLabel ?_
      intro skip c₁ kept₁
      refine Follows.bind (ofLeft.branch c₁ skip (!wanted) (kept₁.words.trans idle)
        (kept₁.targets (c.mem_owing skip))) ?_
      rintro _ c₂ ⟨kept₂, _⟩
      have kept := kept₁.trans kept₂
      refine Follows.bind (ofRight.branch c₂ label wanted (kept.words.trans idle)
        (kept.targets (Config.targets_owing aimed))) ?_
      rintro _ c₃ ⟨kept₃, _⟩
      refine (follows_defineLabel (kept.trans kept₃)).mono ?_
      exact fun _ c₄ _ defined => ⟨defined.1, trivial⟩

/-- The destination of a logical operator may be named, and its two labels are owed. -/
theorem follows_logicalStart : Follows program since c logicalStart fun start c' =>
    Kept ((c.owing start.2.1).owing start.2.2) c' ∧ Yield since start.1 c' := by
  refine Follows.bind keeps_reserveIfBusy ?_
  rintro _ c₁ ⟨kept₁, _⟩
  refine Follows.bind (keeps_stable .s8) ?_
  rintro dst c₂ ⟨kept₂, usable⟩
  refine Follows.bind (keeps_lock dst) ?_
  rintro _ c₃ ⟨kept₃, _⟩
  refine Follows.bind follows_newLabel fun no c₄ kept₄ => ?_
  refine Follows.bind follows_newLabel fun done c₅ kept₅ => ?_
  have before : Kept c c₃ := kept₁.trans (kept₂.trans kept₃)
  refine Follows.pure ⟨?_, ?_⟩
  · exact ((before.owing no).trans kept₄).owing done |>.trans kept₅
  · refine usable.later (Nat.le_trans kept₃.count ?_)
    exact Nat.le_trans kept₄.count kept₅.count

theorem emit_cons (instr : Instr) (rest : List Instr) :
    emit (instr :: rest) = (do emit [instr]; emit rest) :=
  rfl

theorem follows_logicalSides (ofLeft : left.Tracked program since)
    (ofRight : right.Tracked program since) {dst : Operand} {no done : String}
    (idle : c.words = 0) (kept : Kept ((c.owing no).owing done) c')
    (usable : dst.Usable since c'.count) :
    Follows program since c' (logicalSides op left right dst no done) fun _ c'' =>
      Kept c c'' ∧ dst.Usable since c''.count := by
  refine Follows.bind (keeps_shortCircuit ofLeft ofRight (kept.words.trans idle)
    (kept.targets (Config.targets_owing (c.mem_owing no)))) ?_
  rintro _ c₁ ⟨kept₁, _⟩
  have usable₁ := kept₁.usable usable
  rw [emit_cons]
  refine Follows.bind (keeps_emitBinary usable₁ (Operand.usable_lit _)) ?_
  rintro _ c₂ ⟨kept₂, _⟩
  have owed := kept.trans (kept₁.trans kept₂)
  rw [emit_cons]
  refine Follows.bind (keeps_jumpTo nofun (owed.targets (Config.mem_owing _ done))) ?_
  rintro _ c₃ ⟨kept₃, _⟩
  have owed₃ := owed.trans kept₃
  rw [Config.owing_comm] at owed₃
  rw [emit_cons]
  have usable₃ := (kept₂.trans kept₃).usable usable₁
  refine Follows.bind ((follows_defineLabel owed₃).mono fun _ c₄ moves defined =>
    And.intro defined.1 (usable₃.later moves.count_le)) ?_
  rintro _ c₄ ⟨kept₄, usable₄⟩
  rw [emit_cons]
  refine Follows.bind (keeps_emitBinary usable₄ (Operand.usable_lit _)) ?_
  rintro _ c₅ ⟨kept₅, _⟩
  refine (follows_defineLabel (kept₄.trans kept₅)).mono ?_
  rintro _ c₆ moves ⟨kept₆, _⟩
  exact ⟨kept₆, (kept₅.usable usable₄).later moves.count_le⟩

theorem produces_logicalValue (ofLeft : left.Tracked program since)
    (ofRight : right.Tracked program since) :
    Produces program since (logicalValue op left right) := by
  intro c idle
  cases known : left.literal? with
  | some first =>
      simp only [logicalValue, known]
      split
      · exact Keeps.pure (Operand.usable_lit _)
      · exact ofRight.value c idle
  | none =>
      rw [logicalValue_eq known]
      refine Follows.bind follows_logicalStart ?_
      rintro ⟨dst, no, done⟩ c₁ ⟨kept₁, usable₁⟩
      refine Follows.bind (follows_logicalSides ofLeft ofRight idle kept₁ usable₁) ?_
      rintro _ c₂ ⟨kept₂, usable₂⟩
      have ended : Keeps program since c₂ (logicalEnd dst) (Yield since) := by
        unfold logicalEnd
        split
        · exact (keeps_settle _).bind fun _ c₃ kept₃ _ => Keeps.pure (kept₃.usable usable₂)
        · exact Keeps.pure usable₂
      exact Follows.mono ended fun _ c₃ _ promise => ⟨kept₂.trans promise.1, promise.2⟩

end Logical

section Places

variable {env : Env} {e : Expr} {lowered : Lowered}

theorem produces_placeOf (tracked : lowered.Tracked program since) :
    Produces program since (placeOf env e lowered.place?) := by
  intro c idle
  unfold placeOf
  split
  · rename_i place known
    exact tracked.place place known c idle
  · exact Keeps.throw rfl

theorem produces_addressOf (tracked : lowered.Tracked program since) :
    Produces program since (addressOf env e lowered.place?) := by
  intro c idle
  refine (produces_placeOf tracked c idle).bind fun place c₁ _ usable => ?_
  split
  · exact Keeps.pure usable
  · exact Keeps.throw rfl

end Places

theorem produces_binary {env : Env} {op : BinaryOp} {left right : Expr} {type : TypeRef}
    {first second : Gen Operand} (ofFirst : Produces program since first)
    (ofSecond : Produces program since second) :
    Produces program since (binary env op left right type first second) := by
  intro c idle
  refine (ofFirst c idle).bind fun x c₁ kept₁ ofX => ?_
  refine (ofSecond c₁ (kept₁.words.trans idle)).bind fun y c₂ kept₂ ofY => ?_
  have ofX₂ := kept₂.usable ofX
  split
  · exact keeps_compare ofX₂ ofY
  · exact keeps_arith ofX₂ ofY

theorem contained_part {e part : Expr} (member : part ∈ e.parts)
    (contained : ∀ block, Expr.Contains block e → program.Contains block) :
    ∀ block, Expr.Contains block part → program.Contains block :=
  fun block inside => contained block (.part member inside)

section Expressions

variable {env : Env}

mutual

theorem tracked_lower (expandable : env.Expandable since) (e : Expr)
    (contained : ∀ block, Expr.Contains block e → env.program.Contains block) :
    (lower env e).Tracked env.program since := by
  cases e with
  | absent =>
      rw [lower]
      exact .ofValue fun c _ => Keeps.throw rfl
  | lit value type =>
      rw [lower]
      have tracked : (Lowered.ofValue (literal value)).Tracked env.program since :=
        .ofValue fun c _ => keeps_literal value
      exact ⟨tracked.value, tracked.branch, tracked.place⟩
  | var id =>
      rw [lower]
      exact .ofPlace fun c _ => keeps_variableOperand id
  | field object member =>
      have inner := tracked_lower expandable object (contained_part (by simp [Expr.parts]) contained)
      rw [lower]
      refine .ofPlace fun c idle => ?_
      exact (inner.value c idle).bind fun value c₁ _ usable => keeps_fieldCell usable
  | binary op left right type =>
      have first := tracked_lower expandable left (contained_part (by simp [Expr.parts]) contained)
      have second := tracked_lower expandable right (contained_part (by simp [Expr.parts]) contained)
      rw [lower]
      exact .ofValue (produces_binary first.value second.value)
  | overloaded op left right type callee =>
      have first := tracked_lower expandable left (contained_part (by simp [Expr.parts]) contained)
      have second := tracked_lower expandable right (contained_part (by simp [Expr.parts]) contained)
      rw [lower]
      refine .ofValue fun c idle => keeps_invoke expandable idle fun c' idle' _ => ?_
      refine keeps_operandsOf idle' nofun ?_
      intro pair member
      simp only [List.mem_cons, List.not_mem_nil, or_false] at member
      rcases member with rfl | rfl
      · exact ⟨first.value, produces_addressOf first⟩
      · exact ⟨second.value, produces_addressOf second⟩
  | unary op operand type =>
      have inner := tracked_lower expandable operand (contained_part (by simp [Expr.parts]) contained)
      have plain : (Lowered.ofValue do
          unary op (← (lower env operand).value) type).Tracked env.program since := by
        refine .ofValue fun c idle => ?_
        exact (inner.value c idle).bind fun value c₁ _ usable => keeps_unary usable
      unfold lower
      dsimp only
      split
      · exact ⟨plain.value, fun c label wanted => inner.branch c label (!wanted), plain.place⟩
      · exact plain
  | logical op left right =>
      have first := tracked_lower expandable left (contained_part (by simp [Expr.parts]) contained)
      have second := tracked_lower expandable right (contained_part (by simp [Expr.parts]) contained)
      have value : Produces env.program since (logicalValue op (lower env left) (lower env right)) :=
        produces_logicalValue first second
      rw [lower]
      refine ⟨value, ?_, (Lowered.Tracked.ofValue value).place⟩
      intro c label wanted idle aimed
      exact keeps_shortCircuit first second idle aimed
  | call callee receiver arguments isVirtual =>
      have self := tracked_lower expandable receiver (contained_part (by simp [Expr.parts]) contained)
      have others := tracked_lowerAll expandable arguments fun argument member =>
        contained_part (by simp [Expr.parts, member]) contained
      rw [lower]
      refine .ofValue fun c idle => keeps_invoke expandable idle fun c' idle' _ => ?_
      refine keeps_operandsOf idle' ?_ others
      intro value given
      split at given
      · contradiction
      · cases given
        exact self.value c' idle'
  | new cls arguments =>
      have others := tracked_lowerAll expandable arguments fun argument member =>
        contained_part (by simp [Expr.parts, member]) contained
      rw [lower]
      exact .ofValue (produces_newObject expandable others)
  | asm block vars type =>
      rw [lower]
      exact .ofValue fun c _ => keeps_asmBlock (contained block .block)

theorem tracked_lowerAll (expandable : env.Expandable since) (es : List Expr)
    (contained : ∀ e ∈ es, ∀ block, Expr.Contains block e → env.program.Contains block) :
    ∀ pair ∈ lower.lowerAll env es,
      Produces env.program since pair.1 ∧ Produces env.program since pair.2 := by
  cases es with
  | nil =>
      intro pair member
      simp [lower.lowerAll] at member
  | cons e rest =>
      have first := tracked_lower expandable e (contained e (by simp))
      have others := tracked_lowerAll expandable rest fun other member =>
        contained other (by simp [member])
      intro pair member
      simp only [lower.lowerAll, List.mem_cons] at member
      rcases member with rfl | member
      · exact ⟨first.value, produces_addressOf first⟩
      · exact others pair member

end

end Expressions

end X64Backend.Lower
