import X64Backend.Proofs.Lower.Following

/-!
Moves between operands, operators and the places of values, as moves of the generator.  What they
write names only their operands and registers that need not be restored.
-/

namespace X64Backend.Lower

open X64Backend.Tree

variable {program : TypedProgram} {since : Handle} {c : Config}

section Copies

theorem keeps_fits (literal : Literal) (size : Size) :
    Keeps program since c (fits literal size) Any := by
  unfold fits
  split
  · exact (keeps_report _).bind fun _ _ _ _ => Keeps.pure trivial
  · split
    · exact (keeps_report _).bind fun _ _ _ _ => Keeps.pure trivial
    · exact Keeps.pure trivial

theorem keeps_storeHalves {cell : Pointer} {literal : Literal} {order : ChunkOrder}
    (usable : (Operand.mem cell).Usable since c.count) :
    Keeps program since c (storeHalves cell literal order) Any := by
  unfold storeHalves
  split
  · exact keeps_report _
  · refine (keeps_log _).bind fun _ c₁ kept _ => ?_
    have usable₁ := kept.usable usable
    have plain : ∀ (distance : Int32) (half : Literal), (Instr.binary .mov
        (.mem (((cell.resize .s32).offset 4).offset distance)) (.lit half)).Plain since c₁.count := by
      intro distance half
      exact Instr.plain_binary.mpr ⟨usable₁, Operand.usable_lit _⟩
    have plain' : ∀ half : Literal, (Instr.binary .mov
        (.mem ((cell.resize .s32).offset 4)) (.lit half)).Plain since c₁.count := by
      intro half
      exact Instr.plain_binary.mpr ⟨usable₁, Operand.usable_lit _⟩
    split
    · apply keeps_emit
      simp only [List.mem_cons, List.not_mem_nil, or_false]
      rintro instr (rfl | rfl)
      · exact plain _ _
      · exact plain' _
    · apply keeps_emit
      simp only [List.mem_cons, List.not_mem_nil, or_false]
      rintro instr (rfl | rfl)
      · exact plain' _
      · exact plain _ _

theorem keeps_storeLiteral {dst : Operand} {literal : Literal} {order : ChunkOrder}
    (usable : dst.Usable since c.count) :
    Keeps program since c (storeLiteral dst literal order) Any := by
  refine (keeps_fits literal dst.size).bind fun fit c₁ kept _ => ?_
  have usable₁ := kept.usable usable
  have direct : Keeps program since c₁ (emit [.binary .mov dst (.lit literal)]) Any :=
    keeps_emitBinary usable₁ (Operand.usable_lit _)
  split
  · split
    · split
      · exact direct
      · exact keeps_storeHalves usable₁
    · exact direct
  · exact Keeps.pure trivial

variable {dst src : Operand} {signed : Bool} {order : ChunkOrder}

theorem keeps_widen {register : Register} (ofDst : (Operand.reg register).Usable since c.count)
    (ofSrc : src.Usable since c.count) : Keeps program since c (widen register src signed) Any := by
  apply keeps_emit
  intro instr member
  rw [List.mem_singleton.mp member]
  unfold widening
  split
  · split
    · exact Instr.plain_binary.mpr ⟨ofDst.resize _, ofSrc⟩
    · exact Instr.plain_binary.mpr ⟨ofDst.resize _, ofSrc⟩
  · exact Instr.plain_binary.mpr ⟨ofDst, ofSrc⟩

theorem keeps_moveRegister {target register : Register}
    (ofDst : (Operand.reg target).Usable since c.count)
    (ofSrc : (Operand.reg register).Usable since c.count) :
    Keeps program since c (moveRegister target register signed) Any := by
  unfold moveRegister
  split
  · exact keeps_emitBinary ofDst (ofSrc.resize _)
  · exact keeps_widen ofDst ofSrc

theorem keeps_moveCell {target : Register} {cell : Pointer}
    (ofDst : (Operand.reg target).Usable since c.count)
    (ofSrc : (Operand.mem cell).Usable since c.count) :
    Keeps program since c (moveCell target cell signed) Any := by
  unfold moveCell
  split
  · exact keeps_emitBinary ofDst (Operand.usable_resize.mpr ofSrc)
  · exact keeps_widen ofDst ofSrc

theorem keeps_viaTemp {fill : Register → Gen Unit} (usable : dst.Usable since c.count)
    (fills : ∀ register c', Kept c c' → (Operand.reg register).Usable since c'.count →
      Keeps program since c' (fill register) Any) :
    Keeps program since c (viaTemp dst fill) Any := by
  refine (keeps_nextRegister dst.size).bind fun register c₁ kept fresh => ?_
  refine (fills register c₁ kept fresh).bind fun _ c₂ kept' _ => ?_
  have stored : Keeps program since c₂ (emit [.binary .mov dst (.reg register)]) Any :=
    keeps_emitBinary ((kept.trans kept').usable usable) (kept'.usable fresh)
  exact stored.bind fun _ _ _ _ => keeps_freeAnyway _

theorem keeps_move (ofDst : dst.Usable since c.count) (ofSrc : src.Usable since c.count) :
    Keeps program since c (move dst src signed order) Any := by
  unfold move
  split
  · exact Keeps.throw rfl
  · exact keeps_storeLiteral ofDst
  · exact keeps_moveRegister ofDst ofSrc
  · split
    · exact keeps_emitBinary ofDst (ofSrc.resize _)
    · exact keeps_viaTemp ofDst fun register c₁ kept fresh => keeps_widen fresh (kept.usable ofSrc)
  · exact keeps_moveCell ofDst ofSrc
  · exact keeps_viaTemp ofDst fun register c₁ kept fresh =>
      keeps_moveCell fresh (kept.usable ofSrc)

theorem keeps_load {operand : Operand} {size : Size} (usable : operand.Usable since c.count) :
    Keeps program since c (load operand size signed) fun register c' =>
      Yield since (.reg register) c' := by
  refine (keeps_temp operand).bind fun owned c₁ kept _ => ?_
  have usable₁ := kept.usable usable
  split
  · split
    · exact (keeps_widen (usable₁.resize _) usable₁).bind fun _ c₂ kept' _ =>
        Keeps.pure ((kept'.usable usable₁).resize _)
    · exact Keeps.pure (usable₁.resize _)
  · refine (keeps_nextRegister size).bind fun register c₂ kept' fresh => ?_
    refine (keeps_move fresh (kept'.usable usable₁)).bind fun _ c₃ kept'' _ => ?_
    exact (keeps_release operand).bind fun _ c₄ kept''' _ =>
      Keeps.pure ((kept''.trans kept''').usable fresh)

/-- A loaded value as an operand. -/
theorem keeps_loaded {operand : Operand} {size : Size} (usable : operand.Usable since c.count) :
    Keeps program since c (do return .reg (← load operand size signed)) (Yield since) :=
  (keeps_load usable).bind fun _ _ _ fresh => Keeps.pure fresh

theorem keeps_operandFor {operand : Operand} {size : Size} (usable : operand.Usable since c.count) :
    Keeps program since c (operandFor operand size signed) (Yield since) := by
  unfold operandFor
  split
  · refine (keeps_fits _ _).bind fun fit c₁ kept _ => ?_
    split
    · exact Keeps.pure (Operand.usable_lit _)
    · split
      · exact keeps_loaded (Operand.usable_lit _)
      · exact Keeps.pure (Operand.usable_lit _)
  · exact keeps_loaded usable
  · split
    · exact Keeps.pure usable
    · exact keeps_loaded usable

end Copies

section Truth

variable {operand : Operand} {label : String} {wanted : Bool}

theorem keeps_test (usable : operand.Usable since c.count) :
    Keeps program since c (test operand) Any := by
  unfold test
  split
  · exact keeps_emitBinary usable usable
  · exact keeps_emitBinary usable (Operand.usable_lit _)
  · exact Keeps.throw rfl

theorem keeps_jumpTo {op : Op} (other : op ≠ .call) (aimed : label ∈ c.targets) :
    Keeps program since c (emit [.branch op label]) Any :=
  Keeps.modify (.jump other aimed) rfl rfl

/-- The condition that the newest instruction stores comes from that instruction. -/
theorem keeps_lastSet? (location : Operand) :
    Keeps program since c (lastSet? location) fun found c' => ∀ cond, found = some cond →
      ∃ operand, c'.state.draft.text.last? = some (.unary (.set cond) operand) := by
  refine Follows.bind (follows_lastInstr
    (P := fun instr c' => c = c' ∧ instr = c.state.draft.text.last?.getD .absent)
    ⟨rfl, rfl⟩) ?_
  rintro instr _ ⟨rfl, same⟩
  refine Follows.pure ⟨.refl c, ?_⟩
  intro cond found
  unfold storedCond? at found
  split at found
  · rename_i stored dst
    split at found
    · cases found
      refine ⟨dst, ?_⟩
      cases last : c.state.draft.text.last? with
      | none =>
          rw [last] at same
          cases same
      | some newest =>
          rw [last] at same
          exact congrArg some same.symm
    · cases found
  · cases found

theorem keeps_testAndBranch (usable : operand.Usable since c.count) (aimed : label ∈ c.targets) :
    Keeps program since c (testAndBranch operand label wanted) Any := by
  unfold testAndBranch
  split
  · split
    · exact keeps_jumpTo (by simp) aimed
    · exact Keeps.pure trivial
  · refine (keeps_lastSet? operand).bind fun stored c₁ kept found => ?_
    have aimed₁ : label ∈ c₁.targets := kept.targets aimed
    cases stored with
    | some cond =>
        obtain ⟨location, newest⟩ := found cond rfl
        dsimp only
        refine Follows.bind (P := fun _ c' => c₁ = c') (fun _ => ⟨c₁, rfl, .refl, rfl⟩) ?_
        rintro owned _ rfl
        split
        · have fused : Keeps program since c₁ (modifyText fun text =>
              text.replaceLast (.branch (.jump (if wanted then cond else cond.negate)) label)) Any :=
            Keeps.modify (.fuse newest aimed₁) rfl rfl
          refine fused.bind fun _ _ _ _ => (keeps_log _).bind fun _ _ _ _ => ?_
          exact keeps_release operand
        · exact (keeps_jumpTo (by simp) aimed₁).bind fun _ _ _ _ => keeps_release operand
    | none =>
        refine (keeps_test (kept.usable usable)).bind fun _ c₂ kept' _ => ?_
        refine (keeps_release operand).bind fun _ c₃ kept'' _ => ?_
        have same := kept'.trans kept''
        exact keeps_jumpTo (by simp) (same.targets aimed₁)

theorem keeps_fuseStore {dst value : Operand} (usable : dst.Usable since c.count) :
    Keeps program since c (fuseStore dst value) Any := by
  unfold fuseStore
  have unfused : ∀ {c : Config}, Keeps program since c (pure false) Any := Keeps.pure trivial
  refine (keeps_temp value).bind fun owned c₁ kept _ => ?_
  split
  · refine (keeps_lastSet? value).bind fun stored c₂ kept' found => ?_
    cases stored with
    | some cond =>
        obtain ⟨location, newest⟩ := found cond rfl
        have fused : Keeps program since c₂ (modifyText fun text =>
            text.replaceLast (.unary (.set cond) dst)) Any :=
          Keeps.modify (.reset newest ((kept.trans kept').usable usable)) rfl rfl
        refine fused.bind fun _ _ _ _ => (keeps_release value).bind fun _ _ _ _ => ?_
        exact (keeps_log _).bind fun _ _ _ _ => Keeps.pure trivial
    | none => exact unfused
  · exact unfused

theorem keeps_store {dst value : Operand} {signed : Bool} {order : ChunkOrder}
    (ofDst : dst.Usable since c.count) (ofValue : value.Usable since c.count) :
    Keeps program since c (store dst value signed order) Any := by
  refine (keeps_fuseStore ofDst).bind fun fused c₁ kept _ => ?_
  split
  · refine (keeps_move (kept.usable ofDst) (kept.usable ofValue)).bind fun _ _ _ _ => ?_
    exact keeps_release value
  · exact Keeps.pure trivial

end Truth

section Places

theorem keeps_cell (v : Variable) (offset : Int64) :
    Keeps program since c (variableOperand.cell v offset) (Yield since) := by
  unfold variableOperand.cell
  split
  · refine (keeps_nextRegister .s64).bind fun pointer c₁ _ fresh => ?_
    refine (keeps_emitBinary fresh Operand.usable_frameCell).bind fun _ c₂ kept _ => ?_
    exact Keeps.pure (Operand.usable_ofBase.mpr (Operand.usable_reg.mp (kept.usable fresh)))
  · exact Keeps.pure Operand.usable_frameCell

/-- What a call in progress has bound a variable to may be named. -/
theorem Config.Valid.binding (valid : c.Valid since) {id : VarId} {operand : Operand}
    (found : (c.state.activations.findSome? fun activation => activation.binding? id) =
      some (.operand operand)) : operand.Usable since c.count := by
  obtain ⟨activation, member, bound⟩ := List.exists_of_findSome?_eq_some found
  unfold Activation.binding? at bound
  split at bound
  · rename_i entry known
    cases bound
    obtain ⟨before, after, among, _⟩ := List.lookup_eq_some_iff.mp known
    refine valid.usable activation member operand (List.mem_cons_of_mem _ ?_)
    exact List.mem_map.mpr ⟨(id, operand), by simp [among], rfl⟩
  · obtain ⟨offset, _, impossible⟩ := Option.map_eq_some_iff.mp bound
    cases impossible

theorem keeps_variableOperand (id : VarId) :
    Keeps program since c (variableOperand program id) (Yield since) := by
  refine Follows.given fun valid => ?_
  unfold variableOperand
  refine (Keeps.get (P := fun s c' => s = c.state ∧ c' = c) ⟨rfl, rfl⟩).bind ?_
  rintro s _ _ ⟨rfl, rfl⟩
  dsimp only
  split
  · rename_i operand found
    exact Keeps.pure (valid.binding found)
  · exact keeps_cell _ _
  · exact keeps_cell _ _

theorem keeps_base {operand : Operand} (usable : operand.Usable since c.count) :
    Keeps program since c (base operand) fun register c' => Yield since (.reg register) c' := by
  unfold base
  split
  · exact Keeps.pure (usable.resize _)
  · exact keeps_load usable

theorem keeps_fieldCell {object : Operand} {member : Field}
    (usable : object.Usable since c.count) :
    Keeps program since c (fieldCell object member) (Yield since) :=
  (keeps_base usable).bind fun _ _ _ fresh =>
    Keeps.pure (Operand.usable_ofBase.mpr (Operand.usable_reg.mp fresh))

theorem keeps_literal (value : Literal) :
    Keeps program since c (literal value) (Yield since) := by
  unfold literal
  split
  · exact Keeps.pure (Operand.usable_lit _)
  · refine (Keeps.get (P := fun s c => c.state = s) rfl).bind fun s c₁ _ same => ?_
    subst same
    dsimp only
    split
    · exact Keeps.pure (Operand.usable_lit _)
    · rename_i none
      have new : value.text ∉ c₁.state.texts := List.idxOf?_eq_none_iff.mp none
      refine (Keeps.modify (.note ?_) rfl rfl).bind fun _ _ _ _ =>
        Keeps.pure (Operand.usable_lit _)
      exact ⟨rfl, rfl, rfl, rfl, rfl, rfl, rfl, rfl, fun filed => filed.file new⟩

theorem keeps_reserveIfBusy : Keeps program since c reserveIfBusy Any := by
  refine (Keeps.get (P := Any) trivial).bind fun s c₁ _ _ => ?_
  dsimp only
  split
  · exact keeps_reserve.any
  · exact Keeps.pure trivial

theorem keeps_stable (size : Size) : Keeps program since c (stable size) (Yield since) := by
  refine (Keeps.get (P := Any) trivial).bind fun s c₁ _ _ => ?_
  dsimp only
  split
  · exact (keeps_nextRegister size).bind fun _ _ _ fresh => Keeps.pure fresh
  · exact (keeps_log _).bind fun _ _ _ _ => keeps_stackTemp size

end Places

section Operators

variable {left right operand : Operand} {size : Size} {signed : Bool}

theorem keeps_fold (op : BinaryOp) :
    Keeps program since c (fold op left right size signed) fun folded c' =>
      ∀ operand, folded = some operand → Yield since operand c' := by
  unfold fold
  split
  · unfold foldLiterals
    split
    · split
      · refine (keeps_log _).bind fun _ _ _ _ => Keeps.pure ?_
        rintro operand ⟨⟩
        exact Operand.usable_lit _
      · refine Keeps.pure ?_
        rintro operand ⟨⟩
        exact Operand.usable_lit _
      · refine (keeps_report _).bind fun _ _ _ _ => Keeps.pure ?_
        rintro operand ⟨⟩
        exact Operand.usable_lit _
      · exact Keeps.pure (by simp)
    · exact Keeps.pure (by simp)
  · exact Keeps.pure (by simp)

theorem keeps_combine {op : BinaryOp} {instr : Op} (ofLeft : left.Usable since c.count)
    (ofRight : right.Usable since c.count) :
    Keeps program since c (combine op instr left right size signed) (Yield since) := by
  unfold combine
  refine (Keeps.get (P := Any) trivial).bind fun s c₁ kept _ => ?_
  obtain ⟨ofFirst, ofSecond⟩ : (arrange s.draft op left right).1.Usable since c₁.count ∧
      (arrange s.draft op left right).2.Usable since c₁.count := by
    unfold arrange
    split
    · exact ⟨kept.usable ofRight, kept.usable ofLeft⟩
    · exact ⟨kept.usable ofLeft, kept.usable ofRight⟩
  dsimp only
  refine (keeps_load ofFirst).bind fun dst c₂ kept₂ ofDst => ?_
  refine (keeps_operandFor (kept₂.usable ofSecond)).bind fun src c₃ kept₃ ofSrc => ?_
  have ofDst₃ := kept₃.usable ofDst
  split
  · refine (keeps_load ofSrc).bind fun wide c₄ kept₄ ofWide => ?_
    have ofDst₄ := kept₄.usable ofDst₃
    refine (keeps_widen (ofDst₄.resize _) ofDst₄).bind fun _ c₅ kept₅ _ => ?_
    have ofDst₅ := kept₅.usable ofDst₄
    refine (keeps_emitBinary (ofDst₅.resize _) (kept₅.usable ofWide)).bind fun _ c₆ kept₆ _ => ?_
    exact (keeps_release _).bind fun _ c₇ kept₇ _ => Keeps.pure ((kept₆.trans kept₇).usable ofDst₅)
  · refine (keeps_emitBinary ofDst₃ ofSrc).bind fun _ c₄ kept₄ _ => ?_
    exact (keeps_release _).bind fun _ c₅ kept₅ _ => Keeps.pure ((kept₄.trans kept₅).usable ofDst₃)

theorem usable_fixed {phys : Phys} {count : Handle}
    (free : ∀ slot, slot ≠ Pool.accumulator → Pool.slotPhys slot ≠ phys) :
    (Operand.reg (.fix phys size)).Usable since count :=
  Operand.usable_reg.mpr (Register.usable_fix free)

theorem keeps_placeDivisor (usable : operand.Usable since c.count) :
    Keeps program since c (placeDivisor operand signed) (Yield since) := by
  unfold placeDivisor
  split
  · exact Keeps.pure usable
  · have ofRcx : ∀ {count}, (Operand.reg (.fix .rcx .s64)).Usable since count :=
      usable_fixed (by decide)
    exact (keeps_move ofRcx usable).bind fun _ _ _ _ => Keeps.pure ofRcx

theorem keeps_division (usable : operand.Usable since c.count) :
    Keeps program since c (emit (division operand signed)) Any := by
  apply keeps_emit
  unfold division
  split
  · simp only [List.mem_cons, List.not_mem_nil, or_false]
    rintro instr (rfl | rfl)
    · exact Instr.plain_nullary
    · exact Instr.plain_unary rfl usable
  · simp only [List.mem_cons, List.not_mem_nil, or_false]
    rintro instr (rfl | rfl)
    · exact Instr.plain_binary.mpr ⟨usable_fixed (by decide), usable_fixed (by decide)⟩
    · exact Instr.plain_unary rfl usable

theorem keeps_divide {remainder : Bool} (ofLeft : left.Usable since c.count)
    (ofRight : right.Usable since c.count) :
    Keeps program since c (divide left right size signed remainder) (Yield since) := by
  unfold divide
  split
  · refine (keeps_report _).bind fun _ _ _ _ => (keeps_release left).bind fun _ _ _ _ => ?_
    exact Keeps.pure (Operand.usable_lit _)
  · refine keeps_reserve.bind fun _ c₁ kept₁ _ => ?_
    refine (keeps_placeDivisor (kept₁.usable ofRight)).bind fun divisor c₂ kept₂ ofDivisor => ?_
    have ofLeft₂ := (kept₁.trans kept₂).usable ofLeft
    refine (keeps_move (usable_fixed (by decide)) ofLeft₂).bind fun _ c₃ kept₃ _ => ?_
    refine (keeps_callAlloc .s64).bind fun result c₄ kept₄ allocated => ?_
    have fresh := allocated.1
    have ofDivisor₄ := (kept₃.trans kept₄).usable ofDivisor
    refine (keeps_division ofDivisor₄).bind fun _ c₅ kept₅ _ => ?_
    refine (keeps_release left).bind fun _ c₆ kept₆ _ => ?_
    refine (keeps_release right).bind fun _ c₇ kept₇ _ => ?_
    have fresh₇ := (kept₅.trans (kept₆.trans kept₇)).usable fresh
    split
    · refine (keeps_emitBinary fresh₇ (usable_fixed (by decide))).bind fun _ c₈ kept₈ _ => ?_
      exact Keeps.pure ((kept₈.usable fresh₇).resize _)
    · exact Keeps.pure (fresh₇.resize _)

theorem keeps_shift {op : Op} (ofLeft : left.Usable since c.count)
    (ofRight : right.Usable since c.count) :
    Keeps program since c (shift op left right size signed) (Yield since) := by
  unfold shift
  refine (keeps_load ofLeft).bind fun dst c₁ kept₁ ofDst => ?_
  split
  · split
    · refine (keeps_emitBinary ofDst (Operand.usable_lit _)).bind fun _ c₂ kept₂ _ => ?_
      exact Keeps.pure (kept₂.usable ofDst)
    · exact (keeps_report _).bind fun _ c₂ kept₂ _ => Keeps.pure (kept₂.usable ofDst)
  · refine (keeps_move (usable_fixed (by decide)) (kept₁.usable ofRight)).bind fun _ c₂ kept₂ _ => ?_
    refine (keeps_release right).bind fun _ c₃ kept₃ _ => ?_
    have ofDst₃ := (kept₂.trans kept₃).usable ofDst
    refine (keeps_emitBinary ofDst₃ (usable_fixed (by decide))).bind fun _ c₄ kept₄ _ => ?_
    exact Keeps.pure (kept₄.usable ofDst₃)

theorem keeps_arith {op : BinaryOp} {type : TypeRef} (ofLeft : left.Usable since c.count)
    (ofRight : right.Usable since c.count) :
    Keeps program since c (arith op left right type) (Yield since) := by
  unfold arith
  refine (keeps_fold op).bind fun folded c₁ kept yields => ?_
  have ofLeft₁ := kept.usable ofLeft
  have ofRight₁ := kept.usable ofRight
  split
  · exact Keeps.pure (yields _ rfl)
  · split
    · exact keeps_divide ofLeft₁ ofRight₁
    · exact keeps_divide ofLeft₁ ofRight₁
    · exact keeps_shift ofLeft₁ ofRight₁
    · exact keeps_shift ofLeft₁ ofRight₁
    · split
      · exact keeps_combine ofLeft₁ ofRight₁
      · exact Keeps.throw rfl

theorem keeps_comparand (ofRight : right.Usable since c.count) :
    Keeps program since c (comparand left right size signed) (Yield since) := by
  unfold comparand
  split
  · exact keeps_loaded ofRight
  · exact keeps_operandFor ofRight

/-- A byte register that a truth value is stored in. -/
theorem keeps_setByte (cond : Cond) : Keeps program since c (do
      let dst ← drafting (Drafting.nextRegister .s8)
      emit [.unary (.set cond) (.reg dst)]
      return .reg dst) (Yield since) := by
  refine (keeps_nextRegister .s8).bind fun dst c₁ _ fresh => ?_
  exact (keeps_emitUnary rfl fresh).bind fun _ c₂ kept _ => Keeps.pure (kept.usable fresh)

theorem keeps_compareOperands {cond : Cond} (ofLeft : left.Usable since c.count)
    (ofRight : right.Usable since c.count) :
    Keeps program since c (compareOperands cond left right size signed) (Yield since) := by
  have compared : ∀ {cond : Cond} {first right : Operand} {c : Config},
      first.Usable since c.count → right.Usable since c.count → Keeps program since c (do
        let second ← comparand first right size signed
        emit [.binary .cmp first second]
        release first
        release second
        let dst ← drafting (Drafting.nextRegister .s8)
        emit [.unary (.set cond) (.reg dst)]
        return .reg dst) (Yield since) := by
    intro cond first right c ofFirst ofRight
    refine (keeps_comparand ofRight).bind fun second c₁ kept₁ ofSecond => ?_
    refine (keeps_emitBinary (kept₁.usable ofFirst) ofSecond).bind fun _ c₂ _ _ => ?_
    refine (keeps_release first).bind fun _ c₃ _ _ => (keeps_release second).bind fun _ c₄ _ _ => ?_
    exact keeps_setByte cond
  have ordered : ∀ {cond : Cond} {left right : Operand}, left.Usable since c.count →
      right.Usable since c.count → Keeps program since c (do
        let first ← if left.size = size then pure left else Operand.reg <$> load left size signed
        let second ← comparand first right size signed
        emit [.binary .cmp first second]
        release first
        release second
        let dst ← drafting (Drafting.nextRegister .s8)
        emit [.unary (.set cond) (.reg dst)]
        return .reg dst) (Yield since) := by
    intro cond left right ofLeft ofRight
    dsimp only
    split
    · exact (Keeps.pure (P := Yield since) ofLeft).bind fun first c₁ kept ofFirst =>
        compared ofFirst (kept.usable ofRight)
    · have loaded : Keeps program since c (Operand.reg <$> load left size signed) (Yield since) :=
        (keeps_load ofLeft).map fun _ _ _ fresh => fresh
      exact loaded.bind fun first c₁ kept ofFirst => compared ofFirst (kept.usable ofRight)
  unfold compareOperands
  by_cases swapped : isLiteral left = true
  · simp only [swapped, if_true]
    exact ordered ofRight ofLeft
  · simp only [swapped]
    exact ordered ofLeft ofRight

theorem keeps_compare {op : BinaryOp} {leftType rightType : TypeRef}
    (ofLeft : left.Usable since c.count) (ofRight : right.Usable since c.count) :
    Keeps program since c (compare op left right leftType rightType) (Yield since) := by
  unfold compare
  refine (keeps_fold op).bind fun folded c₁ kept yields => ?_
  split
  · exact Keeps.pure (yields _ rfl)
  · exact keeps_compareOperands (kept.usable ofLeft) (kept.usable ofRight)

theorem keeps_negate (usable : operand.Usable since c.count) :
    Keeps program since c (negate operand) (Yield since) := by
  unfold negate
  refine (keeps_lastSet? operand).bind fun stored c₁ kept found => ?_
  refine Follows.bind (P := fun _ c' => c₁ = c') (fun _ => ⟨c₁, rfl, .refl, rfl⟩) ?_
  rintro owned _ rfl
  have usable₁ := kept.usable usable
  split
  · rename_i cond
    obtain ⟨location, newest⟩ := found cond rfl
    have reset : Keeps program since c₁ (modifyText fun text =>
        text.replaceLast (.unary (.set cond.negate) operand)) Any :=
      Keeps.modify (.reset newest usable₁) rfl rfl
    exact reset.bind fun _ c₂ kept' _ => Keeps.pure (kept'.usable usable₁)
  · refine (keeps_test usable₁).bind fun _ _ _ _ => (keeps_release operand).bind fun _ _ _ _ => ?_
    exact keeps_setByte .e

theorem keeps_change {op : Op} {type : TypeRef} (straight : op.isBranch = false)
    (usable : operand.Usable since c.count) :
    Keeps program since c (change op operand type) (Yield since) := by
  refine (keeps_load usable).bind fun dst c₁ _ ofDst => ?_
  exact (keeps_emitUnary straight ofDst).bind fun _ c₂ kept _ => Keeps.pure (kept.usable ofDst)

theorem keeps_unary {op : UnaryOp} {type : TypeRef} (usable : operand.Usable since c.count) :
    Keeps program since c (unary op operand type) (Yield since) := by
  unfold unary
  split
  · exact Keeps.pure (Operand.usable_lit _)
  · split
    · exact keeps_change rfl usable
    · exact keeps_change rfl usable
    · exact keeps_negate usable
    · exact Keeps.throw rfl

end Operators

theorem keeps_mapMemory (size : Int64) : Keeps program since c (emit (mapMemory size)) Any := by
  apply keeps_emit
  simp only [mapMemory, List.mem_cons, List.not_mem_nil, or_false]
  have fixed : ∀ (phys : Phys) (size : Size),
      (∀ slot, slot ≠ Pool.accumulator → Pool.slotPhys slot ≠ phys) →
      (Operand.reg (.fix phys size)).Usable since c.count := fun _ _ free => usable_fixed free
  rintro instr (rfl | rfl | rfl | rfl | rfl | rfl | rfl | rfl)
  · exact Instr.plain_binary.mpr ⟨fixed _ _ (by decide), Operand.usable_lit _⟩
  · exact Instr.plain_binary.mpr ⟨fixed _ _ (by decide), fixed _ _ (by decide)⟩
  · exact Instr.plain_binary.mpr ⟨fixed _ _ (by decide), Operand.usable_lit _⟩
  · exact Instr.plain_binary.mpr ⟨fixed _ _ (by decide), Operand.usable_lit _⟩
  · exact Instr.plain_binary.mpr ⟨fixed _ _ (by decide), Operand.usable_lit _⟩
  · exact Instr.plain_binary.mpr ⟨fixed _ _ (by decide), Operand.usable_lit _⟩
  · exact Instr.plain_binary.mpr ⟨fixed _ _ (by decide), fixed _ _ (by decide)⟩
  · exact Instr.plain_nullary

theorem keeps_allocateObject (cls : Tree.Class) :
    Keeps program since c (allocateObject cls) fun object c' => Yield since (.reg object) c' := by
  refine keeps_reserve.bind fun _ c₁ _ _ => ?_
  refine (keeps_callAlloc .s64).bind fun object c₂ _ allocated => ?_
  have fresh := allocated.1
  refine (keeps_mapMemory cls.size).bind fun _ c₃ kept₃ _ => (keeps_log _).bind fun _ c₄ kept₄ _ => ?_
  have fresh₄ := (kept₃.trans kept₄).usable fresh
  split
  · refine (keeps_emitBinary ?_ (Operand.usable_lit _)).bind fun _ c₅ kept₅ _ =>
      Keeps.pure (kept₅.usable fresh₄)
    exact Operand.usable_ofBase.mpr (Operand.usable_reg.mp fresh₄)
  · exact Keeps.pure fresh₄

end X64Backend.Lower
