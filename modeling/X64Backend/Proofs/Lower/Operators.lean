import X64Backend.Proofs.Lower.Steady

/-!
Moves, branches, places and operators leave the guarded values alone.  They release the operands
that they are given and hand over new ones.
-/

namespace X64Backend.Lower

open X64Backend.Tree

variable {guarded : Handle → Prop} {C : Pool.Slot → Prop} {s s' : State} {u : Unit}

theorem temp_ok {operand : Operand} {temporary : Bool} :
    temp operand s = .ok temporary s' ↔ isTemp s.draft operand = temporary ∧ s = s' := by
  simp [temp, and_comm]

theorem steady_viaTemp {dst : Operand} {fill : Register → Gen Unit} (ready : Ready guarded s)
    (plain : ∀ register, Plain (fill register)) (run : viaTemp dst fill s = .ok u s') :
    Steady guarded C s s' := by
  simp only [viaTemp, Success.bind_ok] at run
  obtain ⟨register, s₁, allocated, _, s₂, filled, _, s₃, emitted, freed⟩ := run
  obtain ⟨first, fresh⟩ := steady_nextRegister (C := C) ready allocated
  have second := first.trans ((plain register).steady (first.ready ready) filled)
  have third := second.trans ((plain_emit _).steady (second.ready ready) emitted)
  have later : Steady guarded C s₁ s₃ :=
    ((plain register).steady (first.ready ready) filled).trans
      ((plain_emit _).steady (second.ready ready) emitted)
  exact third.trans (steady_freeAnyway (third.ready ready) (fresh.steady later) freed)

theorem steady_move {dst src : Operand} {signed : Bool} {order : ChunkOrder}
    (ready : Ready guarded s) (run : move dst src signed order s = .ok u s') :
    Steady guarded C s s' := by
  cases src with
  | absent => simp [move] at run
  | lit literal => exact (plain_storeLiteral dst literal order).steady ready run
  | reg register =>
      cases dst with
      | reg target => exact (plain_moveRegister target register signed).steady ready run
      | _ =>
          simp only [move, Success.ite_apply] at run
          split at run
          · exact (plain_emit _).steady ready run
          · exact steady_viaTemp ready (fun temporary => plain_widen _ _ _) run
  | mem cell =>
      cases dst with
      | reg target => exact (plain_moveCell target cell signed).steady ready run
      | _ => exact steady_viaTemp ready (fun temporary => plain_moveCell _ _ _) run

theorem steady_load {operand : Operand} {size : Size} {signed : Bool} {register : Register}
    (ready : Ready guarded s) (owned : Owned guarded s operand)
    (run : load operand size signed s = .ok register s') :
    Steady guarded C s s' ∧ Fresh guarded s' (.reg register) := by
  simp only [load, Success.bind_ok, temp_ok] at run
  obtain ⟨temporary, _, ⟨known, rfl⟩, run⟩ := run
  split at run
  · rename_i reused
    have fresh := owned.fresh ready.tidy known
    simp only [Success.ite_apply] at run
    split at run
    · obtain ⟨_, s₁, widened, run⟩ := Success.bind_ok.mp run
      obtain ⟨rfl, rfl⟩ := Success.pure_ok.mp run
      have step := (plain_widen _ _ _).steady (C := C) ready widened
      exact ⟨step, (fresh.steady step).congr (by simp)⟩
    · obtain ⟨rfl, rfl⟩ := Success.pure_ok.mp run
      exact ⟨.refl ready, fresh.congr (by simp)⟩
  · simp only [Success.bind_ok] at run
    obtain ⟨chosen, s₁, allocated, _, s₂, moved, _, s₃, released, run⟩ := run
    obtain ⟨rfl, rfl⟩ := Success.pure_ok.mp run
    obtain ⟨first, fresh⟩ := steady_nextRegister (C := C) ready allocated
    have second := steady_move (C := C) (first.ready ready) moved
    have both := first.trans second
    have third := steady_release (C := C) (both.ready ready) (owned.steady both) released
    exact ⟨both.trans third, fresh.steady (second.trans third)⟩

theorem steady_operandFor {operand result : Operand} {size : Size} {signed : Bool}
    (ready : Ready guarded s) (owned : Owned guarded s operand)
    (run : operandFor operand size signed s = .ok result s') :
    Steady guarded C s s' ∧ Owned guarded s' result := by
  have loads : ∀ {s₁}, Steady guarded C s s₁ →
      (do return Operand.reg (← load operand size signed) : Gen Operand) s₁ = .ok result s' →
      Steady guarded C s s' ∧ Owned guarded s' result := by
    intro s₁ first run
    simp only [Success.bind_ok] at run
    obtain ⟨register, s₂, loaded, run⟩ := run
    obtain ⟨rfl, rfl⟩ := Success.pure_ok.mp run
    obtain ⟨second, fresh⟩ := steady_load (C := C) (first.ready ready)
      (owned.steady first) loaded
    exact ⟨first.trans second, fresh.owned⟩
  have stays : ∀ {s₁}, Steady guarded C s s₁ → (pure operand : Gen Operand) s₁ = .ok result s' →
      Steady guarded C s s' ∧ Owned guarded s' result := by
    intro s₁ first run
    obtain ⟨rfl, rfl⟩ := Success.pure_ok.mp run
    exact ⟨first, owned.steady first⟩
  cases operand with
  | absent => exact loads (.refl ready) run
  | lit literal =>
      simp only [operandFor] at run
      obtain ⟨fitting, s₁, checked, run⟩ := Success.bind_ok.mp run
      have first := (plain_fits _ _).steady (C := C) ready checked
      simp only [Success.ite_apply] at run
      split at run
      · obtain ⟨rfl, rfl⟩ := Success.pure_ok.mp run
        exact ⟨first, (Fresh.of_none rfl).owned⟩
      · split at run
        · exact loads first run
        · exact stays first run
  | _ =>
      simp only [operandFor, Success.ite_apply] at run
      split at run
      · exact stays (.refl ready) run
      · exact loads (.refl ready) run

theorem steady_testAndBranch {operand : Operand} {label : String} {wanted : Bool}
    (ready : Ready guarded s) (owned : Owned guarded s operand)
    (run : testAndBranch operand label wanted s = .ok u s') : Steady guarded C s s' := by
  unfold testAndBranch at run
  split at run
  · exact Plain.steady (by simp) ready run
  · obtain ⟨stored, s₁, looked, run⟩ := Success.bind_ok.mp run
    have first := (plain_lastSet? operand).steady (C := C) ready looked
    cases stored with
    | some cond =>
        simp only [Success.bind_ok, temp_ok] at run
        obtain ⟨temporary, _, ⟨_, rfl⟩, run⟩ := run
        simp only [Success.ite_apply] at run
        split at run
        · simp only [Success.bind_ok] at run
          obtain ⟨_, s₂, replaced, _, s₃, logged, released⟩ := run
          have second := (plain_replaceLast _).steady (C := C) (first.ready ready) replaced
          have third := first.trans second
          have fourth := third.trans ((plain_log _).steady (third.ready ready) logged)
          exact fourth.trans (steady_release (fourth.ready ready) (owned.steady fourth) released)
        · simp only [Success.bind_ok] at run
          obtain ⟨_, s₂, emitted, released⟩ := run
          have second := first.trans ((plain_emit _).steady (first.ready ready) emitted)
          exact second.trans (steady_release (second.ready ready) (owned.steady second) released)
    | none =>
        simp only [Success.bind_ok] at run
        obtain ⟨_, s₂, tested, _, s₃, released, emitted⟩ := run
        have second := first.trans ((plain_test _).steady (first.ready ready) tested)
        have third := second.trans
          (steady_release (second.ready ready) (owned.steady second) released)
        exact third.trans ((plain_emit _).steady (third.ready ready) emitted)

theorem steady_fuseStore {dst value : Operand} {fused : Bool} (ready : Ready guarded s)
    (owned : Owned guarded s value) (run : fuseStore dst value s = .ok fused s') :
    Steady guarded C s s' := by
  unfold fuseStore at run
  obtain ⟨chosen, s₁, tested, run⟩ := Success.bind_ok.mp run
  have first : Steady guarded C s s₁ := Plain.steady (by simp) ready tested
  simp only [Success.ite_apply] at run
  split at run
  · obtain ⟨stored, s₂, looked, run⟩ := Success.bind_ok.mp run
    have second := first.trans ((plain_lastSet? value).steady (first.ready ready) looked)
    cases stored with
    | some cond =>
        simp only [Success.bind_ok, Success.pure_ok] at run
        obtain ⟨_, s₃, replaced, _, s₄, released, _, s₅, logged, _, rfl⟩ := run
        have third := second.trans ((plain_replaceLast _).steady (second.ready ready) replaced)
        have fourth := third.trans
          (steady_release (third.ready ready) (owned.steady third) released)
        exact fourth.trans ((plain_log _).steady (fourth.ready ready) logged)
    | none =>
        obtain ⟨_, rfl⟩ := Success.pure_ok.mp run
        exact second
  · obtain ⟨_, rfl⟩ := Success.pure_ok.mp run
    exact first

theorem steady_store {dst value : Operand} {signed : Bool} {order : ChunkOrder}
    (ready : Ready guarded s) (owned : Owned guarded s value)
    (run : store dst value signed order s = .ok u s') : Steady guarded C s s' := by
  unfold store at run
  obtain ⟨fused, s₁, stored, run⟩ := Success.bind_ok.mp run
  have first := steady_fuseStore (C := C) ready owned stored
  simp only [Success.ite_apply] at run
  split at run
  · obtain ⟨_, s₂, moved, released⟩ := Success.bind_ok.mp run
    have second := first.trans (steady_move (first.ready ready) moved)
    exact second.trans (steady_release (second.ready ready) (owned.steady second) released)
  · obtain ⟨_, rfl⟩ := Success.pure_ok.mp run
    exact first

/-- What a variable stands for is locked, in the frame, or reached through a new register. -/
theorem steady_variableOperand {program : TypedProgram} {id : VarId} {operand : Operand}
    (ready : Ready guarded s) (run : variableOperand program id s = .ok operand s') :
    Steady guarded C s s' ∧ Owned guarded s' operand := by
  have cell : ∀ {v offset}, variableOperand.cell v offset s = .ok operand s' →
      Steady guarded C s s' ∧ Owned guarded s' operand := by
    intro v offset run
    simp only [variableOperand.cell, Success.ite_apply] at run
    split at run
    · simp only [Success.bind_ok] at run
      obtain ⟨pointer, s₁, allocated, _, s₂, emitted, run⟩ := run
      obtain ⟨rfl, rfl⟩ := Success.pure_ok.mp run
      obtain ⟨first, fresh⟩ := steady_nextRegister (C := C) ready allocated
      have second := (plain_emit _).steady (C := C) (first.ready ready) emitted
      exact ⟨first.trans second, ((fresh.steady second).congr (by simp [Pointer.ofBase])).owned⟩
    · obtain ⟨rfl, rfl⟩ := Success.pure_ok.mp run
      exact ⟨.refl ready, (Fresh.of_none rfl).owned⟩
  unfold variableOperand at run
  obtain ⟨_, _, got, run⟩ := Success.bind_ok.mp run
  obtain ⟨rfl, rfl⟩ := Success.get_ok.mp got
  cases found : s.activations.findSome? fun activation => activation.binding? id with
  | none =>
      rw [found] at run
      exact cell run
  | some binding =>
      rw [found] at run
      cases binding with
      | offset offset => exact cell run
      | operand bound =>
          obtain ⟨rfl, rfl⟩ := Success.pure_ok.mp run
          obtain ⟨activation, member, bound⟩ := List.exists_of_findSome?_eq_some found
          refine ⟨.refl ready, ready.owned member ?_⟩
          unfold Activation.binding? at bound
          split at bound
          · rename_i looked
            cases bound
            have entry := List.lookup_eq_some_iff.mp looked
            obtain ⟨before, after, split, _⟩ := entry
            simp [Activation.operands, split]
          · obtain ⟨offset, _, impossible⟩ := Option.map_eq_some_iff.mp bound
            contradiction

theorem steady_base {operand : Operand} {register : Register} (ready : Ready guarded s)
    (owned : Owned guarded s operand) (run : base operand s = .ok register s') :
    Steady guarded C s s' ∧ Owned guarded s' (.reg register) := by
  have loads : load operand .s64 false s = .ok register s' →
      Steady guarded C s s' ∧ Owned guarded s' (.reg register) := by
    intro loaded
    obtain ⟨step, fresh⟩ := steady_load (C := C) ready owned loaded
    exact ⟨step, fresh.owned⟩
  cases operand with
  | reg given =>
      obtain ⟨rfl, rfl⟩ := Success.pure_ok.mp run
      exact ⟨.refl ready, owned.congr (by simp)⟩
  | absent => exact loads run
  | mem pointer => exact loads run
  | lit literal => exact loads run

theorem steady_fieldCell {object result : Operand} {member : Field} (ready : Ready guarded s)
    (owned : Owned guarded s object) (run : fieldCell object member s = .ok result s') :
    Steady guarded C s s' ∧ Owned guarded s' result := by
  unfold fieldCell at run
  obtain ⟨register, s₁, based, run⟩ := Success.bind_ok.mp run
  obtain ⟨rfl, rfl⟩ := Success.pure_ok.mp run
  obtain ⟨step, owned'⟩ := steady_base (C := C) ready owned based
  exact ⟨step, owned'.congr (by simp [Pointer.ofBase])⟩

theorem steady_reserveIfBusy (ready : Ready guarded s) (run : reserveIfBusy s = .ok u s') :
    Steady guarded C s s' := by
  unfold reserveIfBusy at run
  obtain ⟨_, _, got, run⟩ := Success.bind_ok.mp run
  obtain ⟨rfl, rfl⟩ := Success.get_ok.mp got
  simp only [Success.ite_apply] at run
  split at run
  · exact steady_reserve ready run
  · obtain ⟨_, rfl⟩ := Success.pure_ok.mp run
    exact .refl ready

theorem steady_stable {size : Size} {operand : Operand} (ready : Ready guarded s)
    (run : stable size s = .ok operand s') :
    Steady guarded C s s' ∧ Fresh guarded s' operand := by
  unfold stable at run
  obtain ⟨_, _, got, run⟩ := Success.bind_ok.mp run
  obtain ⟨rfl, rfl⟩ := Success.get_ok.mp got
  simp only [Success.ite_apply] at run
  split at run
  · obtain ⟨register, s₁, allocated, run⟩ := Success.bind_ok.mp run
    obtain ⟨rfl, rfl⟩ := Success.pure_ok.mp run
    exact steady_nextRegister ready allocated
  · obtain ⟨_, s₁, logged, run⟩ := Success.bind_ok.mp run
    have first := (plain_log _).steady (C := C) ready logged
    have second := first.trans ((plain_stackTemp size).steady (first.ready ready) run)
    refine ⟨second, Fresh.of_none ?_⟩
    simp only [stackTemp, Success.bind_ok, Success.pure_ok] at run
    obtain ⟨_, _, _, _, _, _, rfl, _⟩ := run
    rfl

theorem owned_arrange {draft : Draft} {op : BinaryOp} {left right : Operand}
    (owned : Owned guarded s left) (owned' : Owned guarded s right) :
    Owned guarded s (arrange draft op left right).1 ∧
      Owned guarded s (arrange draft op left right).2 := by
  unfold arrange
  split
  · exact ⟨owned', owned⟩
  · exact ⟨owned, owned'⟩

theorem steady_combine {op : BinaryOp} {instr : Op} {left right result : Operand} {size : Size}
    {signed : Bool} (ready : Ready guarded s) (owned : Owned guarded s left)
    (owned' : Owned guarded s right)
    (run : combine op instr left right size signed s = .ok result s') :
    Steady guarded C s s' ∧ Owned guarded s' result := by
  unfold combine at run
  obtain ⟨_, _, got, run⟩ := Success.bind_ok.mp run
  obtain ⟨rfl, rfl⟩ := Success.get_ok.mp got
  obtain ⟨ownedFirst, ownedSecond⟩ : Owned guarded s (arrange s.draft op left right).1 ∧
      Owned guarded s (arrange s.draft op left right).2 := owned_arrange owned owned'
  dsimp only at run
  obtain ⟨dst, s₁, loaded, run⟩ := Success.bind_ok.mp run
  obtain ⟨first, fresh⟩ := steady_load (C := C) ready ownedFirst loaded
  obtain ⟨src, s₂, fitted, run⟩ := Success.bind_ok.mp run
  obtain ⟨second, ownedSrc⟩ := steady_operandFor (C := C) (first.ready ready)
    (ownedSecond.steady first) fitted
  have ready' := second.ready (first.ready ready)
  simp only [Success.ite_apply] at run
  split at run
  · simp only [Success.bind_ok, Success.pure_ok] at run
    obtain ⟨wide, s₃, loaded', _, s₄, widened, _, s₅, emitted, _, s₆, released, rfl, rfl⟩ := run
    obtain ⟨third, freshWide⟩ := steady_load (C := C) ready' ownedSrc loaded'
    have fourth := (plain_widen _ _ _).steady (C := C) (third.ready ready') widened
    have fifth := fourth.trans
      ((plain_emit _).steady (fourth.ready (third.ready ready')) emitted)
    have sixth := fifth.trans (steady_release (fifth.ready (third.ready ready'))
      (freshWide.steady fifth).owned released)
    have later := second.trans (third.trans sixth)
    exact ⟨first.trans later, (fresh.steady later).owned⟩
  · simp only [Success.bind_ok, Success.pure_ok] at run
    obtain ⟨_, s₃, emitted, _, s₄, released, rfl, rfl⟩ := run
    have third := (plain_emit _).steady (C := C) ready' emitted
    have fourth := third.trans
      (steady_release (third.ready ready') (ownedSrc.steady third) released)
    have later := second.trans fourth
    exact ⟨first.trans later, (fresh.steady later).owned⟩

theorem steady_placeDivisor {divisor result : Operand} {signed : Bool} (ready : Ready guarded s)
    (run : placeDivisor divisor signed s = .ok result s') : Steady guarded C s s' := by
  simp only [placeDivisor, Success.ite_apply] at run
  split at run
  · obtain ⟨_, rfl⟩ := Success.pure_ok.mp run
    exact .refl ready
  · obtain ⟨_, s₁, moved, run⟩ := Success.bind_ok.mp run
    obtain ⟨_, rfl⟩ := Success.pure_ok.mp run
    exact steady_move ready moved

theorem steady_divide {left right result : Operand} {size : Size} {signed remainder : Bool}
    (ready : Ready guarded s) (owned : Owned guarded s left) (owned' : Owned guarded s right)
    (run : divide left right size signed remainder s = .ok result s') :
    Steady guarded C s s' ∧ Owned guarded s' result := by
  simp only [divide, Success.ite_apply] at run
  split at run
  · simp only [Success.bind_ok, Success.pure_ok] at run
    obtain ⟨_, s₁, reported, _, s₂, released, rfl, rfl⟩ := run
    have first := (plain_report _).steady (C := C) ready reported
    have second := first.trans
      (steady_release (first.ready ready) (owned.steady first) released)
    exact ⟨second, (Fresh.of_none rfl).owned⟩
  · simp only [Success.bind_ok] at run
    obtain ⟨_, s₁, reserved, divisor, s₂, placed, _, s₃, moved, register, s₄, allocated, _, s₅,
      emitted, _, s₆, released, _, s₇, released', run⟩ := run
    have first := steady_reserve (C := C) ready reserved
    have second := first.trans (steady_placeDivisor (first.ready ready) placed)
    have third := second.trans (steady_move (second.ready ready) moved)
    obtain ⟨fourth, fresh⟩ := steady_callAlloc (C := C) (third.ready ready) allocated
    have ready' := fourth.ready (third.ready ready)
    have fifth := (plain_emit _).steady (C := C) ready' emitted
    have sixth := fifth.trans (steady_release (fifth.ready ready')
      (owned.steady (third.trans (fourth.trans fifth))) released)
    have seventh := sixth.trans (steady_release (sixth.ready ready')
      (owned'.steady (third.trans (fourth.trans sixth))) released')
    have last : ∀ {s₈}, Steady guarded C s₇ s₈ →
        Steady guarded C s s₈ ∧ Owned guarded s₈ (.reg (register.resize size)) := by
      intro s₈ step
      have later := seventh.trans step
      exact ⟨third.trans (fourth.trans later), ((fresh.steady later).congr (by simp)).owned⟩
    split at run
    · obtain ⟨_, s₈, emitted', run⟩ := Success.bind_ok.mp run
      obtain ⟨rfl, rfl⟩ := Success.pure_ok.mp run
      exact last ((plain_emit _).steady (seventh.ready ready') emitted')
    · obtain ⟨rfl, rfl⟩ := Success.pure_ok.mp run
      exact last (.refl (seventh.ready ready'))

theorem steady_shift {op : Op} {left right result : Operand} {size : Size} {signed : Bool}
    (ready : Ready guarded s) (owned : Owned guarded s left) (owned' : Owned guarded s right)
    (run : shift op left right size signed s = .ok result s') :
    Steady guarded C s s' ∧ Owned guarded s' result := by
  unfold shift at run
  obtain ⟨dst, s₁, loaded, run⟩ := Success.bind_ok.mp run
  obtain ⟨first, fresh⟩ := steady_load (C := C) ready owned loaded
  cases right with
  | lit literal =>
      simp only [Success.ite_apply] at run
      have plain : ∀ {action : Gen Unit}, Plain action →
          (do action; pure (Operand.reg dst) : Gen Operand) s₁ = .ok result s' →
          Steady guarded C s s' ∧ Owned guarded s' result := by
        intro action plain run
        obtain ⟨_, s₂, ran, run⟩ := Success.bind_ok.mp run
        obtain ⟨rfl, rfl⟩ := Success.pure_ok.mp run
        have second := plain.steady (C := C) (first.ready ready) ran
        exact ⟨first.trans second, (fresh.steady second).owned⟩
      split at run
      · exact plain (plain_emit _) run
      · exact plain (plain_report _) run
  | _ =>
      simp only [Success.bind_ok, Success.pure_ok] at run
      obtain ⟨_, s₂, moved, _, s₃, released, _, s₄, emitted, rfl, rfl⟩ := run
      have second := steady_move (C := C) (first.ready ready) moved
      have third := second.trans (steady_release (second.ready (first.ready ready))
        (owned'.steady (first.trans second)) released)
      have fourth := third.trans
        ((plain_emit _).steady (third.ready (first.ready ready)) emitted)
      exact ⟨first.trans fourth, (fresh.steady fourth).owned⟩

/-- An operator on literals leaves a literal. -/
theorem handle?_of_fold {op : BinaryOp} {left right folded : Operand} {size : Size} {signed : Bool}
    (run : fold op left right size signed s = .ok (some folded) s') : folded.handle? = none := by
  unfold fold at run
  split at run
  · rename_i first second
    unfold foldLiterals at run
    generalize numeric? first = left, numeric? second = right at run
    cases left with
    | none => simp at run
    | some x =>
        cases right with
        | none => simp at run
        | some y =>
            dsimp only at run
            generalize foldWords _ _ _ _ = words at run
            cases words with
            | word value =>
                obtain ⟨_, _, _, run⟩ := Success.bind_ok.mp run
                obtain ⟨same, _⟩ := Success.pure_ok.mp run
                cases same
                rfl
            | truth value =>
                obtain ⟨same, _⟩ := Success.pure_ok.mp run
                cases same
                rfl
            | divisionByZero =>
                obtain ⟨_, _, _, run⟩ := Success.bind_ok.mp run
                obtain ⟨same, _⟩ := Success.pure_ok.mp run
                cases same
                rfl
            | unknown => simp at run
  · simp at run

theorem steady_arith {op : BinaryOp} {left right result : Operand} {type : TypeRef}
    (ready : Ready guarded s) (owned : Owned guarded s left) (owned' : Owned guarded s right)
    (run : arith op left right type s = .ok result s') :
    Steady guarded C s s' ∧ Owned guarded s' result := by
  unfold arith at run
  obtain ⟨folded, s₁, tried, run⟩ := Success.bind_ok.mp run
  have first := (plain_fold _ _ _ _ _).steady (C := C) ready tried
  have ready' := first.ready ready
  cases folded with
  | some literal =>
      obtain ⟨rfl, rfl⟩ := Success.pure_ok.mp run
      exact ⟨first, (Fresh.of_none (handle?_of_fold tried)).owned⟩
  | none =>
      suffices Steady guarded C s₁ s' ∧ Owned guarded s' result from
        ⟨first.trans this.1, this.2⟩
      dsimp only at run
      split at run
      · exact steady_divide ready' (owned.steady first) (owned'.steady first) run
      · exact steady_divide ready' (owned.steady first) (owned'.steady first) run
      · exact steady_shift ready' (owned.steady first) (owned'.steady first) run
      · exact steady_shift ready' (owned.steady first) (owned'.steady first) run
      · cases found : arithOp? op with
        | some instr =>
            rw [found] at run
            exact steady_combine ready' (owned.steady first) (owned'.steady first) run
        | none =>
            rw [found] at run
            simp at run

theorem steady_comparand {left right result : Operand} {size : Size} {signed : Bool}
    (ready : Ready guarded s) (owned : Owned guarded s right)
    (run : comparand left right size signed s = .ok result s') :
    Steady guarded C s s' ∧ Owned guarded s' result := by
  simp only [comparand, Success.ite_apply] at run
  split at run
  · obtain ⟨register, s₁, loaded, run⟩ := Success.bind_ok.mp run
    obtain ⟨rfl, rfl⟩ := Success.pure_ok.mp run
    obtain ⟨step, fresh⟩ := steady_load (C := C) ready owned loaded
    exact ⟨step, fresh.owned⟩
  · exact steady_operandFor ready owned run

theorem steady_compareOperands {cond : Cond} {left right result : Operand} {size : Size}
    {signed : Bool} (ready : Ready guarded s) (owned : Owned guarded s left)
    (owned' : Owned guarded s right)
    (run : compareOperands cond left right size signed s = .ok result s') :
    Steady guarded C s s' ∧ Owned guarded s' result := by
  have rest : ∀ {cond : Cond} {first right : Operand} {s₁}, Steady guarded C s s₁ →
      Owned guarded s₁ first → Owned guarded s right → (do
        let second ← comparand first right size signed
        emit [.binary .cmp first second]
        release first
        release second
        let dst ← drafting (Drafting.nextRegister .s8)
        emit [.unary (.set cond) (.reg dst)]
        return .reg dst : Gen Operand) s₁ = .ok result s' →
      Steady guarded C s s' ∧ Owned guarded s' result := by
    intro cond first right s₁ one ownedFirst owned' run
    simp only [Success.bind_ok, Success.pure_ok] at run
    obtain ⟨second, s₂, compared, _, s₃, emitted, _, s₄, released, _, s₅, released', dst, s₆,
      allocated, _, s₇, emitted', rfl, rfl⟩ := run
    obtain ⟨two, ownedSecond⟩ := steady_comparand (C := C) (one.ready ready)
      (owned'.steady one) compared
    have ready₂ := two.ready (one.ready ready)
    have three := (plain_emit _).steady (C := C) ready₂ emitted
    have four := three.trans (steady_release (three.ready ready₂)
      (ownedFirst.steady (two.trans three)) released)
    have five := four.trans (steady_release (four.ready ready₂) (ownedSecond.steady four) released')
    obtain ⟨six, fresh⟩ := steady_nextRegister (C := C) (five.ready ready₂) allocated
    have seven := (plain_emit _).steady (C := C) (six.ready (five.ready ready₂)) emitted'
    exact ⟨one.trans (two.trans (five.trans (six.trans seven))), (fresh.steady seven).owned⟩
  -- the literal, if there is one, has been put second
  obtain ⟨cond, left, right, owned, owned', run⟩ : ∃ cond left right, Owned guarded s left ∧
      Owned guarded s right ∧ (do
        let first ← if left.size = size then pure left else Operand.reg <$> load left size signed
        let second ← comparand first right size signed
        emit [.binary .cmp first second]
        release first
        release second
        let dst ← drafting (Drafting.nextRegister .s8)
        emit [.unary (.set cond) (.reg dst)]
        return .reg dst : Gen Operand) s = .ok result s' := by
    unfold compareOperands at run
    by_cases swapped : isLiteral left = true
    · simp only [swapped, if_true] at run
      exact ⟨_, right, left, owned', owned, run⟩
    · simp only [swapped] at run
      exact ⟨_, left, right, owned, owned', run⟩
  simp only [Success.ite_apply] at run
  split at run
  · exact rest (.refl ready) owned owned' run
  · obtain ⟨first, s₁, fetched, run⟩ := Success.bind_ok.mp run
    obtain ⟨register, loaded, rfl⟩ := Success.map_ok.mp fetched
    obtain ⟨one, fresh⟩ := steady_load (C := C) ready owned loaded
    exact rest one fresh.owned owned' run

theorem steady_compare {op : BinaryOp} {left right result : Operand} {leftType rightType : TypeRef}
    (ready : Ready guarded s) (owned : Owned guarded s left) (owned' : Owned guarded s right)
    (run : compare op left right leftType rightType s = .ok result s') :
    Steady guarded C s s' ∧ Owned guarded s' result := by
  unfold compare at run
  obtain ⟨folded, s₁, tried, run⟩ := Success.bind_ok.mp run
  have first := (plain_fold _ _ _ _ _).steady (C := C) ready tried
  cases folded with
  | some literal =>
      obtain ⟨rfl, rfl⟩ := Success.pure_ok.mp run
      exact ⟨first, (Fresh.of_none (handle?_of_fold tried)).owned⟩
  | none =>
      obtain ⟨second, ownedResult⟩ := steady_compareOperands (C := C) (first.ready ready)
        (owned.steady first) (owned'.steady first) run
      exact ⟨first.trans second, ownedResult⟩

theorem steady_negate {operand result : Operand} (ready : Ready guarded s)
    (owned : Owned guarded s operand) (run : negate operand s = .ok result s') :
    Steady guarded C s s' ∧ Owned guarded s' result := by
  simp only [negate, Success.bind_ok, temp_ok] at run
  obtain ⟨stored, s₁, looked, temporary, _, ⟨_, rfl⟩, run⟩ := run
  have first := (plain_lastSet? operand).steady (C := C) ready looked
  split at run
  · obtain ⟨_, s₂, replaced, run⟩ := Success.bind_ok.mp run
    obtain ⟨rfl, rfl⟩ := Success.pure_ok.mp run
    have second := first.trans ((plain_replaceLast _).steady (first.ready ready) replaced)
    exact ⟨second, owned.steady second⟩
  · simp only [Success.bind_ok, Success.pure_ok] at run
    obtain ⟨_, s₂, tested, _, s₃, released, dst, s₄, allocated, _, s₅, emitted, rfl, rfl⟩ := run
    have second := first.trans ((plain_test _).steady (first.ready ready) tested)
    have third := second.trans
      (steady_release (second.ready ready) (owned.steady second) released)
    obtain ⟨fourth, fresh⟩ := steady_nextRegister (C := C) (third.ready ready) allocated
    have fifth := (plain_emit _).steady (C := C) (fourth.ready (third.ready ready)) emitted
    exact ⟨third.trans (fourth.trans fifth), (fresh.steady fifth).owned⟩

theorem steady_change {op : Op} {operand result : Operand} {type : TypeRef}
    (ready : Ready guarded s) (owned : Owned guarded s operand)
    (run : change op operand type s = .ok result s') :
    Steady guarded C s s' ∧ Owned guarded s' result := by
  simp only [change, Success.bind_ok, Success.pure_ok] at run
  obtain ⟨dst, s₁, loaded, _, s₂, emitted, rfl, rfl⟩ := run
  obtain ⟨first, fresh⟩ := steady_load (C := C) ready owned loaded
  have second := (plain_emit _).steady (C := C) (first.ready ready) emitted
  exact ⟨first.trans second, (fresh.steady second).owned⟩

theorem steady_unary {op : UnaryOp} {operand result : Operand} {type : TypeRef}
    (ready : Ready guarded s) (owned : Owned guarded s operand)
    (run : unary op operand type s = .ok result s') :
    Steady guarded C s s' ∧ Owned guarded s' result := by
  unfold unary at run
  cases folded : foldedOperand? op operand type with
  | some literal =>
      rw [folded] at run
      obtain ⟨rfl, rfl⟩ := Success.pure_ok.mp run
      exact ⟨.refl ready, (Fresh.of_none rfl).owned⟩
  | none =>
      rw [folded] at run
      cases op with
      | neg => exact steady_change ready owned run
      | compl => exact steady_change ready owned run
      | not => exact steady_negate ready owned run
      | other symbol => simp at run

end X64Backend.Lower
