import X64Backend.Proofs.Lower.Operators

/-!
Inline assembly blocks.  Besides the accumulator, a block clears only the slots whose registers it
names.  What it has bound is new, so it may free it by force.
-/

namespace X64Backend

/-- The hardware register that an operand of a block names. -/
def Block.Term.phys? : Block.Term → Option Phys
  | .reg ref | .mem _ _ (.reg ref) _ => if ref.named then none else ref.phys
  | _ => none

/-- The hardware registers that a statement of a block names. -/
def Block.Statement.registers : Block.Statement → List Phys
  | .alloc declaration => declaration.phys.toList
  | .free _ _ _ => []
  | .instr instruction => instruction.operands.filterMap Block.Term.phys?
  | .value _ operand => operand.phys?.toList

/-- The hardware registers that a block names. -/
def Block.registers (block : Block) : List Phys :=
  block.statements.flatMap Block.Statement.registers

namespace Lower

open X64Backend.Tree

variable {guarded : Handle → Prop} {C : Pool.Slot → Prop} {s s' : State}
  {replay replay' : Replay}

/-- What a block has bound is nobody else's. -/
structure Replay.Fresh (guarded : Handle → Prop) (s : State) (replay : Replay) : Prop where
  names : ∀ entry ∈ replay.names, Lower.Fresh guarded s (.reg entry.2)
  undeclared : ∀ entry ∈ replay.undeclared, Lower.Fresh guarded s (.reg entry.2)
  temps : ∀ register ∈ replay.temps, Lower.Fresh guarded s (.reg register)

theorem Replay.Fresh.steady (fresh : replay.Fresh guarded s) (steady : Steady guarded C s s') :
    replay.Fresh guarded s' :=
  ⟨fun entry member => (fresh.names entry member).steady steady,
    fun entry member => (fresh.undeclared entry member).steady steady,
    fun register member => (fresh.temps register member).steady steady⟩

theorem Replay.Fresh.bindName {name : String} {register : Register} (fresh : replay.Fresh guarded s)
    (bound : Lower.Fresh guarded s (.reg register)) :
    Replay.Fresh guarded s { replay with
      names := (name, register) :: replay.names.filter fun entry => entry.1 ≠ name } := by
  refine ⟨?_, fresh.undeclared, fresh.temps⟩
  intro entry member
  rcases List.mem_cons.mp member with rfl | member
  · exact bound
  · exact fresh.names entry (List.mem_filter.mp member).1

theorem Replay.Fresh.addTemp {register : Register} (fresh : replay.Fresh guarded s)
    (noted : Lower.Fresh guarded s (.reg register)) :
    Replay.Fresh guarded s { replay with temps := replay.temps ++ [register] } := by
  refine ⟨fresh.names, fresh.undeclared, ?_⟩
  intro other member
  rcases List.mem_append.mp member with member | member
  · exact fresh.temps other member
  · rw [List.mem_singleton.mp member]
    exact noted

namespace Replaying

section Parts

variable (ready : Ready guarded s) (fresh : replay.Fresh guarded s)
include ready

theorem steady_lockedSlot {slot : Pool.Slot} {size : Size} {register : Register}
    (claimed : C slot) (run : lockedSlot slot size s = .ok register s') :
    Steady guarded C s s' ∧ Lower.Fresh guarded s' (.reg register) := by
  simp only [lockedSlot, Success.bind_ok, Success.pure_ok] at run
  obtain ⟨_, s₁, allocated, _, s₂, locked, rfl, rfl⟩ := run
  obtain ⟨first, bound⟩ := steady_claimSlot ready claimed allocated
  have second := steady_lock (C := C) (first.ready ready) bound locked
  exact ⟨first.trans second, bound.steady second⟩

include fresh

theorem steady_alloc {site : BlockSite} {declaration : Block.Alloc} {u : Unit}
    (claimed : ∀ slot, declaration.phys = some (Pool.slotPhys slot) → C slot)
    (run : alloc site declaration replay s = .ok (u, replay') s') :
    Steady guarded C s s' ∧ replay'.Fresh guarded s' := by
  unfold alloc at run
  cases named : declaration.phys with
  | none =>
      rw [named] at run
      obtain ⟨same, rfl⟩ := Success.stateT_pure_ok.mp run
      cases same
      exact ⟨.refl ready, fresh⟩
  | some phys =>
      rw [named] at run
      cases found : Pool.slotOfPhys? phys with
      | none =>
          simp only [found, bindName, Success.stateT_modify_ok] at run
          obtain ⟨same, rfl⟩ := run
          cases same
          exact ⟨.refl ready, fresh.bindName (Lower.Fresh.of_none rfl)⟩
      | some slot =>
          simp only [found, bindName, Success.stateT_bind_ok, Success.lift_ok,
            Success.stateT_modify_ok] at run
          obtain ⟨register, _, s₁, ⟨allocated, rfl⟩, _, _, _, ⟨bound, rfl⟩, logged, rfl⟩ := run
          have claimed' := claimed slot (by rw [named, Pool.slotPhys_of_slotOfPhys? found])
          obtain ⟨first, freshRegister⟩ := steady_lockedSlot ready claimed' allocated
          have second := (plain_log _).steady (C := C) (first.ready ready) logged
          cases bound
          refine ⟨first.trans second, Replay.Fresh.steady ?_ second⟩
          exact (fresh.steady first).bindName freshRegister

theorem steady_free {site : BlockSite} {name : String} {u : Unit}
    (run : free site name replay s = .ok (u, replay') s') :
    Steady guarded C s s' ∧ replay'.Fresh guarded s' := by
  simp only [free, Success.stateT_bind_ok, Success.stateT_get_ok] at run
  obtain ⟨_, _, _, ⟨same, rfl⟩, run⟩ := run
  cases same
  cases found : replay.names.lookup name with
  | none =>
      simp only [found] at run
      obtain ⟨same, rfl⟩ := Success.stateT_pure_ok.mp run
      cases same
      exact ⟨.refl ready, fresh⟩
  | some register =>
      simp only [found, Success.stateT_bind_ok, Success.stateT_modify_ok,
        Success.stateT_ite_apply] at run
      obtain ⟨_, _, _, ⟨same, rfl⟩, run⟩ := run
      cases same
      have bound : Lower.Fresh guarded s (.reg register) := by
        obtain ⟨before, after, split, _⟩ := List.lookup_eq_some_iff.mp found
        exact fresh.names (name, register) (by simp [split])
      have fewer : Replay.Fresh guarded s { replay with
          names := replay.names.filter fun entry => entry.1 ≠ name } :=
        ⟨fun entry member => fresh.names entry (List.mem_filter.mp member).1, fresh.undeclared,
          fresh.temps⟩
      split at run
      · obtain ⟨settled, rfl⟩ := Success.lift_ok.mp run
        have step := steady_settle (C := C) ready bound settled
        exact ⟨step, fewer.steady step⟩
      · obtain ⟨freed, rfl⟩ := Success.lift_ok.mp run
        have step := steady_freeAnyway (C := C) ready bound freed
        exact ⟨step, fewer.steady step⟩

theorem steady_namedRegister {site : BlockSite} {name : String} {register : Register}
    (run : namedRegister site name replay s = .ok (register, replay') s') :
    Steady guarded C s s' ∧ replay'.Fresh guarded s' ∧
      Lower.Fresh guarded s' (.reg register) := by
  simp only [namedRegister, Success.stateT_bind_ok, Success.stateT_get_ok] at run
  obtain ⟨_, _, _, ⟨same, rfl⟩, run⟩ := run
  cases same
  cases found : replay.names.lookup name with
  | some bound =>
      simp only [found] at run
      obtain ⟨same, rfl⟩ := Success.stateT_pure_ok.mp run
      cases same
      obtain ⟨before, after, split, _⟩ := List.lookup_eq_some_iff.mp found
      exact ⟨.refl ready, fresh, fresh.names (name, register) (by simp [split])⟩
  | none =>
      simp only [found, bindName, Success.stateT_bind_ok, Success.lift_ok, Success.stateT_modify_ok,
        Success.stateT_pure_ok] at run
      obtain ⟨chosen, _, s₁, ⟨allocated, rfl⟩, _, _, s₂, ⟨locked, rfl⟩, _, _, _, ⟨bound, rfl⟩,
        same, rfl⟩ := run
      cases bound
      cases same
      obtain ⟨first, freshChosen⟩ := steady_nextRegister (C := C) ready allocated
      have second := steady_lock (C := C) (first.ready ready) freshChosen locked
      have both := first.trans second
      exact ⟨both, (fresh.steady both).bindName (freshChosen.steady second),
        freshChosen.steady second⟩

theorem steady_hardwareRegister {phys : Option Phys} {size : Size} {register : Register}
    (claimed : ∀ slot, phys = some (Pool.slotPhys slot) → C slot)
    (run : hardwareRegister phys size replay s = .ok (register, replay') s') :
    Steady guarded C s s' ∧ replay'.Fresh guarded s' ∧
      Lower.Fresh guarded s' (.reg register) := by
  have outside : (⟨.fixed phys, size⟩, replay) = (register, replay') → s = s' →
      Steady guarded C s s' ∧ replay'.Fresh guarded s' ∧
        Lower.Fresh guarded s' (.reg register) := by
    rintro same rfl
    cases same
    exact ⟨.refl ready, fresh, Lower.Fresh.of_none rfl⟩
  unfold hardwareRegister at run
  cases phys with
  | none =>
      obtain ⟨same, same'⟩ := Success.stateT_pure_ok.mp run
      exact outside same same'
  | some phys =>
      cases found : Pool.slotOfPhys? phys with
      | none =>
          simp only [Option.bind_some, found] at run
          obtain ⟨same, same'⟩ := Success.stateT_pure_ok.mp run
          exact outside same same'
      | some slot =>
          simp only [Option.bind_some, found, Success.stateT_bind_ok, Success.stateT_get_ok] at run
          obtain ⟨_, _, _, ⟨same, rfl⟩, run⟩ := run
          cases same
          cases looked : replay.undeclared.lookup phys with
          | some bound =>
              simp only [looked] at run
              obtain ⟨same, rfl⟩ := Success.stateT_pure_ok.mp run
              cases same
              obtain ⟨before, after, split, _⟩ := List.lookup_eq_some_iff.mp looked
              have known := fresh.undeclared (phys, bound) (by simp [split])
              exact ⟨.refl ready, fresh, known.congr (by simp)⟩
          | none =>
              simp only [looked, Success.stateT_bind_ok, Success.lift_ok, Success.stateT_modify_ok,
                Success.stateT_pure_ok] at run
              obtain ⟨chosen, _, s₁, ⟨allocated, rfl⟩, _, _, _, ⟨bound, rfl⟩, same, rfl⟩ := run
              cases bound
              cases same
              have claimed' := claimed slot (by rw [Pool.slotPhys_of_slotOfPhys? found])
              obtain ⟨first, freshChosen⟩ := steady_lockedSlot ready claimed' allocated
              have fresh' := fresh.steady first
              refine ⟨first, ⟨fresh'.names, ?_, fresh'.temps⟩, freshChosen.congr (by simp)⟩
              intro entry member
              rcases List.mem_cons.mp member with rfl | member
              · exact freshChosen
              · exact fresh'.undeclared entry member

theorem steady_register {site : BlockSite} {ref : Block.RegRef} {bound : Register}
    (claimed : ∀ slot, ref.named = false → ref.phys = some (Pool.slotPhys slot) → C slot)
    (run : register site ref replay s = .ok (bound, replay') s') :
    Steady guarded C s s' ∧ replay'.Fresh guarded s' ∧
      Lower.Fresh guarded s' (.reg bound) := by
  simp only [register, Success.stateT_ite_apply, Success.ite_apply] at run
  split at run
  · simp only [Success.stateT_bind_ok, Success.stateT_pure_ok] at run
    obtain ⟨chosen, _, s₁, named, same, rfl⟩ := run
    cases same
    obtain ⟨step, fresh', freshChosen⟩ := steady_namedRegister (C := C) ready fresh named
    refine ⟨step, fresh', ?_⟩
    split
    · exact freshChosen
    · exact freshChosen.congr (by simp)
  · rename_i unnamed
    exact steady_hardwareRegister ready fresh (fun slot => claimed slot (by simpa using unnamed)) run

omit fresh in
theorem steady_variableNamed {site : BlockSite} {ref : Block.VarRef}
    {result : Operand × Option Variable} (run : variableNamed site ref s = .ok result s') :
    Steady guarded C s s' ∧ Owned guarded s' result.1 := by
  unfold variableNamed at run
  cases found : site.vars.lookup ref.name with
  | some id =>
      rw [found] at run
      obtain ⟨operand, s₁, looked, run⟩ := Success.bind_ok.mp run
      obtain ⟨rfl, rfl⟩ := Success.pure_ok.mp run
      exact steady_variableOperand ready looked
  | none =>
      rw [found] at run
      obtain ⟨_, s₁, reported, run⟩ := Success.bind_ok.mp run
      obtain ⟨rfl, rfl⟩ := Success.pure_ok.mp run
      exact ⟨(plain_report _).steady ready reported, (Lower.Fresh.of_none rfl).owned⟩

theorem steady_materialize {value result : Operand} {v : Option Variable} {written : Bool}
    (run : materialize value v written replay s = .ok (result, replay') s') :
    Steady guarded C s s' ∧ replay'.Fresh guarded s' ∧ Owned guarded s' result := by
  simp only [materialize, addTemp, addBack, Success.stateT_bind_ok, Success.lift_ok,
    Success.stateT_modify_ok, Success.stateT_ite_apply, Success.ite_apply] at run
  obtain ⟨register, _, s₁, ⟨allocated, rfl⟩, _, _, s₂, ⟨moved, rfl⟩, _, _, _, ⟨noted, rfl⟩,
    run⟩ := run
  cases noted
  obtain ⟨first, freshRegister⟩ := steady_nextRegister (C := C) ready allocated
  have second := steady_move (C := C) (first.ready ready) moved
  have both := first.trans second
  have fresh' := (fresh.steady both).addTemp (freshRegister.steady second)
  split at run
  · simp only [Success.stateT_bind_ok, Success.stateT_modify_ok, Success.stateT_pure_ok] at run
    obtain ⟨_, _, _, ⟨noted, rfl⟩, same, rfl⟩ := run
    cases noted
    cases same
    exact ⟨both, ⟨fresh'.names, fresh'.undeclared, fresh'.temps⟩,
      (freshRegister.steady second).owned⟩
  · obtain ⟨same, rfl⟩ := Success.stateT_pure_ok.mp run
    cases same
    exact ⟨both, fresh', (freshRegister.steady second).owned⟩

theorem steady_baseRegister {site : BlockSite} {ref : Block.BaseRef} {found : Register}
    (claimed : ∀ register, ref = .reg register → ∀ slot, register.named = false →
      register.phys = some (Pool.slotPhys slot) → C slot)
    (run : baseRegister site ref replay s = .ok (found, replay') s') :
    Steady guarded C s s' ∧ replay'.Fresh guarded s' ∧ Owned guarded s' (.reg found) := by
  cases ref with
  | reg register =>
      obtain ⟨step, fresh', bound⟩ := steady_register ready fresh (claimed register rfl) run
      exact ⟨step, fresh', bound.owned⟩
  | var ref =>
      simp only [baseRegister, addTemp, Success.stateT_bind_ok, Success.lift_ok, temp_ok,
        Success.stateT_ite_apply, Success.ite_apply] at run
      obtain ⟨⟨value, v⟩, _, s₁, ⟨named, rfl⟩, register, _, s₂, ⟨based, rfl⟩, temporary, _, _,
        ⟨⟨known, rfl⟩, rfl⟩, run⟩ := run
      obtain ⟨first, owned⟩ := steady_variableNamed (C := C) ready named
      obtain ⟨second, ownedBase⟩ := steady_base (C := C) (first.ready ready) owned based
      have both := first.trans second
      split at run
      · rename_i isTemporary
        simp only [Success.stateT_bind_ok, Success.stateT_modify_ok, Success.stateT_pure_ok] at run
        obtain ⟨_, _, _, ⟨noted, rfl⟩, same, rfl⟩ := run
        cases noted
        cases same
        have mine := ownedBase.fresh (both.ready ready).tidy (known.trans isTemporary)
        exact ⟨both, (fresh.steady both).addTemp mine, ownedBase⟩
      · obtain ⟨same, rfl⟩ := Success.stateT_pure_ok.mp run
        cases same
        exact ⟨both, fresh.steady both, ownedBase⟩

theorem steady_term {site : BlockSite} {position : Block.Position} {operand : Block.Term}
    {result : Operand}
    (claimed : ∀ slot, operand.phys? = some (Pool.slotPhys slot) → C slot)
    (run : term site position operand replay s = .ok (result, replay') s') :
    Steady guarded C s s' ∧ replay'.Fresh guarded s' ∧ Owned guarded s' result := by
  cases operand with
  | reg ref =>
      obtain ⟨register, ran, rfl⟩ := Success.stateT_map_ok.mp run
      obtain ⟨step, fresh', bound⟩ := steady_register ready fresh (by
        intro slot unnamed named
        exact claimed slot (by simp [Block.Term.phys?, unnamed, named])) ran
      exact ⟨step, fresh', bound.owned⟩
  | lit pos value =>
      obtain ⟨same, rfl⟩ := Success.stateT_pure_ok.mp run
      cases same
      exact ⟨.refl ready, fresh, (Lower.Fresh.of_none rfl).owned⟩
  | mem pos size ref disp =>
      simp only [term, Success.stateT_bind_ok, Success.stateT_pure_ok] at run
      obtain ⟨register, _, s₁, based, same, rfl⟩ := run
      cases same
      obtain ⟨step, fresh', owned⟩ := steady_baseRegister ready fresh (by
        rintro register rfl slot unnamed named
        exact claimed slot (by simp [Block.Term.phys?, unnamed, named])) based
      exact ⟨step, fresh', owned.congr (by simp [Pointer.ofBase])⟩
  | var ref =>
      simp only [term, Success.stateT_bind_ok, Success.lift_ok, Success.stateT_ite_apply,
        Success.ite_apply] at run
      obtain ⟨⟨value, v⟩, _, s₁, ⟨named, rfl⟩, run⟩ := run
      obtain ⟨first, owned⟩ := steady_variableNamed (C := C) ready named
      split at run
      · obtain ⟨same, rfl⟩ := Success.stateT_pure_ok.mp run
        cases same
        exact ⟨first, fresh.steady first, owned⟩
      · obtain ⟨second, fresh', owned'⟩ := steady_materialize (C := C)
          (first.ready ready) (fresh.steady first) run
        exact ⟨first.trans second, fresh', owned'⟩

theorem steady_terms {site : BlockSite} {terms : List (Block.Term × Block.Position)}
    {operands : List Operand}
    (claimed : ∀ entry ∈ terms, ∀ slot, entry.1.phys? = some (Pool.slotPhys slot) → C slot)
    (run : (terms.mapM fun (operand, position) => term site position operand) replay s =
      .ok (operands, replay') s') :
    Steady guarded C s s' ∧ replay'.Fresh guarded s' ∧
      ∀ operand ∈ operands, Owned guarded s' operand := by
  induction terms generalizing s replay operands with
  | nil =>
      obtain ⟨same, rfl⟩ := Success.stateT_pure_ok.mp run
      cases same
      exact ⟨.refl ready, fresh, by simp⟩
  | cons entry rest inductionHypothesis =>
      simp only [List.mapM_cons, Success.stateT_bind_ok, Success.stateT_pure_ok] at run
      obtain ⟨operand, _, s₁, ran, others, _, s₂, run, same, rfl⟩ := run
      cases same
      obtain ⟨first, fresh₁, owned⟩ := steady_term ready fresh (claimed entry (by simp)) ran
      obtain ⟨second, fresh₂, ownedRest⟩ := inductionHypothesis (first.ready ready) fresh₁
        (fun other member => claimed other (by simp [member])) run
      refine ⟨first.trans second, fresh₂, ?_⟩
      intro other member
      rcases List.mem_cons.mp member with rfl | member
      · exact owned.steady second
      · exact ownedRest other member

omit ready fresh in
theorem handle?_sized (size : Size) (operand : Operand) :
    (sized size operand).handle? = operand.handle? := by
  cases operand with
  | mem pointer =>
      simp only [sized]
      split
      · rfl
      · rfl
  | _ => rfl

omit ready fresh in
theorem handle?_asByte (operand : Operand) : (asByte operand).handle? = operand.handle? := by
  cases operand with
  | reg register => exact Operand.handle?_resize register .s8
  | _ => rfl

omit ready fresh in
/-- Fitting the widths changes no register. -/
theorem owned_fitOperands {op : Op} {operands : List Operand}
    (owned : ∀ operand ∈ operands, Owned guarded s operand) :
    ∀ operand ∈ fitOperands op operands, Owned guarded s operand := by
  have sizes : ∀ operand ∈ (if op = .lea then operands
      else operands.map (sized (cellSize operands))), Owned guarded s operand := by
    intro operand member
    split at member
    · exact owned operand member
    · obtain ⟨original, among, rfl⟩ := List.mem_map.mp member
      exact (owned original among).congr (handle?_sized _ _)
  intro operand member
  unfold fitOperands at member
  dsimp only at member
  generalize (if op = .lea then operands else operands.map (sized (cellSize operands))) = fitted
    at sizes member
  split at member
  · rename_i first rest _
    rcases List.mem_cons.mp member with rfl | member
    · exact (sizes first (by simp)).congr (handle?_asByte first)
    · exact sizes operand (by simp [member])
  · exact sizes operand member

theorem steady_splitCells {operands results : List Operand}
    (run : splitCells operands replay s = .ok (results, replay') s') :
    Steady guarded C s s' ∧ replay'.Fresh guarded s' ∧
      ∀ operand ∈ results, operand ∈ operands ∨ Owned guarded s' operand := by
  unfold splitCells at run
  split at run
  · rename_i dst src
    simp only [addTemp, Success.stateT_bind_ok, Success.lift_ok, Success.stateT_modify_ok,
      Success.stateT_pure_ok] at run
    obtain ⟨register, _, s₁, ⟨allocated, rfl⟩, _, _, s₂, ⟨emitted, rfl⟩, _, _, _, ⟨noted, rfl⟩,
      same, rfl⟩ := run
    cases noted
    cases same
    obtain ⟨first, freshRegister⟩ := steady_nextRegister (C := C) ready allocated
    have second := (plain_emit _).steady (C := C) (first.ready ready) emitted
    have both := first.trans second
    refine ⟨both, (fresh.steady both).addTemp (freshRegister.steady second), ?_⟩
    intro operand member
    rcases List.mem_cons.mp member with rfl | member
    · exact .inl List.mem_cons_self
    · rw [List.mem_singleton.mp member]
      exact .inr (freshRegister.steady second).owned
  · obtain ⟨same, rfl⟩ := Success.stateT_pure_ok.mp run
    cases same
    exact ⟨.refl ready, fresh, fun _ => .inl⟩

omit fresh in
/-- Steps over a list that do not look at the block. -/
theorem steady_lifted_forM {α : Type} {items : List α} {action : α → Gen Unit} {u : Unit}
    (each : ∀ item ∈ items, ∀ {s₁ s₂ u}, Steady guarded C s s₁ → action item s₁ = .ok u s₂ →
      Steady guarded C s₁ s₂)
    (run : (items.forM fun item => (liftM (action item) : Replaying Unit)) replay s =
      .ok (u, replay') s') : Steady guarded C s s' ∧ replay = replay' := by
  obtain ⟨unlifted, same⟩ := Success.forM_of_lifted run
  exact ⟨steady_forM ready each unlifted, same⟩

theorem steady_settleInstr {u : Unit} (run : settleInstr replay s = .ok (u, replay') s') :
    Steady guarded C s s' ∧ replay'.Fresh guarded s' := by
  simp only [settleInstr, Success.stateT_bind_ok, Success.stateT_get_ok,
    Success.stateT_set_ok] at run
  obtain ⟨_, _, _, ⟨same, rfl⟩, _, _, s₁, moved, _, _, s₂, freed, same', rfl⟩ := run
  cases same
  cases same'
  obtain ⟨first, rfl⟩ := steady_lifted_forM (C := C) ready (by
    intro entry _ s₁ s₂ u steady run
    exact steady_move (steady.ready ready) run) moved
  have ready₁ := first.ready ready
  obtain ⟨second, rfl⟩ := steady_lifted_forM (C := C) ready₁ (by
    intro register member s₁ s₂ u steady run
    exact steady_freeAnyway (steady.ready ready₁)
      ((fresh.temps register member).steady (first.trans steady)) run) freed
  have fresh' := fresh.steady (first.trans second)
  exact ⟨first.trans second, fresh'.names, fresh'.undeclared, by simp⟩

omit ready fresh in
theorem plain_instrOf (instruction : Block.Instruction) (operands : List Operand) :
    Plain (instrOf instruction operands) := by
  unfold instrOf
  split
  · simp
  · simp
  · simp
  · simp

theorem steady_instr {site : BlockSite} {instruction : Block.Instruction} {operands : List Operand}
    (claimed : ∀ slot, Pool.slotPhys slot ∈ instruction.operands.filterMap Block.Term.phys? →
      C slot)
    (run : instr site instruction replay s = .ok (operands, replay') s') :
    Steady guarded C s s' ∧ replay'.Fresh guarded s' ∧
      ∀ operand ∈ operands, Owned guarded s' operand := by
  simp only [instr, Success.stateT_bind_ok, Success.lift_ok, Success.stateT_pure_ok] at run
  obtain ⟨given, _, s₁, evaluated, results, _, s₂, split, instr, _, s₃, ⟨built, rfl⟩, _, _, s₄,
    ⟨emitted, rfl⟩, _, _, s₅, settled, same, rfl⟩ := run
  cases same
  obtain ⟨first, fresh₁, owned⟩ := steady_terms ready fresh (by
    rintro ⟨operand, position⟩ member slot named
    exact claimed slot (List.mem_filterMap.mpr ⟨operand, (List.of_mem_zip member).1, named⟩))
    evaluated
  obtain ⟨second, fresh₂, among⟩ := steady_splitCells (C := C) (first.ready ready) fresh₁ split
  have owned₂ : ∀ operand ∈ operands, Owned guarded s₂ operand := fun operand member =>
    (among operand member).elim (fun given => (owned_fitOperands owned operand given).steady second)
      id
  have ready₂ := second.ready (first.ready ready)
  have third := (plain_instrOf instruction operands).steady (C := C) ready₂ built
  have fourth := third.trans ((plain_emit _).steady (third.ready ready₂) emitted)
  obtain ⟨fifth, fresh₅⟩ := steady_settleInstr (C := C) (fourth.ready ready₂)
    (fresh₂.steady fourth) settled
  have later := fourth.trans fifth
  exact ⟨first.trans (second.trans later), fresh₅, fun operand member =>
    (owned₂ operand member).steady later⟩

theorem steady_statement {site : BlockSite} {value result : Operand} {part : Block.Statement}
    (owned : Owned guarded s value)
    (claimed : ∀ slot, Pool.slotPhys slot ∈ part.registers → C slot)
    (run : statement site value part replay s = .ok (result, replay') s') :
    Steady guarded C s s' ∧ replay'.Fresh guarded s' ∧ Owned guarded s' result := by
  cases part with
  | alloc declaration =>
      simp only [statement, Success.stateT_bind_ok, Success.stateT_pure_ok] at run
      obtain ⟨_, _, s₁, allocated, same, rfl⟩ := run
      cases same
      obtain ⟨step, fresh'⟩ := steady_alloc ready fresh (by
        intro slot named
        exact claimed slot (by simp [Block.Statement.registers, named])) allocated
      exact ⟨step, fresh', owned.steady step⟩
  | free pos name implicit =>
      simp only [statement, Success.stateT_bind_ok, Success.stateT_pure_ok] at run
      obtain ⟨_, _, s₁, freed, same, rfl⟩ := run
      cases same
      obtain ⟨step, fresh'⟩ := steady_free (C := C) ready fresh freed
      exact ⟨step, fresh', owned.steady step⟩
  | instr instruction =>
      simp only [statement, Success.stateT_bind_ok, Success.stateT_pure_ok] at run
      obtain ⟨operands, _, s₁, ran, same, rfl⟩ := run
      cases same
      obtain ⟨step, fresh', ownedAll⟩ := steady_instr ready fresh claimed ran
      refine ⟨step, fresh', ?_⟩
      split
      · cases operands with
        | nil => exact owned.steady step
        | cons first rest => exact ownedAll first (by simp)
      · exact owned.steady step
  | value pos operand =>
      refine steady_term ready fresh ?_ run
      intro slot named
      exact claimed slot (by simp [Block.Statement.registers, named])

theorem steady_statements {site : BlockSite} {parts : List Block.Statement}
    {value result : Operand} (owned : Owned guarded s value)
    (claimed : ∀ part ∈ parts, ∀ slot, Pool.slotPhys slot ∈ part.registers → C slot)
    (run : parts.foldlM (statement site) value replay s = .ok (result, replay') s') :
    Steady guarded C s s' ∧ replay'.Fresh guarded s' ∧ Owned guarded s' result := by
  induction parts generalizing s replay value with
  | nil =>
      obtain ⟨same, rfl⟩ := Success.stateT_pure_ok.mp run
      cases same
      exact ⟨.refl ready, fresh, owned⟩
  | cons part rest inductionHypothesis =>
      simp only [List.foldlM_cons, Success.stateT_bind_ok] at run
      obtain ⟨middle, _, s₁, ran, run⟩ := run
      obtain ⟨first, fresh₁, owned₁⟩ := steady_statement ready fresh owned
        (claimed part (by simp)) ran
      obtain ⟨second, rest'⟩ := inductionHypothesis (first.ready ready) fresh₁ owned₁
        (fun other member => claimed other (by simp [member])) run
      exact ⟨first.trans second, rest'⟩

omit fresh in
theorem steady_copyValue {value result : Operand} {type : TypeRef}
    (run : copyValue value type s = .ok result s') :
    Steady guarded C s s' ∧ Owned guarded s' result := by
  simp only [copyValue, Success.ite_apply] at run
  split at run
  · obtain ⟨rfl, rfl⟩ := Success.pure_ok.mp run
    exact ⟨.refl ready, (Lower.Fresh.of_none rfl).owned⟩
  · simp only [Success.bind_ok, Success.pure_ok] at run
    obtain ⟨register, s₁, allocated, _, s₂, moved, rfl, rfl⟩ := run
    obtain ⟨first, freshRegister⟩ := steady_nextRegister (C := C) ready allocated
    have second := steady_move (C := C) (first.ready ready) moved
    exact ⟨first.trans second, (freshRegister.steady second).owned⟩

omit fresh in
theorem steady_ownValue {undeclared : List (Phys × Register)} {value result : Operand}
    {type : TypeRef} (owned : Owned guarded s value)
    (run : ownValue undeclared value type s = .ok result s') :
    Steady guarded C s s' ∧ Owned guarded s' result := by
  cases value with
  | absent =>
      obtain ⟨rfl, rfl⟩ := Success.pure_ok.mp run
      exact ⟨.refl ready, owned⟩
  | lit literal =>
      obtain ⟨rfl, rfl⟩ := Success.pure_ok.mp run
      exact ⟨.refl ready, owned⟩
  | mem pointer => exact steady_copyValue ready run
  | reg register =>
      simp only [ownValue, Success.bind_ok, temp_ok, Success.ite_apply] at run
      obtain ⟨temporary, _, ⟨_, rfl⟩, run⟩ := run
      split at run
      · obtain ⟨rfl, rfl⟩ := Success.pure_ok.mp run
        exact ⟨.refl ready, owned.congr (by simp)⟩
      · exact steady_copyValue ready run

theorem steady_finish {site : BlockSite} {value result : Operand} (owned : Owned guarded s value)
    (run : finish site value replay s = .ok (result, replay') s') :
    Steady guarded C s s' ∧ Owned guarded s' result := by
  simp only [finish, Success.stateT_bind_ok, Success.stateT_get_ok, Success.lift_ok,
    Success.stateT_ite_apply, Success.ite_apply] at run
  obtain ⟨_, _, _, ⟨same, rfl⟩, own, _, s₁, ⟨ran, rfl⟩, _, _, s₂, freed, _, _, s₃, freed',
    run⟩ := run
  cases same
  obtain ⟨first, owned₁⟩ := steady_ownValue (C := C) ready owned ran
  have ready₁ := first.ready ready
  obtain ⟨second, rfl⟩ := steady_lifted_forM (C := C) ready₁ (by
    intro entry member s₁ s₂ u steady run
    exact steady_freeAnyway (steady.ready ready₁)
      ((fresh.undeclared entry member).steady (first.trans steady)) run) freed
  have two := first.trans second
  have ready₂ := two.ready ready
  obtain ⟨third, rfl⟩ := steady_lifted_forM (C := C) ready₂ (by
    intro entry member s₁ s₂ u steady run
    exact steady_freeAnyway (steady.ready ready₂)
      ((fresh.names entry member).steady (two.trans steady)) run) freed'
  have three := two.trans third
  have owned₃ := owned₁.steady (second.trans third)
  split at run
  · simp only [Success.stateT_bind_ok, Success.lift_ok, Success.stateT_pure_ok] at run
    obtain ⟨_, _, s₄, ⟨released, rfl⟩, same, rfl⟩ := run
    cases same
    exact ⟨three.trans (steady_release (three.ready ready) owned₃ released),
      (Lower.Fresh.of_none rfl).owned⟩
  · split at run
    · simp only [Success.stateT_bind_ok, Success.lift_ok, Success.stateT_pure_ok] at run
      obtain ⟨_, _, s₄, ⟨reported, rfl⟩, same, rfl⟩ := run
      cases same
      exact ⟨three.trans ((plain_report _).steady (three.ready ready) reported),
        (Lower.Fresh.of_none rfl).owned⟩
    · obtain ⟨same, rfl⟩ := Success.stateT_pure_ok.mp run
      cases same
      exact ⟨three, owned₃⟩

end Parts

end Replaying

/-- A block clears only the slots whose registers it names. -/
theorem steady_asmBlock {site : BlockSite} {result : Operand} (ready : Ready guarded s)
    (claimed : ∀ slot, Pool.slotPhys slot ∈ site.block.registers → C slot)
    (run : asmBlock site s = .ok result s') :
    Steady guarded C s s' ∧ Owned guarded s' result := by
  unfold asmBlock at run
  obtain ⟨⟨value, replay⟩, s₁, replayed, run⟩ := Success.bind_ok.mp run
  obtain ⟨rfl, rfl⟩ := Success.pure_ok.mp run
  obtain ⟨last, _, s₂, ran, finished⟩ := Success.stateT_bind_ok.mp replayed
  have start : Replay.start.Fresh guarded s := ⟨by simp [Replay.start], by simp [Replay.start],
    by simp [Replay.start]⟩
  obtain ⟨first, fresh, owned⟩ := Replaying.steady_statements ready start
    (Fresh.of_none rfl).owned (by
      intro part member slot named
      exact claimed slot (List.mem_flatMap.mpr ⟨part, member, named⟩)) ran
  obtain ⟨second, owned'⟩ := Replaying.steady_finish (C := C) (first.ready ready) fresh
    owned finished
  exact ⟨first.trans second, owned'⟩

end Lower

end X64Backend
