import X64Backend.Proofs.Lower.Arithmetic

/-!
Comparisons and negations.  The flags of a difference tell the truth that the folder of constants
tells, and a new byte of the pool holds it.
-/

namespace X64Backend.Lower

open Machine X64Backend.Tree

variable {s s₁ s' : State} {x y result : Operand} {size : Size} {signed : Bool} {cond : Cond}

/-- Stores a condition in a register of its own. -/
def storeCond (cond : Cond) : Gen Operand := do
  let dst ← drafting (Drafting.nextRegister .s8)
  emit [.unary (.set cond) (.reg dst)]
  return .reg dst

theorem adds_storeCond (tidy : s.draft.Tidy) (run : storeCond cond s = .ok result s') :
    result.size = .s8 ∧ Adds (fun _ => True) s s' fun view view' =>
      Shows s'.draft.timeline.current view' result (truthByte (view.flags.holds cond)) := by
  obtain ⟨dst, s₁, allocated, run⟩ := Success.bind_ok.mp run
  obtain ⟨_, s₂, emitted, run⟩ := Success.bind_ok.mp run
  obtain ⟨rfl, rfl⟩ := Success.pure_ok.mp run
  obtain ⟨slot, takes, first⟩ := takes_nextRegister tidy allocated
  have tidy₁ := (first fun _ => False).tidy
  have octet : Regular .s8 := ⟨by decide, by decide⟩
  have own : dst.size = .s8 := congrArg Register.size takes.register
  have into := takes.sits octet
  have same : s₂.draft.timeline = s₁.draft.timeline := (plain_emit _ _ _ _ emitted).timeline
  have second : Adds (fun _ => True) s₁ s₂ fun view view' =>
      Shows s₂.draft.timeline.current view' (.reg dst) (truthByte (view.flags.holds cond)) := by
    rw [same]
    refine (adds_instr tidy₁ _ emitted ?_).1
    intro image tick checked view here
    exact ⟨_, Does.set checked view cond (into.finds here),
      shows_write into (own ▸ octet) (own ▸ octet) (Nat.le_refl _) rfl⟩
  refine ⟨own, ((Adds.silent (first _)).trans second).mono (fun _ => id) ?_⟩
  rintro _ view' ⟨_, rfl, stores⟩
  exact stores

theorem compareOperands_eq {place : Handle → Option Phys} {spot : Spot}
    (sits : Sits place x spot) : compareOperands cond x y size signed = (do
      let first ← operandFor x size signed
      let second ← comparand first y size signed
      emit [.binary .cmp first second]
      release first
      release second
      storeCond cond) := by
  have plain : isLiteral x = false := by cases sits <;> rfl
  have loads : Operand.reg <$> load x size signed = (do return .reg (← load x size signed)) :=
    map_eq_pure_bind _ _
  unfold compareOperands
  rw [operandFor_eq sits, plain, if_neg Bool.false_ne_true]
  dsimp only
  by_cases same : x.size = size
  · rw [if_pos same, if_pos same]
    rfl
  · rw [if_neg same, if_neg same, loads]
    rfl

/-- The source of a comparison is not a second memory cell. -/
theorem readies_comparand {first : Operand} {spot : Spot} (tidy : s.draft.Tidy)
    (plain : isTemp s.draft y = false) (sits : Sits s.draft.timeline.current y spot)
    (regular : Regular size) (regular' : Regular y.size)
    (run : comparand first y size signed s = .ok result s') :
    Readies s s' y result spot size signed ∧ (first.isMem && result.isMem) = false := by
  unfold comparand at run
  rw [Success.ite_apply] at run
  split at run
  · obtain ⟨register, s₁, loaded, run⟩ := Success.bind_ok.mp run
    obtain ⟨rfl, rfl⟩ := Success.pure_ok.mp run
    exact ⟨readies_load tidy plain sits regular regular' loaded, Bool.and_false _⟩
  · rename_i apart
    obtain ⟨readies, still⟩ := readies_operandFor tidy plain sits regular regular' run
    refine ⟨readies, ?_⟩
    rw [Bool.and_eq_true, not_and] at apart
    rw [Bool.and_eq_false_imp]
    intro cell
    rw [Bool.eq_false_iff]
    exact fun cell' => apart cell (still cell')

/-- A comparison sets the flags from what its operands hold. -/
theorem adds_cmp {u : Unit} {first second : Operand} {spot spot' : Spot} (lost : Handle → Prop)
    (tidy : s.draft.Tidy) (left : Sits s.draft.timeline.current first spot)
    (right : Sits s.draft.timeline.current second spot') (sized : first.size ≠ .unsized)
    (direct : (first.isMem && second.isMem) = false) (width : second.size = first.size)
    (run : emit [.binary .cmp first second] s = .ok u s') :
    Adds lost s s' fun view view' => ∀ a b, Shows s.draft.timeline.current view first a →
      Shows s.draft.timeline.current view second b →
      view'.flags = .ofSub (a &&& mask first.size) (b &&& mask first.size)
        ((a &&& mask first.size) - (b &&& mask first.size)) first.size := by
  refine (adds_instr tidy lost run ?_).1
  intro image tick checked view here
  refine ⟨_, Does.compare checked (left.finds here) (right.finds here) sized direct rfl rfl, ?_⟩
  intro a b shows' shows₂
  have read := shows₂.read right
  rw [width] at read
  rw [width, shows'.read left, read]

/-- A comparison of two variables leaves the truth that the folder tells, as a byte. -/
theorem adds_compareOperands {op : BinaryOp} (comparison : op.isComparison = true)
    (tidy : s.draft.Tidy) (operands : Operands s.draft size x y)
    (run : compareOperands (comparisonCond op signed) x y size signed s = .ok result s') :
    result.size = .s8 ∧ Adds (fun _ => True) s s' (Becomes s s' x y result signed
      fun first second word => ∃ truth, foldWords op (extend first size signed)
        (extend second size signed) signed = .truth truth ∧ word = truthByte truth) := by
  obtain ⟨left, right, regular, leftRegular, rightRegular⟩ := operands
  obtain ⟨spot, sits, busy⟩ := right.sits tidy rightRegular
  obtain ⟨leftSpot, leftSits, leftBusy⟩ := left.sits tidy leftRegular
  rw [compareOperands_eq leftSits] at run
  obtain ⟨first, s₁, prepared, run⟩ := Success.bind_ok.mp run
  obtain ⟨second, s₂, prepared', run⟩ := Success.bind_ok.mp run
  obtain ⟨_, s₃, emitted, run⟩ := Success.bind_ok.mp run
  obtain ⟨_, s₄, released, run⟩ := Success.bind_ok.mp run
  obtain ⟨_, s₅, released', stored⟩ := Success.bind_ok.mp run
  obtain ⟨⟨width, ⟨firstSpot, into, kept⟩, adds₁⟩, _⟩ := readies_operandFor tidy
    (left.plain tidy) leftSits regular leftRegular prepared
  obtain ⟨front, added₁⟩ := adds₁.extends
  obtain ⟨⟨width', ⟨secondSpot, out, _⟩, adds₂⟩, direct⟩ := readies_comparand added₁.tidy
    (right.not_temp added₁) (sits.extends added₁) regular rightRegular prepared'
  obtain ⟨middle, added₂⟩ := adds₂.extends
  have adds₃ := adds_cmp (fun _ => True) added₂.tidy (into.extends added₂) out
    (width ▸ regular.sized) direct (width'.trans width.symm) emitted
  obtain ⟨adds₄, _⟩ := adds₃.released released
  obtain ⟨adds₅, _⟩ := adds₄.released released'
  obtain ⟨_, added₅⟩ := adds₅.extends
  obtain ⟨byte, adds₆⟩ := adds_storeCond added₅.tidy stored
  refine ⟨byte, (((adds₁.any.trans adds₂.any).trans adds₅).trans adds₆).mono (fun _ => id) ?_⟩
  rintro view view' ⟨_, ⟨view₂, ⟨view₁, ⟨spares₁, loads⟩, spares₂, loads'⟩, flags⟩, stores⟩ a b
    shows' shows₂
  have held := shows₂.spared sits added₁ spares₁ busy
  have first' := (loads a shows').spared into added₂ spares₂ (kept leftBusy)
  have truth := @holds_comparisonCond size (extend a x.size signed &&& mask size)
    (extend b y.size signed &&& mask size) op regular.sized comparison signed
  rw [extend_mask, extend_mask] at truth
  refine ⟨_, ⟨_, truth, rfl⟩, ?_⟩
  rw [width] at flags
  rwa [flags _ _ first' (loads' b held)] at stores

/-- A variable that a comparison has just been stored in is looked at like any other. -/
theorem negate_eq (plain : isTemp s.draft x = false) : negate x s = (do
    test x
    release x
    storeCond .e : Gen Operand) s := by
  unfold negate
  obtain ⟨stored, looked⟩ : ∃ stored, lastSet? x s = .ok stored s := ⟨_, rfl⟩
  have temporary : temp x s = .ok false s := by rw [← plain]; rfl
  rw [Success.bind_of_ok looked, Success.bind_of_ok temporary]
  cases stored <;> rfl

/-- The negation of a variable is true if all its bits are zero. -/
theorem adds_negate (tidy : s.draft.Tidy) (rests : Rests s.draft x) (regular : Regular x.size)
    (run : negate x s = .ok result s') :
    result.size = .s8 ∧ Adds (fun _ => True) s s' fun view view' => ∀ word,
      Shows s.draft.timeline.current view x word →
      Shows s'.draft.timeline.current view' result
        (truthByte (decide (word &&& mask x.size = 0))) := by
  obtain ⟨spot, sits, _⟩ := rests.sits tidy regular
  rw [negate_eq (rests.plain tidy), test_eq regular.sized] at run
  obtain ⟨_, s₁, tested, run⟩ := Success.bind_ok.mp run
  obtain ⟨_, s₂, released, stored⟩ := Success.bind_ok.mp run
  have probes : Adds (fun _ => True) s s₁ fun view view' => ∀ word,
      Shows s.draft.timeline.current view x word →
      view'.flags.zero = decide (word &&& mask x.size = 0) := by
    refine (adds_instr tidy _ tested ?_).1
    intro image tick checked view here
    obtain ⟨flags, zero, does⟩ := Does.probe checked view (sits.finds here) regular.sized
    refine ⟨_, does, fun word shows' => ?_⟩
    rw [zero, shows'.read sits, and_mask_and_mask]
  obtain ⟨releases, _⟩ := probes.released released
  obtain ⟨_, added⟩ := releases.extends
  obtain ⟨byte, stores⟩ := adds_storeCond added.tidy stored
  refine ⟨byte, (releases.trans stores).mono (fun _ => id) ?_⟩
  rintro view view' ⟨_, zero, becomes⟩ word shows'
  rw [← zero word shows']
  exact becomes

end X64Backend.Lower
