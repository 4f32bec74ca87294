import X64Backend.Proofs.Lower.Loads

/-!
Operators on variables.  The generated code computes what the folder of constants makes of the words
that the variables hold, each extended from its own width to the operation.  A count of a shift is
cut to the bits that the machine looks at, which the folder does not do.
-/

namespace X64Backend.Lower

open Machine X64Backend.Tree

variable {s s₁ s' : State} {x y result : Operand} {size : Size} {signed : Bool}

/-- Two variables as the operands of an operator at a width. -/
structure Operands (draft : Draft) (size : Size) (x y : Operand) : Prop where
  left : Rests draft x
  right : Rests draft y
  regular : Regular size
  leftRegular : Regular x.size
  rightRegular : Regular y.size

/-- The words of the operands, extended to the operation, become a word in the result. -/
def Becomes (s s' : State) (x y result : Operand) (signed : Bool)
    (outcome : UInt64 → UInt64 → UInt64 → Prop) (view view' : View) : Prop :=
  ∀ first second, Shows s.draft.timeline.current view x first →
    Shows s.draft.timeline.current view y second →
    ∃ word, outcome (extend first x.size signed) (extend second y.size signed) word ∧
      Shows s'.draft.timeline.current view' result word

/-- A register holds, at smaller widths too, what was written to it. -/
theorem shows_write {place : Handle → Option Phys} {register : Register} {phys : Phys}
    {value word : UInt64} {view : View} (sits : Sits place (.reg register) (.register phys))
    (regular : Regular register.size) (regular' : Regular size)
    (narrow : size.bytes ≤ register.size.bytes)
    (same : value &&& mask size = word &&& mask size) :
    Shows place ((Spot.register phys).write view register.size value)
      (.reg (register.resize size)) word := by
  have shows' : Shows place ((Spot.register phys).write view register.size value) (.reg register)
      value := ⟨_, sits, Spot.read_write regular.sized regular.low⟩
  obtain ⟨spot, sits', read⟩ := shows'.narrow sits regular regular' narrow
  exact ⟨spot, sits', read.trans same⟩

/-- The instruction of an operator computes it in place, at its own width or at a smaller one. -/
theorem adds_arithmetic {op : BinaryOp} {instr : Op} {u : Unit} {register : Register} {phys : Phys}
    {src : Operand} {spot : Spot} (known : arithOp? op = some instr) (lost : Handle → Prop)
    (tidy : s.draft.Tidy) (into : Sits s.draft.timeline.current (.reg register) (.register phys))
    (out : Sits s.draft.timeline.current src spot) (regular : Regular register.size)
    (regular' : Regular size) (narrow : size.bytes ≤ register.size.bytes)
    (width : src.size = register.size)
    (run : emit [.binary instr (.reg register) src] s = .ok u s') :
    Adds lost s s' fun view view' => ∀ first second,
      Shows s.draft.timeline.current view (.reg (register.resize size)) first →
      Shows s.draft.timeline.current view src second →
      ∃ word, foldWords op first second signed = .word word ∧
        Shows s'.draft.timeline.current view' (.reg (register.resize size)) word := by
  have same : s'.draft.timeline = s.draft.timeline := (plain_emit _ _ _ _ run).timeline
  rw [same]
  refine (adds_instr tidy lost run ?_).1
  intro image tick checked view here
  have covers := mask_of_le regular' narrow
  have itself : ∀ word : UInt64, word &&& mask size = word &&& mask size := fun _ => rfl
  -- what the instruction computes does not depend on how the words of the operands are extended
  obtain ⟨_, value, flags, _, computes, _⟩ := arithmetic?_of_arithOp known regular'.sized covers
    view.flags (itself ((Spot.register phys).read view register.size))
    (itself (spot.read view src.size)) signed
  refine ⟨_, Does.arithmetic checked (into.finds here) (out.finds here) regular.sized regular.low
    rfl computes, ?_⟩
  intro first second left right
  have low : (Spot.register phys).read view register.size &&& mask size = first &&& mask size := by
    rw [← Spot.read_of_le regular' regular narrow]
    exact left.read (into.resize regular'.low)
  have low' : spot.read view src.size &&& mask size = second &&& mask size := by
    rw [right.read out, width, and_mask_cut _ regular' narrow]
  obtain ⟨word, value', _, folds, computes', agrees⟩ :=
    arithmetic?_of_arithOp known regular'.sized covers view.flags low low' signed
  rw [computes] at computes'
  cases computes'
  exact ⟨word, folds, shows_write into regular regular' narrow agrees⟩

theorem Shows.congr {place : Handle → Option Phys} {view : View} {operand : Operand}
    {word word' : UInt64} (shows' : Shows place view operand word)
    (same : word &&& mask operand.size = word' &&& mask operand.size) :
    Shows place view operand word' := by
  obtain ⟨spot, sits, read⟩ := shows'
  exact ⟨spot, sits, read.trans same⟩

/-- Variables are not exchanged: neither may be overwritten. -/
theorem combine_rests {op : BinaryOp} {instr : Op} (plain : isTemp s.draft y = false) :
    combine op instr x y size signed s = (do
      let dst ← load x size signed
      let src ← operandFor y size signed
      if instr = .imul && size = .s8 then
        let wide ← load src .s32 signed
        widen (dst.resize .s32) (.reg dst) signed
        emit [.binary instr (.reg (dst.resize .s32)) (.reg wide)]
        release (.reg wide)
      else
        emit [.binary instr (.reg dst) src]
        release src
      return .reg dst : Gen Operand) s := by
  have same : arrange s.draft op x y = (x, y) := by simp [arrange, plain]
  unfold combine
  rw [Success.bind_of_ok (Success.get_ok.mpr ⟨rfl, rfl⟩), same]

theorem adds_combine_direct {op : BinaryOp} {instr : Op} (known : arithOp? op = some instr)
    (tidy : s.draft.Tidy) (operands : Operands s.draft size x y)
    (direct : (instr = .imul && size = .s8) = false)
    (run : combine op instr x y size signed s = .ok result s') :
    result.size = size ∧ Adds (fun _ => True) s s' (Becomes s s' x y result signed
      fun first second word => foldWords op first second signed = .word word) := by
  obtain ⟨left, right, regular, leftRegular, rightRegular⟩ := operands
  rw [combine_rests (right.plain tidy)] at run
  simp only [direct, Bool.false_eq_true, if_false] at run
  obtain ⟨dst, s₁, loaded, run⟩ := Success.bind_ok.mp run
  obtain ⟨src, s₂, prepared, run⟩ := Success.bind_ok.mp run
  obtain ⟨_, s₃, emitted, run⟩ := Success.bind_ok.mp run
  obtain ⟨_, s₄, released, run⟩ := Success.bind_ok.mp run
  obtain ⟨rfl, rfl⟩ := Success.pure_ok.mp run
  obtain ⟨slot, spot, lifts⟩ :=
    lifts_load tidy left right regular leftRegular rightRegular loaded
  obtain ⟨own, tidy₁, owns, plain, sits, first⟩ := lifts
  obtain ⟨⟨width, ⟨spot', sits', _⟩, second⟩, _⟩ := readies_operandFor tidy₁ plain sits regular
    rightRegular prepared
  obtain ⟨middle, added₂⟩ := second.extends
  have third := @adds_arithmetic s₂ s₃ size signed op instr () dst _ src spot' known (fun _ => True)
    added₂.tidy (owns.sits.extends added₂) sits' (own ▸ regular) regular
    (Nat.le_of_eq (congrArg Size.bytes own).symm) (width.trans own.symm) emitted
  have whole : dst.resize size = dst := by rw [← own]; rfl
  rw [whole] at third
  obtain ⟨fourth, same₄⟩ := third.released released
  rw [← same₄] at fourth
  refine ⟨own, ((first.trans second.any).trans fourth).mono (fun _ => id) ?_⟩
  rintro view view' ⟨_, ⟨_, loads, spares, prepares⟩, computes⟩ a b shows' shows₂
  obtain ⟨loaded', held⟩ := loads a b shows' shows₂
  exact computes _ _ (loaded'.spared owns.sits added₂ spares owns.busy) (prepares b held)

/-- Bytes are multiplied at 32 bits. -/
theorem adds_combine_bytes {op : BinaryOp} {instr : Op} (known : arithOp? op = some instr)
    (tidy : s.draft.Tidy) (operands : Operands s.draft .s8 x y) (narrow : y.size = .s8)
    (multiplies : instr = .imul) (run : combine op instr x y .s8 signed s = .ok result s') :
    result.size = .s8 ∧ Adds (fun _ => True) s s' (Becomes s s' x y result signed
      fun first second word => foldWords op first second signed = .word word) := by
  obtain ⟨left, right, regular, leftRegular, rightRegular⟩ := operands
  have wide : Regular .s32 := ⟨by decide, by decide⟩
  have short : Size.s8.bytes ≤ Size.s32.bytes := by decide
  rw [combine_rests (right.plain tidy)] at run
  obtain ⟨dst, s₁, loaded, run⟩ := Success.bind_ok.mp run
  obtain ⟨slot, spot, lifts⟩ :=
    lifts_load tidy left right regular leftRegular rightRegular loaded
  obtain ⟨own, tidy₁, owns, plain, sits, first⟩ := lifts
  rw [operandFor_eq sits, if_pos narrow, multiplies] at run
  obtain ⟨_, _, same, run⟩ := Success.bind_ok.mp run
  obtain ⟨rfl, rfl⟩ := Success.pure_ok.mp same
  simp only [decide_true, Bool.and_self, if_true] at run
  obtain ⟨factor, s₂, loaded', run⟩ := Success.bind_ok.mp run
  obtain ⟨_, s₃, widened, run⟩ := Success.bind_ok.mp run
  obtain ⟨_, s₄, emitted, run⟩ := Success.bind_ok.mp run
  obtain ⟨_, s₅, released, run⟩ := Success.bind_ok.mp run
  obtain ⟨rfl, rfl⟩ := Success.pure_ok.mp run
  obtain ⟨slot', takes', second⟩ := adds_load tidy₁ plain sits wide rightRegular loaded'
  obtain ⟨middle, added₂⟩ := second.extends
  have owns' := takes'.owns added₂.tidy wide
  have own' : factor.size = .s32 := congrArg Register.size takes'.register
  have apart : Pool.slotPhys slot ≠ Pool.slotPhys slot' :=
    fun same => owns.busy (same ▸ takes'.idle)
  have into := owns.sits.extends added₂
  have third := adds_widen (fun _ => True) added₂.tidy into (own ▸ regular) wide
    (by rw [own]; decide) widened
  obtain ⟨back, added₃⟩ := third.extends
  have fourth := @adds_arithmetic s₃ s₄ .s8 signed op .imul () (dst.resize .s32) _ (.reg factor)
    _ (multiplies ▸ known) (fun _ => True) added₃.tidy ((into.extends added₃).resize wide.low)
    (owns'.sits.extends added₃) wide regular short own' emitted
  have whole : (dst.resize .s32).resize .s8 = dst := by rw [← own]; rfl
  rw [whole] at fourth
  obtain ⟨fifth, same₅⟩ := fourth.released released
  rw [← same₅] at fifth
  refine ⟨own, (((first.trans second.any).trans third).trans fifth).mono (fun _ => id) ?_⟩
  rintro view view' ⟨_, ⟨_, ⟨_, loads, spares₂, loads'⟩, spares₃, widens⟩, computes⟩ a b shows'
    shows₂
  obtain ⟨loaded₁, held⟩ := loads a b shows' shows₂
  have kept := loaded₁.spared owns.sits added₂ spares₂ apart
  have kept' := (loads' b held).spared owns'.sits added₃ spares₃ apart.symm
  have cut := (widens _ kept).narrow ((into.extends added₃).resize wide.low) wide regular short
  rw [whole] at cut
  refine computes _ _ (cut.congr ?_) kept'
  rw [own, show (Operand.reg dst).size = .s8 from own]
  exact extend_and_mask _ _ _

/-- The code of an operator on two variables computes what the folder makes of their words. -/
theorem adds_combine {op : BinaryOp} {instr : Op} (known : arithOp? op = some instr)
    (tidy : s.draft.Tidy) (operands : Operands s.draft size x y)
    (narrow : size = .s8 → y.size = .s8)
    (run : combine op instr x y size signed s = .ok result s') :
    result.size = size ∧ Adds (fun _ => True) s s' (Becomes s s' x y result signed
      fun first second word => foldWords op first second signed = .word word) := by
  by_cases bytes : (instr = .imul && size = .s8) = true
  · obtain ⟨multiplies, rfl⟩ : instr = .imul ∧ size = .s8 := by simpa using bytes
    exact adds_combine_bytes known tidy operands (narrow rfl) multiplies run
  · exact adds_combine_direct known tidy operands (Bool.eq_false_iff.mpr bytes) run

section Shifts

variable {left : Bool} {register : Register} {phys : Phys}

/-- The instruction of a shift, for a count that the machine finds somewhere. -/
theorem adds_shifted {u : Unit} {src : Operand} (counts : View → UInt64) (lost : Handle → Prop)
    (tidy : s.draft.Tidy) (into : Sits s.draft.timeline.current (.reg register) (.register phys))
    (regular : Regular register.size)
    (does : ∀ {scope : Scope} {value : UInt64} {flags : Flags} (checked : Bool) (view : View),
      Finds scope (.reg register) (.register phys) →
      arithmetic? (shiftOp left signed) register.size view.flags
        ((Spot.register phys).read view register.size) (counts view) = some (some value, flags) →
      Does scope checked (.binary (shiftOp left signed) (.reg register) src) view
        ((Spot.register phys).write { view with flags } register.size value))
    (run : emit [.binary (shiftOp left signed) (.reg register) src] s = .ok u s') :
    Adds lost s s' fun view view' => ∀ first,
      Shows s.draft.timeline.current view (.reg register) first →
      ∃ word, foldWords (if left then .shl else .shr) (extend first register.size signed)
          (shiftCount register.size (counts view)) signed = .word word ∧
        Shows s'.draft.timeline.current view' (.reg register) word := by
  have same : s'.draft.timeline = s.draft.timeline := (plain_emit _ _ _ _ run).timeline
  rw [same]
  refine (adds_instr tidy lost run ?_).1
  intro image tick checked view here
  obtain ⟨folded, value, flags, folds, computes, agrees⟩ := arithmetic?_of_shift regular.sized left
    signed view.flags ((Spot.register phys).read view register.size) (counts view)
  refine ⟨_, does checked view (into.finds here) computes, ?_⟩
  intro first holds
  have read : (Spot.register phys).read view register.size = first &&& mask register.size :=
    holds.read into
  rw [read, extend_mask] at folds
  exact ⟨folded, folds, shows_write into regular regular (Nat.le_refl _) agrees⟩

theorem shift_eq {op : Op} {place : Handle → Option Phys} {spot : Spot}
    (sits : Sits place y spot) : shift op x y size signed = (do
      let dst ← load x size signed
      move (.reg (.fix .rcx .s64)) y false .lowFirst
      release y
      emit [.binary op (.reg dst) (.reg (.fix .rcx .s8))]
      return .reg dst) := by
  cases sits <;> rfl

/-- A shift by a count in a variable turns by the lowest bits of the count, which are as many as the
machine looks at. -/
theorem adds_shift (tidy : s.draft.Tidy) (operands : Operands s.draft size x y)
    (run : shift (shiftOp left signed) x y size signed s = .ok result s') :
    result.size = size ∧ Adds (fun _ => True) s s' (Becomes s s' x y result signed
      fun first second word => foldWords (if left then .shl else .shr) (extend first size signed)
        (shiftCount size second) signed = .word word) := by
  obtain ⟨operand, right, regular, leftRegular, rightRegular⟩ := operands
  obtain ⟨_, found, _⟩ := right.sits tidy rightRegular
  rw [shift_eq found] at run
  obtain ⟨dst, s₁, loaded, run⟩ := Success.bind_ok.mp run
  obtain ⟨_, s₂, moved, run⟩ := Success.bind_ok.mp run
  obtain ⟨_, s₃, released, run⟩ := Success.bind_ok.mp run
  obtain ⟨_, s₄, emitted, run⟩ := Success.bind_ok.mp run
  obtain ⟨rfl, rfl⟩ := Success.pure_ok.mp run
  obtain ⟨slot, spot, lifts⟩ :=
    lifts_load tidy operand right regular leftRegular rightRegular loaded
  obtain ⟨own, tidy₁, owns, _, sits, first⟩ := lifts
  have regular' : Regular dst.size := own ▸ regular
  have whole : Regular (Register.fix .rcx .s64).size := ⟨by decide, by decide⟩
  have octet : Regular .s8 := ⟨by decide, by decide⟩
  have rcx : ∀ place, Sits place (.reg (.fix .rcx .s64)) (.register .rcx) :=
    fun _ => .register rfl whole.low
  obtain ⟨second, same₂⟩ := adds_move (fun _ => True) tidy₁ sits (rcx _) whole rightRegular
    .lowFirst moved
  obtain ⟨middle, added₂⟩ := second.extends
  obtain ⟨third, same₃⟩ := second.released released
  obtain ⟨_, added₃⟩ := third.extends
  have into : Sits s₃.draft.timeline.current (.reg dst) (.register (Pool.slotPhys slot)) := by
    rw [same₃, same₂]
    exact owns.sits
  have fourth := @adds_shifted s₃ s₄ signed left dst _ () (.reg (.fix .rcx .s8))
    (fun view => (Spot.register .rcx).read view .s8) (fun _ => True) added₃.tidy into
    regular' (fun checked view found computes => Does.arithmetic checked found
      (Finds.fixed .rcx (by decide)) regular'.sized regular'.low rfl computes) emitted
  refine ⟨own, ((first.trans third).trans fourth).mono (fun _ => id) ?_⟩
  rintro view view' ⟨view₂, ⟨view₁, loads, spares₂, counted⟩, shifts⟩ a b shows' shows₂
  obtain ⟨loaded', held⟩ := loads a b shows' shows₂
  have kept := loaded'.spared owns.sits added₂ spares₂ (slotPhys_ne_scratch slot).1
  rw [← same₃] at kept
  obtain ⟨word, folds, becomes⟩ := shifts _ kept
  refine ⟨word, ?_, becomes⟩
  -- the machine looks at the lowest byte of the count, however it has been extended
  have count : (Spot.register .rcx).read view₂ .s8 = b &&& mask .s8 := by
    obtain ⟨_, sits', read⟩ := (counted b held).narrow (rcx _) whole octet (by decide)
    rw [← Sits.unique ((rcx _).resize octet.low) sits'] at read
    exact read.trans (extend_cut b octet rightRegular.octet false)
  rw [own, count, shiftCount_congr (and_mask_and_mask _ _),
    ← shiftCount_congr (extend_cut b octet rightRegular.octet signed)] at folds
  exact folds

/-- A shift by a literal count. -/
theorem adds_shift_literal {literal : Literal} {count : UInt64} (number : literal.isLabel = false)
    (value : literal.bits = .ok count) (small : count ≤ 63) (tidy : s.draft.Tidy)
    (rests : Rests s.draft x) (regular : Regular size) (leftRegular : Regular x.size)
    (run : shift (shiftOp left signed) x (.lit literal) size signed s = .ok result s') :
    result.size = size ∧ Adds (fun _ => True) s s' fun view view' => ∀ first,
      Shows s.draft.timeline.current view x first →
      ∃ word, foldWords (if left then .shl else .shr)
          (extend (extend first x.size signed) size signed) (shiftCount size count) signed =
            .word word ∧
        Shows s'.draft.timeline.current view' result word := by
  obtain ⟨spot, sits, _⟩ := rests.sits tidy leftRegular
  have counts : isCount literal = true := by simp [isCount, value, small]
  obtain ⟨dst, s₁, loaded, run⟩ := Success.bind_ok.mp run
  simp only [counts, if_true] at run
  obtain ⟨_, s₂, emitted, run⟩ := Success.bind_ok.mp run
  obtain ⟨rfl, rfl⟩ := Success.pure_ok.mp run
  obtain ⟨slot, takes, first⟩ := adds_load tidy (rests.plain tidy) sits regular leftRegular loaded
  obtain ⟨front, added⟩ := first.extends
  have own : dst.size = size := congrArg Register.size takes.register
  have regular' : Regular dst.size := own ▸ regular
  have second := adds_shifted (fun _ => count) (fun _ => True) added.tidy
    (takes.sits regular) regular' (fun checked view found computes =>
      Does.shift checked left signed number value small found regular'.sized regular'.low computes)
    emitted
  refine ⟨own, (first.any.trans second).mono (fun _ => id) ?_⟩
  rintro view view' ⟨_, ⟨_, loads⟩, shifts⟩ a shows'
  rw [own] at shifts
  exact shifts _ (loads a shows')

end Shifts

section Changes

variable {register : Register} {phys : Phys} {op : Op} {value : UInt64 → UInt64}

/-- What an operator on one operand makes of a word, in the bits of every width. -/
structure Alters (op : Op) (value : UInt64 → UInt64) : Prop where
  low : ∀ {size : Size} {word other : UInt64}, size ≠ .unsized →
    word &&& mask size = other &&& mask size → value word &&& mask size = value other &&& mask size
  does : ∀ {scope : Scope} {dst : Operand} {into : Spot} (checked : Bool) (view : View),
    Finds scope dst into → dst.size ≠ .unsized → dst.size ≠ .high8 →
    ∃ flags, Does scope checked (.unary op dst) view
      (into.write { view with flags } dst.size (value (into.read view dst.size)))

theorem alters_neg : Alters .neg (0 - ·) :=
  ⟨fun sized same => negated_low sized same,
    fun checked _ found sized low => Does.negate checked found sized low⟩

theorem alters_not : Alters .not (~~~ ·) :=
  ⟨fun sized same => complement_low sized same,
    fun checked _ found sized low => ⟨_, Does.complement checked found sized low⟩⟩

/-- An operator that works in place works on a copy of the operand. -/
theorem adds_change {type : TypeRef} (alters : Alters op value) (tidy : s.draft.Tidy)
    (rests : Rests s.draft x) (regular : Regular type.operandSize) (regular' : Regular x.size)
    (run : change op x type s = .ok result s') :
    result.size = type.operandSize ∧ Adds (fun _ => True) s s' fun view view' => ∀ word,
      Shows s.draft.timeline.current view x word →
      Shows s'.draft.timeline.current view' result (value (extend word x.size type.isSigned)) := by
  obtain ⟨spot, sits, _⟩ := rests.sits tidy regular'
  obtain ⟨dst, s₁, loaded, run⟩ := Success.bind_ok.mp run
  obtain ⟨_, s₂, emitted, run⟩ := Success.bind_ok.mp run
  obtain ⟨rfl, rfl⟩ := Success.pure_ok.mp run
  obtain ⟨slot, takes, first⟩ := adds_load tidy (rests.plain tidy) sits regular regular' loaded
  obtain ⟨front, added⟩ := first.extends
  have own : dst.size = type.operandSize := congrArg Register.size takes.register
  have wide : Regular dst.size := own ▸ regular
  have into := takes.sits regular
  have same : s₂.draft.timeline = s₁.draft.timeline := (plain_emit _ _ _ _ emitted).timeline
  have second : Adds (fun _ => True) s₁ s₂ fun view view' => ∀ word,
      Shows s₁.draft.timeline.current view (.reg dst) word →
      Shows s₂.draft.timeline.current view' (.reg dst) (value word) := by
    rw [same]
    refine (adds_instr added.tidy _ emitted ?_).1
    intro image tick checked view here
    obtain ⟨flags, does⟩ := alters.does checked view (into.finds here) wide.sized wide.low
    refine ⟨_, does, fun word shows' => ?_⟩
    apply shows_write into wide wide (Nat.le_refl _)
    apply alters.low wide.sized
    exact (Spot.read_and_mask wide).trans (shows'.read into)
  refine ⟨own, (first.any.trans second).mono (fun _ => id) ?_⟩
  rintro view view' ⟨_, ⟨_, loads⟩, changes⟩ word shows'
  exact changes _ (loads word shows')

end Changes

end X64Backend.Lower
