import X64Backend.Proofs.Lower.Arithmetic
import X64Backend.Proofs.Lower.Clearing

/-!
Divisions.  Once the accumulator is clear, the dividend is extended into it and the divisor put
where the division can use it.  The quotient is left in the accumulator, and a remainder is copied
there.
-/

namespace X64Backend.Lower

open Machine X64Backend.Tree

variable {s s₁ s' : State} {x y result : Operand} {size : Size} {signed : Bool}

/-- Code is added that takes the views with a property to views that are related to them. -/
def AddsIf (start : View → Prop) (lost : Handle → Prop) (s s' : State)
    (relation : View → View → Prop) : Prop :=
  ∃ code, Extends lost s s' code ∧ ∀ {image : Image} (checked : Bool) (view : View), start view →
    Faithful image s s' → ∃ view', Straight image checked code view view' ∧ relation view view'

section Conditions

variable {start middle : View → Prop} {lost : Handle → Prop}
  {relation relation' : View → View → Prop}

theorem Adds.given (adds : Adds lost s s' relation) : AddsIf start lost s s' relation := by
  obtain ⟨code, added, leads⟩ := adds
  exact ⟨code, added, fun checked view _ faithful => leads checked view faithful⟩

theorem AddsIf.trans (first : AddsIf start lost s s₁ relation)
    (second : AddsIf middle lost s₁ s' relation')
    (reaches : ∀ view view', start view → relation view view' → middle view') :
    AddsIf start lost s s' fun view view' => ∃ between, relation view between ∧
      relation' between view' := by
  obtain ⟨front, added, leads⟩ := first
  obtain ⟨back, added', leads'⟩ := second
  refine ⟨front ++ back, added.trans added', ?_⟩
  intro image checked view started faithful
  obtain ⟨between, straight, related⟩ := leads checked view started (faithful.left added')
  obtain ⟨view', straight', related'⟩ := leads' checked between (reaches _ _ started related)
    (faithful.right added.clock)
  exact ⟨view', straight.append straight', between, related, related'⟩

/-- A release behind some code. -/
theorem AddsIf.released {u : Unit} {operand : Operand}
    (adds : AddsIf start (fun _ => True) s s₁ relation) (run : release operand s₁ = .ok u s') :
    AddsIf start (fun _ => True) s s' relation ∧ s'.draft.timeline = s₁.draft.timeline := by
  obtain ⟨code, added, leads⟩ := adds
  obtain ⟨silent, same, _⟩ := extends_release added.tidy run
  have added' := added.trans (silent.mono fun _ _ => trivial)
  rw [List.append_nil] at added'
  refine ⟨⟨code, added', ?_⟩, same⟩
  intro image checked view started faithful
  exact leads checked view started (faithful.left silent)

theorem AddsIf.mono (adds : AddsIf start lost s s' relation)
    (weaker : ∀ view view', start view → relation view view' → relation' view view') :
    AddsIf start lost s s' relation' := by
  obtain ⟨code, added, leads⟩ := adds
  refine ⟨code, added, ?_⟩
  intro image checked view started faithful
  obtain ⟨view', straight, related⟩ := leads checked view started faithful
  exact ⟨view', straight, weaker _ _ started related⟩

end Conditions

/-- The divisor, where the division can use it. -/
theorem adds_placeDivisor {divisor : Operand} {spot : Spot} (tidy : s.draft.Tidy)
    (sits : Sits s.draft.timeline.current y spot) (regular : Regular y.size)
    (apart : spot.phys ≠ .rax ∧ spot.phys ≠ .rdx)
    (run : placeDivisor y signed s = .ok divisor s') :
    divisor.size = .s64 ∧
      (∃ spot', Sits s'.draft.timeline.current divisor spot' ∧ spot'.phys ≠ .rax ∧
        spot'.phys ≠ .rdx) ∧
      Adds (fun _ => True) s s' fun view view' => Spares (· = .rcx) view view' ∧
        ∀ word, Shows s.draft.timeline.current view y word →
          Shows s'.draft.timeline.current view' divisor (extend word y.size signed) := by
  unfold placeDivisor at run
  rw [Success.ite_apply] at run
  split at run
  · rename_i cell
    simp only [Bool.and_eq_true, decide_eq_true_eq] at cell
    obtain ⟨rfl, rfl⟩ := Success.pure_ok.mp run
    refine ⟨cell.2, ⟨spot, sits, apart⟩, (Adds.silent (.refl tidy)).mono (fun _ => id) ?_⟩
    rintro view _ rfl
    refine ⟨⟨fun _ _ => rfl, rfl⟩, fun word shows' => shows'.congr ?_⟩
    exact (extend_and_mask _ _ _).symm
  · obtain ⟨_, s₁, moved, run⟩ := Success.bind_ok.mp run
    obtain ⟨rfl, rfl⟩ := Success.pure_ok.mp run
    have whole : Regular (Register.fix .rcx .s64).size := ⟨by decide, by decide⟩
    have rcx : ∀ place, Sits place (.reg (.fix .rcx .s64)) (.register .rcx) :=
      fun _ => .register rfl whole.low
    obtain ⟨adds, _⟩ := adds_move (fun _ => True) tidy sits (rcx _) whole regular .lowFirst moved
    exact ⟨rfl, ⟨_, rcx _, by simp [Spot.phys], by simp [Spot.phys]⟩, adds⟩

/-- The instruction that extends the dividend. -/
def dividing (signed : Bool) : Instr :=
  if signed then .nullary .cqo else .binary .xor (.reg (.fix .rdx .s32)) (.reg (.fix .rdx .s32))

theorem division_eq (divisor : Operand) (signed : Bool) :
    division divisor signed =
      [dividing signed, .unary (if signed then .idiv else .div) divisor] := by
  cases signed <;> rfl

theorem does_dividing {scope : Scope} (checked : Bool) (view : View) (signed : Bool) :
    ∃ view', Does scope checked (dividing signed) view view' ∧ Spares (· = .rdx) view view' ∧
      view'.get .rdx = if signed then signWord (view.get .rax) else 0 := by
  cases signed with
  | true => exact ⟨_, Does.signDividend checked, .set, (View.get_set _ _ _ _).trans (if_pos rfl)⟩
  | false =>
    obtain ⟨flags, does⟩ := @Does.clearDividend scope view checked
    exact ⟨_, does, ⟨fun phys apart => Spares.set.registers phys apart, rfl⟩,
      (View.get_set _ _ _ _).trans (if_pos rfl)⟩

/-- The division of the accumulator. -/
theorem adds_division {u : Unit} {divisor : Operand} {spot : Spot} (tidy : s.draft.Tidy)
    (sits : Sits s.draft.timeline.current divisor spot) (wide : divisor.size = .s64)
    (apart : spot.phys ≠ .rdx) (run : emit (division divisor signed) s = .ok u s')
    (first second : UInt64) (some' : second ≠ 0) :
    AddsIf (fun view => view.get .rax = first ∧
        Shows s.draft.timeline.current view divisor second) (fun _ => True) s s' fun _ view' =>
      view'.get .rax = quotient first second signed ∧
        view'.get .rdx = remainder first second signed := by
  obtain ⟨code, spelled, added, same⟩ := extends_emit tidy (fun _ => True) run
  refine ⟨code, added, ?_⟩
  rintro image checked view ⟨low, shows'⟩ faithful
  rw [division_eq] at spelled
  obtain ⟨extending, rest, rfl, extends', spelled⟩ := List.map_eq_cons_iff.mp spelled
  obtain ⟨dividing', rest, rfl, divides, empty⟩ := List.map_eq_cons_iff.mp spelled
  obtain rfl := List.map_eq_nil_iff.mp empty
  obtain ⟨view₁, does, spares, high⟩ :=
    @does_dividing ⟨image, extending.tick⟩ checked view signed
  have found : Finds ⟨image, dividing'.tick⟩ divisor spot := by
    apply sits.finds
    intro handle phys placed
    apply faithful.here tidy added (by simp)
    rw [same, placed]
  have read : spot.read view₁ .s64 = second := by
    rw [spares.read _ apart, ← wide, shows'.read sits, wide, and_mask_word]
  have kept : view₁.get .rax = first := (spares.registers .rax (by decide)).trans low
  rw [low] at high
  have does' := Does.divide checked found wide read some' kept high
  rw [← extends'] at does
  rw [← divides] at does'
  refine ⟨_, ⟨_, does, _, does', rfl⟩, ?_, ?_⟩
  · rw [View.divided, View.get_set, if_neg (by decide), View.get_set, if_pos rfl]
  · rw [View.divided, View.get_set, if_pos rfl]

/-- A division into the accumulator, which has been cleared. -/
def divideInto (left right : Operand) (size : Size) (signed remainder : Bool) : Gen Operand := do
  let divisor ← placeDivisor right signed
  move (.reg (.fix .rax .s64)) left signed .lowFirst
  let result ← drafting (Drafting.callAlloc .s64)
  emit (division divisor signed)
  release left
  release right
  if remainder then emit [.binary .mov (.reg result) (.reg (.fix .rdx .s64))]
  return .reg (result.resize size)

theorem divide_eq {place : Handle → Option Phys} {spot : Spot} (sits : Sits place y spot)
    (remainder : Bool) : divide x y size signed remainder = (do
      drafting Drafting.reserve
      divideInto x y size signed remainder) := by
  cases sits <;> rfl

/-- A register that may be overwritten is not that of a variable. -/
theorem ne_of_busy {draft : Draft} {spot : Spot} {phys : Phys} (busy : ¬ Idle draft spot.phys)
    (idle : Idle draft phys) : spot.phys ≠ phys :=
  fun same => busy (same ▸ idle)

/-- The register that holds a result of the hardware. -/
theorem takes_callAlloc {register : Register} (tidy : s.draft.Tidy)
    (run : drafting (Drafting.callAlloc size) s = .ok register s') :
    Takes s s' size register Pool.accumulator ∧ ∀ lost, Extends lost s s' [] := by
  obtain ⟨draft, drafted, rfl⟩ := drafting_ok.mp run
  obtain ⟨empty, rfl, rfl⟩ := Drafting.callAlloc_ok drafted
  refine ⟨⟨rfl, empty, Draft.count_issue _ _ _, ?_, ?_⟩,
    fun lost => extends_issue tidy lost empty fun _ => rfl⟩
  · exact ⟨Pool.accumulator, _, by rw [Draft.occupant?_issue, if_pos rfl], rfl, rfl⟩
  · simp [Timeline.current, Draft.history?_issue, History.current]

theorem Shows.word {place : Handle → Option Phys} {view : View} {phys : Phys} {word : UInt64}
    (shows' : Shows place view (.reg (.fix phys .s64)) word) : view.get phys = word := by
  have read := shows'.read (.register rfl (by simp [Register.fix]))
  rwa [Spot.read, show (Operand.reg (.fix phys .s64)).size = .s64 from rfl, readPart_word,
    and_mask_word] at read

/-- A register holds what is in it. -/
theorem Sits.shows {place : Handle → Option Phys} {view : View} {register : Register} {phys : Phys}
    (sits : Sits place (.reg register) (.register phys)) (regular : Regular register.size) :
    Shows place view (.reg register) (view.get phys) :=
  ⟨_, sits, readPart_regular _ regular⟩

/-- The value of a register of the machine is copied. -/
theorem adds_fetch {u : Unit} {register : Register} {phys source : Phys} (tidy : s.draft.Tidy)
    (into : Sits s.draft.timeline.current (.reg register) (.register phys))
    (wide : register.size = .s64)
    (run : emit [.binary .mov (.reg register) (.reg (.fix source .s64))] s = .ok u s') :
    Adds (fun _ => True) s s' fun view view' =>
      Shows s'.draft.timeline.current view' (.reg register) (view.get source) := by
  have same : s'.draft.timeline = s.draft.timeline := (plain_emit _ _ _ _ run).timeline
  rw [same]
  refine (adds_instr tidy _ run ?_).1
  intro image tick checked view here
  have out : Finds ⟨image, tick⟩ (.reg (.fix source .s64)) (.register source) :=
    Finds.fixed _ (by simp)
  have whole : Regular register.size := by
    rw [wide]
    exact ⟨by decide, by decide⟩
  refine ⟨_, Does.movSpot (into.finds here) out whole.sized rfl, ?_⟩
  apply shows_write into whole whole (Nat.le_refl _)
  exact congrArg (· &&& _) (readPart_word _)

/-- The divisor is put in place, the dividend is extended into the accumulator, and that is taken
for the quotient. -/
theorem adds_dividend {s₂ s₃ : State} {u : Unit} {divisor : Operand} {target : Register}
    (tidy : s.draft.Tidy) (empty : s.draft.pool.occupant? Pool.accumulator = none)
    (operands : Operands s.draft size x y) (placed : placeDivisor y signed s = .ok divisor s₁)
    (moved : move (.reg (.fix .rax .s64)) x signed .lowFirst s₁ = .ok u s₂)
    (allocated : drafting (Drafting.callAlloc .s64) s₂ = .ok target s₃) :
    divisor.size = .s64 ∧ (∃ spot, Sits s₃.draft.timeline.current divisor spot ∧
      spot.phys ≠ .rdx) ∧ target.size = .s64 ∧
      Sits s₃.draft.timeline.current (.reg target) (.register .rax) ∧
      Adds (fun _ => True) s s₃ fun view view' => ∀ first second,
        Shows s.draft.timeline.current view x first →
        Shows s.draft.timeline.current view y second →
        view'.get .rax = extend first x.size signed ∧
          Shows s₃.draft.timeline.current view' divisor (extend second y.size signed) := by
  obtain ⟨left, right, regular, leftRegular, rightRegular⟩ := operands
  obtain ⟨spot, sits, busy⟩ := right.sits tidy rightRegular
  obtain ⟨leftSpot, leftSits, leftBusy⟩ := left.sits tidy leftRegular
  have rax : Idle s.draft .rax := .inr (.inr ⟨Pool.accumulator, rfl, empty⟩)
  obtain ⟨wide, ⟨spot', out, apart, apart'⟩, adds₁⟩ := adds_placeDivisor tidy sits
    rightRegular ⟨ne_of_busy busy rax, ne_of_busy busy (.inr (.inl rfl))⟩ placed
  obtain ⟨front, added₁⟩ := adds₁.extends
  have whole : Regular (Register.fix .rax .s64).size := ⟨by decide, by decide⟩
  have into : ∀ place, Sits place (.reg (.fix .rax .s64)) (.register .rax) :=
    fun _ => .register rfl whole.low
  obtain ⟨adds₂, same₂⟩ := adds_move (fun _ => True) added₁.tidy (leftSits.extends added₁) (into _)
    whole leftRegular .lowFirst moved
  obtain ⟨middle, added₂⟩ := adds₂.extends
  obtain ⟨takes, silent⟩ := takes_callAlloc added₂.tidy allocated
  have out₃ : Sits s₃.draft.timeline.current divisor spot' :=
    (out.extends added₂).extends (silent fun _ => False)
  refine ⟨wide, ⟨spot', out₃, apart'⟩, congrArg Register.size takes.register, takes.sits whole,
    ((adds₁.trans adds₂).trans (.silent (silent _))).mono (fun _ => id) ?_⟩
  rintro view _ ⟨view₂, ⟨view₁, ⟨spares₁, divides⟩, spares₂, loads⟩, rfl⟩ first second shows'
    shows₂
  have held := shows'.spared leftSits added₁ spares₁ (ne_of_busy leftBusy (.inl rfl))
  have kept := (divides second shows₂).spared out added₂ spares₂ apart
  exact ⟨(loads first held).word, spot', out₃, kept.read (out.extends added₂)⟩

theorem adds_divideInto {remainder : Bool} (tidy : s.draft.Tidy)
    (empty : s.draft.pool.occupant? Pool.accumulator = none) (operands : Operands s.draft size x y)
    (run : divideInto x y size signed remainder s = .ok result s') (first second : UInt64)
    (some' : extend second y.size signed ≠ 0) :
    result.size = size ∧ AddsIf (fun view => Shows s.draft.timeline.current view x first ∧
        Shows s.draft.timeline.current view y second) (fun _ => True) s s' fun _ view' =>
      Shows s'.draft.timeline.current view' result (if remainder then
        Machine.remainder (extend first x.size signed) (extend second y.size signed) signed
        else quotient (extend first x.size signed) (extend second y.size signed) signed) := by
  obtain ⟨divisor, s₁, placed, run⟩ := Success.bind_ok.mp run
  obtain ⟨_, s₂, moved, run⟩ := Success.bind_ok.mp run
  obtain ⟨target, s₃, allocated, run⟩ := Success.bind_ok.mp run
  obtain ⟨_, s₄, divided, run⟩ := Success.bind_ok.mp run
  obtain ⟨_, s₅, released, run⟩ := Success.bind_ok.mp run
  obtain ⟨_, s₆, released', run⟩ := Success.bind_ok.mp run
  obtain ⟨wide, ⟨spot, out, apart⟩, own, owns, prepares⟩ :=
    adds_dividend tidy empty operands placed moved allocated
  obtain ⟨_, added₃⟩ := prepares.extends
  have divides := adds_division added₃.tidy out wide apart divided (extend first x.size signed)
    (extend second y.size signed) some'
  have same₄ : s₄.draft.timeline = s₃.draft.timeline := (plain_emit _ _ _ _ divided).timeline
  let start : View → Prop := fun view => Shows s.draft.timeline.current view x first ∧
    Shows s.draft.timeline.current view y second
  have steps := prepares.given.trans divides fun view view' (started : start view) leads =>
    leads first second started.1 started.2
  obtain ⟨steps, same₅⟩ := steps.released released
  obtain ⟨steps, same₆⟩ := steps.released released'
  have result' : Sits s₆.draft.timeline.current (.reg target) (.register .rax) := by
    rw [same₆, same₅, same₄]
    exact owns
  have whole : Regular target.size := own ▸ ⟨by decide, by decide⟩
  have narrow : size.bytes ≤ target.size.bytes := by
    rw [own]
    cases size <;> decide
  cases remainder with
  | false =>
    obtain ⟨rfl, rfl⟩ := Success.pure_ok.mp run
    refine ⟨rfl, steps.mono ?_⟩
    rintro view view' _ ⟨_, _, quotient', _⟩
    rw [if_neg Bool.false_ne_true, ← quotient']
    exact (result'.shows whole).narrow result' whole operands.regular narrow
  | true =>
    obtain ⟨_, s₇, fetched, run⟩ := Success.bind_ok.mp run
    obtain ⟨rfl, rfl⟩ := Success.pure_ok.mp run
    obtain ⟨_, added₆, _⟩ := id steps
    have fetches := adds_fetch added₆.tidy result' own fetched
    obtain ⟨last, added₇⟩ := fetches.extends
    refine ⟨rfl, (steps.trans fetches.given fun _ _ _ _ => trivial).mono ?_⟩
    rintro view view' _ ⟨_, ⟨_, _, _, remainder'⟩, fetched'⟩
    rw [remainder'] at fetched'
    rw [if_pos rfl]
    exact fetched'.narrow (result'.extends added₇) whole operands.regular narrow

end X64Backend.Lower
