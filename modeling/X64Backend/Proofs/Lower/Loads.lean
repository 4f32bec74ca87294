import X64Backend.Proofs.Lower.Order
import X64Backend.Proofs.Machine.Arithmetic

/-!
Operands on their way into registers.  A variable rests in a cell or in a locked register; what an
operator needs of it is copied into a free register of the pool, extended from its own width, and
nothing else is overwritten.  The code of each step takes any view to one that is related to it, and
steps compose.
-/

namespace X64Backend

/-- The same place at another width. -/
def Operand.resize (operand : Operand) (size : Size) : Operand :=
  match operand with
  | .reg register => .reg (register.resize size)
  | .mem pointer => .mem (pointer.resize size)
  | _ => operand

namespace Machine

/-- A width of 8, 16, 32 or 64 bits in the low part of a word. -/
structure Regular (size : Size) : Prop where
  sized : size ≠ .unsized
  low : size ≠ .high8

/-- No width is smaller than a byte. -/
theorem Regular.octet {size : Size} (regular : Regular size) : Size.s8.bytes ≤ size.bytes := by
  obtain ⟨sized, _⟩ := regular
  cases size with
  | unsized => contradiction
  | _ => decide

theorem Regular.eq_octet {size : Size} (regular : Regular size)
    (narrow : size.bytes ≤ Size.s8.bytes) : size = .s8 := by
  obtain ⟨sized, low⟩ := regular
  revert sized low narrow
  cases size <;> decide

section Words

variable {size wide : Size} {view : View} {spot : Spot} {scope : Scope} {src : Operand}

theorem mask_of_le (regular : Regular size) (narrow : size.bytes ≤ wide.bytes) :
    mask size &&& mask wide = mask size := by
  obtain ⟨sized, low⟩ := regular
  revert sized low narrow
  cases size <;> cases wide <;> decide

theorem and_mask_cut (word : UInt64) (regular : Regular size) (narrow : size.bytes ≤ wide.bytes) :
    word &&& mask wide &&& mask size = word &&& mask size := by
  rw [UInt64.and_assoc, UInt64.and_comm (mask wide), mask_of_le regular narrow]

theorem readPart_regular (word : UInt64) (regular : Regular size) :
    readPart word size = word &&& mask size := by
  have low := regular.low
  cases size with
  | high8 => contradiction
  | _ => rfl

/-- What is read at a smaller width is the low part of what is read at a larger one. -/
theorem Spot.read_of_le (regular : Regular size) (regular' : Regular wide)
    (narrow : size.bytes ≤ wide.bytes) :
    spot.read view size = spot.read view wide &&& mask size := by
  cases spot with
  | register phys =>
    rw [Spot.read, Spot.read, readPart_regular _ regular, readPart_regular _ regular',
      and_mask_cut _ regular narrow]
  | cell base disp =>
    rw [Spot.read, Spot.read, ← Memory.load_and_mask _ _ regular.sized,
      ← Memory.load_and_mask _ _ regular'.sized, and_mask_cut _ regular narrow]

theorem Spot.read_and_mask (regular : Regular size) :
    spot.read view size &&& mask size = spot.read view size :=
  (Spot.read_of_le regular regular (Nat.le_refl _)).symm

theorem extend_cut (word : UInt64) (regular : Regular size) (narrow : size.bytes ≤ wide.bytes)
    (signed : Bool) : extend word wide signed &&& mask size = word &&& mask size := by
  rw [← mask_of_le regular narrow, UInt64.and_comm (mask size), ← UInt64.and_assoc,
    ← UInt64.and_assoc, extend_and_mask]

/-- An operand is in the same spot at another width. -/
theorem Finds.resize (found : Finds scope src spot) (low : size ≠ .high8) :
    Finds scope (src.resize size) spot := by
  cases found with
  | register place _ => exact .register place low
  | cell place low => exact .cell place low

theorem Finds.size_resize (found : Finds scope src spot) (size : Size) :
    (src.resize size).size = size := by
  cases found <;> rfl

end Words

end Machine

namespace Lower

open Machine X64Backend.Tree

/-- The instruction that copies an operand into a register, cutting or extending it. -/
def copying (dst : Register) (src : Operand) (signed : Bool) : Instr :=
  if dst.size.bytes ≤ src.size.bytes then .binary .mov (.reg dst) (src.resize dst.size)
  else widening dst src signed

section Copies

variable {scope : Scope} {dst : Register} {src : Operand} {phys : Phys} {spot : Spot}

/-- What is extended into a register is the operand. -/
theorem does_extending (checked : Bool) (view : View) (signed : Bool)
    (into : ∀ {size}, size ≠ .high8 → Finds scope (.reg (dst.resize size)) (.register phys))
    (out : Finds scope src spot) (regular : Regular dst.size) (regular' : Regular src.size)
    (wider : src.size.bytes < dst.size.bytes) :
    ∃ filled, filled &&& mask dst.size =
        extend (spot.read view src.size) src.size signed &&& mask dst.size ∧
      Does scope checked (widening dst src signed) view (view.set phys filled) := by
  have read := @Spot.read_and_mask src.size view spot regular'
  have half : Regular .s32 := ⟨by decide, by decide⟩
  have whole : Regular .s64 := ⟨by decide, by decide⟩
  have own : Finds scope (.reg dst) (.register phys) := into regular.low
  unfold widening
  by_cases doubled : src.size.bytes = 4
  · have long : dst.size = .s64 := by
      rw [doubled] at wider
      revert wider
      cases dst.size <;> decide
    have short : src.size = .s32 := by
      revert doubled
      cases src.size <;> decide
    rw [if_pos doubled]
    cases signed with
    | true =>
      refine ⟨_, ?_, Does.movsxSpot (.inr rfl) (into whole.low) out whole.sized whole.low rfl⟩
      rfl
    | false =>
      refine ⟨_, ?_, Does.movSpot (into half.low) out half.sized rfl⟩
      rw [short] at read ⊢
      change spot.read view .s32 &&& mask .s32 &&& _ = _
      rfl
  · rw [if_neg doubled]
    cases signed with
    | true =>
      exact ⟨_, writePart_and_mask _ _ regular.low,
        Does.movsxSpot (.inl rfl) own out regular.sized regular.low rfl⟩
    | false =>
      refine ⟨_, (writePart_and_mask _ _ regular.low).trans ?_,
        Does.movzxSpot own out regular.sized regular.low rfl⟩
      rw [extend, if_neg (by decide), read]

/-- What is copied into a register is the operand, extended from its own width. -/
theorem does_copying (checked : Bool) (view : View) (signed : Bool)
    (into : ∀ {size}, size ≠ .high8 → Finds scope (.reg (dst.resize size)) (.register phys))
    (out : Finds scope src spot)
    (regular : Regular dst.size) (regular' : Regular src.size) :
    ∃ filled, filled &&& mask dst.size =
        extend (spot.read view src.size) src.size signed &&& mask dst.size ∧
      Does scope checked (copying dst src signed) view (view.set phys filled) := by
  have own : Finds scope (.reg dst) (.register phys) := into regular.low
  have cut : Finds scope (src.resize dst.size) spot := out.resize regular.low
  unfold copying
  split
  · rename_i narrow
    refine ⟨_, (writePart_and_mask _ _ regular.low).trans ?_,
      Does.movSpot own cut regular.sized rfl⟩
    rw [extend_cut _ regular narrow, out.size_resize, Spot.read_of_le regular regular' narrow,
      and_mask_and_mask]
  · rename_i wider
    exact does_extending checked view signed into out regular regular' (Nat.lt_of_not_le wider)

end Copies

section Places

variable {image : Image} {draft : Draft} {place place' : Handle → Option Phys} {view view' : View}
  {operand : Operand} {spot : Spot} {word : UInt64}

/-- Where an operand is, where every handle has one place. -/
inductive Sits (place : Handle → Option Phys) : Operand → Spot → Prop where
  | register {register : Register} {phys : Phys} : locate place register = some phys →
      register.size ≠ .high8 → Sits place (.reg register) (.register phys)
  | cell {pointer : Pointer} {base : Phys} : locate place pointer.base = some base →
      pointer.base.size ≠ .high8 → Sits place (.mem pointer) (.cell base pointer.disp)

theorem Sits.finds (sits : Sits place operand spot) {tick : Nat}
    (here : ∀ {handle phys}, place handle = some phys →
      image.timeline.placeAt handle tick = some phys) : Finds ⟨image, tick⟩ operand spot := by
  cases sits with
  | register located low => exact .register (resolve_of_locate here located) low
  | cell located low => exact .cell (resolve_of_locate here located) low

theorem Sits.congr (sits : Sits place operand spot)
    (same : ∀ handle phys, operand.handle? = some handle → place handle = some phys →
      place' handle = some phys) : Sits place' operand spot := by
  have moved : ∀ {register phys}, operand.base? = some register →
      locate place register = some phys → locate place' register = some phys := by
    rintro ⟨home, size⟩ phys base located
    cases home with
    | fixed given => exact located
    | slot handle =>
      exact same handle phys (Operand.handle?_eq_some_iff.mpr ⟨_, base, rfl⟩) located
  cases sits with
  | register located low => exact .register (moved rfl located) low
  | cell located low => exact .cell (moved rfl located) low

theorem Sits.resize {register : Register} {phys : Phys} {size : Size}
    (sits : Sits place (.reg register) (.register phys)) (low : size ≠ .high8) :
    Sits place (.reg (register.resize size)) (.register phys) := by
  cases sits with
  | register located _ => exact .register located low

/-- The handle of an operand with a place has one. -/
theorem Sits.placed (sits : Sits place operand spot) {handle : Handle}
    (behind : operand.handle? = some handle) : place handle = some spot.phys := by
  obtain ⟨register, base, slotted⟩ := Operand.handle?_eq_some_iff.mp behind
  have home : ∀ {phys}, locate place register = some phys → place handle = some phys := by
    intro phys located
    unfold locate at located
    rwa [slotted] at located
  cases sits with
  | register located _ =>
    cases base
    exact home located
  | cell located _ =>
    cases base
    exact home located

theorem Sits.unique (sits : Sits place operand spot) {other : Spot}
    (sits' : Sits place operand other) : spot = other := by
  cases sits with
  | register located _ =>
    cases sits' with
    | register located' _ => rw [Option.some.inj (located.symm.trans located')]
  | cell located _ =>
    cases sits' with
    | cell located' _ => rw [Option.some.inj (located.symm.trans located')]

/-- An operand holds a word, as far as its width goes. -/
def Shows (place : Handle → Option Phys) (view : View) (operand : Operand) (word : UInt64) : Prop :=
  ∃ spot, Sits place operand spot ∧
    spot.read view operand.size = word &&& mask operand.size

theorem Shows.read (shows' : Shows place view operand word) (sits : Sits place operand spot) :
    spot.read view operand.size = word &&& mask operand.size := by
  obtain ⟨other, sits', same⟩ := shows'
  rw [sits.unique sits', same]

/-- What a register holds, it holds at smaller widths too. -/
theorem Shows.narrow {register : Register} {phys : Phys} {size : Size}
    (shows' : Shows place view (.reg register) word)
    (sits : Sits place (.reg register) (.register phys)) (regular : Regular register.size)
    (regular' : Regular size) (narrow : size.bytes ≤ register.size.bytes) :
    Shows place view (.reg (register.resize size)) word := by
  refine ⟨.register phys, sits.resize regular'.low, ?_⟩
  have cut := @Spot.read_of_le size register.size view (.register phys) regular' regular narrow
  have whole : (Spot.register phys).read view register.size = word &&& mask register.size :=
    shows'.read sits
  rw [whole, and_mask_cut _ regular' narrow] at cut
  exact cut

/-- The registers that an operator may overwrite: the free ones of the pool, and those that divide
and count. -/
def Idle (draft : Draft) (phys : Phys) : Prop :=
  phys = .rcx ∨ phys = .rdx ∨
    ∃ slot, phys = Pool.slotPhys slot ∧ draft.pool.occupant? slot = none

theorem slotPhys_ne_scratch (slot : Pool.Slot) :
    Pool.slotPhys slot ≠ .rcx ∧ Pool.slotPhys slot ≠ .rdx := by
  revert slot
  decide

theorem not_idle_rbp : ¬ Idle draft .rbp := by
  rintro (same | same | ⟨slot, same, _⟩)
  · contradiction
  · contradiction
  · exact slotPhys_ne_rbp slot same.symm

theorem not_idle_of_holds {slot : Pool.Slot} {handle : Handle} (holds : draft.Holds slot handle) :
    ¬ Idle draft (Pool.slotPhys slot) := by
  rintro (same | same | ⟨other, same, empty⟩)
  · exact (slotPhys_ne_scratch slot).1 same
  · exact (slotPhys_ne_scratch slot).2 same
  · rw [← Pool.slotPhys_injective same] at empty
    simp [Draft.Holds, empty] at holds

/-- The register of a variable, or the one that it is reached through: the frame pointer, or a value
of the pool that some instruction has put there. -/
def Rooted (draft : Draft) (register : Register) : Prop :=
  register.place = .fixed (some .rbp) ∨ ∃ handle, register.place = .slot handle ∧
    draft.Live handle ∧ draft.timeline.born handle < draft.text.clock

/-- The operand of a variable: a cell of the frame or of an object, or a locked pool value. -/
inductive Rests (draft : Draft) : Operand → Prop where
  | cell {pointer : Pointer} : pointer.base.size = .s64 → Rooted draft pointer.base →
      Rests draft (.mem pointer)
  | value {handle : Handle} {size : Size} : draft.Carries handle true →
      draft.timeline.born handle < draft.text.clock → Rests draft (.reg ⟨.slot handle, size⟩)

/-- The operand of a variable is found, and not in a register that may be overwritten. -/
theorem Rests.sits (rests : Rests draft operand) (tidy : draft.Tidy)
    (regular : Regular operand.size) :
    ∃ spot, Sits draft.timeline.current operand spot ∧ ¬ Idle draft spot.phys := by
  cases rests with
  | @cell pointer wide rooted =>
    have low : pointer.base.size ≠ .high8 := by simp [wide]
    rcases rooted with fixed | ⟨handle, slotted, ⟨slot, holds⟩, _⟩
    · refine ⟨.cell .rbp pointer.disp, .cell ?_ low, not_idle_rbp⟩
      rw [locate, fixed]
    · refine ⟨.cell (Pool.slotPhys slot) pointer.disp, .cell ?_ low, not_idle_of_holds holds⟩
      rw [locate, slotted]
      exact tidy.current_of_holds holds
  | value carries _ =>
    obtain ⟨slot, holds⟩ := Draft.live_of_carries carries
    exact ⟨.register (Pool.slotPhys slot), .register (tidy.current_of_holds holds) regular.low,
      not_idle_of_holds holds⟩

theorem Rests.not_temp {s s' : State} {lost : Handle → Prop} {code : List Entry}
    (rests : Rests s.draft operand) (extends' : Extends lost s s' code) :
    isTemp s'.draft operand = false := by
  cases rests with
  | cell => rfl
  | @value handle size carries _ =>
    obtain ⟨slot, occupant, occupied, same, locked⟩ := extends'.kept carries (.inl rfl)
    have found : s'.draft.slotOf? (.reg ⟨.slot handle, size⟩) = some slot :=
      extends'.tidy.slotOf?_eq_some_iff.mpr ⟨handle, rfl, by simp [Draft.Holds, occupied, same]⟩
    simp [isTemp, Draft.isLocked, found, occupied, locked]

theorem Rests.plain {s : State} (rests : Rests s.draft operand) (tidy : s.draft.Tidy) :
    isTemp s.draft operand = false := by
  have none : Extends (fun _ => False) s s [] := .refl tidy
  exact rests.not_temp none

/-- The views before and behind code that overwrites some registers at most. -/
structure Spares (idle : Phys → Prop) (view view' : View) : Prop where
  registers : ∀ phys, ¬ idle phys → view'.get phys = view.get phys
  memory : view'.memory = view.memory

theorem Spares.refl {idle : Phys → Prop} : Spares idle view view := ⟨fun _ _ => rfl, rfl⟩

theorem Spares.set {phys : Phys} : Spares (· = phys) view (view.set phys word) := by
  refine ⟨fun other apart => ?_, rfl⟩
  exact (View.get_set view phys other word).trans (if_neg apart)

theorem Spares.read {idle : Phys → Prop} (spares : Spares idle view view') (size : Size)
    (busy : ¬ idle spot.phys) : spot.read view' size = spot.read view size := by
  cases spot with
  | register phys => rw [Spot.read, Spot.read, spares.registers phys busy]
  | cell base disp =>
    rw [Spot.read, Spot.read, Spot.address, Spot.address, spares.registers base busy,
      spares.memory]

end Places

/-- In an image the values are, while some code is generated, where the histories tell when it has
been. -/
def Faithful (image : Image) (s s' : State) : Prop :=
  ∀ handle tick, handle < s'.draft.timeline.count → s.draft.text.clock ≤ tick →
    tick < s'.draft.text.clock →
    image.timeline.placeAt handle tick = s'.draft.timeline.placeAt handle tick

section Faithful

variable {image : Image} {s s₁ s' : State} {lost lost' : Handle → Prop} {code : List Entry}

theorem Faithful.left (faithful : Faithful image s s') (later : Extends lost s₁ s' code) :
    Faithful image s s₁ := by
  intro handle tick issued reached earlier
  rw [← later.placeAt_old issued]
  exact faithful handle tick (Nat.lt_of_lt_of_le issued later.count) reached
    (Nat.lt_of_lt_of_le earlier later.clock)

theorem Faithful.right (faithful : Faithful image s s')
    (clock : s.draft.text.clock ≤ s₁.draft.text.clock) : Faithful image s₁ s' := by
  intro handle tick issued reached earlier
  exact faithful handle tick issued (Nat.le_trans clock reached) earlier

/-- In the code that was added every value is where it is in the end. -/
theorem Faithful.here (faithful : Faithful image s s') (tidy : s.draft.Tidy)
    (added : Extends lost s s' code) {entry : Entry} (member : entry ∈ code) {handle : Handle}
    {phys : Phys} (placed : s'.draft.timeline.current handle = some phys) :
    image.timeline.placeAt handle entry.tick = some phys := by
  have bounds := added.stamped entry member
  rw [← added.placeAt tidy handle bounds.1] at placed
  rw [faithful handle entry.tick (lt_count_of_placeAt placed) bounds.1 bounds.2, placed]

/-- An operand of old stays where it is. -/
theorem Sits.extends {operand : Operand} {spot : Spot}
    (sits : Sits s.draft.timeline.current operand spot) (added : Extends lost s s' code) :
    Sits s'.draft.timeline.current operand spot := by
  apply sits.congr
  intro handle phys _ placed
  have old : handle < s.draft.timeline.count := by
    by_contra new
    rw [current_eq_none (Nat.le_of_not_lt new)] at placed
    contradiction
  rw [added.current old, placed]

/-- Code is added that takes any view to one that is related to it. -/
def Adds (lost : Handle → Prop) (s s' : State) (relation : View → View → Prop) : Prop :=
  ∃ code, Extends lost s s' code ∧ ∀ {image : Image} (checked : Bool) (view : View),
    Faithful image s s' → ∃ view', Straight image checked code view view' ∧ relation view view'

variable {relation relation' : View → View → Prop}

theorem Adds.extends (adds : Adds lost s s' relation) : ∃ code, Extends lost s s' code :=
  adds.imp fun _ parts => parts.1

theorem Adds.mono (adds : Adds lost s s' relation) (subset : ∀ handle, lost handle → lost' handle)
    (weaker : ∀ view view', relation view view' → relation' view view') :
    Adds lost' s s' relation' := by
  obtain ⟨code, added, leads⟩ := adds
  refine ⟨code, added.mono subset, ?_⟩
  intro image checked view faithful
  obtain ⟨view', straight, related⟩ := leads checked view faithful
  exact ⟨view', straight, weaker _ _ related⟩

theorem Adds.trans (first : Adds lost s s₁ relation) (second : Adds lost s₁ s' relation') :
    Adds lost s s' fun view view' => ∃ middle, relation view middle ∧ relation' middle view' := by
  obtain ⟨front, added, leads⟩ := first
  obtain ⟨back, added', leads'⟩ := second
  refine ⟨front ++ back, added.trans added', ?_⟩
  intro image checked view faithful
  obtain ⟨middle, straight, related⟩ := leads checked view (faithful.left added')
  obtain ⟨view', straight', related'⟩ := leads' checked middle (faithful.right added.clock)
  exact ⟨view', straight.append straight', middle, related, related'⟩

/-- Nothing is emitted. -/
theorem Adds.silent (added : Extends lost s s' []) :
    Adds lost s s' fun view view' => view' = view :=
  ⟨[], added, fun _ view _ => ⟨view, rfl, rfl⟩⟩

/-- Which values may be given up does not matter in the end. -/
theorem Adds.any (adds : Adds lost s s' relation) : Adds (fun _ => True) s s' relation :=
  adds.mono (fun _ _ => trivial) fun _ _ => id

/-- A release behind some code. -/
theorem Adds.released {u : Unit} {operand : Operand} (adds : Adds lost s s₁ relation)
    (run : release operand s₁ = .ok u s') :
    Adds (fun _ => True) s s' relation ∧ s'.draft.timeline = s₁.draft.timeline := by
  obtain ⟨code, added⟩ := adds.extends
  obtain ⟨silent, same, _⟩ := extends_release added.tidy run
  refine ⟨(adds.any.trans (Adds.silent silent).any).mono (fun _ => id) ?_, same⟩
  rintro view _ ⟨view', related, rfl⟩
  exact related

/-- What is emitted does what it does wherever the values are where they are now. -/
theorem adds_emit {u : Unit} {instrs : List Instr} (tidy : s.draft.Tidy) (lost : Handle → Prop)
    (run : emit instrs s = .ok u s')
    (does : ∀ {image : Image} {entries : List Entry} (checked : Bool) (view : View),
      entries.map Entry.instr = instrs →
      (∀ entry ∈ entries, ∀ {handle phys}, s.draft.timeline.current handle = some phys →
        image.timeline.placeAt handle entry.tick = some phys) →
      ∃ view', Straight image checked entries view view' ∧ relation view view') :
    Adds lost s s' relation ∧ s'.draft.timeline = s.draft.timeline := by
  obtain ⟨code, spelled, added, same⟩ := extends_emit tidy lost run
  refine ⟨⟨code, added, ?_⟩, same⟩
  intro image checked view faithful
  apply does checked view spelled
  intro entry member handle phys placed
  apply faithful.here tidy added member
  rw [same, placed]

/-- One instruction is emitted. -/
theorem adds_instr {u : Unit} {instr : Instr} (tidy : s.draft.Tidy) (lost : Handle → Prop)
    (run : emit [instr] s = .ok u s')
    (does : ∀ {image : Image} {tick : Nat} (checked : Bool) (view : View),
      (∀ {handle phys}, s.draft.timeline.current handle = some phys →
        image.timeline.placeAt handle tick = some phys) →
      ∃ view', Does ⟨image, tick⟩ checked instr view view' ∧ relation view view') :
    Adds lost s s' relation ∧ s'.draft.timeline = s.draft.timeline := by
  apply adds_emit tidy lost run
  intro image entries checked view spelled here
  obtain ⟨entry, rest, rfl, rfl, empty⟩ := List.map_eq_cons_iff.mp spelled
  obtain rfl := List.map_eq_nil_iff.mp empty
  obtain ⟨view', does', related⟩ := does checked view (here entry List.mem_cons_self)
  exact ⟨view', ⟨view', does', rfl⟩, related⟩

end Faithful

section Loads

variable {s s' : State} {operand : Operand} {size : Size} {signed : Bool} {register : Register}

/-- A register of the pool has been taken for a new value. -/
structure Takes (s s' : State) (size : Size) (register : Register) (slot : Pool.Slot) : Prop where
  register : register = ⟨.slot s.draft.timeline.count, size⟩
  empty : s.draft.pool.occupant? slot = none
  count : s'.draft.timeline.count = s.draft.timeline.count + 1
  carries : s'.draft.Carries s.draft.timeline.count false
  place : s'.draft.timeline.current s.draft.timeline.count = some (Pool.slotPhys slot)

theorem Takes.sits {slot : Pool.Slot} (takes : Takes s s' size register slot)
    (regular : Regular size) : Sits s'.draft.timeline.current (.reg register)
      (.register (Pool.slotPhys slot)) := by
  rw [takes.register]
  exact .register takes.place regular.low

theorem Takes.idle {slot : Pool.Slot} (takes : Takes s s' size register slot) :
    Idle s.draft (Pool.slotPhys slot) :=
  .inr (.inr ⟨slot, rfl, takes.empty⟩)

/-- The register of the pool that holds a value of an operator. -/
structure Owns (s : State) (register : Register) (slot : Pool.Slot) : Prop where
  sits : Sits s.draft.timeline.current (.reg register) (.register (Pool.slotPhys slot))
  busy : ¬ Idle s.draft (Pool.slotPhys slot)

theorem Takes.owns {slot : Pool.Slot}
    (takes : Takes s s' size register slot) (tidy : s'.draft.Tidy) (regular : Regular size) :
    Owns s' register slot := by
  refine ⟨takes.sits regular, ?_⟩
  obtain ⟨other, holds⟩ := Draft.live_of_carries takes.carries
  have same := (tidy.current_of_holds holds).symm.trans takes.place
  rw [← Option.some.inj same]
  exact not_idle_of_holds holds

/-- A free register may be overwritten. -/
theorem Takes.spares {slot : Pool.Slot} {view view' : View}
    (takes : Takes s s' size register slot)
    (spares : Spares (· = Pool.slotPhys slot) view view') : Spares (Idle s.draft) view view' :=
  ⟨fun phys busy => spares.registers phys fun same => busy (same ▸ takes.idle), spares.memory⟩

theorem takes_nextRegister (tidy : s.draft.Tidy)
    (run : drafting (Drafting.nextRegister size) s = .ok register s') :
    ∃ slot, Takes s s' size register slot ∧ ∀ lost, Extends lost s s' [] := by
  obtain ⟨slot, empty, rfl, place, count, carries, _⟩ :=
    extends_nextRegister tidy (fun _ => False) run
  refine ⟨slot, ⟨rfl, empty, count, carries, place⟩, fun lost => ?_⟩
  obtain ⟨_, _, _, _, _, _, added⟩ := extends_nextRegister tidy lost run
  exact added

theorem move_eq_emit {target : Register} {spot : Spot} {place : Handle → Option Phys}
    (sits : Sits place operand spot) (order : ChunkOrder) :
    move (.reg target) operand signed order = emit [copying target operand signed] := by
  unfold copying
  cases sits with
  | @register register =>
    change moveRegister target register signed =
      emit [if target.size.bytes ≤ register.size.bytes then _ else _]
    unfold moveRegister
    by_cases narrow : target.size.bytes ≤ register.size.bytes
    · rw [if_pos narrow, if_pos narrow]
      rfl
    · rw [if_neg narrow, if_neg narrow]
      rfl
  | @cell pointer =>
    change moveCell target pointer signed =
      emit [if target.size.bytes ≤ pointer.size.bytes then _ else _]
    unfold moveCell
    by_cases narrow : target.size.bytes ≤ pointer.size.bytes
    · rw [if_pos narrow, if_pos narrow]
      rfl
    · rw [if_neg narrow, if_neg narrow]
      rfl

/-- A register holds the word that was put there. -/
theorem shows_set {place : Handle → Option Phys} {phys : Phys} {view : View} {filled word : UInt64}
    (sits : Sits place (.reg register) (.register phys)) (regular : Regular register.size)
    (same : filled &&& mask register.size = word &&& mask register.size) :
    Shows place (view.set phys filled) (.reg register) word := by
  refine ⟨.register phys, sits, ?_⟩
  change readPart ((view.set phys filled).get phys) register.size = _
  rw [View.get_set, if_pos rfl, readPart_regular _ regular]
  exact same

/-- A move fills a register with the operand, extended from its own width. -/
theorem adds_move {u : Unit} {target : Register} {spot : Spot} {phys : Phys} (lost : Handle → Prop)
    (tidy : s.draft.Tidy) (sits : Sits s.draft.timeline.current operand spot)
    (into : Sits s.draft.timeline.current (.reg target) (.register phys))
    (regular : Regular target.size) (regular' : Regular operand.size) (order : ChunkOrder)
    (run : move (.reg target) operand signed order s = .ok u s') :
    Adds lost s s' (fun view view' => Spares (· = phys) view view' ∧
      ∀ word, Shows s.draft.timeline.current view operand word →
        Shows s'.draft.timeline.current view' (.reg target) (extend word operand.size signed)) ∧
    s'.draft.timeline = s.draft.timeline := by
  rw [move_eq_emit sits order] at run
  have same : s'.draft.timeline = s.draft.timeline := (plain_emit _ _ _ _ run).timeline
  rw [same]
  refine ⟨(adds_instr tidy lost run ?_).1, rfl⟩
  intro image tick checked view here
  have target' : ∀ {size}, size ≠ .high8 →
      Finds ⟨image, tick⟩ (.reg (target.resize size)) (.register phys) :=
    fun low => (into.resize low).finds here
  obtain ⟨filled, value, does⟩ :=
    does_copying checked view signed target' (sits.finds here) regular regular'
  refine ⟨_, does, .set, fun word shows' => shows_set into regular ?_⟩
  rw [value, shows'.read sits, extend_mask]

/-- A value that the pool holds is not a new one. -/
theorem Sits.old {spot : Spot} (sits : Sits s.draft.timeline.current operand spot) :
    operand.handle? ≠ some s.draft.timeline.count := by
  intro behind
  have placed := sits.placed behind
  rw [current_eq_none (Nat.le_refl _)] at placed
  contradiction

/-- Loading an operand that may not be overwritten takes a register and copies it there. -/
theorem adds_load {spot : Spot} (tidy : s.draft.Tidy) (plain : isTemp s.draft operand = false)
    (sits : Sits s.draft.timeline.current operand spot) (regular : Regular size)
    (regular' : Regular operand.size) (run : load operand size signed s = .ok register s') :
    ∃ slot, Takes s s' size register slot ∧
      Adds (fun handle => operand.handle? = some handle) s s' fun view view' =>
        Spares (· = Pool.slotPhys slot) view view' ∧
        ∀ word, Shows s.draft.timeline.current view operand word →
          Shows s'.draft.timeline.current view' (.reg register)
            (extend word operand.size signed) := by
  simp only [load, Success.bind_ok, temp_ok] at run
  obtain ⟨temporary, _, ⟨known, rfl⟩, run⟩ := run
  split at run
  · rw [plain] at known
    contradiction
  obtain ⟨chosen, s₁, allocated, run⟩ := Success.bind_ok.mp run
  obtain ⟨_, s₂, moved, run⟩ := Success.bind_ok.mp run
  obtain ⟨_, s₃, released, run⟩ := Success.bind_ok.mp run
  obtain ⟨rfl, rfl⟩ := Success.pure_ok.mp run
  obtain ⟨slot, takes, first⟩ := takes_nextRegister tidy allocated
  obtain rfl := takes.register
  have tidy₁ := (first fun _ => False).tidy
  obtain ⟨second, same₂⟩ := adds_move (fun handle => operand.handle? = some handle) tidy₁
    (sits.extends (first fun _ => False)) (takes.sits regular) regular regular' .lowFirst moved
  obtain ⟨code, added⟩ := second.extends
  obtain ⟨third, same₃, _⟩ := extends_release added.tidy released
  have same : s₃.draft.timeline = s₁.draft.timeline := same₃.trans same₂
  refine ⟨slot, ⟨rfl, takes.empty, ?_, ?_, ?_⟩, ?_⟩
  · rw [same, takes.count]
  · exact (added.trans third).kept takes.carries (.inr sits.old)
  · rw [same, takes.place]
  · apply (((Adds.silent (first _)).trans second).trans (.silent third)).mono fun _ => id
    rintro _ _ ⟨_, ⟨view, rfl, spares, fills⟩, rfl⟩
    refine ⟨spares, ?_⟩
    rintro word ⟨spot', sits', read⟩
    rw [same₃]
    exact fills word ⟨spot', sits'.extends (first fun _ => False), read⟩

/-- Extending a register in place. -/
theorem adds_widen {u : Unit} {phys : Phys} (lost : Handle → Prop) (tidy : s.draft.Tidy)
    (into : Sits s.draft.timeline.current (.reg register) (.register phys))
    (regular : Regular register.size) (regular' : Regular size)
    (wider : register.size.bytes < size.bytes)
    (run : widen (register.resize size) (.reg register) signed s = .ok u s') :
    Adds lost s s' fun view view' => Spares (· = phys) view view' ∧
      ∀ word, Shows s.draft.timeline.current view (.reg register) word →
        Shows s'.draft.timeline.current view' (.reg (register.resize size))
          (extend word register.size signed) := by
  have same : s'.draft.timeline = s.draft.timeline := (plain_emit _ _ _ _ run).timeline
  rw [same]
  refine (adds_instr tidy lost run ?_).1
  intro image tick checked view here
  have target : ∀ {other}, other ≠ .high8 →
      Finds ⟨image, tick⟩ (.reg ((register.resize size).resize other)) (.register phys) :=
    fun low => (into.resize low).finds here
  obtain ⟨filled, value, does⟩ :=
    does_extending checked view signed target (into.finds here) regular' regular wider
  refine ⟨_, does, .set, fun word shows' => shows_set (into.resize regular'.low) regular' ?_⟩
  refine value.trans (congrArg (· &&& mask size) ?_)
  rw [shows'.read into, extend_mask]
  rfl

/-- What is left of the words of an operand behind code that spares it. -/
theorem Shows.spared {spot : Spot} {view view' : View} {word : UInt64} {idle : Phys → Prop}
    {lost : Handle → Prop} {code : List Entry}
    (shows' : Shows s.draft.timeline.current view operand word)
    (sits : Sits s.draft.timeline.current operand spot) (added : Extends lost s s' code)
    (spares : Spares idle view view') (busy : ¬ idle spot.phys) :
    Shows s'.draft.timeline.current view' operand word :=
  ⟨spot, sits.extends added, (spares.read _ busy).trans (shows'.read sits)⟩

/-- The left one of two variables has been copied into a register of the pool, and the right one is
where it was. -/
structure Lifts (s s₁ : State) (x y : Operand) (size : Size) (signed : Bool) (dst : Register)
    (slot : Pool.Slot) (spot : Spot) : Prop where
  size : dst.size = size
  tidy : s₁.draft.Tidy
  owns : Owns s₁ dst slot
  plain : isTemp s₁.draft y = false
  sits : Sits s₁.draft.timeline.current y spot
  adds : Adds (fun _ => True) s s₁ fun view view' => ∀ first second,
    Shows s.draft.timeline.current view x first → Shows s.draft.timeline.current view y second →
    Shows s₁.draft.timeline.current view' (.reg dst) (extend first x.size signed) ∧
      Shows s₁.draft.timeline.current view' y second

theorem lifts_load {x y : Operand} (tidy : s.draft.Tidy) (left : Rests s.draft x)
    (right : Rests s.draft y) (regular : Regular size) (leftRegular : Regular x.size)
    (rightRegular : Regular y.size) (run : load x size signed s = .ok register s') :
    ∃ slot spot, Lifts s s' x y size signed register slot spot := by
  obtain ⟨leftSpot, leftSits, _⟩ := left.sits tidy leftRegular
  obtain ⟨spot, sits, busy⟩ := right.sits tidy rightRegular
  obtain ⟨slot, takes, adds⟩ :=
    adds_load tidy (left.plain tidy) leftSits regular leftRegular run
  obtain ⟨code, added⟩ := adds.extends
  refine ⟨slot, spot, congrArg Register.size takes.register, added.tidy,
    takes.owns added.tidy regular, right.not_temp added, sits.extends added,
    adds.any.mono (fun _ => id) ?_⟩
  rintro view view' ⟨spares, loads⟩ first second shows' shows₂
  exact ⟨loads first shows', shows₂.spared sits added (takes.spares spares) busy⟩

/-- An operand has been made ready for an instruction at a width, as it is or in a register of its
own. -/
structure Readies (s s' : State) (operand result : Operand) (spot : Spot) (size : Size)
    (signed : Bool) : Prop where
  size : result.size = size
  sits : ∃ spot', Sits s'.draft.timeline.current result spot' ∧
    (¬ Idle s.draft spot.phys → ¬ Idle s'.draft spot'.phys)
  adds : Adds (fun handle => operand.handle? = some handle) s s' fun view view' =>
    Spares (Idle s.draft) view view' ∧
    ∀ word, Shows s.draft.timeline.current view operand word →
      Shows s'.draft.timeline.current view' result (extend word operand.size signed)

theorem readies_load {spot : Spot} (tidy : s.draft.Tidy) (plain : isTemp s.draft operand = false)
    (sits : Sits s.draft.timeline.current operand spot) (regular : Regular size)
    (regular' : Regular operand.size) (run : load operand size signed s = .ok register s') :
    Readies s s' operand (.reg register) spot size signed := by
  obtain ⟨slot, takes, adds⟩ := adds_load tidy plain sits regular regular' run
  obtain ⟨code, added⟩ := adds.extends
  have owns := takes.owns added.tidy regular
  refine ⟨congrArg Register.size takes.register, ⟨_, owns.sits, fun _ => owns.busy⟩,
    adds.mono (fun _ => id) ?_⟩
  rintro view view' ⟨spares, becomes⟩
  exact ⟨takes.spares spares, becomes⟩

/-- An operand of the right width stays as it is. -/
theorem readies_self {spot : Spot} (tidy : s.draft.Tidy)
    (sits : Sits s.draft.timeline.current operand spot) :
    Readies s s operand operand spot operand.size signed := by
  refine ⟨rfl, ⟨spot, sits, id⟩, (Adds.silent (.refl tidy)).mono (fun _ => id) ?_⟩
  rintro view _ rfl
  refine ⟨.refl, fun word shows' => ⟨spot, sits, ?_⟩⟩
  rw [shows'.read sits, extend_and_mask]

theorem operandFor_eq {place : Handle → Option Phys} {spot : Spot}
    (sits : Sits place operand spot) : operandFor operand size signed =
      if operand.size = size then pure operand
      else do return .reg (← load operand size signed) := by
  cases sits <;> rfl

/-- The operand of a two-operand instruction. -/
theorem readies_operandFor {spot : Spot} {result : Operand} (tidy : s.draft.Tidy)
    (plain : isTemp s.draft operand = false)
    (sits : Sits s.draft.timeline.current operand spot) (regular : Regular size)
    (regular' : Regular operand.size) (run : operandFor operand size signed s = .ok result s') :
    Readies s s' operand result spot size signed ∧
      (result.isMem = true → operand.isMem = true) := by
  rw [operandFor_eq sits, Success.ite_apply] at run
  split at run
  · rename_i same
    obtain ⟨rfl, rfl⟩ := Success.pure_ok.mp run
    exact ⟨same ▸ readies_self tidy sits, id⟩
  · obtain ⟨register, s₁, loaded, run⟩ := Success.bind_ok.mp run
    obtain ⟨rfl, rfl⟩ := Success.pure_ok.mp run
    exact ⟨readies_load tidy plain sits regular regular' loaded, nofun⟩

end Loads

end Lower

end X64Backend
