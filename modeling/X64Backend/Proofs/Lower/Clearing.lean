import X64Backend.Proofs.Lower.Loads

/-!
Clearing the accumulator.  The value in it goes on in another register, or it has been there all
along.  Either way the variables rest with the words that they had before.
-/

namespace X64Backend.Lower

open Machine X64Backend.Tree

variable {s s₁ s' : State} {operand : Operand} {word : UInt64}

/-- Where a value has been before some code, as the histories tell when the code is done. -/
def before (s s' : State) (handle : Handle) : Option Phys :=
  s'.draft.timeline.placeAt handle (s.draft.text.clock - 1)

/-- Where nothing has been moved, a value has been where it is. -/
theorem before_of_history (tidy : s.draft.Tidy) {handle : Handle}
    (same : s'.draft.timeline.history? handle = s.draft.timeline.history? handle) :
    before s s' handle = s.draft.timeline.current handle := by
  rw [before, Timeline.placeAt, same]
  exact Draft.Tidy.placeAt_of_le_succ tidy handle (by omega)

/-- A variable rests while the values of the pool stay. -/
theorem Rests.mono {draft draft' : Draft} (rests : Rests draft operand)
    (kept : ∀ {handle locked}, draft.Carries handle locked → draft'.Carries handle locked)
    (born : ∀ handle, draft'.timeline.born handle = draft.timeline.born handle)
    (clock : draft.text.clock ≤ draft'.text.clock) : Rests draft' operand := by
  cases rests with
  | cell wide rooted =>
    refine .cell wide (rooted.imp_right ?_)
    rintro ⟨handle, slotted, ⟨slot, holds⟩, older⟩
    obtain ⟨locked, carries⟩ := Draft.carries_of_holds holds
    exact ⟨handle, slotted, Draft.live_of_carries (kept carries),
      born handle ▸ Nat.lt_of_lt_of_le older clock⟩
  | value carries older => exact .value (kept carries) (born _ ▸ Nat.lt_of_lt_of_le older clock)

/-- What a variable is reached through is in the pool, and older than what comes next. -/
theorem Rests.reached {draft : Draft} (rests : Rests draft operand) {handle : Handle}
    (behind : operand.handle? = some handle) :
    draft.Live handle ∧ draft.timeline.born handle < draft.text.clock := by
  obtain ⟨register, base, slotted⟩ := Operand.handle?_eq_some_iff.mp behind
  cases rests with
  | cell _ rooted =>
    cases base
    rcases rooted with fixed | ⟨other, slotted', reached⟩
    · rw [fixed] at slotted
      contradiction
    · rw [slotted'] at slotted
      cases slotted
      exact reached
  | value carries older =>
    cases base
    cases slotted
    exact ⟨Draft.live_of_carries carries, older⟩

/-- Code has been added that leaves the variables with their words, wherever these are now. -/
structure Preserves (s s₁ : State) (code : List Entry) : Prop where
  appended : s₁.draft.text.code = s.draft.text.code ++ code
  clock : s.draft.text.clock ≤ s₁.draft.text.clock
  tidy : s₁.draft.Tidy
  count : s₁.draft.timeline.count = s.draft.timeline.count
  rests : ∀ {operand}, Rests s.draft operand → Rests s₁.draft operand
  leads : ∀ {image : Image} (checked : Bool) (view : View), Faithful image s s₁ →
    ∃ view', Straight image checked code view view' ∧
      ∀ {operand word}, Rests s.draft operand → Regular operand.size →
        Shows (before s s₁) view operand word →
        Shows s₁.draft.timeline.current view' operand word

theorem Preserves.refl (tidy : s.draft.Tidy) : Preserves s s [] := by
  refine ⟨(List.append_nil _).symm, Nat.le_refl _, tidy, rfl, id, ?_⟩
  intro image checked view _
  refine ⟨view, rfl, ?_⟩
  intro operand word _ _ shows'
  have same : before s s = s.draft.timeline.current :=
    funext fun handle => before_of_history tidy rfl
  exact same ▸ shows'

/-- The value in the accumulator has gone to a free slot. -/
structure Relocates (s s₁ : State) (free : Pool.Slot) (occupant moved : Pool.Occupant) : Prop where
  occupied : s.draft.pool.occupant? Pool.accumulator = some occupant
  empty : s.draft.pool.occupant? free = none
  saved : free ≠ Pool.accumulator
  same : moved.handle = occupant.handle ∧ moved.locked = occupant.locked
  slots : ∀ other, s₁.draft.pool.occupant? other = if other = Pool.accumulator then none
    else if other = free then some moved else s.draft.pool.occupant? other
  others : ∀ handle, handle ≠ occupant.handle →
    s₁.draft.timeline.history? handle = s.draft.timeline.history? handle
  born : ∀ handle, s₁.draft.timeline.born handle = s.draft.timeline.born handle
  count : s₁.draft.timeline.count = s.draft.timeline.count

namespace Relocates

variable {free : Pool.Slot} {occupant moved : Pool.Occupant}
  (relocates : Relocates s s₁ free occupant moved)
include relocates

theorem holds : s.draft.Holds Pool.accumulator occupant.handle := by
  simp [Draft.Holds, relocates.occupied]

theorem holds' : s₁.draft.Holds free occupant.handle := by
  simp [Draft.Holds, relocates.slots, relocates.saved, relocates.same.1]

/-- The values are kept. -/
theorem carries {handle : Handle} {locked : Bool} (carries : s.draft.Carries handle locked) :
    s₁.draft.Carries handle locked := by
  obtain ⟨slot, other, inside, rfl, rfl⟩ := carries
  have slots := relocates.slots
  by_cases own : slot = Pool.accumulator
  · subst own
    obtain rfl := Option.some.inj (relocates.occupied.symm.trans inside)
    exact ⟨free, moved, by rw [slots, if_neg relocates.saved, if_pos rfl], relocates.same⟩
  · have apart : slot ≠ free := by
      rintro rfl
      rw [relocates.empty] at inside
      contradiction
    exact ⟨slot, other, by rw [slots, if_neg own, if_neg apart, inside], rfl, rfl⟩

theorem rests (clock : s.draft.text.clock ≤ s₁.draft.text.clock) (rests : Rests s.draft operand) :
    Rests s₁.draft operand :=
  rests.mono relocates.carries relocates.born clock

end Relocates

/-- A value that is renamed has been elsewhere all along. -/
theorem preserves_renamed {free : Pool.Slot} {occupant : Pool.Occupant} {message : String}
    (tidy : s.draft.Tidy) (after : s₁.draft.Tidy)
    (occupied : s.draft.pool.occupant? Pool.accumulator = some occupant)
    (empty : s.draft.pool.occupant? free = none) (saved : free ≠ Pool.accumulator)
    (renamed : s₁.draft = (s.draft.renamed free occupant).traced message) : Preserves s s₁ [] := by
  have history : ∀ handle, s₁.draft.timeline.history? handle = if handle = occupant.handle then
      (s.draft.timeline.history? occupant.handle).map fun history =>
        history.rebind (some (Pool.slotPhys free))
      else s.draft.timeline.history? handle := by
    rw [renamed]
    exact Draft.history?_renamed s.draft free occupant
  have text : s₁.draft.text = s.draft.text := by rw [renamed]; rfl
  have clock : s.draft.text.clock ≤ s₁.draft.text.clock := Nat.le_of_eq (congrArg _ text.symm)
  have relocates : Relocates s s₁ free occupant occupant := by
    refine ⟨occupied, empty, saved, ⟨rfl, rfl⟩, ?_, fun handle other =>
      (history handle).trans (if_neg other), ?_, ?_⟩
    · rw [renamed]
      exact fun other => Draft.occupant?_renamed s.draft free other occupant
    · rw [renamed]
      exact Draft.born_renamed s.draft free occupant
    · rw [renamed]
      exact Draft.count_renamed _ _ _
  refine ⟨by rw [text, List.append_nil], clock, after, relocates.count, relocates.rests clock, ?_⟩
  intro image checked view _
  refine ⟨view, rfl, ?_⟩
  intro operand word _ _ shows'
  have same : before s s₁ = s₁.draft.timeline.current := by
    funext handle
    by_cases own : handle = occupant.handle
    · subst own
      obtain ⟨known, issued⟩ := tidy.issued_of_holds relocates.holds
      rw [after.current_of_holds relocates.holds', before, Timeline.placeAt, history, if_pos rfl,
        issued]
      rfl
    · have still := relocates.others handle own
      rw [before_of_history tidy still, Timeline.current, Timeline.current, still]
  exact same ▸ shows'

/-- An operand that is reached through another register, with the same word in it, is the same. -/
theorem Shows.carried {place place' : Handle → Option Phys} {view view' : View} {handle : Handle}
    {phys phys' : Phys} (shows' : Shows place view operand word)
    (behind : operand.handle? = some handle) (here : place handle = some phys)
    (there : place' handle = some phys') (same : view'.get phys' = view.get phys)
    (memory : view'.memory = view.memory) : Shows place' view' operand word := by
  obtain ⟨spot, sits, read⟩ := shows'
  obtain ⟨register, base, slotted⟩ := Operand.handle?_eq_some_iff.mp behind
  have placed : some spot.phys = some phys := (sits.placed behind).symm.trans here
  have located : locate place' register = some phys' := by
    unfold locate
    rw [slotted]
    exact there
  cases sits with
  | register _ low =>
    cases base
    obtain rfl := Option.some.inj placed
    refine ⟨.register phys', .register located low, ?_⟩
    rw [← read, Spot.read, Spot.read, same]
    rfl
  | cell _ low =>
    cases base
    obtain rfl := Option.some.inj placed
    refine ⟨.cell phys' _, .cell located low, ?_⟩
    rw [← read, Spot.read, Spot.read, Spot.address, Spot.address, same, memory]
    rfl

/-- An operand that is reached through another value than the one that is moved, stays with its
word. -/
theorem Relocates.spared {free : Pool.Slot} {occupant moved : Pool.Occupant} {view view' : View}
    (relocates : Relocates s s₁ free occupant moved) (tidy : s.draft.Tidy)
    (rests : Rests s.draft operand) (regular : Regular operand.size)
    (other : operand.handle? ≠ some occupant.handle)
    (spares : Spares (· = Pool.slotPhys free) view view')
    (shows' : Shows (before s s₁) view operand word) :
    Shows s₁.draft.timeline.current view' operand word := by
  obtain ⟨spot, sits, busy⟩ := rests.sits tidy regular
  have still : ∀ {handle}, operand.handle? = some handle →
      s₁.draft.timeline.history? handle = s.draft.timeline.history? handle :=
    fun behind => relocates.others _ fun same => other (behind.trans (congrArg some same))
  have was : Sits (before s s₁) operand spot := by
    apply sits.congr
    intro handle phys behind placed
    rw [before_of_history tidy (still behind), placed]
  have now : Sits s₁.draft.timeline.current operand spot := by
    apply sits.congr
    intro handle phys behind placed
    rw [Timeline.current, still behind, ← Timeline.current, placed]
  -- the register that the value goes to is free, so no other operand is reached through it
  have apart : spot.phys ≠ Pool.slotPhys free :=
    fun same => busy (.inr (.inr ⟨free, same, relocates.empty⟩))
  exact ⟨spot, now, (spares.read _ apart).trans (shows'.read was)⟩

/-- The instruction that moves a value out of the accumulator copies the whole register. -/
theorem does_moveOut {scope : Scope} {handle : Handle} {phys : Phys} (checked : Bool) (view : View)
    (placed : scope.image.timeline.placeAt handle scope.tick = some phys) :
    Does scope checked (Draft.moveOut handle Pool.accumulator) view
      (view.set phys (view.get .rax)) := by
  have into : Finds scope (.reg ⟨.slot handle, .s64⟩) (.register phys) :=
    .register placed (by simp)
  have out : Finds scope (.reg (.fix .rax .s64)) (.register .rax) := Finds.fixed _ (by simp)
  have does : Does scope checked (Draft.moveOut handle Pool.accumulator) view _ :=
    Does.movSpot into out (by simp [Operand.size]) rfl
  have value : writePart (view.get phys) .s64 ((Spot.register .rax).read view .s64) =
      view.get .rax := by
    rw [← and_mask_word (writePart _ _ _), writePart_and_mask _ _ (by decide), and_mask_word]
    exact readPart_word _
  rw [← value]
  exact does

/-- A value that is moved takes its word along. -/
theorem preserves_shift {free : Pool.Slot} {occupant : Pool.Occupant} {message : String}
    (tidy : s.draft.Tidy) (after : s₁.draft.Tidy)
    (occupied : s.draft.pool.occupant? Pool.accumulator = some occupant)
    (empty : s.draft.pool.occupant? free = none) (saved : free ≠ Pool.accumulator)
    (shifted : s₁.draft = (s.draft.shift Pool.accumulator free occupant).traced message) :
    Preserves s s₁ [⟨s.draft.text.clock, Draft.moveOut occupant.handle Pool.accumulator⟩] := by
  have history : ∀ handle, s₁.draft.timeline.history? handle = if handle = occupant.handle then
      (s.draft.timeline.history? occupant.handle).map fun history =>
        history.relocate (some (Pool.slotPhys free)) s.draft.text.clock
      else s.draft.timeline.history? handle := by
    rw [shifted]
    exact Draft.history?_shift s.draft Pool.accumulator free occupant
  have text : s₁.draft.text =
      s.draft.text.emit (Draft.moveOut occupant.handle Pool.accumulator) := by
    rw [shifted]
    rfl
  have clock : s₁.draft.text.clock = s.draft.text.clock + 1 := by rw [text]; rfl
  have relocates : Relocates s s₁ free occupant
      { occupant with claim := .used, implicit := false } := by
    refine ⟨occupied, empty, saved, ⟨rfl, rfl⟩, ?_, fun handle other =>
      (history handle).trans (if_neg other), ?_, ?_⟩
    · rw [shifted]
      exact fun other => Draft.occupant?_shift s.draft Pool.accumulator free other occupant
    · rw [shifted]
      exact Draft.born_shift s.draft Pool.accumulator free occupant
    · rw [shifted]
      exact Draft.count_shift s.draft Pool.accumulator free occupant
  refine ⟨by rw [text]; exact Stream.code_emit _ _, by omega, after, relocates.count,
    relocates.rests (by omega), ?_⟩
  intro image checked view faithful
  obtain ⟨known, issued⟩ := tidy.issued_of_holds relocates.holds
  have now := after.current_of_holds relocates.holds'
  have placed : image.timeline.placeAt occupant.handle s.draft.text.clock =
      some (Pool.slotPhys free) := by
    rw [faithful _ _ (after.lt_count_of_holds relocates.holds') (Nat.le_refl _) (by omega),
      Timeline.placeAt, history, if_pos rfl, issued]
    exact History.placeAt_relocate_now _ _ _
  refine ⟨_, ⟨_, does_moveOut checked view placed, rfl⟩, ?_⟩
  intro operand word rests regular shows'
  by_cases own : operand.handle? = some occupant.handle
  · obtain ⟨_, older⟩ := rests.reached own
    have was : before s s₁ occupant.handle = some .rax := by
      rw [before, shifted]
      refine (Draft.placeAt_shift s.draft Pool.accumulator free occupant
        (Nat.le_sub_one_of_lt older) (by omega)).trans ?_
      rw [Draft.Tidy.placeAt_of_le_succ tidy _ (by omega),
        tidy.current_of_holds relocates.holds]
      rfl
    exact shows'.carried own was now ((View.get_set _ _ _ _).trans (if_pos rfl)) rfl
  · exact relocates.spared tidy rests regular own .set shows'

/-- The accumulator is cleared, and the variables keep their words. -/
theorem preserves_reserve {u : Unit} (tidy : s.draft.Tidy)
    (run : drafting Drafting.reserve s = .ok u s₁) :
    (∃ code, Preserves s s₁ code) ∧ s₁.draft.pool.occupant? Pool.accumulator = none := by
  obtain ⟨draft, drafted, rfl⟩ := drafting_ok.mp run
  have after : draft.Tidy := tidy.steps (Draft.steps_reserve drafted)
  rcases Drafting.reserve_ok drafted with ⟨empty, rfl⟩ |
    ⟨occupant, free, message, occupied, empty, saved, ⟨ordinary, _, renamed⟩ | shifted⟩
  · exact ⟨⟨_, .refl tidy⟩, empty⟩
  · refine ⟨⟨_, preserves_renamed tidy after occupied empty saved renamed⟩, ?_⟩
    rw [renamed]
    exact (Draft.occupant?_renamed s.draft free Pool.accumulator occupant).trans (if_pos rfl)
  · refine ⟨⟨_, preserves_shift tidy after occupied empty saved shifted⟩, ?_⟩
    rw [shifted]
    exact (Draft.occupant?_shift s.draft Pool.accumulator free Pool.accumulator occupant).trans
      (if_pos rfl)

end X64Backend.Lower
