import X64Backend.Proofs.Pool.Guard

/-!
What the operations of the allocator leave to guarded values.  Only clearing a particular slot moves
a guarded value out of a slot other than the accumulator, and only freeing by force drops a locked
one.  Locking every value for a while and unlocking it again is no change either.
-/

namespace X64Backend

open Pool

namespace Draft

variable {guarded : Handle → Prop} {C : Slot → Prop} {draft draft' : Draft}

theorem Guards.nextRegister {size : Size} {register : Register} (tidy : draft.Tidy)
    (run : Drafting.nextRegister size draft = .ok register draft') :
    Guards guarded C draft draft' ∧ register = ⟨.slot draft.timeline.count, size⟩ := by
  obtain ⟨slot, empty, _, rfl, rfl⟩ := Drafting.nextRegister_ok run
  exact ⟨issue tidy empty fun other => absurd rfl other, rfl⟩

theorem Guards.callAlloc {size : Size} {register : Register} (tidy : draft.Tidy)
    (run : Drafting.callAlloc size draft = .ok register draft') :
    Guards guarded C draft draft' ∧ register = ⟨.slot draft.timeline.count, size⟩ := by
  obtain ⟨empty, rfl, rfl⟩ := Drafting.callAlloc_ok run
  exact ⟨issue tidy empty fun _ => rfl, rfl⟩

theorem Guards.reserve {u : Unit} (tidy : draft.Tidy)
    (run : Drafting.reserve draft = .ok u draft') : Guards guarded C draft draft' := by
  rcases Drafting.reserve_ok run with
    ⟨_, rfl⟩ | ⟨occupant, free, message, occupied, empty, saved, ⟨ordinary, _, rfl⟩ | rfl⟩
  · exact refl tidy
  · have step : Guards guarded C draft _ := renamed tidy occupied ordinary empty saved
    exact step.trans (traced step.tidy message)
  · have step : Guards guarded C draft _ := shift tidy occupied empty saved saved fun _ => .inl rfl
    exact step.trans (traced step.tidy message)

theorem Guards.vacate {slot : Slot} {u : Unit} (tidy : draft.Tidy) (claimed : C slot)
    (run : Drafting.vacate slot draft = .ok u draft') : Guards guarded C draft draft' := by
  rcases Drafting.vacate_ok run with
    ⟨_, rfl⟩ | ⟨_, reserved⟩ | ⟨occupant, free, message, occupied, _, empty, apart, saved, rfl⟩
  · exact refl tidy
  · exact reserve tidy reserved
  · have step : Guards guarded C draft _ := shift tidy occupied empty apart saved fun _ => .inr claimed
    exact step.trans (traced step.tidy message)

theorem Guards.claimSlot {slot : Slot} {size : Size} {register : Register} (tidy : draft.Tidy)
    (claimed : C slot) (run : Drafting.claimSlot slot size draft = .ok register draft') :
    Guards guarded C draft draft' ∧
      ∃ handle, register = ⟨.slot handle, size⟩ ∧ draft.timeline.count ≤ handle ∧
        handle < draft'.timeline.count := by
  obtain ⟨cleared, vacated, rfl, rfl⟩ := Drafting.claimSlot_ok run
  have first : Guards guarded C draft cleared := vacate tidy claimed vacated
  have second : Guards guarded C cleared (cleared.issue slot .used) :=
    issue first.tidy (vacate_frees vacated) fun other => absurd rfl other
  exact ⟨first.trans second, _, rfl, first.count, by simp⟩

/-- Changing the marks of a value that nobody guards. -/
theorem Guards.adjust {operand : Operand} {change : Occupant → Occupant} (tidy : draft.Tidy)
    (free : ∀ handle, operand.handle? = some handle → ¬ guarded handle)
    (same : ∀ occupant, (change occupant).handle = occupant.handle)
    (implicit : ∀ occupant, (change occupant).implicit = occupant.implicit) :
    Guards guarded C draft (draft.adjust operand change) := by
  unfold Draft.adjust
  cases found : draft.slotOf? operand with
  | none => exact refl tidy
  | some slot =>
      obtain ⟨handle, behind, here⟩ := tidy.slotOf?_eq_some_iff.mp found
      obtain ⟨occupant, occupied, rfl⟩ := Option.map_eq_some_iff.mp here
      have refilled : (draft.mapPool fun pool => pool.adjust slot change) =
          draft.refill slot (some (change occupant)) := by
        simp [mapPool, refill, Pool.adjust, occupied]
      simp only [refilled]
      exact mark tidy occupied (same occupant) (implicit occupant) fun guards =>
        absurd guards (free _ behind)

/-- A guarded value is not freed if it is locked and no force is used. -/
theorem Guards.free {operand : Operand} {force freed : Bool} (tidy : draft.Tidy)
    (run : Drafting.free operand force draft = .ok freed draft')
    (held : ∀ handle, operand.handle? = some handle → guarded handle →
      force = false ∧ draft.Held handle) : Guards guarded C draft draft' := by
  rcases Drafting.free_ok run with rfl | ⟨slot, found, allowed, rfl⟩
  · exact refl tidy
  · obtain ⟨handle, behind, here⟩ := tidy.slotOf?_eq_some_iff.mp found
    refine drop tidy ?_
    intro other there guards
    have same : other = handle := by
      rw [Holds] at here there
      exact Option.some.inj (there.symm.trans here)
    subst same
    obtain ⟨gentle, held⟩ := held other behind guards
    obtain ⟨occupant, occupied, same⟩ := Option.map_eq_some_iff.mp here
    have locked : occupant.locked = true := held _ ⟨slot, occupant, occupied, same, rfl⟩
    have forced := allowed (by simp [isLocked, found, occupied, locked])
    rw [gentle] at forced
    contradiction

/-- Dropping all unlocked values slot by slot. -/
theorem Guards.freeUnlocked (slots : List Slot) (tidy : draft.Tidy)
    (held : ∀ handle, guarded handle → draft.Held handle) :
    Guards guarded C draft (draft.mapPool fun pool => slots.foldl
      (fun pool slot => if false || Drafting.isUnlocked pool slot then pool.put slot none else pool)
      pool) := by
  induction slots generalizing draft with
  | nil => exact refl tidy
  | cons slot rest inductionHypothesis =>
      simp only [mapPool, List.foldl_cons, Bool.false_or] at inductionHypothesis ⊢
      by_cases unlocked : Drafting.isUnlocked draft.pool slot = true
      · rw [if_pos unlocked]
        have step : Guards guarded C draft (draft.refill slot none) := by
          refine drop tidy ?_
          intro handle here guards
          obtain ⟨occupant, occupied, same⟩ := Option.map_eq_some_iff.mp here
          have locked : occupant.locked = true :=
            held handle guards _ ⟨slot, occupant, occupied, same, rfl⟩
          simp [Drafting.isUnlocked, occupied, locked] at unlocked
        refine step.trans (inductionHypothesis step.tidy ?_)
        rintro handle guards locked ⟨other, occupant, occupied, same, lock⟩
        rw [occupant?_refill] at occupied
        split at occupied
        · contradiction
        · exact held handle guards locked ⟨other, occupant, occupied, same, lock⟩
      · rw [if_neg unlocked]
        exact inductionHypothesis tidy held

theorem Guards.freeAll {u : Unit} (tidy : draft.Tidy)
    (held : ∀ handle, guarded handle → draft.Held handle)
    (run : Drafting.freeAll false draft = .ok u draft') : Guards guarded C draft draft' := by
  simp only [Drafting.freeAll, Success.modify_ok] at run
  subst run
  exact freeUnlocked allSlots tidy held

/-- The change of the marks of the values behind an operand, slot by slot. -/
theorem Tidy.occupant?_adjust (tidy : draft.Tidy) (operand : Operand)
    (change : Occupant → Occupant) (slot : Slot) :
    (draft.adjust operand change).pool.occupant? slot = (draft.pool.occupant? slot).map
      fun occupant => if operand.handle? = some occupant.handle then change occupant
        else occupant := by
  have elsewhere : draft.slotOf? operand ≠ some slot → (draft.pool.occupant? slot).map
      (fun occupant => if operand.handle? = some occupant.handle then change occupant
        else occupant) = draft.pool.occupant? slot := by
    intro apart
    cases occupied : draft.pool.occupant? slot with
    | none => rfl
    | some occupant =>
        have other : operand.handle? ≠ some occupant.handle := by
          intro behind
          exact apart (tidy.slotOf?_eq_some_iff.mpr ⟨_, behind, by simp [Holds, occupied]⟩)
        simp [other]
  unfold Draft.adjust
  cases found : draft.slotOf? operand with
  | none =>
      rw [elsewhere (by simp [found])]
  | some other =>
      simp only [mapPool, Pool.occupant?_adjust]
      split
      · rename_i same
        subst same
        obtain ⟨handle, behind, here⟩ := tidy.slotOf?_eq_some_iff.mp found
        obtain ⟨occupant, occupied, rfl⟩ := Option.map_eq_some_iff.mp here
        simp [occupied, behind]
      · rename_i apart
        rw [elsewhere (by simpa [found] using Ne.symm apart)]

/-- Only the locks change, as a function of the value and its lock. -/
structure Relocks (relock : Handle → Bool → Bool) (draft draft' : Draft) : Prop where
  tidy : draft'.Tidy
  timeline : draft'.timeline = draft.timeline
  occupants : ∀ slot, draft'.pool.occupant? slot = (draft.pool.occupant? slot).map
    fun occupant => { occupant with locked := relock occupant.handle occupant.locked }

namespace Relocks

variable {relock : Handle → Bool → Bool}

theorem holds (relocks : Relocks relock draft draft') {slot : Slot} {handle : Handle} :
    draft'.Holds slot handle ↔ draft.Holds slot handle := by
  unfold Holds
  rw [relocks.occupants]
  cases draft.pool.occupant? slot <;> simp

theorem carries (relocks : Relocks relock draft draft') {handle : Handle} {locked : Bool}
    (carries : draft.Carries handle locked) : draft'.Carries handle (relock handle locked) := by
  obtain ⟨slot, occupant, occupied, rfl, rfl⟩ := carries
  have after := relocks.occupants slot
  rw [occupied, Option.map_some] at after
  exact ⟨slot, _, after, rfl, rfl⟩

end Relocks

/-- Locking everything puts the whole pool under guard; restoring the locks afterwards leaves no
trace of it. -/
theorem Guards.of_locked {relock : Handle → Bool → Bool} {locked final : Draft}
    (first : Relocks (fun _ _ => true) draft locked)
    (middle : Guards (fun handle => guarded handle ∧ draft.Live handle) C locked draft')
    (last : Relocks relock draft' final)
    (restores : ∀ {handle lock}, draft.Carries handle lock → relock handle true = lock) :
    Guards guarded C draft final := by
  refine ⟨last.tidy, ?_, ?_, ?_, ?_, ?_⟩
  · rw [last.timeline, ← first.timeline]
    exact middle.count
  · rintro handle issued ⟨slot, here⟩
    obtain ⟨other, there⟩ := middle.gone handle (by rw [first.timeline]; exact issued)
      ⟨slot, last.holds.mp here⟩
    exact ⟨other, first.holds.mp there⟩
  · intro handle lock guards carries
    have kept := middle.kept ⟨guards, live_of_carries carries⟩ (first.carries carries)
    rw [← restores carries]
    exact last.carries kept
  · intro slot handle guards saved unclaimed here
    have kept := middle.still ⟨guards, slot, here⟩ saved unclaimed (first.holds.mpr here)
    exact ⟨last.holds.mpr kept.1, by rw [last.timeline, kept.2, first.timeline]⟩
  · intro filled slot handle here
    have filled' : ∀ slot, ∃ handle, (guarded handle ∧ draft.Live handle) ∧
        locked.Holds slot handle := by
      intro slot
      obtain ⟨handle, guards, here⟩ := filled slot
      exact ⟨handle, ⟨guards, slot, here⟩, first.holds.mpr here⟩
    have kept := middle.full filled' (first.holds.mpr here)
    exact ⟨last.holds.mpr kept.1, by rw [last.timeline, kept.2, first.timeline]⟩

/-- Locking every value in some of the slots. -/
theorem occupant?_lockSlots (slots : List Slot) (pool : Pool) (slot : Slot) :
    (slots.foldl (fun pool slot => pool.adjust slot fun occupant =>
      { occupant with locked := true }) pool).occupant? slot =
      (pool.occupant? slot).map fun occupant =>
        { occupant with locked := occupant.locked || slots.contains slot } := by
  induction slots generalizing pool with
  | nil => simp
  | cons first rest inductionHypothesis =>
      rw [List.foldl_cons, inductionHypothesis, Pool.occupant?_adjust]
      by_cases same : slot = first
      · subst same
        cases pool.occupant? slot <;> simp
      · simp [same]

/-- Locking every value tells which ones were unlocked. -/
theorem relocks_lockLive {registers : List Register} (tidy : draft.Tidy)
    (run : Drafting.lockLive draft = .ok registers draft') :
    Relocks (fun _ _ => true) draft draft' ∧
      ∀ handle, (∃ register ∈ registers, (Operand.reg register).handle? = some handle) ↔
        draft.Carries handle false := by
  have steps := steps_lockLive run
  simp only [Drafting.lockLive, Success.bind_ok, Success.get_ok, Success.modify_ok,
    Success.pure_ok] at run
  obtain ⟨_, _, ⟨rfl, rfl⟩, _, _, rfl, rfl, rfl⟩ := run
  refine ⟨⟨?_, rfl, ?_⟩, ?_⟩
  · exact tidy.steps steps
  · intro slot
    rw [mapPool, occupant?_lockSlots]
    cases occupied : draft.pool.occupant? slot with
    | none => rfl
    | some occupant =>
        have locked : (occupant.locked ||
            (allSlots.filter (Drafting.isUnlocked draft.pool)).contains slot) = true := by
          cases held : occupant.locked with
          | true => rfl
          | false => simp [mem_allSlots, Drafting.isUnlocked, occupied, held]
        simp only [Option.map_some, locked]
  · intro handle
    constructor
    · rintro ⟨register, member, behind⟩
      obtain ⟨slot, chosen, found⟩ := List.mem_filterMap.mp member
      obtain ⟨occupant, occupied, rfl⟩ := Option.map_eq_some_iff.mp found
      have unlocked := (List.mem_filter.mp chosen).2
      simp only [Drafting.isUnlocked, occupied, Bool.not_eq_true'] at unlocked
      cases behind
      exact ⟨slot, occupant, occupied, rfl, unlocked⟩
    · rintro ⟨slot, occupant, occupied, rfl, unlocked⟩
      refine ⟨⟨.slot occupant.handle, .s64⟩, ?_, rfl⟩
      refine List.mem_filterMap.mpr ⟨slot, List.mem_filter.mpr ⟨mem_allSlots slot, ?_⟩, ?_⟩
      · simp [Drafting.isUnlocked, occupied, unlocked]
      · simp [occupied]

/-- Removes the locks of the values behind some registers. -/
def unlockAll (draft : Draft) (registers : List Register) : Draft :=
  registers.foldl (fun draft register => draft.adjust (.reg register) fun occupant =>
    { occupant with locked := false }) draft

open Classical in
theorem relocks_unlockAll (registers : List Register) (tidy : draft.Tidy) :
    Relocks (fun handle locked =>
      if ∃ register ∈ registers, (Operand.reg register).handle? = some handle then false
      else locked) draft (draft.unlockAll registers) := by
  induction registers generalizing draft with
  | nil =>
      refine ⟨tidy, rfl, ?_⟩
      intro slot
      simp [unlockAll]
  | cons register rest inductionHypothesis =>
      have later := inductionHypothesis (tidy.steps (steps_relock draft (.reg register) false))
      refine ⟨later.tidy, ?_, ?_⟩
      · refine later.timeline.trans ?_
        unfold Draft.adjust
        split <;> rfl
      · intro slot
        refine (later.occupants slot).trans ?_
        rw [tidy.occupant?_adjust]
        cases draft.pool.occupant? slot with
        | none => rfl
        | some occupant =>
            by_cases here : (Operand.reg register).handle? = some occupant.handle
            · simp [here]
            · simp [here]

end Draft

end X64Backend
