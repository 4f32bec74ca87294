import X64Backend.Proofs.Pool.Consistency
import X64Backend.Proofs.Pool.Guarding

/-!
Brackets around work that may need the whole pool.  All values are locked first, and the work hands
out, clears and frees as it likes, but locks, unlocks and drops by force only what it made itself.
It cannot lose a value of the caller, and unlocking what was locked leaves no trace of the bracket.
-/

namespace X64Backend

open Pool

/-- A request that leaves the locks of all handles below `floor` alone and drops none of them by
force. -/
def Request.Spares (floor : Handle) : Request → Prop
  | .startProcedure => False
  | .allocate (.freeAll force) => force = false
  | .allocate (.free _ false) => True
  | request => ∀ handle ∈ request.handle?, floor ≤ handle

instance (floor : Handle) (request : Request) : Decidable (request.Spares floor) := by
  unfold Request.Spares
  split <;> infer_instance

namespace Draft

/-- The draft that some requests leave, one after the other. -/
def through (draft : Draft) (requests : List Request) : Draft :=
  requests.foldl (fun draft request => request.leave draft) draft

variable {guarded : Handle → Prop} {C : Slot → Prop} {draft draft' : Draft}

/-- A change of locks that guarded values do not notice. -/
theorem Guards.of_relocks {relock : Handle → Bool → Bool} (relocks : Relocks relock draft draft')
    (same : ∀ {handle lock}, guarded handle → draft.Carries handle lock →
      relock handle lock = lock) : Guards guarded C draft draft' := by
  have stays : ∀ {slot handle}, draft.Holds slot handle → draft'.Holds slot handle ∧
      draft'.timeline.history? handle = draft.timeline.history? handle := by
    intro slot handle here
    exact ⟨relocks.holds.mpr here, by rw [relocks.timeline]⟩
  refine ⟨relocks.tidy, Nat.le_of_eq (by rw [relocks.timeline]), ?_, ?_, ?_, ?_⟩
  · rintro handle _ ⟨slot, here⟩
    exact ⟨slot, relocks.holds.mp here⟩
  · intro handle lock guards carries
    have after := relocks.carries carries
    rw [same guards carries] at after
    exact after
  · intro slot handle _ _ _ here
    exact stays here
  · intro _ slot handle here
    exact stays here

/-- Locked handles below the floor are safe from the operations of the allocator that spare them. -/
theorem Guards.perform {command : Command} {floor : Handle} {u : Unit} (tidy : draft.Tidy)
    (below : ∀ handle, guarded handle → handle < floor)
    (held : ∀ handle, guarded handle → draft.Held handle)
    (spares : (Request.allocate command).Spares floor)
    (run : command.perform draft = .ok u draft') :
    Guards guarded (fun _ => True) draft draft' := by
  have newer : ∀ {operand : Operand}, (∀ handle ∈ operand.handle?, floor ≤ handle) →
      ∀ handle, operand.handle? = some handle → ¬ guarded handle := by
    intro operand above handle behind guards
    exact absurd (below handle guards) (Nat.not_lt.mpr (above handle behind))
  cases command with
  | nextRegister size =>
    obtain ⟨register, run⟩ := Success.discard_ok.mp run
    exact (Guards.nextRegister tidy run).1
  | callAlloc size =>
    obtain ⟨register, run⟩ := Success.discard_ok.mp run
    exact (Guards.callAlloc tidy run).1
  | reserve => exact Guards.reserve tidy run
  | claim number size =>
    obtain ⟨register, run⟩ := Success.discard_ok.mp run
    unfold Drafting.claimNumber at run
    cases chosen : (if 0 ≤ number then allSlots[number.toNat]? else none) with
    | none =>
      rw [chosen] at run
      exact (Success.throw_ok.mp run).elim
    | some slot =>
      rw [chosen] at run
      exact (Guards.claimSlot tidy trivial run).1
  | settle register =>
    cases run
    exact Guards.adjust tidy (newer spares) (fun _ => rfl) fun _ => rfl
  | lock operand =>
    cases run
    exact Guards.adjust tidy (newer spares) (fun _ => rfl) fun _ => rfl
  | unlock operand =>
    cases run
    exact Guards.adjust tidy (newer spares) (fun _ => rfl) fun _ => rfl
  | lockLive =>
    obtain ⟨registers, run⟩ := Success.discard_ok.mp run
    apply Guards.of_relocks (relocks_lockLive tidy run).1
    intro handle lock guards carries
    exact (held handle guards lock carries).symm
  | free operand force =>
    obtain ⟨freed, run⟩ := Success.discard_ok.mp run
    apply Guards.free tidy run
    intro handle behind guards
    cases force with
    | false => exact ⟨rfl, held handle guards⟩
    | true => exact absurd guards (newer spares handle behind)
  | freeAll force =>
    obtain rfl : force = false := spares
    exact Guards.freeAll tidy held run

/-- One request of a bracket, whether it faults or not. -/
theorem Guards.leave {request : Request} {floor : Handle} (sound : draft.Sound)
    (below : ∀ handle, guarded handle → handle < floor)
    (held : ∀ handle, guarded handle → draft.Held handle) (spares : request.Spares floor) :
    Guards guarded (fun _ => True) draft (request.leave draft) := by
  have tidy := (sound.leave request).toTidy
  unfold Request.leave at tidy ⊢
  cases run : request.perform draft with
  | error fault after =>
    obtain ⟨pool, timeline, -⟩ := request.retreats _ _ _ run
    rw [run] at tidy
    exact Guards.of_same tidy (by rw [pool]) timeline
  | ok u after =>
    rw [run] at tidy
    cases request with
    | allocate command => exact Guards.perform sound.toTidy below held spares run
    | newest size =>
      obtain ⟨register, run⟩ := Success.discard_ok.mp run
      rw [Drafting.currentRegister_ok run]
      exact Guards.refl sound.toTidy
    | startProcedure => exact spares.elim
    | append instr =>
      obtain rfl := Success.modify_ok.mp run
      exact Guards.of_same tidy rfl rfl

/-- The requests of a bracket, one after the other. -/
theorem Guards.through {bracket : List Request} {floor : Handle} (sound : draft.Sound)
    (issued : floor ≤ draft.timeline.count) (below : ∀ handle, guarded handle → handle < floor)
    (held : ∀ handle, guarded handle → draft.Held handle)
    (spares : ∀ request ∈ bracket, request.Spares floor) :
    Guards guarded (fun _ => True) draft (draft.through bracket) := by
  induction bracket generalizing draft with
  | nil => exact Guards.refl sound.toTidy
  | cons request rest inductionHypothesis =>
    have first := Guards.leave sound below held (spares request List.mem_cons_self)
    apply first.trans
    apply inductionHypothesis (sound.leave request) (Nat.le_trans issued first.count)
    · intro handle guards
      have old := Nat.lt_of_lt_of_le (below handle guards) issued
      exact first.held old guards (held handle guards)
    · intro other member
      exact spares other (List.mem_cons_of_mem request member)

/-- The requests that remove the locks of some registers. -/
def unlocking (registers : List Register) : List Request :=
  registers.map fun register => .allocate (.unlock (.reg register))

theorem through_unlocking (registers : List Register) :
    draft.through (unlocking registers) = draft.unlockAll registers := by
  unfold through unlocking unlockAll
  rw [List.foldl_map]
  rfl

/-- Removing the locks that a bracket has set gives every value of the caller its lock back. -/
theorem carries_unlockAll {registers : List Register} {handle : Handle} {lock : Bool}
    (tidy : draft.Tidy) (carries : draft.Carries handle true)
    (unlocked : (∃ register ∈ registers, (Operand.reg register).handle? = some handle) ↔
      lock = false) : (draft.unlockAll registers).Carries handle lock := by
  have after := (relocks_unlockAll registers tidy).carries carries
  cases lock with
  | false => simpa only [if_pos (unlocked.mpr rfl)] using after
  | true => simpa only [if_neg (mt unlocked.mp (by decide))] using after

/-- Whatever has been asked of the allocator, all live values can be locked.  Requests that spare
the handles issued so far leave every live value in the pool and locked, wherever they move it, and
unlocking what was locked then gives it the lock that it had before. -/
theorem lockLive_bracket (requests bracket : List Request)
    (spares : ∀ request ∈ bracket, request.Spares (afterAll requests).timeline.count) :
    ∃ locked during, Drafting.lockLive (afterAll requests) = .ok locked during ∧
      ∀ handle, (afterAll requests).Live handle →
        (during.through bracket).Carries handle true ∧
          ∀ lock, ((during.through bracket).through (unlocking locked)).Carries handle lock ↔
            (afterAll requests).Carries handle lock := by
  have sound := sound_afterAll requests
  obtain ⟨locked, during, run⟩ :
      ∃ locked during, Drafting.lockLive (afterAll requests) = .ok locked during := ⟨_, _, rfl⟩
  refine ⟨locked, during, run, ?_⟩
  obtain ⟨relocks, unlocked⟩ := relocks_lockLive sound.toTidy run
  have marked : ∀ handle, (afterAll requests).Live handle → during.Carries handle true := by
    rintro handle ⟨slot, here⟩
    obtain ⟨lock, carries⟩ := carries_of_holds here
    exact relocks.carries carries
  have guards : Guards (afterAll requests).Live (fun _ => True) during (during.through bracket) := by
    apply Guards.through (sound.steps (steps_lockLive run))
      (Nat.le_of_eq (by rw [relocks.timeline])) _ _ spares
    · rintro handle ⟨slot, here⟩
      exact sound.lt_count_of_holds here
    · intro handle live lock carries
      exact relocks.tidy.carries_unique carries (marked handle live)
  intro handle live
  have kept := guards.kept live (marked handle live)
  refine ⟨kept, ?_⟩
  intro lock
  obtain ⟨slot, here⟩ := live
  obtain ⟨before, carries⟩ := carries_of_holds here
  have restored : (during.through bracket |>.unlockAll locked).Carries handle before := by
    apply carries_unlockAll guards.tidy kept
    rw [unlocked handle]
    constructor
    · exact sound.carries_unique carries
    · rintro rfl
      exact carries
  rw [through_unlocking]
  constructor
  · intro after
    rwa [(relocks_unlockAll locked guards.tidy).tidy.carries_unique after restored]
  · intro earlier
    rwa [sound.carries_unique earlier carries]

/-- A value in a saved register, a locked one and one that the hardware produced, under a bracket
that claims the registers of the first and the last of them and then tries to free everything. -/
theorem lockLive_bracket_claims :
    let requests : List Request := [.allocate (.nextRegister .s64), .allocate (.nextRegister .s32),
      .allocate (.lock (.reg ⟨.slot 2, .s32⟩)), .allocate (.callAlloc .s64)]
    let bracket : List Request := [.allocate (.claim 1 .s64), .allocate .reserve,
      .allocate (.free (.reg ⟨.slot 1, .s64⟩) false), .allocate (.free (.reg ⟨.slot 4, .s64⟩) true),
      .allocate (.freeAll false)]
    (∀ request ∈ bracket, request.Spares (afterAll requests).timeline.count) ∧
      (afterAll requests).Holds 1 1 ∧
      (afterAll (requests ++ .allocate .lockLive :: bracket)).Holds 3 1 ∧
      ∃ locked during, Drafting.lockLive (afterAll requests) = .ok locked during ∧
        (during.through bracket).Carries 1 true ∧
        ((during.through bracket).through (unlocking locked)).Carries 1 false ∧
        ((during.through bracket).through (unlocking locked)).Carries 2 true := by
  intro requests bracket
  have spares : ∀ request ∈ bracket, request.Spares (afterAll requests).timeline.count := by decide
  obtain ⟨locked, during, run, kept⟩ := lockLive_bracket requests bracket spares
  obtain ⟨first, restored⟩ := kept 1 ⟨1, by decide⟩
  obtain ⟨-, still⟩ := kept 2 ⟨2, by decide⟩
  exact ⟨spares, by decide, by decide, locked, during, run, first,
    (restored false).mpr ⟨1, _, rfl, rfl, rfl⟩, (still true).mpr ⟨2, _, rfl, rfl, rfl⟩⟩

end Draft

end X64Backend
