import X64Backend.Proofs.Pool.Guard
import X64Backend.Proofs.Pool.Session

/-!
The slots of the pool and the histories of the handles mirror each other, whatever is asked of the
allocator and whatever is written in between.  A request that faults has changed nothing but the
trace, and a request for a value that is no longer in the pool changes no slot.
-/

namespace X64Backend

open Pool

namespace Pool

variable {pool : Pool} {slot : Slot}

/-- Replacing the contents of a slot changes the number of occupied slots by that slot alone. -/
theorem liveCount_put (pool : Pool) (slot : Slot) (contents : Option Occupant) :
    (pool.put slot contents).liveCount + (pool.occupant? slot).toList.length =
      pool.liveCount + contents.toList.length := by
  have count : ∀ pool : Pool, pool.liveCount =
      (allSlots.map fun slot => (pool.occupant? slot).toList.length).sum := by
    intro pool
    unfold liveCount isOccupied
    induction allSlots with
    | nil => rfl
    | cons slot rest inductionHypothesis =>
        rw [List.countP_cons, inductionHypothesis, List.map_cons, List.sum_cons, Nat.add_comm]
        cases pool.occupant? slot <;> rfl
  rw [count, count]
  simp only [allSlots, savedSlots, accumulator, List.map_cons, List.map_nil, occupant?_put]
  match slot with
  | 0 | 1 | 2 | 3 | 4 | 5 => simp +arith

@[simp]
theorem liveCount_touch (pool : Pool) (slot : Slot) :
    (pool.touch slot).liveCount = pool.liveCount := by
  unfold liveCount isOccupied
  simp only [occupant?_touch]

@[simp]
theorem pressure_touch (pool : Pool) (slot : Slot) :
    (pool.touch slot).pressure = pool.pressure := by
  unfold touch
  split <;> rfl

/-- A value that goes from one slot to another leaves as many slots occupied. -/
theorem liveCount_move {free : Slot} {occupant moved : Occupant}
    (occupied : pool.occupant? slot = some occupant) (empty : pool.occupant? free = none)
    (apart : free ≠ slot) :
    (((pool.put free (some moved)).touch free).put slot none).liveCount = pool.liveCount := by
  have filled := liveCount_put pool free (some moved)
  have emptied := liveCount_put ((pool.put free (some moved)).touch free) slot none
  rw [empty] at filled
  rw [occupant?_touch, occupant?_put, if_neg (Ne.symm apart), occupied, liveCount_touch] at emptied
  simp only [Option.toList_none, Option.toList_some, List.length_nil, List.length_cons]
    at filled emptied
  omega

theorem liveCount_put_none_le (pool : Pool) (slot : Slot) :
    (pool.put slot none).liveCount ≤ pool.liveCount := by
  have emptied := liveCount_put pool slot none
  simp only [Option.toList_none, List.length_nil] at emptied
  omega

theorem liveCount_remark {occupant marked : Occupant}
    (occupied : pool.occupant? slot = some occupant) :
    (pool.put slot (some marked)).liveCount = pool.liveCount := by
  have replaced := liveCount_put pool slot (some marked)
  rw [occupied] at replaced
  exact Nat.add_right_cancel replaced

end Pool

namespace Draft

/-- What holds of a draft whatever the allocator was asked to do. -/
structure Sound (draft : Draft) : Prop extends draft.Tidy where
  /-- A value of a width still to be settled is one that the hardware produced. -/
  pending : ∀ {slot occupant}, draft.pool.occupant? slot = some occupant →
    occupant.claim ≠ .used → occupant.implicit = true
  covered : ∀ {slot occupant}, draft.pool.occupant? slot = some occupant → draft.pool.Covers slot
  counted : draft.pool.liveCount ≤ draft.pool.pressure

namespace Sound

variable {draft : Draft} (sound : draft.Sound)
include sound

theorem issue {slot : Slot} {claim : Claim} (empty : draft.pool.occupant? slot = none)
    (produces : claim ≠ .used → slot = accumulator) : (draft.issue slot claim).Sound := by
  refine ⟨sound.toTidy.issue produces, ?_, ?_, Nat.le_max_right _ _⟩
  · intro other occupant occupied unsettled
    rw [occupant?_issue] at occupied
    split at occupied
    · cases occupied
      exact decide_eq_true unsettled
    · exact sound.pending occupied unsettled
  · intro other occupant occupied
    rw [occupant?_issue] at occupied
    split at occupied
    · rename_i same
      rw [same]
      exact covers_touch_self _ slot
    · exact (Step.issue empty produces).covers (sound.covered occupied)

/-- A settled value has gone to a free slot. -/
theorem move {draft' : Draft} {slot free : Slot} {occupant moved : Occupant} (tidy : draft'.Tidy)
    (occupied : draft.pool.occupant? slot = some occupant) (empty : draft.pool.occupant? free = none)
    (apart : free ≠ slot) (settled : moved.claim = .used)
    (pool : draft'.pool = ((draft.pool.put free (some moved)).touch free).put slot none) :
    draft'.Sound := by
  have after : ∀ {other second}, draft'.pool.occupant? other = some second →
      (other = free ∧ second = moved) ∨ draft.pool.occupant? other = some second := by
    intro other second found
    rw [pool] at found
    simp only [occupant?_put, occupant?_touch] at found
    split at found
    · contradiction
    · split at found
      · exact .inl ⟨‹_›, (Option.some.inj found).symm⟩
      · exact .inr found
  refine ⟨tidy, ?_, ?_, ?_⟩
  · intro other second found unsettled
    rcases after found with ⟨_, rfl⟩ | before
    · exact absurd settled unsettled
    · exact sound.pending before unsettled
  · intro other second found
    rw [pool]
    rcases after found with ⟨rfl, _⟩ | before
    · exact covers_touch_self _ _
    · have covers : (draft.pool.put free (some moved)).Covers other := sound.covered before
      exact covers.touch free
  · rw [pool, liveCount_move occupied empty apart]
    change draft.pool.liveCount ≤ ((draft.pool.put free (some moved)).touch free).pressure
    rw [pressure_touch]
    exact sound.counted

theorem step {draft' : Draft} (step : Step draft draft') : draft'.Sound := by
  have tidy := sound.toTidy.step step
  cases step with
  | issue empty produces => exact sound.issue empty produces
  | shift occupied empty apart _ => exact sound.move tidy occupied empty apart rfl rfl
  | @rename _ occupant occupied ordinary empty saved _ =>
      have settled : occupant.claim = .used := by
        by_contra unsettled
        rw [sound.pending occupied unsettled] at ordinary
        contradiction
      exact sound.move tidy occupied empty saved settled rfl
  | mark occupied _ implicit claim =>
      refine ⟨tidy, ?_, ?_, ?_⟩
      · intro other second found unsettled
        rw [occupant?_refill] at found
        split at found
        · cases found
          rw [implicit]
          exact sound.pending occupied (claim.resolve_left unsettled ▸ unsettled)
        · exact sound.pending found unsettled
      · intro other second found
        rw [occupant?_refill] at found
        split at found
        · rename_i same
          rw [same]
          exact sound.covered occupied
        · exact sound.covered found
      · exact Nat.le_trans (Nat.le_of_eq (liveCount_remark occupied)) sound.counted
  | drop slot =>
      have kept : ∀ {other second}, (draft.refill slot none).pool.occupant? other = some second →
          draft.pool.occupant? other = some second := by
        intro other second found
        rw [occupant?_refill] at found
        split at found
        · contradiction
        · exact found
      exact ⟨tidy, fun found => sound.pending (kept found), fun found => sound.covered (kept found),
        Nat.le_trans (liveCount_put_none_le _ slot) sound.counted⟩
  | trace message => exact ⟨tidy, sound.pending, sound.covered, sound.counted⟩

theorem steps {draft' : Draft} (steps : Steps draft draft') : draft'.Sound := by
  induction steps with
  | refl => exact sound
  | tail _ last inductionHypothesis => exact inductionHypothesis.step last

/-- Writing an instruction changes neither the pool nor the histories. -/
theorem emit (instr : Instr) : Sound { draft with text := draft.text.emit instr } :=
  ⟨sound.toTidy.emit instr, sound.pending, sound.covered, sound.counted⟩

/-- At the start of a procedure the pool is empty, and the handles stay known. -/
theorem restart : Sound { draft with pool := Pool.empty } := by
  have vacant : ∀ {slot occupant} {P : Prop}, Pool.empty.occupant? slot = some occupant → P := by
    intro slot occupant P occupied
    rw [occupant?_empty] at occupied
    contradiction
  exact ⟨⟨vacant, vacant, vacant, sound.past⟩, vacant, vacant, Nat.zero_le _⟩

end Sound

theorem sound_empty : Draft.empty.Sound := by
  have vacant : ∀ {slot occupant} {P : Prop}, Draft.empty.pool.occupant? slot = some occupant → P := by
    intro slot occupant P occupied
    rw [show Draft.empty.pool = Pool.empty from rfl, occupant?_empty] at occupied
    contradiction
  exact ⟨tidy_empty, vacant, vacant, Nat.le_refl _⟩

end Draft

theorem Command.steps {command : Command} {draft draft' : Draft} {u : Unit}
    (run : command.perform draft = .ok u draft') : Draft.Steps draft draft' := by
  cases command with
  | nextRegister size =>
      obtain ⟨register, run⟩ := Success.discard_ok.mp run
      obtain ⟨slot, empty, _, _, rfl⟩ := Drafting.nextRegister_ok run
      exact .single (.issue empty (by simp))
  | reserve => exact Draft.steps_reserve run
  | claim number size =>
      obtain ⟨register, run⟩ := Success.discard_ok.mp run
      unfold Drafting.claimNumber at run
      cases chosen : (if 0 ≤ number then allSlots[number.toNat]? else none) with
      | none =>
          rw [chosen] at run
          exact (Success.throw_ok.mp run).elim
      | some slot =>
          rw [chosen] at run
          obtain ⟨cleared, vacated, _, rfl⟩ := Drafting.claimSlot_ok run
          exact .tail (Draft.steps_vacate vacated) (.issue (Draft.vacate_frees vacated) (by simp))
  | callAlloc size =>
      obtain ⟨register, run⟩ := Success.discard_ok.mp run
      obtain ⟨empty, _, rfl⟩ := Drafting.callAlloc_ok run
      exact .single (.issue empty fun _ => rfl)
  | settle register =>
      cases run
      exact Draft.steps_settle draft register
  | lock operand =>
      cases run
      exact Draft.steps_relock draft operand true
  | unlock operand =>
      cases run
      exact Draft.steps_relock draft operand false
  | lockLive =>
      obtain ⟨registers, run⟩ := Success.discard_ok.mp run
      exact Draft.steps_lockLive run
  | free operand force =>
      obtain ⟨freed, run⟩ := Success.discard_ok.mp run
      exact Draft.steps_free run
  | freeAll force =>
      exact Draft.steps_freeAll run

/-- A computation whose faults leave the pool, the histories and the stream alone. -/
def Retreats {α : Type} (action : Drafting α) : Prop :=
  ∀ draft fault after, action draft = .error fault after →
    after.pool = draft.pool ∧ after.timeline = draft.timeline ∧ after.text = draft.text

namespace Retreats

variable {α β : Type}

/-- A computation that never faults. -/
theorem never {action : Drafting α} (goes : ∀ draft, ∃ a after, action draft = .ok a after) :
    Retreats action := by
  intro draft fault after run
  obtain ⟨a, after', went⟩ := goes draft
  rw [went] at run
  contradiction

theorem fault (fault : Fault) : Retreats (throw fault : Drafting α) := by
  intro draft fault after run
  cases run
  exact ⟨rfl, rfl, rfl⟩

/-- A trace message in front of a fault is all that is left of it. -/
theorem log_throw (message : String) (fault : Fault) :
    Retreats (do Drafting.log message; throw fault : Drafting α) := by
  intro draft fault after run
  cases run
  exact ⟨rfl, rfl, rfl⟩

theorem look {next : Draft → Drafting α} (each : ∀ draft, Retreats (next draft)) :
    Retreats (get >>= next) := by
  intro draft fault after run
  rw [Success.bind_of_ok (Success.get_ok.mpr ⟨rfl, rfl⟩)] at run
  exact each draft draft fault after run

/-- What goes on without a fault retreats if its first part does. -/
theorem bind {first : Drafting α} {next : α → Drafting β} (retreats : Retreats first)
    (goes : ∀ a draft, ∃ b after, next a draft = .ok b after) : Retreats (first >>= next) := by
  intro draft fault after run
  rcases Success.bind_error.mp run with failed | ⟨a, draft₁, _, failed⟩
  · exact retreats draft fault after failed
  · obtain ⟨b, after', went⟩ := goes a draft₁
    rw [went] at failed
    contradiction

theorem discard {action : Drafting α} (retreats : Retreats action) :
    Retreats (discard action) := by
  intro draft fault after run
  refine retreats draft fault after ?_
  simp only [Functor.discard, Functor.mapConst, EStateM.map, Function.comp] at run
  split at run
  · contradiction
  · cases run
    assumption

end Retreats

namespace Drafting

theorem retreats_nextRegister (size : Size) : Retreats (nextRegister size) := by
  refine Retreats.look fun draft => ?_
  dsimp only
  split
  · exact .never fun draft => ⟨_, _, take_eq _ _ _ draft⟩
  · split
    · exact .never fun draft => ⟨_, _, take_eq _ _ _ draft⟩
    · exact .log_throw _ _

theorem retreats_currentRegister (size : Size) : Retreats (currentRegister size) := by
  refine Retreats.look fun draft => ?_
  dsimp only
  split
  · exact .fault _
  · exact .never fun draft => ⟨_, _, rfl⟩

theorem currentRegister_ok {size : Size} {draft draft' : Draft} {register : Register}
    (run : currentRegister size draft = .ok register draft') : draft' = draft := by
  simp only [currentRegister, Success.bind_ok, Success.get_ok] at run
  obtain ⟨_, _, ⟨rfl, rfl⟩, run⟩ := run
  split at run
  · cases run
  · cases run
    rfl

theorem retreats_evacuate (slot : Slot) (occupant : Occupant) :
    Retreats (evacuate slot occupant) := by
  refine Retreats.look fun draft => ?_
  split
  · exact .log_throw _ _
  · exact .never fun draft => ⟨_, _, rfl⟩

theorem retreats_reserve : Retreats reserve := by
  refine Retreats.look fun draft => ?_
  split
  · exact .never fun draft => ⟨_, _, rfl⟩
  · dsimp only
    split
    · exact .never fun draft => ⟨_, _, rename_eq _ _ draft⟩
    · exact retreats_evacuate _ _

theorem retreats_callAlloc (size : Size) : Retreats (callAlloc size) := by
  refine Retreats.look fun draft => ?_
  split
  · exact .fault _
  · exact .never fun draft => ⟨_, _, take_eq _ _ _ draft⟩

theorem retreats_vacate (slot : Slot) : Retreats (vacate slot) := by
  refine Retreats.look fun draft => ?_
  split
  · exact .never fun draft => ⟨_, _, rfl⟩
  · split
    · exact retreats_reserve
    · exact retreats_evacuate _ _

theorem retreats_claimNumber (number : Int) (size : Size) : Retreats (claimNumber number size) := by
  unfold claimNumber
  split
  · exact (retreats_vacate _).bind fun _ draft => ⟨_, _, take_eq _ _ _ draft⟩
  · exact .fault _

theorem retreats_free (operand : Operand) (force : Bool) : Retreats (free operand force) := by
  refine Retreats.look fun draft => ?_
  split
  · exact .never fun draft => ⟨_, _, rfl⟩
  · split
    · exact .never fun draft => ⟨_, _, rfl⟩
    · exact .never fun draft => ⟨_, _, rfl⟩

end Drafting

theorem Command.retreats (command : Command) : Retreats command.perform := by
  cases command with
  | nextRegister size => exact (Drafting.retreats_nextRegister size).discard
  | reserve => exact Drafting.retreats_reserve
  | claim number size => exact (Drafting.retreats_claimNumber number size).discard
  | callAlloc size => exact (Drafting.retreats_callAlloc size).discard
  | free operand force => exact (Drafting.retreats_free operand force).discard
  | settle _ | lock _ | unlock _ | lockLive | freeAll _ => exact .never fun draft => ⟨_, _, rfl⟩

/-- The operand that an operation is about. -/
def Command.subject? : Command → Option Operand
  | .settle register => some (.reg register)
  | .lock operand | .unlock operand | .free operand _ => some operand
  | .nextRegister _ | .reserve | .claim _ _ | .callAlloc _ | .lockLive | .freeAll _ => none

/-- What may be done to a draft: an operation of the allocator, a look at the newest register at
another width, the start of a procedure, or an instruction written at the end of the stream. -/
inductive Request where
  | allocate (command : Command)
  | newest (size : Size)
  | startProcedure
  | append (instr : Instr)
  deriving DecidableEq, Repr

namespace Request

/-- What a request does to a draft. -/
def perform : Request → Drafting Unit
  | allocate command => command.perform
  | newest size => discard (Drafting.currentRegister size)
  | startProcedure => Drafting.beginProcedure
  | append instr => Drafting.emit instr

/-- The handle that a request is about. -/
def handle? : Request → Option Handle
  | allocate command => command.subject?.bind Operand.handle?
  | newest _ | startProcedure | append _ => none

/-- The draft that a request leaves, whether it faults or not. -/
def leave (request : Request) (draft : Draft) : Draft :=
  match request.perform draft with
  | .ok _ after => after
  | .error _ after => after

theorem retreats (request : Request) : Retreats request.perform := by
  cases request with
  | allocate command => exact command.retreats
  | newest size => exact (Drafting.retreats_currentRegister size).discard
  | startProcedure | append _ => exact .never fun draft => ⟨_, _, rfl⟩

end Request

namespace Draft

/-- The draft that some requests leave one after the other. -/
def afterAll (requests : List Request) : Draft :=
  requests.foldl (fun draft request => request.leave draft) .empty

/-- A fault keeps everything that a draft has to keep. -/
theorem Sound.retreat {draft after : Draft} (sound : draft.Sound) (pool : after.pool = draft.pool)
    (timeline : after.timeline = draft.timeline) (text : after.text = draft.text) :
    after.Sound := by
  obtain ⟨pool', text', timeline', trace⟩ := after
  subst pool timeline text
  exact ⟨⟨sound.placed, sound.produced, sound.native, sound.past⟩, sound.pending, sound.covered,
    sound.counted⟩

theorem Sound.leave {draft : Draft} (sound : draft.Sound) (request : Request) :
    (request.leave draft).Sound := by
  unfold Request.leave
  cases run : request.perform draft with
  | error fault after =>
      obtain ⟨pool, timeline, text⟩ := request.retreats _ _ _ run
      exact sound.retreat pool timeline text
  | ok u after =>
      cases request with
      | allocate command => exact sound.steps (Command.steps run)
      | newest size =>
          obtain ⟨register, run⟩ := Success.discard_ok.mp run
          rw [Drafting.currentRegister_ok run]
          exact sound
      | startProcedure =>
          rw [← Success.modify_ok.mp run]
          exact sound.restart
      | append instr =>
          rw [← Success.modify_ok.mp run]
          exact sound.emit instr

theorem sound_afterAll (requests : List Request) : (afterAll requests).Sound := by
  unfold afterAll
  generalize start : Draft.empty = draft
  have sound : draft.Sound := start ▸ sound_empty
  clear start
  induction requests generalizing draft with
  | nil => exact sound
  | cons request rest inductionHypothesis => exact inductionHypothesis _ (sound.leave request)

/-- An operation on a value that is not in the pool changes nothing. -/
theorem Tidy.leave_eq {draft : Draft} (tidy : draft.Tidy) {request : Request} {handle : Handle}
    (about : request.handle? = some handle) (gone : ¬ draft.Live handle) :
    request.leave draft = draft := by
  have lost : ∀ {operand : Operand}, operand.handle? = some handle → draft.slotOf? operand = none := by
    intro operand behind
    rw [Option.eq_none_iff_forall_ne_some]
    intro slot found
    obtain ⟨other, behind', holds⟩ := tidy.slotOf?_eq_some_iff.mp found
    rw [behind] at behind'
    cases behind'
    exact gone ⟨slot, holds⟩
  have adjusted : ∀ {operand : Operand} {change : Occupant → Occupant},
      operand.handle? = some handle → draft.adjust operand change = draft := by
    intro operand change behind
    rw [adjust, lost behind]
  cases request with
  | newest _ | startProcedure | append _ => contradiction
  | allocate command =>
      cases command with
      | nextRegister _ | reserve | claim _ _ | callAlloc _ | lockLive | freeAll _ => contradiction
      | settle register => exact adjusted about
      | lock operand => exact adjusted about
      | unlock operand => exact adjusted about
      | free operand force =>
          have kept : Drafting.free operand force draft = .ok false draft := by
            unfold Drafting.free
            rw [Success.bind_of_ok (Success.get_ok.mpr ⟨rfl, rfl⟩), lost about]
            rfl
          have ran : (Request.allocate (.free operand force)).perform draft = .ok () draft :=
            Success.discard_ok.mpr ⟨false, kept⟩
          unfold Request.leave
          rw [ran]

/-- The slots of the pool and the histories of the handles mirror each other. -/
structure Mirrored (draft : Draft) : Prop where
  /-- A value in a slot has a handle that was issued and lives in the register of the slot now. -/
  homes : ∀ slot occupant, draft.pool.occupant? slot = some occupant →
    0 < occupant.handle ∧ occupant.handle < draft.timeline.count ∧
      draft.timeline.current occupant.handle = some (slotPhys slot)
  distinct : ∀ slot other handle, draft.Holds slot handle → draft.Holds other handle → slot = other
  /-- A slot without a claim has no handle, lock, pending width or mark of the hardware either. -/
  vacant : ∀ slot, draft.pool.claim? slot = none → draft.pool.occupant? slot = none
  produced : ∀ slot occupant, draft.pool.occupant? slot = some occupant →
    occupant.claim ≠ .used ∨ occupant.implicit = true → slot = accumulator
  restored : ∀ slot, draft.pool.isOccupied slot = true → slot ≠ accumulator →
    slotPhys slot ∈ draft.pool.usedSaved
  pressed : draft.pool.liveCount ≤ draft.pool.pressure

theorem Sound.mirrored {draft : Draft} (sound : draft.Sound) : draft.Mirrored := by
  refine ⟨?_, fun _ _ _ => sound.slot_unique, ?_, ?_, ?_, sound.counted⟩
  · intro slot occupant occupied
    have home := sound.placed occupied
    refine ⟨Nat.pos_of_ne_zero fun zero => ?_, sound.lt_count_of_occupied occupied, home⟩
    rw [zero] at home
    contradiction
  · intro slot free
    exact Option.map_eq_none_iff.mp free
  · intro slot occupant occupied special
    rcases special with unsettled | implicit
    · exact sound.produced occupied (sound.pending occupied unsettled)
    · exact sound.produced occupied implicit
  · intro slot occupied saved
    obtain ⟨occupant, found⟩ := Option.isSome_iff_exists.mp occupied
    exact mem_usedSaved saved (sound.covered found)

/-- Whatever is asked of the allocator and written in between, the slots and the histories mirror
each other.  A request for a value that is in no slot changes no slot, and a request that faults
changes neither the pool nor the histories nor the stream. -/
theorem mirrored_afterAll (requests : List Request) :
    (afterAll requests).Mirrored ∧ ∀ request : Request,
      (∀ handle, request.handle? = some handle → ¬ (afterAll requests).Live handle →
        (request.leave (afterAll requests)).pool.slots = (afterAll requests).pool.slots) ∧
      ∀ fault after, request.perform (afterAll requests) = .error fault after →
        after.pool = (afterAll requests).pool ∧ after.timeline = (afterAll requests).timeline ∧
          after.text = (afterAll requests).text := by
  have sound := sound_afterAll requests
  refine ⟨sound.mirrored, fun request => ⟨?_, request.retreats _⟩⟩
  intro handle about gone
  rw [sound.leave_eq about gone]

/-- A handle whose slot has been given to another value: the request to free it is about no slot. -/
example : let draft := afterAll [.allocate (.nextRegister .s64),
      .allocate (.free (.reg ⟨.slot 1, .s64⟩) false), .allocate (.nextRegister .s64)]
    draft.timeline.current 1 = draft.timeline.current 2 ∧ ¬ draft.Live 1 ∧ draft.Live 2 := by
  decide

end Draft

end X64Backend
