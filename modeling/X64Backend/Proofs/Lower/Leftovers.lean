import X64Backend.Proofs.Lower.Statements
import X64Backend.Proofs.Lower.Widths
import X64Backend.Proofs.Pool.Leaving

/-!
What the parts of a block leave in the register pool.

Every register that the replay of a block takes is behind one of its names, behind a hardware
register that it uses undeclared, or among the temporaries of the current instruction, and all of
these are freed.  The account misses one register: that of the address of a by-reference variable.
-/

namespace X64Backend.Lower

open X64Backend.Tree

/-- A step leaves at most some new values in the pool, and the calls in progress as they are. -/
structure Leaving (N : Handle → Bool → Prop) (s s' : State) : Prop where
  draft : Draft.Leaves N s.draft s'.draft
  activations : s'.activations = s.activations

/-- The value behind an operand. -/
def Behind (operand : Operand) (handle : Handle) (_ : Bool) : Prop :=
  operand.handle? = some handle

variable {N M : Handle → Bool → Prop} {s s' s'' : State} {u : Unit}

namespace Leaving

theorem refl (tidy : s.draft.Tidy) : Leaving N s s :=
  ⟨.refl tidy, rfl⟩

theorem trans (first : Leaving N s s') (second : Leaving N s' s'') : Leaving N s s'' :=
  ⟨first.draft.trans second.draft, second.activations.trans first.activations⟩

theorem mono (leaves : Leaving N s s')
    (weaker : ∀ handle locked, N handle locked → M handle locked) : Leaving M s s' :=
  ⟨leaves.draft.mono weaker, leaves.activations⟩

theorem tidy (leaves : Leaving N s s') : s'.draft.Tidy :=
  leaves.draft.tidy

/-- What was taken in between is gone. -/
theorem gone {operand : Operand} (first : Leaving (Behind operand) s s') (second : Leaving N s' s'')
    (freed : ∀ {handle locked}, operand.handle? = some handle →
      ¬ s''.draft.Carries handle locked) : Leaving N s s'' := by
  refine ⟨⟨second.tidy, fun carries => ?_⟩, second.activations.trans first.activations⟩
  rcases second.draft.carried carries with middle | isNew
  · rcases first.draft.carried middle with earlier | behind
    · exact .inl earlier
    · exact absurd carries (freed behind)
  · exact .inr isNew

end Leaving

theorem Plain.leaving {α : Type} {action : Gen α} {a : α} (plain : Plain action)
    (tidy : s.draft.Tidy) (run : action s = .ok a s') : Leaving N s s' :=
  have quiet := plain s a s' run
  ⟨.of_same (quiet.tidy tidy) quiet.pool, quiet.activations⟩

section Operations

variable (tidy : s.draft.Tidy)
include tidy

/-- A register that holds an unlocked value may be overwritten. -/
theorem isTemp_of_carries {register : Register} {handle : Handle}
    (behind : (Operand.reg register).handle? = some handle)
    (carries : s.draft.Carries handle false) : isTemp s.draft (.reg register) = true := by
  obtain ⟨slot, occupant, occupied, rfl, unlocked⟩ := carries
  have found := tidy.slotOf?_eq_some_iff.mpr
    ⟨_, behind, (by simp [Draft.Holds, occupied] : s.draft.Holds slot occupant.handle)⟩
  have isSlot : register.isSlot = true := by
    obtain ⟨place, size⟩ := register
    cases place with
    | slot handle => rfl
    | fixed phys => cases behind
  simp [isTemp, isSlot, Draft.isLive, Draft.isLocked, found, occupied, unlocked]

theorem unlocked_of_isTemp {operand : Operand} {handle : Handle} {locked : Bool}
    (temporary : isTemp s.draft operand = true) (behind : operand.handle? = some handle)
    (carries : s.draft.Carries handle locked) : locked = false := by
  cases operand with
  | reg register =>
      simp only [isTemp, Bool.and_eq_true, Bool.not_eq_true'] at temporary
      obtain ⟨slot, occupant, occupied, rfl, rfl⟩ := carries
      have found := tidy.slotOf?_eq_some_iff.mpr
        ⟨_, behind, (by simp [Draft.Holds, occupied] : s.draft.Holds slot occupant.handle)⟩
      simpa [Draft.isLocked, found, occupied] using temporary.2
  | absent | lit literal => cases behind
  | mem pointer => simp [isTemp] at temporary

theorem leaving_nextRegister {size : Size} {register : Register}
    (run : drafting (Drafting.nextRegister size) s = .ok register s') :
    Leaving (fun handle locked => (Operand.reg register).handle? = some handle ∧ locked = false)
      s s' := by
  obtain ⟨draft, drafted, rfl⟩ := drafting_ok.mp run
  exact ⟨.nextRegister tidy drafted, rfl⟩

theorem leaving_lock {operand : Operand} (run : drafting (Drafting.lock operand) s = .ok u s') :
    Leaving (Behind operand) s s' := by
  obtain ⟨draft, drafted, rfl⟩ := drafting_ok.mp run
  obtain rfl := Success.modify_ok.mp drafted
  obtain ⟨leaves, -⟩ := Draft.Leaves.adjust tidy operand (fun occupant =>
    { occupant with locked := true }) (fun _ => rfl) (fun _ => rfl) fun _ => rfl
  exact ⟨leaves.mono fun _ _ behind => behind.1, rfl⟩

/-- A settled value is unlocked. -/
theorem leaving_settle {register : Register}
    (run : drafting (Drafting.settle register) s = .ok u s') :
    Leaving (fun handle locked => (Operand.reg register).handle? = some handle ∧ locked = false)
        s s' ∧
      ∀ {handle locked}, (Operand.reg register).handle? = some handle →
        s'.draft.Carries handle locked → locked = false := by
  obtain ⟨draft, drafted, rfl⟩ := drafting_ok.mp run
  obtain rfl := Success.modify_ok.mp drafted
  obtain ⟨leaves, marked⟩ := Draft.Leaves.adjust tidy (.reg register) (fun occupant =>
    { occupant with claim := .used, locked := false }) (fun _ => rfl) (fun _ => rfl) fun _ => rfl
  exact ⟨⟨leaves, rfl⟩, marked⟩

theorem leaving_release {operand : Operand} (run : release operand s = .ok u s') :
    Leaving N s s' ∧ ∀ {handle locked}, operand.handle? = some handle →
      s'.draft.Carries handle locked → locked = true := by
  obtain ⟨freed, middle, freeing, rest⟩ := Success.bind_ok.mp run
  obtain ⟨_, rfl⟩ := Success.pure_ok.mp rest
  obtain ⟨draft, drafted, rfl⟩ := drafting_ok.mp freeing
  obtain ⟨leaves, stays⟩ := Draft.Leaves.free (N := N) tidy drafted
  exact ⟨⟨leaves, rfl⟩, fun behind carries => (stays behind carries).2⟩

theorem leaving_freeAnyway {operand : Operand} (run : freeAnyway operand s = .ok u s') :
    Leaving N s s' ∧ ∀ {handle locked}, operand.handle? = some handle →
      ¬ s'.draft.Carries handle locked := by
  obtain ⟨freed, middle, freeing, rest⟩ := Success.bind_ok.mp run
  obtain ⟨_, rfl⟩ := Success.pure_ok.mp rest
  obtain ⟨draft, drafted, rfl⟩ := drafting_ok.mp freeing
  obtain ⟨leaves, stays⟩ := Draft.Leaves.free (N := N) tidy drafted
  exact ⟨⟨leaves, rfl⟩, fun behind carries => by cases (stays behind carries).1⟩

theorem leaving_viaTemp {dst : Operand} {fill : Register → Gen Unit}
    (plain : ∀ temporary, Plain (fill temporary)) (run : viaTemp dst fill s = .ok u s') :
    Leaving N s s' := by
  simp only [viaTemp, Success.bind_ok] at run
  obtain ⟨temporary, s₁, allocated, _, s₂, filled, _, s₃, emitted, freed⟩ := run
  have first := (leaving_nextRegister tidy allocated).mono fun _ _ behind => behind.1
  have second := (plain temporary).leaving (N := Behind (.reg temporary)) first.tidy filled
  have third := (plain_emit _).leaving (N := Behind (.reg temporary)) second.tidy emitted
  obtain ⟨fourth, gone⟩ := leaving_freeAnyway (N := N) third.tidy freed
  exact ((first.trans second).trans third).gone fourth gone

theorem leaving_move {dst src : Operand} {signed : Bool} {order : ChunkOrder}
    (run : move dst src signed order s = .ok u s') : Leaving N s s' := by
  cases src with
  | absent => simp [move] at run
  | lit literal => exact (plain_storeLiteral dst literal order).leaving tidy run
  | reg register =>
      cases dst with
      | reg target => exact (plain_moveRegister target register signed).leaving tidy run
      | _ =>
          simp only [move, Success.ite_apply] at run
          split at run
          · exact (plain_emit _).leaving tidy run
          · exact leaving_viaTemp tidy (fun temporary => plain_widen _ _ _) run
  | mem cell =>
      cases dst with
      | reg target => exact (plain_moveCell target cell signed).leaving tidy run
      | _ => exact leaving_viaTemp tidy (fun temporary => plain_moveCell _ _ _) run

/-- The base of an address is a register that was there, or a new one that is not locked. -/
theorem leaving_base {operand : Operand} {register : Register}
    (run : base operand s = .ok register s') :
    Leaving (fun handle locked => (Operand.reg register).handle? = some handle ∧ locked = false)
      s s' := by
  have loads : ∀ {operand : Operand}, (∀ given, operand ≠ .reg given) →
      load operand .s64 false s = .ok register s' →
      Leaving (fun handle locked => (Operand.reg register).handle? = some handle ∧ locked = false)
        s s' := by
    intro operand notRegister run
    simp only [load, Success.bind_ok, temp_ok] at run
    obtain ⟨_, _, ⟨_, rfl⟩, run⟩ := run
    split at run
    · exact absurd rfl (notRegister _)
    · simp only [Success.bind_ok, Success.pure_ok] at run
      obtain ⟨chosen, s₁, allocated, _, s₂, moved, _, s₃, released, rfl, rfl⟩ := run
      have first := leaving_nextRegister tidy allocated
      have second := first.trans (leaving_move first.tidy moved)
      exact second.trans (leaving_release second.tidy released).1
  cases operand with
  | reg given =>
      obtain ⟨_, rfl⟩ := Success.pure_ok.mp run
      exact .refl tidy
  | _ => exact loads (by simp) run

theorem leaving_forM {α : Type} {items : List α} {action : α → Gen Unit}
    (each : ∀ item ∈ items, ∀ {s₁ s₂ u}, s₁.draft.Tidy → action item s₁ = .ok u s₂ →
      Leaving N s₁ s₂) (run : items.forM action s = .ok u s') : Leaving N s s' := by
  induction items generalizing s with
  | nil =>
      obtain ⟨_, rfl⟩ := Success.pure_ok.mp run
      exact .refl tidy
  | cons item rest inductionHypothesis =>
      obtain ⟨_, s₁, ran, run⟩ := Success.bind_ok.mp run
      have first := each item List.mem_cons_self tidy ran
      exact first.trans (inductionHypothesis first.tidy
        (fun other member => each other (List.mem_cons_of_mem _ member)) run)

/-- Freeing by force, one operand after the other, leaves none of them. -/
theorem leaving_freeAll {α : Type} {items : List α} {operand : α → Operand}
    (run : (items.forM fun item => freeAnyway (operand item)) s = .ok u s') :
    Leaving N s s' ∧ ∀ item ∈ items, ∀ {handle locked}, (operand item).handle? = some handle →
      ¬ s'.draft.Carries handle locked := by
  induction items generalizing s with
  | nil =>
      obtain ⟨_, rfl⟩ := Success.pure_ok.mp run
      exact ⟨.refl tidy, by simp⟩
  | cons item rest inductionHypothesis =>
      obtain ⟨_, s₁, ran, onward⟩ := Success.bind_ok.mp run
      obtain ⟨first, gone⟩ := leaving_freeAnyway (N := N) tidy ran
      obtain ⟨second, others⟩ := inductionHypothesis first.tidy onward
      refine ⟨first.trans second, fun other member {handle locked} behind carries => ?_⟩
      rcases List.mem_cons.mp member with rfl | member
      · have later : Leaving (fun _ _ => False) s₁ s' := leaving_forM first.tidy
          (fun _ _ _ _ _ tidy ran => (leaving_freeAnyway tidy ran).1) onward
        exact gone behind ((later.draft.carried carries).resolve_right id)
      · exact others other member behind carries

end Operations

/-- The registers that a block has taken and is going to free. -/
def Replay.registers (replay : Replay) : List Register :=
  replay.names.map Prod.snd ++ replay.undeclared.map Prod.snd ++ replay.temps

/-- The value of a handle is behind a register that the block is going to free. -/
def Replay.Has (replay : Replay) (handle : Handle) : Prop :=
  ∃ register ∈ replay.registers, (Operand.reg register).handle? = some handle

/-- The names that are bound stay so. -/
def Replay.Keeps (replay replay' : Replay) : Prop :=
  ∀ name register, replay.names.lookup name = some register →
    replay'.names.lookup name = some register

/-- What the pool carries was there before, or is behind a register that the block has taken. -/
structure Replay.Covers (old : Handle → Bool → Prop) (calls : List Activation) (s : State)
    (replay : Replay) : Prop where
  tidy : s.draft.Tidy
  activations : s.activations = calls
  carried : ∀ {handle locked}, s.draft.Carries handle locked →
    old handle locked ∨ replay.Has handle
  /-- No name is bound twice. -/
  unique : ∀ entry ∈ replay.names, replay.names.lookup entry.1 = some entry.2

/-- A variable that is reached without a register for its address: a call in progress binds it to
an operand, or it is not passed by reference. -/
def BlockSite.Direct (site : BlockSite) (calls : List Activation) (name : String) : Prop :=
  ∀ id, site.vars.lookup name = some id → (site.program.var id).byRef = false ∨
    ∃ operand, (calls.findSome? fun activation => activation.binding? id) = some (.operand operand)

/-- An operand that refers to a declared name is the register that the name is bound to. -/
def Replay.Refers (replay : Replay) (term : Block.Term) (operand : Operand) : Prop :=
  ∀ ref, term = .reg ref → ref.named = true → ∃ bound register,
    replay.names.lookup ref.name = some bound ∧ operand = .reg register ∧
      (Operand.reg register).handle? = (Operand.reg bound).handle?

variable {old : Handle → Bool → Prop} {calls : List Activation} {replay replay' : Replay}
  {name : String} {register : Register}

namespace Replay

theorem Keeps.refl (replay : Replay) : replay.Keeps replay :=
  fun _ _ => id

theorem Keeps.trans {replay'' : Replay} (first : replay.Keeps replay')
    (second : replay'.Keeps replay'') : replay.Keeps replay'' :=
  fun name register found => second name register (first name register found)

theorem Keeps.of_names (same : replay'.names = replay.names) : replay.Keeps replay' := by
  intro name register found
  rw [same]
  exact found

theorem keeps_bindName (unbound : replay.names.lookup name = none) :
    replay.Keeps { replay with
      names := (name, register) :: replay.names.filter fun entry => entry.1 ≠ name } := by
  intro other known found
  rw [lookup_put, if_neg]
  · exact found
  · rintro rfl
    rw [unbound] at found
    contradiction

theorem Refers.keeps {term : Block.Term} {operand : Operand} (refers : replay.Refers term operand)
    (keeps : replay.Keeps replay') : replay'.Refers term operand := by
  intro ref same named
  obtain ⟨bound, register, found, rest⟩ := refers ref same named
  exact ⟨bound, register, keeps _ _ found, rest⟩

theorem has_iff {handle : Handle} : replay.Has handle ↔
    (∃ entry ∈ replay.names, (Operand.reg entry.2).handle? = some handle) ∨
      (∃ entry ∈ replay.undeclared, (Operand.reg entry.2).handle? = some handle) ∨
      ∃ register ∈ replay.temps, (Operand.reg register).handle? = some handle := by
  simp only [Has, registers, List.mem_append, List.mem_map, or_and_right, exists_or, or_assoc]
  refine or_congr ⟨?_, ?_⟩ (or_congr_left ⟨?_, ?_⟩)
  all_goals
    first
    | rintro ⟨_, ⟨entry, member, rfl⟩, behind⟩
      exact ⟨entry, member, behind⟩
    | rintro ⟨entry, member, behind⟩
      exact ⟨entry.2, ⟨entry, member, rfl⟩, behind⟩

namespace Covers

/-- A step of which everything new is accounted for. -/
theorem step (covers : replay.Covers old calls s) (leaves : Leaving N s s')
    (noted : ∀ handle locked, N handle locked → old handle locked ∨ replay'.Has handle)
    (more : ∀ handle, replay.Has handle → replay'.Has handle)
    (unique : ∀ entry ∈ replay'.names, replay'.names.lookup entry.1 = some entry.2) :
    replay'.Covers old calls s' := by
  refine ⟨leaves.tidy, leaves.activations.trans covers.activations, fun carries => ?_, unique⟩
  rcases leaves.draft.carried carries with earlier | isNew
  · exact (covers.carried earlier).imp_right (more _)
  · exact noted _ _ isNew

/-- A step that leaves nothing new. -/
theorem later (covers : replay.Covers old calls s) (leaves : Leaving (fun _ _ => False) s s') :
    replay.Covers old calls s' :=
  covers.step leaves (fun _ _ => False.elim) (fun _ => id) covers.unique

/-- A name is bound at most once, so dropping it drops one register. -/
theorem mem_names (covers : replay.Covers old calls s) {entry : String × Register}
    (member : entry ∈ replay.names) (found : replay.names.lookup name = some register) :
    entry.1 ≠ name ∨ entry.2 = register := by
  by_cases same : entry.1 = name
  · right
    have bound := covers.unique entry member
    rw [same, found] at bound
    exact (Option.some.inj bound).symm
  · exact .inl same

/-- A name that was not bound is bound to a new register. -/
theorem bindName (covers : replay.Covers old calls s)
    (leaves : Leaving (Behind (.reg register)) s s') (unbound : replay.names.lookup name = none) :
    Covers old calls s' { replay with
      names := (name, register) :: replay.names.filter fun entry => entry.1 ≠ name } := by
  have apart : ∀ entry ∈ replay.names, entry.1 ≠ name := by
    rintro entry member rfl
    rw [covers.unique entry member] at unbound
    contradiction
  have kept : (replay.names.filter fun entry => entry.1 ≠ name) = replay.names :=
    List.filter_eq_self.mpr fun entry member => decide_eq_true (apart entry member)
  refine covers.step leaves (fun handle _ behind => .inr ?_) (fun handle has => ?_) ?_
  · exact has_iff.mpr (.inl ⟨_, List.mem_cons_self, behind⟩)
  · simp only [has_iff, kept] at has ⊢
    refine has.imp_left ?_
    rintro ⟨entry, member, behind⟩
    exact ⟨entry, List.mem_cons_of_mem _ member, behind⟩
  · intro entry member
    rw [lookup_put]
    rcases List.mem_cons.mp member with rfl | member
    · rw [if_pos rfl]
    · rw [kept] at member
      rw [if_neg (apart entry member)]
      exact covers.unique entry member

/-- One more temporary. -/
theorem addTemp (covers : replay.Covers old calls s)
    (leaves : Leaving (Behind (.reg register)) s s') :
    Covers old calls s' { replay with temps := replay.temps ++ [register] } := by
  refine covers.step leaves (fun handle _ behind => .inr ?_) (fun handle has => ?_) covers.unique
  · exact has_iff.mpr (.inr (.inr ⟨register, by simp, behind⟩))
  · simp only [has_iff] at has ⊢
    refine has.imp_right (Or.imp_right ?_)
    rintro ⟨other, member, behind⟩
    exact ⟨other, List.mem_append_left _ member, behind⟩

end Covers

end Replay

namespace Replaying

variable {site : BlockSite} (covers : replay.Covers old calls s)
include covers

omit covers in
theorem leaving_lockedSlot {slot : Pool.Slot} {size : Size} (tidy : s.draft.Tidy)
    (run : lockedSlot slot size s = .ok register s') : Leaving (Behind (.reg register)) s s' := by
  simp only [lockedSlot, Success.bind_ok, Success.pure_ok] at run
  obtain ⟨_, s₁, claimed, _, s₂, locked, rfl, rfl⟩ := run
  obtain ⟨draft, drafted, rfl⟩ := drafting_ok.mp claimed
  have first : Leaving (Behind (.reg _)) s { s with draft } :=
    ⟨(Draft.Leaves.claimSlot tidy drafted).mono fun _ _ behind => behind.1, rfl⟩
  exact first.trans (leaving_lock first.tidy locked)

/-- A declaration of a name that is not bound. -/
theorem covers_alloc {declaration : Block.Alloc}
    (unbound : replay.names.lookup declaration.name = none)
    (run : alloc site declaration replay s = .ok (u, replay') s') :
    replay'.Covers old calls s' ∧ replay.Keeps replay' ∧ replay'.temps = replay.temps := by
  unfold alloc at run
  cases named : declaration.phys with
  | none =>
      rw [named] at run
      obtain ⟨same, rfl⟩ := Success.stateT_pure_ok.mp run
      cases same
      exact ⟨covers, .refl _, rfl⟩
  | some phys =>
      rw [named] at run
      cases found : Pool.slotOfPhys? phys with
      | none =>
          simp only [found, bindName, Success.stateT_modify_ok] at run
          obtain ⟨same, rfl⟩ := run
          cases same
          exact ⟨covers.bindName (.refl covers.tidy) unbound, Replay.keeps_bindName unbound, rfl⟩
      | some slot =>
          simp only [found, bindName, Success.stateT_bind_ok, Success.lift_ok,
            Success.stateT_modify_ok] at run
          obtain ⟨register, _, s₁, ⟨claimed, rfl⟩, _, _, _, ⟨bound, rfl⟩, logged, rfl⟩ := run
          cases bound
          have bound := covers.bindName (leaving_lockedSlot covers.tidy claimed) unbound
          exact ⟨bound.later ((plain_log _).leaving bound.tidy logged),
            Replay.keeps_bindName unbound, rfl⟩

/-- A register that is given back is freed, unless the block returns it: then it is unlocked. -/
theorem covers_free (run : free site name replay s = .ok (u, replay') s') :
    replay'.temps = replay.temps ∧
      (∀ other, other ≠ name → replay'.names.lookup other = replay.names.lookup other) ∧
      replay'.Covers (fun handle locked => old handle locked ∨
        site.block.returnedName? = some name ∧ ∃ register,
          replay.names.lookup name = some register ∧
            (Operand.reg register).handle? = some handle ∧ locked = false) calls s' := by
  simp only [free, Success.stateT_bind_ok, Success.stateT_get_ok] at run
  obtain ⟨_, _, _, ⟨same, rfl⟩, run⟩ := run
  cases same
  cases found : replay.names.lookup name with
  | none =>
      simp only [found] at run
      obtain ⟨same, rfl⟩ := Success.stateT_pure_ok.mp run
      cases same
      exact ⟨rfl, fun _ _ => rfl, covers.tidy, covers.activations, fun carries =>
        (covers.carried carries).imp_left .inl, covers.unique⟩
  | some register =>
      simp only [found, Success.stateT_bind_ok, Success.stateT_modify_ok,
        Success.stateT_ite_apply] at run
      obtain ⟨_, _, _, ⟨same, rfl⟩, run⟩ := run
      cases same
      have fewer : ∀ {handle}, replay.Has handle → (Operand.reg register).handle? = some handle ∨
          Replay.Has { replay with
            names := replay.names.filter fun entry => entry.1 ≠ name } handle := by
        intro handle has
        simp only [Replay.has_iff] at has ⊢
        rcases has with ⟨entry, member, behind⟩ | others
        · rcases covers.mem_names member found with other | same
          · exact .inr (.inl ⟨entry, List.mem_filter.mpr ⟨member, decide_eq_true other⟩, behind⟩)
          · exact .inl (same ▸ behind)
        · exact .inr (.inr others)
      have unique : ∀ entry ∈ replay.names.filter fun entry => entry.1 ≠ name,
          (replay.names.filter fun entry => entry.1 ≠ name).lookup entry.1 = some entry.2 := by
        intro entry member
        obtain ⟨member, other⟩ := List.mem_filter.mp member
        rw [lookup_drop, if_neg (of_decide_eq_true other)]
        exact covers.unique entry member
      have others : ∀ other, other ≠ name → (replay.names.filter fun entry =>
          entry.1 ≠ name).lookup other = replay.names.lookup other := by
        intro other different
        rw [lookup_drop, if_neg different]
      split at run
      · rename_i returned
        obtain ⟨settled, rfl⟩ := Success.lift_ok.mp run
        obtain ⟨leaves, unlocked⟩ := leaving_settle covers.tidy settled
        have settledBehind : ∀ {handle locked}, s'.draft.Carries handle locked →
            (Operand.reg register).handle? = some handle → ∃ bound,
              some register = some bound ∧ (Operand.reg bound).handle? = some handle ∧
                locked = false := fun carries behind =>
          ⟨register, rfl, behind, unlocked behind carries⟩
        refine ⟨rfl, others, leaves.tidy, leaves.activations.trans covers.activations, ?_, unique⟩
        intro handle locked carries
        rcases leaves.draft.carried carries with earlier | ⟨behind, -⟩
        · rcases covers.carried earlier with known | has
          · exact .inl (.inl known)
          · exact (fewer has).imp_left fun behind =>
              .inr ⟨returned, settledBehind carries behind⟩
        · exact .inl (.inr ⟨returned, settledBehind carries behind⟩)
      · obtain ⟨freed, rfl⟩ := Success.lift_ok.mp run
        obtain ⟨leaves, gone⟩ := leaving_freeAnyway (N := fun _ _ => False) covers.tidy freed
        refine ⟨rfl, others, leaves.tidy, leaves.activations.trans covers.activations, ?_, unique⟩
        intro handle locked carries
        rcases covers.carried ((leaves.draft.carried carries).resolve_right id) with known | has
        · exact .inl (.inl known)
        · exact (fewer has).elim (fun behind => absurd carries (gone behind)) .inr

theorem covers_namedRegister (run : namedRegister site name replay s = .ok (register, replay') s') :
    replay'.Covers old calls s' ∧ replay.Keeps replay' ∧ replay'.temps = replay.temps ∧
      replay'.names.lookup name = some register := by
  simp only [namedRegister, Success.stateT_bind_ok, Success.stateT_get_ok] at run
  obtain ⟨_, _, _, ⟨same, rfl⟩, run⟩ := run
  cases same
  cases found : replay.names.lookup name with
  | some bound =>
      simp only [found] at run
      obtain ⟨same, rfl⟩ := Success.stateT_pure_ok.mp run
      cases same
      exact ⟨covers, .refl _, rfl, found⟩
  | none =>
      simp only [found, bindName, Success.stateT_bind_ok, Success.lift_ok, Success.stateT_modify_ok,
        Success.stateT_pure_ok] at run
      obtain ⟨chosen, _, s₁, ⟨allocated, rfl⟩, _, _, s₂, ⟨locked, rfl⟩, _, _, _, ⟨bound, rfl⟩,
        same, rfl⟩ := run
      cases bound
      cases same
      have first : Leaving (Behind (.reg register)) s s₁ :=
        (leaving_nextRegister covers.tidy allocated).mono fun _ _ behind => behind.1
      refine ⟨covers.bindName (first.trans (leaving_lock first.tidy locked)) found,
        Replay.keeps_bindName found, rfl, ?_⟩
      rw [lookup_put, if_pos rfl]

theorem covers_hardwareRegister {phys : Option Phys} {size : Size}
    (run : hardwareRegister phys size replay s = .ok (register, replay') s') :
    replay'.Covers old calls s' ∧ replay'.names = replay.names ∧
      replay'.temps = replay.temps := by
  have outside : (⟨.fixed phys, size⟩, replay) = (register, replay') → s = s' →
      replay'.Covers old calls s' ∧ replay'.names = replay.names ∧
        replay'.temps = replay.temps := by
    rintro same rfl
    cases same
    exact ⟨covers, rfl, rfl⟩
  unfold hardwareRegister at run
  cases phys with
  | none =>
      obtain ⟨same, same'⟩ := Success.stateT_pure_ok.mp run
      exact outside same same'
  | some phys =>
      cases found : Pool.slotOfPhys? phys with
      | none =>
          simp only [Option.bind_some, found] at run
          obtain ⟨same, same'⟩ := Success.stateT_pure_ok.mp run
          exact outside same same'
      | some slot =>
          simp only [Option.bind_some, found, Success.stateT_bind_ok, Success.stateT_get_ok] at run
          obtain ⟨_, _, _, ⟨same, rfl⟩, run⟩ := run
          cases same
          cases looked : replay.undeclared.lookup phys with
          | some bound =>
              simp only [looked] at run
              obtain ⟨same, rfl⟩ := Success.stateT_pure_ok.mp run
              cases same
              exact ⟨covers, rfl, rfl⟩
          | none =>
              simp only [looked, Success.stateT_bind_ok, Success.lift_ok, Success.stateT_modify_ok,
                Success.stateT_pure_ok] at run
              obtain ⟨chosen, _, s₁, ⟨claimed, rfl⟩, _, _, _, ⟨noted, rfl⟩, same, rfl⟩ := run
              cases noted
              cases same
              have step := leaving_lockedSlot covers.tidy claimed
              refine ⟨covers.step step (fun handle _ behind => ?_) (fun handle has => ?_)
                covers.unique, rfl, rfl⟩
              · exact .inr (Replay.has_iff.mpr (.inr (.inl ⟨_, List.mem_cons_self, behind⟩)))
              · simp only [Replay.has_iff] at has ⊢
                refine has.imp_right (Or.imp_left ?_)
                rintro ⟨entry, member, behind⟩
                exact ⟨entry, List.mem_cons_of_mem _ member, behind⟩

/-- A reference to a declared name means the register that the name is bound to. -/
theorem covers_register {ref : Block.RegRef}
    (run : Replaying.register site ref replay s = .ok (register, replay') s') :
    replay'.Covers old calls s' ∧ replay.Keeps replay' ∧ replay'.temps = replay.temps ∧
      (ref.named = true → ∃ bound, replay'.names.lookup ref.name = some bound ∧
        (Operand.reg register).handle? = (Operand.reg bound).handle?) := by
  simp only [Replaying.register, Success.stateT_ite_apply, Success.ite_apply] at run
  split at run
  · simp only [Success.stateT_bind_ok, Success.stateT_pure_ok] at run
    obtain ⟨bound, _, s₁, ran, same, rfl⟩ := run
    cases same
    obtain ⟨covers', keeps, temps, found⟩ := covers_namedRegister covers ran
    refine ⟨covers', keeps, temps, fun _ => ⟨bound, found, ?_⟩⟩
    split
    · rfl
    · exact Operand.handle?_resize bound ref.size
  · rename_i unnamed
    obtain ⟨covers', names, temps⟩ := covers_hardwareRegister covers run
    exact ⟨covers', .of_names names, temps, fun named => absurd named unnamed⟩

/-- A variable that is not reached through its address takes no register. -/
theorem leaving_variableNamed {ref : Block.VarRef} {result : Operand × Option Variable}
    (direct : site.Direct calls ref.name) (run : variableNamed site ref s = .ok result s') :
    Leaving N s s' := by
  unfold variableNamed at run
  cases found : site.vars.lookup ref.name with
  | none =>
      rw [found] at run
      obtain ⟨_, s₁, reported, run⟩ := Success.bind_ok.mp run
      obtain ⟨_, rfl⟩ := Success.pure_ok.mp run
      exact (plain_report _).leaving covers.tidy reported
  | some id =>
      rw [found] at run
      obtain ⟨operand, s₁, looked, run⟩ := Success.bind_ok.mp run
      obtain ⟨_, rfl⟩ := Success.pure_ok.mp run
      have near : ∀ {offset}, (site.program.var id).byRef = false →
          variableOperand.cell (site.program.var id) offset s = .ok operand s₁ →
          Leaving N s s₁ := by
        intro offset byValue run
        simp only [variableOperand.cell, byValue, Bool.false_eq_true, if_false] at run
        obtain ⟨_, rfl⟩ := Success.pure_ok.mp run
        exact .refl covers.tidy
      unfold variableOperand at looked
      obtain ⟨_, _, got, looked⟩ := Success.bind_ok.mp looked
      obtain ⟨rfl, rfl⟩ := Success.get_ok.mp got
      have reached := direct id found
      rw [← covers.activations] at reached
      rcases reached with byValue | ⟨bound, binding⟩
      · cases binding : s.activations.findSome? fun activation => activation.binding? id with
        | none =>
            rw [binding] at looked
            exact near byValue looked
        | some known =>
            rw [binding] at looked
            cases known with
            | offset offset => exact near byValue looked
            | operand bound =>
                obtain ⟨_, rfl⟩ := Success.pure_ok.mp looked
                exact .refl covers.tidy
      · rw [binding] at looked
        obtain ⟨_, rfl⟩ := Success.pure_ok.mp looked
        exact .refl covers.tidy

theorem covers_materialize {value result : Operand} {v : Option Variable} {written : Bool}
    (run : materialize value v written replay s = .ok (result, replay') s') :
    replay'.Covers old calls s' ∧ replay.Keeps replay' := by
  simp only [materialize, addTemp, addBack, Success.stateT_bind_ok, Success.lift_ok,
    Success.stateT_modify_ok, Success.stateT_ite_apply, Success.ite_apply] at run
  obtain ⟨register, _, s₁, ⟨allocated, rfl⟩, _, _, s₂, ⟨moved, rfl⟩, _, _, _, ⟨noted, rfl⟩,
    run⟩ := run
  cases noted
  have first := (leaving_nextRegister covers.tidy allocated).mono fun _ _ behind => behind.1
  have noted := covers.addTemp (first.trans (leaving_move first.tidy moved))
  split at run
  · simp only [Success.stateT_bind_ok, Success.stateT_modify_ok, Success.stateT_pure_ok] at run
    obtain ⟨_, _, _, ⟨backed, rfl⟩, same, rfl⟩ := run
    cases backed
    cases same
    exact ⟨⟨noted.tidy, noted.activations, noted.carried, noted.unique⟩, .of_names rfl⟩
  · obtain ⟨same, rfl⟩ := Success.stateT_pure_ok.mp run
    cases same
    exact ⟨noted, .of_names rfl⟩

/-- The base of an address.  One that was loaded is not locked, so it is noted as a temporary. -/
theorem covers_baseRegister {ref : Block.BaseRef}
    (direct : ∀ reference, ref = .var reference → site.Direct calls reference.name)
    (run : baseRegister site ref replay s = .ok (register, replay') s') :
    replay'.Covers old calls s' ∧ replay.Keeps replay' ∧
      ((∀ reference, ref ≠ .var reference) → replay'.temps = replay.temps) := by
  cases ref with
  | reg given =>
      obtain ⟨covers', keeps, temps, -⟩ := covers_register covers run
      exact ⟨covers', keeps, fun _ => temps⟩
  | var ref =>
      simp only [baseRegister, addTemp, Success.stateT_bind_ok, Success.lift_ok, temp_ok,
        Success.stateT_ite_apply, Success.ite_apply] at run
      obtain ⟨⟨value, v⟩, _, s₁, ⟨named, rfl⟩, found, _, s₂, ⟨based, rfl⟩, temporary, _, _,
        ⟨⟨known, rfl⟩, rfl⟩, run⟩ := run
      have covers₁ := covers.later (leaving_variableNamed covers (direct ref rfl) named)
      have step := leaving_base covers₁.tidy based
      split at run
      · simp only [Success.stateT_bind_ok, Success.stateT_modify_ok, Success.stateT_pure_ok] at run
        obtain ⟨_, _, _, ⟨noted, rfl⟩, same, rfl⟩ := run
        cases noted
        cases same
        exact ⟨covers₁.addTemp (step.mono fun _ _ behind => behind.1), .of_names rfl,
          fun other => absurd rfl (other ref)⟩
      · rename_i notTemporary
        obtain ⟨same, rfl⟩ := Success.stateT_pure_ok.mp run
        cases same
        refine ⟨⟨step.tidy, step.activations.trans covers₁.activations, fun carries => ?_,
          covers₁.unique⟩, .refl _, fun _ => rfl⟩
        rcases step.draft.carried carries with earlier | ⟨behind, rfl⟩
        · exact covers₁.carried earlier
        · exact absurd (isTemp_of_carries step.tidy behind carries) (known ▸ notTemporary)

omit covers in
theorem accepts_anyPosition (value : Operand) : anyPosition.accepts (kindOf value) = true := by
  cases value <;> rfl

/-- An operand takes registers that are accounted for.  As the value of a block it takes no
temporary, unless it is a cell whose base is a variable. -/
theorem covers_term {position : Block.Position} {operand : Block.Term} {result : Operand}
    (direct : ∀ name, operand.mentioned? = some name → site.Direct calls name)
    (run : term site position operand replay s = .ok (result, replay') s') :
    replay'.Covers old calls s' ∧ replay.Keeps replay' ∧ replay'.Refers operand result ∧
      (position = anyPosition → (∀ pos size reference disp,
        operand ≠ .mem pos size (.var reference) disp) → replay'.temps = replay.temps) := by
  cases operand with
  | reg ref =>
      obtain ⟨register, ran, rfl⟩ := Success.stateT_map_ok.mp run
      obtain ⟨covers', keeps, temps, refers⟩ := covers_register covers ran
      refine ⟨covers', keeps, ?_, fun _ _ => temps⟩
      rintro _ ⟨⟩ named
      obtain ⟨bound, found, behind⟩ := refers named
      exact ⟨bound, register, found, rfl, behind⟩
  | lit pos value =>
      obtain ⟨same, rfl⟩ := Success.stateT_pure_ok.mp run
      cases same
      exact ⟨covers, .refl _, by simp [Replay.Refers], fun _ _ => rfl⟩
  | mem pos size ref disp =>
      simp only [term, Success.stateT_bind_ok, Success.stateT_pure_ok] at run
      obtain ⟨register, _, s₁, ran, same, rfl⟩ := run
      cases same
      obtain ⟨covers', keeps, temps⟩ := covers_baseRegister covers (by
        rintro reference rfl
        exact direct reference.name rfl) ran
      refine ⟨covers', keeps, by simp [Replay.Refers], fun _ noVariable => temps ?_⟩
      rintro reference rfl
      exact noVariable pos size reference disp rfl
  | var ref =>
      simp only [term, Success.stateT_bind_ok, Success.lift_ok, Success.stateT_ite_apply,
        Success.ite_apply] at run
      obtain ⟨⟨value, v⟩, _, s₁, ⟨named, rfl⟩, run⟩ := run
      have covers₁ := covers.later (leaving_variableNamed covers (direct ref.name rfl) named)
      split at run
      · obtain ⟨same, rfl⟩ := Success.stateT_pure_ok.mp run
        cases same
        exact ⟨covers₁, .refl _, by simp [Replay.Refers], fun _ _ => rfl⟩
      · rename_i refused
        obtain ⟨covers', keeps⟩ := covers_materialize covers₁ run
        refine ⟨covers', keeps, by simp [Replay.Refers], ?_⟩
        rintro rfl
        exact absurd (accepts_anyPosition value) refused

theorem covers_terms {terms : List (Block.Term × Block.Position)} {operands : List Operand}
    (direct : ∀ item ∈ terms, ∀ name, item.1.mentioned? = some name → site.Direct calls name)
    (run : (terms.mapM fun (operand, position) => term site position operand) replay s =
      .ok (operands, replay') s') :
    replay'.Covers old calls s' ∧ replay.Keeps replay' ∧
      List.Forall₂ (fun item => replay'.Refers item.1) terms operands := by
  induction terms generalizing s replay operands with
  | nil =>
      obtain ⟨same, rfl⟩ := Success.stateT_pure_ok.mp run
      cases same
      exact ⟨covers, .refl _, .nil⟩
  | cons entry rest inductionHypothesis =>
      simp only [List.mapM_cons, Success.stateT_bind_ok, Success.stateT_pure_ok] at run
      obtain ⟨operand, _, s₁, ran, others, _, s₂, run, same, rfl⟩ := run
      cases same
      obtain ⟨covers₁, first, refers, -⟩ := covers_term covers (direct entry List.mem_cons_self) ran
      obtain ⟨covers₂, second, others⟩ := inductionHypothesis covers₁
        (fun other member => direct other (List.mem_cons_of_mem _ member)) run
      exact ⟨covers₂, first.trans second, .cons (refers.keeps second) others⟩

theorem covers_splitCells {operands results : List Operand}
    (run : splitCells operands replay s = .ok (results, replay') s') :
    replay'.Covers old calls s' ∧ replay.Keeps replay' ∧
      ∀ register rest, operands = .reg register :: rest → results = operands := by
  unfold splitCells at run
  split at run
  · rename_i dst src
    simp only [addTemp, Success.stateT_bind_ok, Success.lift_ok, Success.stateT_modify_ok,
      Success.stateT_pure_ok] at run
    obtain ⟨register, _, s₁, ⟨allocated, rfl⟩, _, _, s₂, ⟨emitted, rfl⟩, _, _, _, ⟨noted, rfl⟩,
      same, rfl⟩ := run
    cases noted
    cases same
    have first := (leaving_nextRegister covers.tidy allocated).mono fun _ _ behind => behind.1
    have both := first.trans ((plain_emit _).leaving first.tidy emitted)
    exact ⟨covers.addTemp both, .of_names rfl, by simp⟩
  · obtain ⟨same, rfl⟩ := Success.stateT_pure_ok.mp run
    cases same
    exact ⟨covers, .refl _, fun _ _ _ => rfl⟩

/-- Behind an instruction, its temporaries are gone. -/
theorem covers_settleInstr (run : settleInstr replay s = .ok (u, replay') s') :
    replay'.Covers old calls s' ∧ replay'.names = replay.names ∧ replay'.temps = [] := by
  simp only [settleInstr, Success.stateT_bind_ok, Success.stateT_get_ok,
    Success.stateT_set_ok] at run
  obtain ⟨_, _, _, ⟨same, rfl⟩, _, _, s₁, moved, _, _, s₂, freed, same', rfl⟩ := run
  cases same
  cases same'
  obtain ⟨copied, rfl⟩ := Success.forM_of_lifted moved
  obtain ⟨dropped, rfl⟩ := Success.forM_of_lifted freed
  have moves : Leaving (fun _ _ => False) s s₁ :=
    leaving_forM covers.tidy (fun _ _ _ _ _ tidy ran => leaving_move tidy ran) copied
  have first := covers.later moves
  obtain ⟨second, gone⟩ := leaving_freeAll (N := fun _ _ => False) first.tidy dropped
  have covers₂ := first.later second
  refine ⟨⟨covers₂.tidy, covers₂.activations, fun carries => ?_, covers₂.unique⟩, rfl, rfl⟩
  refine (covers₂.carried carries).imp_right fun has => ?_
  simp only [Replay.has_iff] at has ⊢
  rcases has with known | known | ⟨register, member, behind⟩
  · exact .inl known
  · exact .inr (.inl known)
  · exact absurd carries (gone register member behind)

omit covers in
/-- Fitting the widths leaves a register in its place. -/
theorem fitOperands_reg (op : Op) (register : Register) (rest : List Operand) :
    ∃ fitted others, fitOperands op (.reg register :: rest) = .reg fitted :: others ∧
      (Operand.reg fitted).handle? = (Operand.reg register).handle? := by
  have sizes : ∃ others, (if op = .lea then Operand.reg register :: rest
      else (Operand.reg register :: rest).map (sized (cellSize (.reg register :: rest)))) =
        .reg register :: others := by
    split
    · exact ⟨rest, rfl⟩
    · exact ⟨_, rfl⟩
  obtain ⟨others, sizes⟩ := sizes
  unfold fitOperands
  dsimp only
  rw [sizes]
  split
  · rename_i same
    cases same
    exact ⟨register.resize .s8, others, rfl, Operand.handle?_resize register .s8⟩
  · exact ⟨register, others, rfl, rfl⟩

/-- Behind an instruction, what the pool carries is accounted for without temporaries.  Its first
operand means what it referred to. -/
theorem covers_instr {instruction : Block.Instruction} {operands : List Operand}
    (arity : instruction.operands.length = instruction.spec.positions.length)
    (direct : ∀ operand ∈ instruction.operands, ∀ name, operand.mentioned? = some name →
      site.Direct calls name)
    (run : instr site instruction replay s = .ok (operands, replay') s') :
    replay'.Covers old calls s' ∧ replay.Keeps replay' ∧ replay'.temps = [] ∧
      ∀ ref, instruction.operands.head? = some (.reg ref) → ref.named = true →
        ∃ operand, operands.head? = some operand ∧ replay'.Refers (.reg ref) operand := by
  simp only [instr, Success.stateT_bind_ok, Success.lift_ok, Success.stateT_pure_ok] at run
  obtain ⟨given, replay₁, s₁, evaluated, results, replay₂, s₂, split, instr, _, s₃, ⟨built, rfl⟩,
    _, _, s₄, ⟨emitted, rfl⟩, _, _, s₅, settled, same, rfl⟩ := run
  cases same
  obtain ⟨covers₁, keeps₁, refers⟩ := covers_terms covers (fun item member =>
    direct item.1 (List.of_mem_zip member).1) evaluated
  obtain ⟨covers₂, keeps₂, stays⟩ := covers_splitCells covers₁ split
  have covers₃ := covers₂.later ((plain_instrOf instruction operands).leaving covers₂.tidy built)
  have covers₄ := covers₃.later ((plain_emit _).leaving covers₃.tidy emitted)
  obtain ⟨covers₅, names, temps⟩ := covers_settleInstr covers₄ settled
  have keeps₃ := Replay.Keeps.of_names names
  refine ⟨covers₅, (keeps₁.trans keeps₂).trans keeps₃, temps, fun ref written named => ?_⟩
  obtain ⟨more, written⟩ := List.head?_eq_some_iff.mp written
  rw [written] at refers arity
  cases positions : instruction.spec.positions with
  | nil => simp [positions] at arity
  | cons position rest =>
      rw [positions, List.zip_cons_cons] at refers
      cases refers with
      | @cons _ first _ others meant _ =>
          obtain ⟨bound, register, found, rfl, behind⟩ := meant ref rfl named
          obtain ⟨fitted, last, fits, same⟩ := fitOperands_reg instruction.spec.op register others
          refine ⟨.reg fitted, by rw [stays fitted last fits, fits]; rfl, ?_⟩
          rintro _ ⟨⟩ _
          exact ⟨bound, fitted, keeps₃ _ _ (keeps₂ _ _ found), rfl, same.trans behind⟩

end Replaying

end X64Backend.Lower
