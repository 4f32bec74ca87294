import X64Backend.Proofs.Lower.Statements

/-!
The pool where code with branches begins.  The accumulator is free, unless the pool is full, so no
value has to leave it on one path only.  And inside an expansion every value is locked.
-/

namespace X64Backend

open Pool

namespace Draft

/-- No value can be driven out of the accumulator. -/
def Clear (draft : Draft) : Prop :=
  draft.pool.occupant? accumulator = none ∨ ∀ slot, draft.pool.occupant? slot ≠ none

/-- Every value is locked. -/
def Locked (draft : Draft) : Prop :=
  ∀ slot occupant, draft.pool.occupant? slot = some occupant → occupant.locked = true

theorem Locked.held {draft : Draft} (locked : draft.Locked) (handle : Handle) :
    draft.Held handle := by
  rintro lock ⟨slot, occupant, occupied, _, rfl⟩
  exact locked slot occupant occupied

theorem Clear.congr {draft draft' : Draft} (clear : draft.Clear)
    (same : ∀ slot, draft'.pool.occupant? slot = none ↔ draft.pool.occupant? slot = none) :
    draft'.Clear := by
  rcases clear with free | full
  · exact .inl ((same accumulator).mpr free)
  · exact .inr fun slot empty => full slot ((same slot).mp empty)

theorem reserve_frees {draft draft' : Draft} {u : Unit}
    (run : Drafting.reserve draft = .ok u draft') : draft'.pool.occupant? accumulator = none := by
  rcases Drafting.reserve_ok run with
    ⟨empty, rfl⟩ | ⟨occupant, free, message, _, _, _, ⟨_, _, rfl⟩ | rfl⟩
  · exact empty
  · simp [renamed, traced]
  · simp [shift, traced]

/-- A value that is freed by force leaves its slot and nothing else. -/
theorem free_forced {draft draft' : Draft} {slot : Slot} {handle : Handle} {size : Size}
    {freed : Bool} (tidy : draft.Tidy) (here : draft.Holds slot handle)
    (run : Drafting.free (.reg ⟨.slot handle, size⟩) true draft = .ok freed draft') :
    draft' = draft.refill slot none := by
  have found : draft.slotOf? (.reg ⟨.slot handle, size⟩) = some slot :=
    tidy.slotOf?_eq_some_iff.mpr ⟨handle, rfl, here⟩
  simp only [Drafting.free, Success.bind_ok, Success.get_ok] at run
  obtain ⟨_, _, ⟨rfl, rfl⟩, run⟩ := run
  simp only [found, Bool.not_true, Bool.and_false, Bool.false_eq_true, if_false, Success.bind_ok,
    Success.set_ok, Success.pure_ok] at run
  obtain ⟨_, _, rfl, _, rfl⟩ := run
  rfl

end Draft

namespace Lower

open X64Backend.Tree

variable {guarded : Handle → Prop} {s s' : State} {u : Unit}

theorem clear_reserveIfBusy (run : reserveIfBusy s = .ok u s') : s'.draft.Clear := by
  unfold reserveIfBusy at run
  obtain ⟨_, _, got, run⟩ := Success.bind_ok.mp run
  obtain ⟨rfl, rfl⟩ := Success.get_ok.mp got
  simp only [Success.ite_apply] at run
  split at run
  · obtain ⟨draft, drafted, rfl⟩ := drafting_ok.mp run
    exact .inl (Draft.reserve_frees drafted)
  · rename_i idle
    obtain ⟨_, rfl⟩ := Success.pure_ok.mp run
    simp only [Bool.and_eq_true, decide_eq_true_eq, not_and, Nat.not_lt, Nat.le_zero_eq] at idle
    by_cases occupied : s.draft.pool.isOccupied accumulator = true
    · right
      have full : allSlots.countP s.draft.pool.isOccupied = allSlots.length := by
        have bounded := List.countP_le_length (p := s.draft.pool.isOccupied) (l := allSlots)
        have none := idle occupied
        simp only [freeCount, liveCount, slotCount] at none
        have six : allSlots.length = 6 := rfl
        omega
      intro slot empty
      have every := List.countP_eq_length.mp full slot (mem_allSlots slot)
      simp [isOccupied, empty] at every
    · left
      simpa [isOccupied] using occupied

/-- A temporary on the way leaves the pool as it was. -/
theorem occupants_viaTemp {dst : Operand} {fill : Register → Gen Unit} (tidy : s.draft.Tidy)
    (plain : ∀ register, Plain (fill register)) (run : viaTemp dst fill s = .ok u s') (slot : Slot) :
    s'.draft.pool.occupant? slot = s.draft.pool.occupant? slot := by
  simp only [viaTemp, Success.bind_ok] at run
  obtain ⟨register, s₁, allocated, _, s₂, filled, _, s₃, emitted, freed⟩ := run
  obtain ⟨draft, drafted, rfl⟩ := drafting_ok.mp allocated
  obtain ⟨chosen, empty, _, rfl, rfl⟩ := Drafting.nextRegister_ok drafted
  have tidy₁ : (s.draft.issue chosen .used).Tidy := tidy.issue fun other => absurd rfl other
  have quiet := (plain _ _ _ _ filled).trans (plain_emit _ _ _ _ emitted)
  obtain ⟨_, s₄, freeing, rest⟩ := Success.bind_ok.mp freed
  obtain ⟨_, rfl⟩ := Success.pure_ok.mp rest
  obtain ⟨draft, drafted', rfl⟩ := drafting_ok.mp freeing
  have here : s₃.draft.Holds chosen s.draft.timeline.count := by
    unfold Draft.Holds
    rw [quiet.pool, Draft.occupant?_issue, if_pos rfl]
    rfl
  rw [Draft.free_forced (quiet.tidy tidy₁) here drafted', Draft.occupant?_refill, quiet.pool,
    Draft.occupant?_issue]
  split
  · rename_i same
    rw [same, empty]
  · rfl

theorem occupants_move {dst src : Operand} {signed : Bool} {order : ChunkOrder}
    (tidy : s.draft.Tidy) (run : move dst src signed order s = .ok u s') (slot : Slot) :
    s'.draft.pool.occupant? slot = s.draft.pool.occupant? slot := by
  have plain : ∀ {action : Gen Unit}, Plain action → action s = .ok u s' →
      s'.draft.pool.occupant? slot = s.draft.pool.occupant? slot := by
    intro action plain run
    rw [(plain _ _ _ run).pool]
  cases src with
  | absent => simp [move] at run
  | lit literal => exact plain (plain_storeLiteral dst literal order) run
  | reg register =>
      cases dst with
      | reg target => exact plain (plain_moveRegister target register signed) run
      | _ =>
          simp only [move, Success.ite_apply] at run
          split at run
          · exact plain (plain_emit _) run
          · exact occupants_viaTemp tidy (fun temporary => plain_widen _ _ _) run slot
  | mem cell =>
      cases dst with
      | reg target => exact plain (plain_moveCell target cell signed) run
      | _ => exact occupants_viaTemp tidy (fun temporary => plain_moveCell _ _ _) run slot

/-- Storage that lasts across branches is not the accumulator.  Once it is locked, the pool is as
clear as before, and all the new value is locked. -/
theorem occupants_stable {size : Size} {operand : Operand} (run : stable size s = .ok operand s') :
    (∃ chosen, chosen ≠ accumulator ∧ s.draft.pool.occupant? chosen = none ∧
      operand.handle? = some s.draft.timeline.count ∧
      ∀ slot, s'.draft.pool.occupant? slot =
        if slot = chosen then some ⟨s.draft.timeline.count, .used, false, false⟩
        else s.draft.pool.occupant? slot) ∨
    operand.handle? = none ∧ s'.draft.pool = s.draft.pool := by
  unfold stable at run
  obtain ⟨_, _, got, run⟩ := Success.bind_ok.mp run
  obtain ⟨rfl, rfl⟩ := Success.get_ok.mp got
  simp only [Success.ite_apply] at run
  split at run
  · rename_i room
    left
    obtain ⟨register, s₁, allocated, run⟩ := Success.bind_ok.mp run
    obtain ⟨rfl, rfl⟩ := Success.pure_ok.mp run
    obtain ⟨draft, drafted, rfl⟩ := drafting_ok.mp allocated
    obtain ⟨chosen, empty, last, rfl, rfl⟩ := Drafting.nextRegister_ok drafted
    refine ⟨chosen, ?_, empty, rfl, ?_⟩
    · intro same
      obtain ⟨slot, member, free⟩ := List.any_eq_true.mp room
      refine last same slot (mem_savedSlots.mp member) ?_
      simpa using free
    · intro slot
      simpa using Draft.occupant?_issue s.draft chosen slot .used
  · right
    obtain ⟨_, s₁, logged, run⟩ := Success.bind_ok.mp run
    have quiet := (plain_log _ _ _ _ logged).trans (plain_stackTemp _ _ _ _ run)
    refine ⟨?_, quiet.pool⟩
    simp only [stackTemp, Success.bind_ok, Success.pure_ok] at run
    obtain ⟨_, _, _, _, _, _, rfl, _⟩ := run
    rfl

theorem clear_stable {size : Size} {operand : Operand} (clear : s.draft.Clear)
    (run : stable size s = .ok operand s') : s'.draft.Clear := by
  rcases occupants_stable run with ⟨chosen, saved, empty, _, occupants⟩ | ⟨_, same⟩
  · rcases clear with free | full
    · left
      rw [occupants, if_neg saved.symm]
      exact free
    · exact absurd empty (full chosen)
  · refine clear.congr fun slot => ?_
    rw [same]

theorem clear_lock {operand : Operand} (tidy : s.draft.Tidy) (clear : s.draft.Clear)
    (run : drafting (Drafting.lock operand) s = .ok u s') : s'.draft.Clear := by
  obtain ⟨draft, drafted, rfl⟩ := drafting_ok.mp run
  obtain rfl := Success.modify_ok.mp drafted
  refine clear.congr fun slot => ?_
  rw [tidy.occupant?_adjust]
  exact Option.map_eq_none_iff

/-- The sides of a logical operator begin with a clear accumulator. -/
theorem clear_logicalStart {start : Operand × String × String} (ready : Ready guarded s)
    (run : logicalStart s = .ok start s') : s'.draft.Clear := by
  simp only [logicalStart, Success.bind_ok, Success.pure_ok] at run
  obtain ⟨_, s₁, reserved, dst, s₂, chosen, _, s₃, locked, no, s₄, labelled, done, s₅, labelled',
    rfl, rfl⟩ := run
  have one := steady_reserveIfBusy (C := fun _ => True) ready reserved
  have two := one.trans (steady_stable (one.ready ready) chosen).1
  have clear := clear_lock (two.ready ready).tidy
    (clear_stable (clear_reserveIfBusy reserved) chosen) locked
  have quiet := (plain_newLabel _ _ _ labelled).trans (plain_newLabel _ _ _ labelled')
  refine clear.congr fun slot => ?_
  rw [quiet.pool]

/-- A copy of an argument is the only new value, and it is locked. -/
theorem copyArgument_ok {C : Slot → Prop} {program : TypedProgram} {body : List Stmt}
    {id : VarId} {v : Variable} {argument copy : Operand} (prepared : Prepared s)
    (clear : s.draft.Clear) (locked : s.draft.Locked)
    (run : copyArgument program body id v argument s = .ok copy s') :
    Steady (Issued s) C s s' ∧ Fresh (Issued s) s' copy ∧ s'.draft.Clear ∧
      s'.draft.Locked := by
  have rest : ∀ {s₁ chosen}, Steady (Issued s) C s s₁ → Fresh (Issued s) s₁ chosen →
      s₁.draft.Clear → (∀ slot occupant, s₁.draft.pool.occupant? slot = some occupant →
        occupant.locked = true ∨ chosen.handle? = some occupant.handle) → (do
        move chosen argument v.type.isSigned .lowFirst
        drafting (Drafting.lock chosen)
        return chosen : Gen Operand) s₁ = .ok copy s' →
      Steady (Issued s) C s s' ∧ Fresh (Issued s) s' copy ∧ s'.draft.Clear ∧
        s'.draft.Locked := by
    intro s₁ chosen one fresh clear locked run
    simp only [Success.bind_ok, Success.pure_ok] at run
    obtain ⟨_, s₂, moved, _, s₃, lockedRun, rfl, rfl⟩ := run
    have ready₁ := one.ready prepared
    have occupants := occupants_move ready₁.tidy moved
    have two := steady_move (C := C) ready₁ moved
    have ready₂ := two.ready ready₁
    have three := steady_lock (C := C) ready₂ (fresh.steady two) lockedRun
    refine ⟨one.trans (two.trans three), fresh.steady (two.trans three), ?_, ?_⟩
    · refine clear_lock ready₂.tidy (clear.congr fun slot => ?_) lockedRun
      rw [occupants]
    · obtain ⟨draft, drafted, rfl⟩ := drafting_ok.mp lockedRun
      obtain rfl := Success.modify_ok.mp drafted
      intro slot occupant occupied
      rw [ready₂.tidy.occupant?_adjust, occupants] at occupied
      obtain ⟨before, found, rfl⟩ := Option.map_eq_some_iff.mp occupied
      split
      · rfl
      · rename_i other
        exact (locked slot before found).resolve_right other
  simp only [copyArgument, Success.ite_apply] at run
  split at run
  · obtain ⟨chosen, s₁, reserved, run⟩ := Success.bind_ok.mp run
    have quiet := plain_stackTemp _ _ _ _ reserved
    refine rest (quiet.steady prepared) (Fresh.of_none ?_) (clear.congr fun slot => ?_) ?_ run
    · simp only [stackTemp, Success.bind_ok, Success.pure_ok] at reserved
      obtain ⟨_, _, _, _, _, _, rfl, _⟩ := reserved
      rfl
    · rw [quiet.pool]
    · intro slot occupant occupied
      rw [quiet.pool] at occupied
      exact .inl (locked slot occupant occupied)
  · obtain ⟨chosen, s₁, allocated, run⟩ := Success.bind_ok.mp run
    obtain ⟨one, fresh⟩ := steady_stable (C := C) prepared allocated
    refine rest one fresh (clear_stable clear allocated) ?_ run
    intro slot occupant occupied
    rcases occupants_stable allocated with ⟨taken, _, _, behind, occupants⟩ | ⟨_, same⟩
    · rw [occupants] at occupied
      split at occupied
      · cases occupied
        exact .inr behind
      · exact .inl (locked slot occupant occupied)
    · rw [same] at occupied
      exact .inl (locked slot occupant occupied)

end Lower

end X64Backend
