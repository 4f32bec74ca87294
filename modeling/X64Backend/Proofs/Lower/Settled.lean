import X64Backend.Proofs.Lower.Balance
import X64Backend.Proofs.Lower.Handover

/-!
The histories of a call are settled when the call is done.  Only a value in the accumulator that was
not put there by the hardware is ever renamed for its whole life, and the result of a call was.  So
whatever the generator does next, the code of the call names the registers that it named before.
-/

namespace X64Backend

open Pool

namespace Draft

/-- Up to a tick it is settled where the first handles have been: they were born before it, and none
of them can be renamed. -/
structure Settled (count : Handle) (reached : Nat) (draft : Draft) : Prop where
  clock : reached ≤ draft.text.clock
  issued : count ≤ draft.timeline.count
  born : ∀ handle < count, draft.timeline.born handle < reached
  fixed : ∀ occupant, draft.pool.occupant? accumulator = some occupant → occupant.handle < count →
    occupant.implicit = true

/-- Two drafts agree on where the first handles have been up to a tick. -/
def Recalls (count : Handle) (reached : Nat) (draft draft' : Draft) : Prop :=
  ∀ handle tick, handle < count → tick < reached →
    draft'.timeline.placeAt handle tick = draft.timeline.placeAt handle tick

variable {draft draft' : Draft} {count : Handle} {reached : Nat}

/-- Nothing but the code behind the tick has changed. -/
theorem Settled.congr (settled : Settled count reached draft)
    (clock : draft.text.clock ≤ draft'.text.clock)
    (pool : ∀ slot, draft'.pool.occupant? slot = draft.pool.occupant? slot)
    (timeline : draft'.timeline = draft.timeline) :
    Settled count reached draft' ∧ Recalls count reached draft draft' := by
  refine ⟨⟨Nat.le_trans settled.clock clock, ?_, ?_, ?_⟩, ?_⟩
  · rw [timeline]
    exact settled.issued
  · rw [timeline]
    exact settled.born
  · intro occupant occupied
    rw [pool] at occupied
    exact settled.fixed occupant occupied
  · intro handle tick _ _
    rw [timeline]

theorem Settled.issue (settled : Settled count reached draft) (slot : Slot) (claim : Claim) :
    Settled count reached (draft.issue slot claim) ∧
      Recalls count reached draft (draft.issue slot claim) := by
  have known : ∀ handle < count,
      (draft.issue slot claim).timeline.history? handle = draft.timeline.history? handle := by
    intro handle early
    have issued := Nat.lt_of_lt_of_le early settled.issued
    rw [history?_issue, if_neg (Nat.ne_of_lt issued)]
  refine ⟨⟨settled.clock, ?_, ?_, ?_⟩, ?_⟩
  · rw [count_issue]
    exact Nat.le_succ_of_le settled.issued
  · intro handle early
    rw [Timeline.born, known handle early]
    exact settled.born handle early
  · intro occupant occupied early
    rw [occupant?_issue] at occupied
    split at occupied
    · cases Option.some.inj occupied
      exact absurd settled.issued (Nat.not_le_of_lt early)
    · exact settled.fixed occupant occupied early
  · intro handle tick early _
    rw [Timeline.placeAt, known handle early]
    rfl

theorem Settled.shift (settled : Settled count reached draft) (slot : Slot) {free : Slot}
    (elsewhere : free ≠ accumulator) (occupant : Occupant) :
    Settled count reached (draft.shift slot free occupant) ∧
      Recalls count reached draft (draft.shift slot free occupant) := by
  refine ⟨⟨Nat.le_succ_of_le settled.clock, ?_, ?_, ?_⟩, ?_⟩
  · rw [count_shift]
    exact settled.issued
  · intro handle early
    rw [born_shift]
    exact settled.born handle early
  · intro other occupied early
    rw [occupant?_shift, if_neg (Ne.symm elsewhere)] at occupied
    split at occupied
    · contradiction
    · exact settled.fixed other occupied early
  · intro handle tick early before
    exact placeAt_shift_of_lt draft slot free occupant
      (Nat.lt_of_lt_of_le (settled.born handle early) settled.clock)
      (Nat.lt_of_lt_of_le before settled.clock)

theorem Settled.renamed (settled : Settled count reached draft) (free : Slot) {occupant : Occupant}
    (occupied : draft.pool.occupant? accumulator = some occupant)
    (ordinary : occupant.implicit = false) :
    Settled count reached (draft.renamed free occupant) ∧
      Recalls count reached draft (draft.renamed free occupant) := by
  -- what can be renamed is newer than all that is settled
  have other : ∀ handle < count, handle ≠ occupant.handle := by
    rintro handle early rfl
    simp [settled.fixed occupant occupied early] at ordinary
  refine ⟨⟨settled.clock, ?_, ?_, ?_⟩, ?_⟩
  · rw [count_renamed]
    exact settled.issued
  · intro handle early
    rw [born_renamed]
    exact settled.born handle early
  · intro occupant' occupied'
    simp [occupant?_renamed] at occupied'
  · intro handle tick early _
    exact placeAt_renamed_of_ne draft free occupant (other handle early)

theorem Settled.refill (settled : Settled count reached draft) (slot : Slot)
    {contents : Option Occupant}
    (marks : ∀ marked, contents = some marked → ∃ occupant,
      draft.pool.occupant? slot = some occupant ∧ marked.handle = occupant.handle ∧
        marked.implicit = occupant.implicit) :
    Settled count reached (draft.refill slot contents) ∧
      Recalls count reached draft (draft.refill slot contents) := by
  refine ⟨⟨settled.clock, settled.issued, settled.born, ?_⟩, fun _ _ _ _ => rfl⟩
  intro marked occupied early
  rw [occupant?_refill] at occupied
  split at occupied
  · rename_i here
    obtain ⟨occupant, found, same, implicit⟩ := marks marked occupied
    rw [implicit]
    exact settled.fixed occupant (here ▸ found) (same ▸ early)
  · exact settled.fixed marked occupied early

theorem Step.settled (step : Step draft draft') (settled : Settled count reached draft) :
    Settled count reached draft' ∧ Recalls count reached draft draft' := by
  cases step with
  | @issue slot claim _ _ => exact settled.issue slot claim
  | @shift slot free occupant _ _ _ elsewhere => exact settled.shift slot elsewhere occupant
  | @rename free occupant occupied ordinary => exact settled.renamed free occupied ordinary
  | @mark slot occupant marked occupied same implicit =>
    apply settled.refill
    rintro _ ⟨⟩
    exact ⟨occupant, occupied, same, implicit⟩
  | drop slot =>
    apply settled.refill
    intro marked impossible
    contradiction
  | trace => exact settled.congr (Nat.le_refl _) (fun _ => rfl) rfl

end Draft

namespace Lower

open Machine X64Backend.Tree

variable {program : TypedProgram} {since : Handle} {c c' : Config} {count : Handle} {reached : Nat}

/-- What is settled stays so, whatever the generator does. -/
theorem Move.settled (move : Move program since c c')
    (settled : c.state.draft.Settled count reached) :
    c'.state.draft.Settled count reached ∧
      c.state.draft.Recalls count reached c'.state.draft := by
  have clock := move.clock_le
  cases move with
  | draft step => exact step.settled settled
  | note noted =>
    exact settled.congr clock (fun slot => congrArg (Pool.occupant? · slot) noted.pool)
      noted.timeline
  | _ => exact settled.congr clock (fun _ => rfl) rfl

theorem Moves.settled (moves : Moves program since c c')
    (settled : c.state.draft.Settled count reached) :
    c'.state.draft.Settled count reached ∧
      c.state.draft.Recalls count reached c'.state.draft := by
  induction moves with
  | refl => exact ⟨settled, fun _ _ _ _ => rfl⟩
  | tail _ last inductionHypothesis =>
    obtain ⟨middle, recalls⟩ := inductionHypothesis
    obtain ⟨final, recalls'⟩ := last.settled middle
    refine ⟨final, ?_⟩
    intro handle tick early before
    rw [recalls' handle tick early before, recalls handle tick early before]

/-- Behind a cleared accumulator the result of a call is the only value in it. -/
theorem implicit_callResult {size : Size} {s s' : State} {result : Operand}
    (empty : s.draft.pool.occupant? Pool.accumulator = none)
    (run : callResult size s = .ok result s') {occupant : Pool.Occupant}
    (occupied : s'.draft.pool.occupant? Pool.accumulator = some occupant) :
    occupant.implicit = true := by
  simp only [callResult, Success.ite_apply] at run
  split at run
  · obtain ⟨_, rfl⟩ := Success.pure_ok.mp run
    rw [empty] at occupied
    contradiction
  · obtain ⟨register, s₁, allocated, returned⟩ := Success.bind_ok.mp run
    obtain ⟨_, rfl⟩ := Success.pure_ok.mp returned
    obtain ⟨draft, drafted, rfl⟩ := drafting_ok.mp allocated
    obtain ⟨_, _, rfl⟩ := Drafting.callAlloc_ok drafted
    rw [Draft.occupant?_issue, if_pos rfl] at occupied
    cases occupied
    rfl

/-- The transfer of control takes time. -/
theorem clock_lt_transfer {fn : Function} {isVirtual : Bool} {s s' : State} {u : Unit}
    (run : emit (transfer fn isVirtual) s = .ok u s') :
    s.draft.text.clock < s'.draft.text.clock := by
  obtain rfl := Success.modify_ok.mp run
  cases isVirtual with
  | false => exact Nat.lt_succ_self _
  | true => exact Nat.lt_succ_of_lt (Nat.lt_succ_self _)

/-- When a call is done, it is settled where all values have been. -/
theorem emitCall_settled {fn : Function} {arguments : List Operand} {isVirtual : Bool}
    {guarded : Handle → Prop} {s s' : State} {result : Operand} (ready : Ready guarded s)
    (owned : ∀ argument ∈ arguments, Owned guarded s argument)
    (run : emitCall fn arguments isVirtual s = .ok result s') :
    s'.draft.Settled s'.draft.timeline.count s'.draft.text.clock := by
  simp only [emitCall, Success.bind_ok, Success.get_ok, Success.pure_ok] at run
  obtain ⟨words, s₁, passed, _, _, ⟨rfl, rfl⟩, _, s₂, reserved, _, s₃, allocated, _, s₄, tracked,
    _, s₅, emitted, _, s₆, changed, _, s₇, reclaimed, rfl, rfl⟩ := run
  have first := steady_passArguments (C := fun _ => False) ready owned passed
  have second := first.trans (steady_reserve (first.ready ready) reserved)
  have third := (steady_callResult (C := fun _ => False) (second.ready ready) allocated).1
  have before : Quiet s₃ s₄ := plain_tracking _ _ _ _ tracked
  have behind : Quiet s₅ s₇ :=
    (plain_modifyFrame _ _ _ _ changed).trans (plain_reclaim _ _ _ _ _ reclaimed)
  have quiet : Quiet s₃ s₇ := (before.trans (plain_emit _ _ _ _ emitted)).trans behind
  have clock : s₃.draft.text.clock < s₇.draft.text.clock :=
    Nat.lt_of_lt_of_le (Nat.lt_of_le_of_lt before.clock (clock_lt_transfer emitted)) behind.clock
  refine ⟨Nat.le_refl _, Nat.le_refl _, ?_, ?_⟩
  · intro handle _
    rw [quiet.timeline]
    exact Nat.lt_of_le_of_lt (third.guards.tidy.born_le_clock handle) clock
  · intro occupant occupied _
    rw [quiet.pool] at occupied
    obtain ⟨draft, drafted, rfl⟩ := drafting_ok.mp reserved
    exact implicit_callResult (Draft.reserve_frees drafted) allocated occupied

/-- In an image with the histories that the generator ends with, the code of a call finds its values
where the histories told when the call was done. -/
theorem Hosts.of_moves {image : Image} {s : State} {index : Nat} {code : List Entry}
    (moves : Moves program since c c')
    (settled : c.state.draft.Settled c.state.draft.timeline.count c.state.draft.text.clock)
    (histories : ∀ handle < c'.count,
      image.timeline.history? handle = c'.state.draft.timeline.history? handle)
    (holds : image.Holds index code) : Hosts image s c.state index code := by
  refine ⟨holds, ?_⟩
  intro handle tick issued _ earlier
  obtain ⟨_, recalls⟩ := moves.settled settled
  rw [← recalls handle tick issued earlier]
  have known := histories handle (Nat.lt_of_lt_of_le issued moves.count_le)
  rw [Timeline.placeAt, known, Timeline.placeAt]

end Lower

end X64Backend
