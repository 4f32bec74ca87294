import X64Backend.Proofs.Lower.Quiet
import X64Backend.Proofs.Pool.Guarding

/-!
Code generation under guard.  While an expression is generated, the values that others rely on stay
where they are, and the operands that the calls in progress have bound stay locked.  What an
expression hands over may be released, for it is either new or locked.
-/

namespace X64Backend.Lower

open X64Backend.Tree

/-- The operands that a call in progress relies on. -/
def Activation.operands (activation : Activation) : List Operand :=
  activation.result :: activation.bound.map Prod.snd

/-- The guarded values stay, and so do the calls in progress. -/
structure Steady (guarded : Handle → Prop) (C : Pool.Slot → Prop) (s s' : State) : Prop where
  guards : Draft.Guards guarded C s.draft s'.draft
  activations : s'.activations = s.activations

/-- The calls in progress rely on guarded and locked values only. -/
structure Ready (guarded : Handle → Prop) (s : State) : Prop where
  tidy : s.draft.Tidy
  issued : ∀ handle, guarded handle → handle < s.draft.timeline.count
  settled : ∀ activation ∈ s.activations, ∀ operand ∈ activation.operands, ∀ handle,
    operand.handle? = some handle → guarded handle ∧ s.draft.Held handle

/-- An operand that may be released: a guarded value behind it is locked. -/
def Owned (guarded : Handle → Prop) (s : State) (operand : Operand) : Prop :=
  ∀ handle, operand.handle? = some handle →
    handle < s.draft.timeline.count ∧ (guarded handle → s.draft.Held handle)

/-- An operand that may be freed by force: the value behind it is not guarded. -/
def Fresh (guarded : Handle → Prop) (s : State) (operand : Operand) : Prop :=
  ∀ handle, operand.handle? = some handle →
    handle < s.draft.timeline.count ∧ ¬ guarded handle

variable {guarded : Handle → Prop} {C : Pool.Slot → Prop} {s s' s'' : State}

namespace Steady

theorem refl (ready : Ready guarded s) : Steady guarded C s s :=
  ⟨.refl ready.tidy, rfl⟩

theorem trans (first : Steady guarded C s s') (second : Steady guarded C s' s'') :
    Steady guarded C s s'' :=
  ⟨first.guards.trans second.guards, second.activations.trans first.activations⟩

theorem ready (steady : Steady guarded C s s') (ready : Ready guarded s) :
    Ready guarded s' := by
  refine ⟨steady.guards.tidy, ?_, ?_⟩
  · intro handle guards
    exact Nat.lt_of_lt_of_le (ready.issued handle guards) steady.guards.count
  · intro activation member operand among handle behind
    rw [steady.activations] at member
    obtain ⟨guards, held⟩ := ready.settled activation member operand among handle behind
    exact ⟨guards, steady.guards.held (ready.issued handle guards) guards held⟩

end Steady

theorem Quiet.steady (quiet : Quiet s s') (ready : Ready guarded s) : Steady guarded C s s' :=
  ⟨.of_same (quiet.tidy ready.tidy) (by rw [quiet.pool]) quiet.timeline, quiet.activations⟩

theorem Plain.steady {α : Type} {action : Gen α} {a : α} (plain : Plain action)
    (ready : Ready guarded s) (run : action s = .ok a s') : Steady guarded C s s' :=
  (plain s a s' run).steady ready

theorem Owned.later {operand : Operand} (owned : Owned guarded s operand)
    (guards : Draft.Guards guarded C s.draft s'.draft) : Owned guarded s' operand := by
  intro handle behind
  obtain ⟨issued, held⟩ := owned handle behind
  exact ⟨Nat.lt_of_lt_of_le issued guards.count, fun guarded =>
    guards.held issued guarded (held guarded)⟩

theorem Owned.steady {operand : Operand} (owned : Owned guarded s operand)
    (steady : Steady guarded C s s') : Owned guarded s' operand :=
  owned.later steady.guards

theorem Fresh.steady {operand : Operand} (fresh : Fresh guarded s operand)
    (steady : Steady guarded C s s') : Fresh guarded s' operand := by
  intro handle behind
  obtain ⟨issued, free⟩ := fresh handle behind
  exact ⟨Nat.lt_of_lt_of_le issued steady.guards.count, free⟩

theorem Fresh.owned {operand : Operand} (fresh : Fresh guarded s operand) :
    Owned guarded s operand := by
  intro handle behind
  obtain ⟨issued, free⟩ := fresh handle behind
  exact ⟨issued, fun guards => absurd guards free⟩

/-- Without a register of the pool there is nothing to release. -/
theorem Fresh.of_none {operand : Operand} (none : operand.handle? = none) :
    Fresh guarded s operand := by
  intro handle behind
  rw [none] at behind
  contradiction

theorem Fresh.congr {operand other : Operand} (fresh : Fresh guarded s operand)
    (same : other.handle? = operand.handle?) : Fresh guarded s other := by
  intro handle behind
  exact fresh handle (same ▸ behind)

theorem Owned.congr {operand other : Operand} (owned : Owned guarded s operand)
    (same : other.handle? = operand.handle?) : Owned guarded s other := by
  intro handle behind
  exact owned handle (same ▸ behind)

theorem Ready.owned {activation : Activation} {operand : Operand} (ready : Ready guarded s)
    (member : activation ∈ s.activations) (among : operand ∈ activation.operands) :
    Owned guarded s operand := by
  intro handle behind
  obtain ⟨guards, held⟩ := ready.settled activation member operand among handle behind
  exact ⟨ready.issued handle guards, fun _ => held⟩

/-- A temporary is nobody else's. -/
theorem Owned.fresh {operand : Operand} (owned : Owned guarded s operand)
    (tidy : s.draft.Tidy) (temporary : isTemp s.draft operand = true) :
    Fresh guarded s operand := by
  intro handle behind
  obtain ⟨issued, held⟩ := owned handle behind
  refine ⟨issued, ?_⟩
  intro guards
  cases operand with
  | reg register =>
      simp only [isTemp, Bool.and_eq_true, Bool.not_eq_true'] at temporary
      obtain ⟨⟨_, live⟩, unlocked⟩ := temporary
      obtain ⟨slot, found⟩ := Option.isSome_iff_exists.mp live
      obtain ⟨other, behind', here⟩ := tidy.slotOf?_eq_some_iff.mp found
      obtain rfl : other = handle := Option.some.inj (behind'.symm.trans behind)
      obtain ⟨occupant, occupied, same⟩ := Option.map_eq_some_iff.mp here
      have locked : occupant.locked = true :=
        held guards _ ⟨slot, occupant, occupied, same, rfl⟩
      simp [Draft.isLocked, found, occupied, locked] at unlocked
  | absent => simp [isTemp] at temporary
  | mem pointer => simp [isTemp] at temporary
  | lit literal => simp [isTemp] at temporary

theorem drafting_ok {α : Type} {action : Drafting α} {a : α} :
    drafting action s = .ok a s' ↔
      ∃ draft, action s.draft = .ok a draft ∧ { s with draft } = s' := by
  unfold drafting
  cases action s.draft with
  | ok b draft => simp
  | error fault draft => simp

/-- What has been locked is held. -/
theorem held_lock {operand : Operand} {handle : Handle} {u : Unit} (tidy : s.draft.Tidy)
    (behind : operand.handle? = some handle)
    (run : drafting (Drafting.lock operand) s = .ok u s') : s'.draft.Held handle := by
  obtain ⟨draft, drafted, rfl⟩ := drafting_ok.mp run
  obtain rfl := Success.modify_ok.mp drafted
  rintro lock ⟨slot, occupant, occupied, rfl, rfl⟩
  rw [tidy.occupant?_adjust] at occupied
  obtain ⟨before, _, rfl⟩ := Option.map_eq_some_iff.mp occupied
  by_cases here : operand.handle? = some before.handle
  · simp [here]
  · simp [here] at behind

section Operations

variable (ready : Ready guarded s)
include ready

theorem Ready.fresh_slot {draft : Draft} {size : Size}
    (issued : s.draft.timeline.count < draft.timeline.count) :
    Fresh guarded { s with draft } (.reg ⟨.slot s.draft.timeline.count, size⟩) := by
  intro handle behind
  cases behind
  exact ⟨issued, fun guards => Nat.lt_irrefl _ (ready.issued _ guards)⟩

theorem steady_nextRegister {size : Size} {register : Register}
    (run : drafting (Drafting.nextRegister size) s = .ok register s') :
    Steady guarded C s s' ∧ Fresh guarded s' (.reg register) := by
  obtain ⟨draft, drafted, rfl⟩ := drafting_ok.mp run
  obtain ⟨guards, rfl⟩ : Draft.Guards guarded C s.draft draft ∧ _ :=
    Draft.Guards.nextRegister ready.tidy drafted
  obtain ⟨slot, _, _, _, rfl⟩ := Drafting.nextRegister_ok drafted
  exact ⟨⟨guards, rfl⟩, ready.fresh_slot (by simp)⟩

theorem steady_callAlloc {size : Size} {register : Register}
    (run : drafting (Drafting.callAlloc size) s = .ok register s') :
    Steady guarded C s s' ∧ Fresh guarded s' (.reg register) := by
  obtain ⟨draft, drafted, rfl⟩ := drafting_ok.mp run
  obtain ⟨guards, rfl⟩ : Draft.Guards guarded C s.draft draft ∧ _ :=
    Draft.Guards.callAlloc ready.tidy drafted
  obtain ⟨_, _, rfl⟩ := Drafting.callAlloc_ok drafted
  exact ⟨⟨guards, rfl⟩, ready.fresh_slot (by simp)⟩

theorem steady_reserve {u : Unit} (run : drafting Drafting.reserve s = .ok u s') :
    Steady guarded C s s' := by
  obtain ⟨draft, drafted, rfl⟩ := drafting_ok.mp run
  exact ⟨.reserve ready.tidy drafted, rfl⟩

theorem steady_claimSlot {slot : Pool.Slot} {size : Size} {register : Register}
    (claimed : C slot)
    (run : drafting (Drafting.claimSlot slot size) s = .ok register s') :
    Steady guarded C s s' ∧ Fresh guarded s' (.reg register) := by
  obtain ⟨draft, drafted, rfl⟩ := drafting_ok.mp run
  obtain ⟨guards, handle, rfl, older, issued⟩ : Draft.Guards guarded C s.draft draft ∧ _ :=
    Draft.Guards.claimSlot ready.tidy claimed drafted
  refine ⟨⟨guards, rfl⟩, ?_⟩
  intro other behind
  cases behind
  exact ⟨issued, fun guards => Nat.not_lt_of_le older (ready.issued _ guards)⟩

theorem steady_adjust {operand : Operand} {change : Pool.Occupant → Pool.Occupant} {u : Unit}
    (fresh : Fresh guarded s operand)
    (run : drafting (modify fun draft => draft.adjust operand change) s = .ok u s')
    (same : ∀ occupant, (change occupant).handle = occupant.handle)
    (implicit : ∀ occupant, (change occupant).implicit = occupant.implicit) :
    Steady guarded C s s' := by
  obtain ⟨draft, drafted, rfl⟩ := drafting_ok.mp run
  obtain rfl := Success.modify_ok.mp drafted
  exact ⟨.adjust ready.tidy (fun handle behind => (fresh handle behind).2) same implicit, rfl⟩

theorem steady_lock {operand : Operand} {u : Unit} (fresh : Fresh guarded s operand)
    (run : drafting (Drafting.lock operand) s = .ok u s') : Steady guarded C s s' :=
  steady_adjust ready fresh run (fun _ => rfl) fun _ => rfl

theorem steady_unlock {operand : Operand} {u : Unit} (fresh : Fresh guarded s operand)
    (run : drafting (Drafting.unlock operand) s = .ok u s') : Steady guarded C s s' :=
  steady_adjust ready fresh run (fun _ => rfl) fun _ => rfl

theorem steady_settle {register : Register} {u : Unit} (fresh : Fresh guarded s (.reg register))
    (run : drafting (Drafting.settle register) s = .ok u s') : Steady guarded C s s' :=
  steady_adjust ready fresh run (fun _ => rfl) fun _ => rfl

theorem steady_release {operand : Operand} {u : Unit} (owned : Owned guarded s operand)
    (run : release operand s = .ok u s') : Steady guarded C s s' := by
  obtain ⟨freed, middle, freeing, rest⟩ := Success.bind_ok.mp run
  obtain ⟨_, rfl⟩ := Success.pure_ok.mp rest
  obtain ⟨draft, drafted, rfl⟩ := drafting_ok.mp freeing
  refine ⟨.free ready.tidy drafted ?_, rfl⟩
  intro handle behind guards
  exact ⟨rfl, (owned handle behind).2 guards⟩

theorem steady_freeAnyway {operand : Operand} {u : Unit} (fresh : Fresh guarded s operand)
    (run : freeAnyway operand s = .ok u s') : Steady guarded C s s' := by
  obtain ⟨freed, middle, freeing, rest⟩ := Success.bind_ok.mp run
  obtain ⟨_, rfl⟩ := Success.pure_ok.mp rest
  obtain ⟨draft, drafted, rfl⟩ := drafting_ok.mp freeing
  refine ⟨.free ready.tidy drafted ?_, rfl⟩
  intro handle behind guards
  exact absurd guards (fresh handle behind).2

/-- Steps over a list, each from a state that the earlier ones have led to. -/
theorem steady_forM {α : Type} {items : List α} {action : α → Gen Unit} {u : Unit}
    (each : ∀ item ∈ items, ∀ {s₁ s₂ u}, Steady guarded C s s₁ → action item s₁ = .ok u s₂ →
      Steady guarded C s₁ s₂)
    (run : items.forM action s = .ok u s') : Steady guarded C s s' := by
  suffices ∀ {s₁}, Steady guarded C s s₁ → items.forM action s₁ = .ok u s' →
      Steady guarded C s s' from this (.refl ready) run
  clear run
  induction items with
  | nil =>
      intro s₁ first run
      obtain ⟨_, rfl⟩ := Success.pure_ok.mp run
      exact first
  | cons item rest inductionHypothesis =>
      intro s₁ first run
      obtain ⟨_, s₂, ran, run⟩ := Success.bind_ok.mp run
      have second := each item (by simp) first ran
      exact inductionHypothesis (fun other member => each other (by simp [member]))
        (first.trans second) run

end Operations

/-- A computation that yields an operand from any state that a given draft has led to. -/
def Yields (guarded : Handle → Prop) (C : Pool.Slot → Prop) (draft : Draft)
    (action : Gen Operand) : Prop :=
  ∀ s operand s', Ready guarded s → Draft.Guards guarded C draft s.draft →
    action s = .ok operand s' → Steady guarded C s s' ∧ Owned guarded s' operand

theorem Yields.later {draft draft' : Draft} {action : Gen Operand}
    (yields : Yields guarded C draft action)
    (guards : Draft.Guards guarded C draft draft') : Yields guarded C draft' action := by
  intro s operand s' ready later run
  exact yields s operand s' ready (guards.trans later) run

end X64Backend.Lower
