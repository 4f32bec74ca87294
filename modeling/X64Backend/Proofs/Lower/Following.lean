import X64Backend.Proofs.Lower.Moves

/-!
Computations that follow the moves of the generator.  From any valid configuration, a computation
either ends behind some moves and keeps a promise about its result, or fails behind some moves.
-/

namespace X64Backend

open Pool

variable {since count : Handle}

@[simp]
theorem Operand.usable_absent : Operand.absent.Usable since count := by
  intro register base
  cases base

@[simp]
theorem Operand.usable_lit (literal : Literal) : (Operand.lit literal).Usable since count := by
  intro register base
  cases base

@[simp]
theorem Operand.usable_reg {register : Register} :
    (Operand.reg register).Usable since count ↔ register.Usable since count := by
  simp [Operand.Usable, Operand.base?]

@[simp]
theorem Operand.usable_mem {pointer : Pointer} :
    (Operand.mem pointer).Usable since count ↔ pointer.base.Usable since count := by
  simp [Operand.Usable, Operand.base?]

@[simp]
theorem Register.usable_resize {register : Register} {size : Size} :
    (register.resize size).Usable since count ↔ register.Usable since count :=
  Iff.rfl

@[simp]
theorem Register.usable_slot {handle : Handle} {size : Size} :
    (Register.mk (.slot handle) size).Usable since count ↔ since ≤ handle ∧ handle < count :=
  Iff.rfl

/-- Neither the accumulator nor a register outside of the pool has to be restored. -/
theorem Register.usable_fix {phys : Phys} {size : Size}
    (free : ∀ slot, slot ≠ accumulator → slotPhys slot ≠ phys) :
    (Register.fix phys size).Usable since count := by
  intro slot saved same
  exact free slot saved (Option.some.inj same).symm

@[simp]
theorem Register.usable_rsp : Lower.rsp.Usable since count :=
  usable_fix (by decide)

@[simp]
theorem Register.usable_rbp : Lower.rbp.Usable since count :=
  usable_fix (by decide)

@[simp]
theorem Operand.usable_ofBase {register : Register} {disp : Int32} {size : Size} :
    (Operand.mem (.ofBase register disp size)).Usable since count ↔
      register.Usable since count :=
  Operand.usable_mem

@[simp]
theorem Operand.usable_frameCell {offset : Int64} {size : Size} :
    (Operand.mem (Lower.frameCell offset size)).Usable since count :=
  Operand.usable_ofBase.mpr Register.usable_rbp

theorem Operand.Usable.resize {register : Register} (usable : (Operand.reg register).Usable since count)
    (size : Size) : (Operand.reg (register.resize size)).Usable since count :=
  Operand.usable_reg.mpr (Register.usable_resize.mpr (Operand.usable_reg.mp usable))

@[simp]
theorem Operand.usable_resize {pointer : Pointer} {size : Size} :
    (Operand.mem (pointer.resize size)).Usable since count ↔
      (Operand.mem pointer).Usable since count :=
  Operand.usable_mem.trans Operand.usable_mem.symm

namespace Instr

/-- An instruction that stays in line and names what may be named. -/
structure Plain (since count : Handle) (instr : Instr) : Prop where
  proper : ∃ op, instr.op? = some op
  inLine : instr.target? = none
  usable : instr.Usable since count

@[simp]
theorem plain_binary {op : Op} {dst src : Operand} :
    (Instr.binary op dst src).Plain since count ↔
      dst.Usable since count ∧ src.Usable since count := by
  constructor
  · intro plain
    exact ⟨plain.usable dst (by simp [operands]), plain.usable src (by simp [operands])⟩
  · rintro ⟨ofDst, ofSrc⟩
    refine ⟨⟨op, rfl⟩, rfl, ?_⟩
    intro operand member
    simp only [operands, List.mem_cons, List.not_mem_nil, or_false] at member
    rcases member with rfl | rfl
    · exact ofDst
    · exact ofSrc

theorem plain_unary {op : Op} {operand : Operand} (straight : op.isBranch = false)
    (usable : operand.Usable since count) : (Instr.unary op operand).Plain since count := by
  refine ⟨⟨op, rfl⟩, ?_, ?_⟩
  · cases operand <;> simp [target?, straight]
  · intro other member
    rw [List.mem_singleton.mp member]
    exact usable

@[simp]
theorem plain_nullary {op : Op} : (Instr.nullary op).Plain since count :=
  ⟨⟨op, rfl⟩, rfl, by simp [Usable, operands]⟩

end Instr

namespace Lower

open X64Backend.Tree

variable {program : TypedProgram} {α β : Type} {c c' c'' : Config}

/-- From a valid configuration a computation follows some moves.  Where it ends, its result is as
promised. -/
def Follows (program : TypedProgram) (since : Handle) (c : Config) (action : Gen α)
    (P : α → Config → Prop) : Prop :=
  c.Valid since →
    match action c.state with
    | .ok a s => ∃ c', c'.state = s ∧ Moves program since c c' ∧ P a c'
    | .error fault _ => ∃ c', Moves program since c c' ∧ Fails program c' fault

namespace Follows

variable {P P' : α → Config → Prop} {action : Gen α}

theorem ok (follows : Follows program since c action P) (valid : c.Valid since) {a : α}
    {s : State} (run : action c.state = .ok a s) :
    ∃ c', c'.state = s ∧ Moves program since c c' ∧ P a c' := by
  have ran := follows valid
  rw [run] at ran
  exact ran

theorem error (follows : Follows program since c action P) (valid : c.Valid since)
    {fault : Fault} {s : State} (run : action c.state = .error fault s) :
    ∃ c', Moves program since c c' ∧ Fails program c' fault := by
  have ran := follows valid
  rw [run] at ran
  exact ran

theorem mono (follows : Follows program since c action P)
    (weaker : ∀ a c', Moves program since c c' → P a c' → P' a c') :
    Follows program since c action P' := by
  intro valid
  cases run : action c.state with
  | ok a s =>
      obtain ⟨c', same, moves, promise⟩ := follows.ok valid run
      exact ⟨c', same, moves, weaker a c' moves promise⟩
  | error fault s => exact follows.error valid run

theorem pure {a : α} (promise : P a c) : Follows program since c (Pure.pure a) P :=
  fun _ => ⟨c, rfl, .refl, promise⟩

theorem throw {fault : Fault} (other : fault.isStack = false) :
    Follows program since c (throw fault : Gen α) P :=
  fun _ => ⟨c, .refl, .other other⟩

theorem throw_bind {fault : Fault} {next : β → Gen α} (other : fault.isStack = false) :
    Follows program since c ((MonadExcept.throw fault : Gen β) >>= next) P :=
  fun _ => ⟨c, .refl, .other other⟩

theorem bind {next : α → Gen β} {after : β → Config → Prop}
    (first : Follows program since c action P)
    (second : ∀ a c', P a c' → Follows program since c' (next a) after) :
    Follows program since c (action >>= next) after := by
  intro valid
  cases run : action c.state with
  | error fault s =>
      rw [Success.bind_of_error run]
      exact first.error valid run
  | ok a s =>
      obtain ⟨c₁, rfl, moves, promise⟩ := first.ok valid run
      have valid₁ := moves.valid valid
      rw [Success.bind_of_ok run]
      cases ran : next a c₁.state with
      | ok b s =>
          obtain ⟨c₂, same, moves', promise'⟩ := (second a c₁ promise).ok valid₁ ran
          exact ⟨c₂, same, moves.trans moves', promise'⟩
      | error fault s =>
          obtain ⟨c₂, moves', fails⟩ := (second a c₁ promise).error valid₁ ran
          exact ⟨c₂, moves.trans moves', fails⟩

/-- The computation may rely on what holds in every valid configuration. -/
theorem given (follows : c.Valid since → Follows program since c action P) :
    Follows program since c action P :=
  fun valid => follows valid valid

theorem get {P : State → Config → Prop} (promise : P c.state c) :
    Follows program since c (MonadState.get : Gen State) P :=
  fun _ => ⟨c, rfl, .refl, promise⟩

/-- A change of the state by one move. -/
theorem modify {change : State → State} {P : Unit → Config → Prop}
    (move : Move program since c c') (same : c'.state = change c.state) (promise : P () c') :
    Follows program since c (modify change) P :=
  fun _ => ⟨c', same, .single move, promise⟩

end Follows

/-- The debts, the loops and the calls in progress are as before. -/
structure Kept (c c' : Config) : Prop where
  awaited : c'.awaited = c.awaited
  words : c'.words = c.words
  loops : c'.state.loops = c.state.loops
  activations : c'.state.activations = c.state.activations
  count : c.count ≤ c'.count
  defined : c.defined ⊆ c'.defined

namespace Kept

theorem refl (c : Config) : Kept c c :=
  ⟨rfl, rfl, rfl, rfl, Nat.le_refl _, .refl _⟩

theorem trans (first : Kept c c') (second : Kept c' c'') : Kept c c'' :=
  ⟨second.awaited.trans first.awaited, second.words.trans first.words,
    second.loops.trans first.loops, second.activations.trans first.activations,
    Nat.le_trans first.count second.count, Multiset.Subset.trans first.defined second.defined⟩

/-- What could be aimed at before still can. -/
theorem targets (kept : Kept c c') {label : String} (member : label ∈ c.targets) :
    label ∈ c'.targets := by
  rw [Config.targets, kept.awaited]
  rcases Multiset.mem_add.mp member with awaited | defined
  · exact Multiset.mem_add.mpr (.inl awaited)
  · exact Multiset.mem_add.mpr (.inr (kept.defined defined))

theorem usable (kept : Kept c c') {operand : Operand} (usable : operand.Usable since c.count) :
    operand.Usable since c'.count :=
  usable.later kept.count

end Kept

/-- A computation that keeps the debts, the loops and the calls in progress. -/
def Keeps (program : TypedProgram) (since : Handle) (c : Config) (action : Gen α)
    (P : α → Config → Prop) : Prop :=
  Follows program since c action fun a c' => Kept c c' ∧ P a c'

/-- No promise about the result. -/
abbrev Any : α → Config → Prop := fun _ _ => True

/-- The result may be named. -/
def Yield (since : Handle) (operand : Operand) (c : Config) : Prop :=
  operand.Usable since c.count

namespace Keeps

variable {P P' : α → Config → Prop} {action : Gen α}

theorem pure {a : α} (promise : P a c) : Keeps program since c (Pure.pure a) P :=
  Follows.pure ⟨.refl c, promise⟩

theorem throw {fault : Fault} (other : fault.isStack = false) :
    Keeps program since c (throw fault : Gen α) P :=
  Follows.throw other

theorem get {P : State → Config → Prop} (promise : P c.state c) :
    Keeps program since c (MonadState.get : Gen State) P :=
  Follows.get ⟨.refl c, promise⟩

theorem mono (keeps : Keeps program since c action P)
    (weaker : ∀ a c', Kept c c' → P a c' → P' a c') :
    Keeps program since c action P' :=
  Follows.mono keeps fun a c' _ promise => ⟨promise.1, weaker a c' promise.1 promise.2⟩

theorem any (keeps : Keeps program since c action P) : Keeps program since c action Any :=
  keeps.mono fun _ _ _ _ => trivial

theorem bind {next : α → Gen β} {after : β → Config → Prop}
    (first : Keeps program since c action P)
    (second : ∀ a c', Kept c c' → P a c' → Keeps program since c' (next a) after) :
    Keeps program since c (action >>= next) after := by
  refine Follows.bind first ?_
  rintro a c₁ ⟨kept, promise⟩
  refine Follows.mono (second a c₁ kept promise) ?_
  rintro b c₂ _ ⟨kept', promise'⟩
  exact ⟨kept.trans kept', promise'⟩

theorem map {f : α → β} {after : β → Config → Prop} (keeps : Keeps program since c action P)
    (promise : ∀ a c', Kept c c' → P a c' → after (f a) c') :
    Keeps program since c (f <$> action) after := by
  rw [map_eq_pure_bind]
  exact keeps.bind fun a c' kept promised => Keeps.pure (promise a c' kept promised)

/-- Computations over a list, each from where the earlier ones have led to. -/
theorem forM {items : List β} {action : β → Gen Unit}
    (each : ∀ item ∈ items, ∀ c', Kept c c' → Keeps program since c' (action item) Any) :
    Keeps program since c (items.forM action) Any := by
  induction items generalizing c with
  | nil => exact Keeps.pure trivial
  | cons item rest inductionHypothesis =>
      refine (each item (by simp) c (.refl c)).bind fun _ c₁ kept _ => ?_
      apply inductionHypothesis
      intro other member c₂ kept'
      exact each other (by simp [member]) c₂ (kept.trans kept')

/-- The results of computations over a list are all as promised. -/
theorem mapM {items : List β} {action : β → Gen α}
    (stable : ∀ a c₁ c₂, Kept c₁ c₂ → P a c₁ → P a c₂)
    (each : ∀ item ∈ items, ∀ c', Kept c c' → Keeps program since c' (action item) P) :
    Keeps program since c (items.mapM action) fun results c' => ∀ a ∈ results, P a c' := by
  induction items generalizing c with
  | nil => exact Keeps.pure (by simp)
  | cons item rest inductionHypothesis =>
      rw [List.mapM_cons]
      refine (each item (by simp) c (.refl c)).bind fun a c₁ kept promise => ?_
      have others := inductionHypothesis (c := c₁) fun other member c₂ kept' =>
        each other (by simp [member]) c₂ (kept.trans kept')
      refine others.bind fun results c₂ kept' promises => Keeps.pure ?_
      intro b member
      rcases List.mem_cons.mp member with rfl | member
      · exact stable b c₁ c₂ kept' promise
      · exact promises b member

theorem foldlM {items : List β} {action : α → β → Gen α} {a : α} (promise : P a c)
    (each : ∀ item ∈ items, ∀ a c', Kept c c' → P a c' →
      Keeps program since c' (action a item) P) :
    Keeps program since c (items.foldlM action a) P := by
  induction items generalizing c a with
  | nil => exact Keeps.pure promise
  | cons item rest inductionHypothesis =>
      rw [List.foldlM_cons]
      refine (each item (by simp) a c (.refl c) promise).bind fun b c₁ kept promised => ?_
      exact inductionHypothesis promised fun other member b c₂ kept' =>
        each other (by simp [member]) b c₂ (kept.trans kept')

/-- A change of the state by one move. -/
theorem modify {change : State → State} (move : Move program since c (c.turn (change c.state)))
    (loops : (change c.state).loops = c.state.loops)
    (activations : (change c.state).activations = c.state.activations) :
    Keeps program since c (modify change) Any :=
  Follows.modify move rfl ⟨⟨rfl, rfl, loops, activations, move.count_le, .refl _⟩, trivial⟩

end Keeps

/-- A computation that fails for other reasons than the stack. -/
def Calm {σ : Type} (action : EStateM Fault σ α) : Prop :=
  ∀ s fault s', action s = .error fault s' → fault.isStack = false

namespace Calm

variable {σ : Type}

theorem pure (a : α) : Calm (Pure.pure a : EStateM Fault σ α) := by
  intro s fault s' run
  cases run

theorem throw {fault : Fault} (other : fault.isStack = false) :
    Calm (throw fault : EStateM Fault σ α) := by
  intro s fault' s' run
  cases run
  exact other

theorem get : Calm (MonadState.get : EStateM Fault σ σ) := by
  intro s fault s' run
  cases run

theorem set (s : σ) : Calm (MonadStateOf.set s : EStateM Fault σ PUnit) := by
  intro s fault s' run
  cases run

theorem modify (change : σ → σ) : Calm (modify change : EStateM Fault σ PUnit) := by
  intro s fault s' run
  cases run

theorem bind {first : EStateM Fault σ α} {next : α → EStateM Fault σ β} (calm : Calm first)
    (calm' : ∀ a, Calm (next a)) : Calm (first >>= next) := by
  intro s fault s' run
  cases ran : first s with
  | ok a s₁ =>
      rw [Success.bind_of_ok ran] at run
      exact calm' a s₁ fault s' run
  | error fault' s₁ =>
      rw [Success.bind_of_error ran] at run
      cases run
      exact calm s fault s' ran

end Calm

end Lower

namespace Drafting

open Lower

theorem calm_evacuate (slot : Slot) (occupant : Occupant) : Calm (evacuate slot occupant) := by
  refine Calm.get.bind fun draft => ?_
  dsimp only
  split
  · exact (Calm.modify _).bind fun _ => Calm.throw rfl
  · exact (Calm.set _).bind fun _ => (Calm.modify _).bind fun _ => Calm.modify _

theorem calm_reserve : Calm reserve := by
  refine Calm.get.bind fun draft => ?_
  split
  · exact Calm.pure _
  · dsimp only
    split
    · exact Calm.get.bind fun _ => (Calm.set _).bind fun _ => Calm.modify _
    · exact calm_evacuate _ _

theorem calm_take (slot : Slot) (claim : Claim) (size : Size) : Calm (take slot claim size) := by
  intro draft fault draft' run
  rw [take_eq] at run
  cases run

theorem calm_nextRegister (size : Size) : Calm (nextRegister size) := by
  refine Calm.get.bind fun draft => ?_
  dsimp only
  split
  · exact calm_take _ _ _
  · split
    · exact calm_take _ _ _
    · exact (Calm.modify _).bind fun _ => Calm.throw rfl

theorem calm_callAlloc (size : Size) : Calm (callAlloc size) := by
  refine Calm.get.bind fun draft => ?_
  split
  · exact Calm.throw rfl
  · exact calm_take _ _ _

theorem calm_claimSlot (slot : Slot) (size : Size) : Calm (claimSlot slot size) := by
  refine Calm.bind (Calm.get.bind fun draft => ?_) fun _ => calm_take _ _ _
  split
  · exact Calm.pure _
  · split
    · exact calm_reserve
    · exact calm_evacuate _ _

theorem calm_free (operand : Operand) (force : Bool) : Calm (free operand force) := by
  refine Calm.get.bind fun draft => ?_
  split
  · exact Calm.pure _
  · split
    · exact Calm.pure _
    · exact (Calm.set _).bind fun _ => Calm.pure _

theorem calm_lockLive : Calm lockLive :=
  Calm.get.bind fun _ => (Calm.modify _).bind fun _ => Calm.pure _

end Drafting

namespace Lower

open X64Backend.Tree

variable {program : TypedProgram} {α : Type} {c c' : Config}

/-- The steps of the allocator are moves of the generator. -/
theorem Moves.of_steps {draft : Draft} (steps : Draft.Steps c.state.draft draft) :
    Moves program since c (c.turn { c.state with draft }) := by
  induction steps with
  | refl => exact .refl
  | tail _ last inductionHypothesis => exact inductionHypothesis.tail (.draft last)

theorem keeps_drafting {action : Drafting α} (calm : Calm action)
    (steps : ∀ a draft, action c.state.draft = .ok a draft → Draft.Steps c.state.draft draft) :
    Keeps program since c (drafting action) fun a c' =>
      ∃ draft, action c.state.draft = .ok a draft ∧ c' = c.turn { c.state with draft } := by
  intro valid
  unfold drafting
  cases run : action c.state.draft with
  | ok a draft =>
      have moved := steps a draft run
      exact ⟨c.turn { c.state with draft }, rfl, .of_steps moved,
        ⟨rfl, rfl, rfl, rfl, moved.count_le, .refl _⟩, draft, rfl, rfl⟩
  | error fault draft => exact ⟨c, .refl, .other (calm _ _ _ run)⟩

/-- The frame is as before. -/
def SameFrame (c : Config) (_ : α) (c' : Config) : Prop :=
  c'.state.frame = c.state.frame

/-- A change of the pool that never fails. -/
theorem keeps_modifyDraft {change : Draft → Draft}
    (steps : Draft.Steps c.state.draft (change c.state.draft)) :
    Keeps program since c (drafting (modify change)) (SameFrame c) := by
  refine (keeps_drafting (Calm.modify change) ?_).mono ?_
  · intro _ draft run
    rw [← Success.modify_ok.mp run]
    exact steps
  · rintro _ _ _ ⟨draft, _, rfl⟩
    rfl

theorem keeps_log (message : String) : Keeps program since c (log message) (SameFrame c) :=
  keeps_modifyDraft (.single (.trace message))

theorem keeps_lock (operand : Operand) :
    Keeps program since c (drafting (Drafting.lock operand)) Any :=
  Keeps.any (P := SameFrame c) (keeps_modifyDraft (Draft.steps_relock _ operand true))

theorem keeps_unlock (operand : Operand) :
    Keeps program since c (drafting (Drafting.unlock operand)) Any :=
  Keeps.any (P := SameFrame c) (keeps_modifyDraft (Draft.steps_relock _ operand false))

theorem keeps_settle (register : Register) :
    Keeps program since c (drafting (Drafting.settle register)) Any :=
  Keeps.any (P := SameFrame c) (keeps_modifyDraft (Draft.steps_settle _ register))

theorem keeps_endStatement : Keeps program since c endStatement Any := by
  exact Keeps.any (P := SameFrame c) (keeps_modifyDraft (Draft.steps_freeAll Success.modify_eq))

theorem keeps_lockLive : Keeps program since c (drafting Drafting.lockLive) Any := by
  exact (keeps_drafting Drafting.calm_lockLive fun _ _ run => Draft.steps_lockLive run).any

theorem keeps_reserve : Keeps program since c (drafting Drafting.reserve) (SameFrame c) := by
  refine (keeps_drafting Drafting.calm_reserve fun _ _ run => Draft.steps_reserve run).mono ?_
  rintro _ _ _ ⟨draft, _, rfl⟩
  rfl

theorem keeps_free (operand : Operand) (force : Bool) :
    Keeps program since c (drafting (Drafting.free operand force)) Any := by
  exact (keeps_drafting (Drafting.calm_free operand force) fun _ _ run =>
    Draft.steps_free run).any

theorem keeps_release (operand : Operand) : Keeps program since c (release operand) Any :=
  (keeps_free operand false).bind fun _ _ _ _ => Keeps.pure trivial

theorem keeps_freeAnyway (operand : Operand) : Keeps program since c (freeAnyway operand) Any :=
  (keeps_free operand true).bind fun _ _ _ _ => Keeps.pure trivial

/-- A handle that has just been issued may be named. -/
theorem yield_issued {size : Size} {register : Register} {draft : Draft} {slot : Slot}
    {claim : Claim} (begun : since ≤ draft.timeline.count)
    (fresh : register = ⟨.slot draft.timeline.count, size⟩)
    (issued : c'.state.draft = draft.issue slot claim) : Yield since (.reg register) c' := by
  subst fresh
  refine Operand.usable_reg.mpr ⟨begun, ?_⟩
  rw [Config.count, issued, Draft.count_issue]
  exact Nat.lt_succ_self _

theorem keeps_nextRegister (size : Size) :
    Keeps program since c (drafting (Drafting.nextRegister size)) fun register c' =>
      Yield since (.reg register) c' := by
  refine Follows.given fun valid => ?_
  refine (keeps_drafting (Drafting.calm_nextRegister size) ?_).mono ?_
  · intro register draft run
    obtain ⟨slot, empty, _, _, rfl⟩ := Drafting.nextRegister_ok run
    exact .single (.issue empty fun produced => absurd rfl produced)
  · rintro register _ _ ⟨draft, run, rfl⟩
    obtain ⟨slot, _, _, fresh, issued⟩ := Drafting.nextRegister_ok run
    exact yield_issued valid.begun fresh issued

theorem keeps_callAlloc (size : Size) :
    Keeps program since c (drafting (Drafting.callAlloc size)) fun register c' =>
      Yield since (.reg register) c' ∧ SameFrame c register c' := by
  refine Follows.given fun valid => ?_
  refine (keeps_drafting (Drafting.calm_callAlloc size) ?_).mono ?_
  · intro register draft run
    obtain ⟨empty, _, rfl⟩ := Drafting.callAlloc_ok run
    exact .single (.issue empty fun _ => rfl)
  · rintro register _ _ ⟨draft, run, rfl⟩
    obtain ⟨_, fresh, issued⟩ := Drafting.callAlloc_ok run
    exact ⟨yield_issued valid.begun fresh issued, rfl⟩

theorem keeps_claimSlot (slot : Slot) (size : Size) :
    Keeps program since c (drafting (Drafting.claimSlot slot size)) fun register c' =>
      Yield since (.reg register) c' := by
  refine Follows.given fun valid => ?_
  refine (keeps_drafting (Drafting.calm_claimSlot slot size) ?_).mono ?_
  · intro register draft run
    obtain ⟨cleared, vacated, _, rfl⟩ := Drafting.claimSlot_ok run
    refine (Draft.steps_vacate vacated).tail (.issue (Draft.vacate_frees vacated) ?_)
    exact fun produced => absurd rfl produced
  · rintro register _ _ ⟨draft, run, rfl⟩
    obtain ⟨cleared, vacated, fresh, issued⟩ := Drafting.claimSlot_ok run
    refine yield_issued (Nat.le_trans valid.begun ?_) fresh issued
    exact (Draft.steps_vacate vacated).count_le

theorem keeps_emit {instrs : List Instr} (plain : ∀ instr ∈ instrs, instr.Plain since c.count) :
    Keeps program since c (emit instrs) Any := by
  have moves : ∀ c : Config, (∀ instr ∈ instrs, instr.Plain since c.count) →
      Moves program since c (c.turn (c.state.withText (c.state.draft.text.append instrs))) := by
    clear plain
    induction instrs with
    | nil => exact fun c _ => .refl
    | cons instr rest inductionHypothesis =>
        intro c plain
        obtain ⟨op, proper⟩ := (plain instr (by simp)).proper
        have first : Move program since c (c.turn (c.state.emitted instr)) :=
          .emit proper (.inl (plain instr (by simp)).inLine) (plain instr (by simp)).usable
        exact (inductionHypothesis (c.turn (c.state.emitted instr))
          fun other member => plain other (by simp [member])).head first
  intro valid
  exact ⟨c.turn (c.state.withText (c.state.draft.text.append instrs)), rfl, moves c plain,
    ⟨rfl, rfl, rfl, rfl, Nat.le_refl _, .refl _⟩, trivial⟩

theorem keeps_emitBinary {op : Op} {dst src : Operand} (ofDst : dst.Usable since c.count)
    (ofSrc : src.Usable since c.count) : Keeps program since c (emit [.binary op dst src]) Any := by
  apply keeps_emit
  intro instr member
  rw [List.mem_singleton.mp member]
  exact Instr.plain_binary.mpr ⟨ofDst, ofSrc⟩

theorem keeps_emitUnary {op : Op} {operand : Operand} (straight : op.isBranch = false)
    (usable : operand.Usable since c.count) :
    Keeps program since c (emit [.unary op operand]) Any := by
  apply keeps_emit
  intro instr member
  rw [List.mem_singleton.mp member]
  exact Instr.plain_unary straight usable

theorem keeps_report (problem : Problem) : Keeps program since c (report problem) Any := by
  refine (keeps_log _).bind fun _ c₁ _ _ => ?_
  exact Keeps.modify (.note ⟨rfl, rfl, rfl, rfl, rfl, rfl, rfl, rfl, id⟩) rfl rfl

theorem keeps_stackTemp (size : Size) :
    Keeps program since c (stackTemp size) (Yield since) := by
  refine (Keeps.modify (.grow .cell) rfl rfl).bind fun _ c₁ _ _ => ?_
  exact (Keeps.get (P := Any) trivial).bind fun _ _ _ _ =>
    Keeps.pure Operand.usable_frameCell

theorem keeps_temp (operand : Operand) :
    Keeps program since c (temp operand) fun owned c' => owned = isTemp c'.state.draft operand :=
  (Keeps.get (P := fun s c' => s = c'.state) rfl).bind fun _ _ _ same =>
    Keeps.pure (by rw [same])

/-- One more label is to be defined. -/
def Config.owing (c : Config) (label : String) : Config :=
  { c with awaited := label ::ₘ c.awaited }

theorem Config.mem_owing (c : Config) (label : String) : label ∈ (c.owing label).targets :=
  Multiset.mem_add.mpr (.inl (Multiset.mem_cons_self label c.awaited))

theorem Config.targets_owing {label other : String} (member : other ∈ c.targets) :
    other ∈ (c.owing label).targets := by
  rw [Config.targets, Config.owing, Multiset.cons_add]
  exact Multiset.mem_cons_of_mem member

theorem Kept.owing (kept : Kept c c') (label : String) : Kept (c.owing label) (c'.owing label) :=
  ⟨congrArg (label ::ₘ ·) kept.awaited, kept.words, kept.loops, kept.activations, kept.count,
    kept.defined⟩

theorem follows_newLabel :
    Follows program since c newLabel fun label c' => Kept (c.owing label) c' :=
  fun _ => ⟨_, rfl, .single .label, ⟨rfl, rfl, rfl, rfl, Nat.le_refl _, .refl _⟩⟩

/-- A label that was owed is defined. -/
theorem follows_defineLabel {label : String} (kept : Kept (c.owing label) c') :
    Follows program since c' (defineLabel label) fun _ c'' =>
      Kept c c'' ∧ c''.defined = label ::ₘ c'.defined := by
  refine Follows.modify (.define kept.awaited) rfl ⟨?_, rfl⟩
  exact ⟨rfl, kept.words, kept.loops, kept.activations, kept.count,
    Multiset.Subset.trans kept.defined (Multiset.subset_cons _ _)⟩

/-- The newest instruction is told without a change. -/
theorem follows_lastInstr {P : Instr → Config → Prop}
    (promise : P (c.state.draft.text.last?.getD .absent) c) :
    Follows program since c lastInstr P :=
  fun _ => ⟨c, rfl, .refl, promise⟩

end Lower

end X64Backend
