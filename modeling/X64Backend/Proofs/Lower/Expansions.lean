import X64Backend.Proofs.Lower.Clear

/-!
Inline expansion leaves the guarded values alone.  An expansion opens by locking every value and
binding the parameters, generates the body, and then frees its own values and restores the locks.
-/

namespace X64Backend.Lower

open X64Backend.Tree

variable {guarded : Handle → Prop} {C : Pool.Slot → Prop} {s s' : State} {u : Unit}

/-- What an expansion remembers from its opening. -/
structure Opening where
  /-- The arguments that belong to the expansion. -/
  own : List Operand
  /-- The values that were not locked before. -/
  locked : List Register
  bound : Bound
  locals : List (VarId × Int64)

/-- The activation of an expansion as it begins. -/
def Opening.activation (opening : Opening) (callee : FnId) : Activation :=
  { Activation.ofCall callee with
    inlining := true
    bound := opening.bound.entries
    locals := opening.locals }

/-- Clears the accumulator, locks every value and binds the parameters. -/
def openExpansion (env : Env) (callee : FnId) (arguments : List Operand) : Gen Opening := do
  let fn := env.program.function callee
  reserveIfBusy
  let draft := (← get).draft
  let own := arguments.filter fun argument => !draft.isLocked argument
  let locked ← drafting Drafting.lockLive
  let bound ← ((argumentIds callee fn).zip arguments).foldlM
    (bindArgument env.program fn (fn.body.getD [])) ⟨[], []⟩
  let locals ← takeLocals callee fn
  log ("inline: expanding " ++ fn.linkName ++ " at depth " ++
    toString ((← get).activations.length + 1))
  return ⟨own, locked, bound, locals⟩

/-- Generates the body of an expansion with the label behind it. -/
def expansionBody (env : Env) (callee : FnId) (opening : Opening) : Gen Activation := do
  let body := (env.program.function callee).body.getD []
  let (_, final) ← outsideLoops (withActivation (opening.activation callee) (block env body))
  closeExpansion final
  return final

/-- Frees what belongs to an expansion, restores the locks and hands over the result. -/
def closeOpening (fn : Function) (opening : Opening) (result : Operand) : Gen Operand := do
  opening.own.forM freeAnyway
  opening.bound.copies.forM freeAnyway
  opening.locked.forM fun register => drafting (Drafting.unlock (.reg register))
  expansionValue fn result

theorem expandBody_eq (env : Env) (callee : FnId) (arguments : List Operand) :
    expandBody env callee arguments = (do
      let opening ← openExpansion env callee arguments
      let final ← expansionBody env callee opening
      closeOpening (env.program.function callee) opening final.result) := by
  simp only [expandBody, openExpansion, expansionBody, closeOpening, Opening.activation, bind_assoc,
    pure_bind]

theorem Steady.mono {fewer : Handle → Prop} (steady : Steady guarded C s s')
    (subset : ∀ handle, fewer handle → guarded handle) : Steady fewer C s s' :=
  ⟨steady.guards.mono subset fun _ claimed => claimed, steady.activations⟩

/-- The parameters are bound to values that are in the pool and locked, like all others. -/
theorem bindArguments_ok {program : TypedProgram} {fn : Function} {body : List Stmt}
    {items : List ((VarId × Variable) × Operand)} {bound bound' : Bound} (prepared : Prepared s)
    (clear : s.draft.Clear) (locked : s.draft.Locked)
    (given : ∀ item ∈ items, ∀ handle, item.2.handle? = some handle → Issued s handle)
    (entries : ∀ entry ∈ bound.entries, ∀ handle, entry.2.handle? = some handle → Issued s handle)
    (run : items.foldlM (bindArgument program fn body) bound s = .ok bound' s') :
    Steady (Issued s) C s s' ∧ s'.draft.Clear ∧ s'.draft.Locked ∧
      (∀ entry ∈ bound'.entries, ∀ handle, entry.2.handle? = some handle → Issued s' handle) ∧
      ∀ copy ∈ bound'.copies, copy ∈ bound.copies ∨ Fresh (Issued s) s' copy := by
  induction items generalizing s bound with
  | nil =>
      obtain ⟨rfl, rfl⟩ := Success.pure_ok.mp run
      exact ⟨.refl prepared, clear, locked, entries, fun _ member => .inl member⟩
  | cons item rest inductionHypothesis =>
      obtain ⟨middle, s₁, ran, run⟩ := Success.bind_ok.mp run
      obtain ⟨⟨id, v⟩, argument⟩ := item
      simp only [bindArgument, Success.ite_apply] at ran
      split at ran
      · obtain ⟨copy, s₂, copied, ran⟩ := Success.bind_ok.mp ran
        obtain ⟨rfl, rfl⟩ := Success.pure_ok.mp ran
        obtain ⟨one, fresh, clear₁, locked₁⟩ := copyArgument_ok (C := C) prepared clear
          locked copied
        have later : ∀ {handle}, Issued s handle → Issued s₂ handle := fun issued =>
          Nat.lt_of_lt_of_le issued one.guards.count
        obtain ⟨two, clear₂, locked₂, entries₂, copies⟩ := inductionHypothesis
          (one.prepared prepared) clear₁ locked₁
          (fun other member handle behind =>
            later (given other (List.mem_cons_of_mem _ member) handle behind))
          (by
            intro entry member handle behind
            rcases List.mem_append.mp member with member | member
            · exact later (entries entry member handle behind)
            · rw [List.mem_singleton.mp member] at behind
              exact (fresh handle behind).1) run
        have two' := two.mono fun handle issued => later issued
        refine ⟨one.trans two', clear₂, locked₂, entries₂, ?_⟩
        intro other member
        rcases copies other member with member | newer
        · rcases List.mem_append.mp member with member | member
          · exact .inl member
          · rw [List.mem_singleton.mp member]
            exact .inr (fresh.steady two')
        · right
          intro handle behind
          obtain ⟨issued, old⟩ := newer handle behind
          exact ⟨issued, fun older => old (later older)⟩
      · obtain ⟨rfl, rfl⟩ := Success.pure_ok.mp ran
        have longer : ∀ entry ∈ bound.entries ++ [(id, argument)], ∀ handle,
            entry.2.handle? = some handle → Issued s handle := by
          intro entry member
          rcases List.mem_append.mp member with member | member
          · exact entries entry member
          · rw [List.mem_singleton.mp member]
            exact given ((id, v), argument) (by simp)
        have others := inductionHypothesis prepared clear locked
          (fun other member => given other (List.mem_cons_of_mem _ member)) longer run
        exact others

/-- The state behind the opening of an expansion, with the drafts before and after all values were
locked. -/
structure Opened (guarded : Handle → Prop) (C : Pool.Slot → Prop) (opening : Opening)
    (s s' : State) (free locked : Draft) : Prop where
  before : Draft.Guards guarded C s.draft free
  relocks : Draft.Relocks (fun _ _ => true) free locked
  unlocked : ∀ handle, (∃ register ∈ opening.locked,
    (Operand.reg register).handle? = some handle) ↔ free.Carries handle false
  after : Draft.Guards (fun handle => handle < free.timeline.count) C locked s'.draft
  own : ∀ operand ∈ opening.own, ∀ handle, operand.handle? = some handle →
    ¬ (guarded handle ∧ free.Live handle)
  copies : ∀ copy ∈ opening.bound.copies, ∀ handle, copy.handle? = some handle →
    free.timeline.count ≤ handle
  prepared : Prepared s'
  clear : s'.draft.Clear
  allLocked : s'.draft.Locked
  entries : ∀ entry ∈ opening.bound.entries, ∀ handle, entry.2.handle? = some handle →
    Issued s' handle
  activations : s'.activations = s.activations

/-- An argument that is not locked belongs to the expansion: a guarded value behind it is gone. -/
theorem not_guarded_of_unlocked {operand : Operand} {handle : Handle} (tidy : s.draft.Tidy)
    (owned : Owned guarded s operand) (unlocked : s.draft.isLocked operand = false)
    (behind : operand.handle? = some handle) : ¬ (guarded handle ∧ s.draft.Live handle) := by
  rintro ⟨guards, slot, here⟩
  obtain ⟨occupant, occupied, same⟩ := Option.map_eq_some_iff.mp here
  have locked : occupant.locked = true :=
    (owned handle behind).2 guards _ ⟨slot, occupant, occupied, same, rfl⟩
  have found : s.draft.slotOf? operand = some slot :=
    tidy.slotOf?_eq_some_iff.mpr ⟨handle, behind, here⟩
  simp [Draft.isLocked, found, occupied, locked] at unlocked

theorem openExpansion_ok {env : Env} {callee : FnId} {arguments : List Operand} {opening : Opening}
    (ready : Ready guarded s) (owned : ∀ argument ∈ arguments, Owned guarded s argument)
    (run : openExpansion env callee arguments s = .ok opening s') :
    ∃ free locked, Opened guarded C opening s s' free locked := by
  simp only [openExpansion, Success.bind_ok, Success.get_ok, Success.pure_ok] at run
  obtain ⟨_, s₁, reserved, _, _, ⟨rfl, rfl⟩, registers, s₂, lockedRun, bound, s₃, bindRun, locals,
    s₄, taken, _, _, ⟨rfl, rfl⟩, _, s₅, logged, rfl, rfl⟩ := run
  have one := steady_reserveIfBusy (C := C) ready reserved
  have ready₁ := one.ready ready
  obtain ⟨draft, drafted, rfl⟩ := drafting_ok.mp lockedRun
  obtain ⟨relocks, unlocked⟩ := Draft.relocks_lockLive ready₁.tidy drafted
  have allLocked : draft.Locked := by
    intro slot occupant occupied
    rw [relocks.occupants] at occupied
    obtain ⟨before, _, rfl⟩ := Option.map_eq_some_iff.mp occupied
    rfl
  have clear : draft.Clear := by
    refine (clear_reserveIfBusy reserved).congr fun slot => ?_
    rw [relocks.occupants]
    exact Option.map_eq_none_iff
  have prepared : Prepared { s₁ with draft } := by
    refine ⟨relocks.tidy, fun _ issued => issued, ?_⟩
    intro activation member operand among handle behind
    obtain ⟨guards, _⟩ := ready₁.settled activation member operand among handle behind
    refine ⟨?_, allLocked.held handle⟩
    unfold Issued
    rw [relocks.timeline]
    exact ready₁.issued handle guards
  have owned₁ : ∀ argument ∈ arguments, Owned guarded s₁ argument := fun argument member =>
    (owned argument member).steady one
  obtain ⟨two, clear₃, locked₃, entries, copies⟩ := bindArguments_ok (C := C) prepared
    clear allLocked (by
      intro item member handle behind
      have issued := (owned₁ item.2 (List.of_mem_zip member).2 handle behind).1
      unfold Issued
      rw [relocks.timeline]
      exact issued) (by simp) bindRun
  have quiet := (plain_takeLocals _ _ _ _ _ taken).trans (plain_log _ _ _ _ logged)
  have three := two.trans (quiet.steady (two.ready prepared))
  refine ⟨s₁.draft, draft, one.guards, relocks, unlocked, ?_, ?_, ?_, three.prepared prepared, ?_,
    ?_, ?_, three.activations.trans one.activations⟩
  · refine three.guards.mono ?_ fun _ claimed => claimed
    intro handle issued
    unfold Issued
    rw [relocks.timeline]
    exact issued
  · intro operand member handle behind
    obtain ⟨among, unlocked⟩ := List.mem_filter.mp member
    exact not_guarded_of_unlocked ready₁.tidy (owned₁ operand among) (by simpa using unlocked) behind
  · intro copy member handle behind
    rcases copies copy member with member | fresh
    · simp at member
    · have older := (fresh handle behind).2
      unfold Issued at older
      rw [relocks.timeline] at older
      exact Nat.le_of_not_lt older
  · refine clear₃.congr fun slot => ?_
    rw [quiet.pool]
  · intro slot occupant occupied
    rw [quiet.pool] at occupied
    exact locked₃ slot occupant occupied
  · intro entry member handle behind
    unfold Issued
    rw [quiet.timeline]
    exact entries entry member handle behind

theorem outsideLoops_ok {α : Type} {body : Gen α} {a : α}
    (run : outsideLoops body s = .ok a s') :
    ∃ s₁, body { s with loops := [] } = .ok a s₁ ∧ { s₁ with loops := s.loops } = s' := by
  simp only [outsideLoops, Success.bind_ok, Success.get_ok, Success.modify_ok,
    Success.pure_ok] at run
  obtain ⟨_, _, ⟨rfl, rfl⟩, _, _, rfl, _, s₁, ran, _, _, rfl, rfl, rfl⟩ := run
  exact ⟨s₁, ran, rfl⟩

/-- Inside an expansion the operands of its parameters are locked, like every value. -/
theorem Prepared.expansion {opening : Opening} (prepared : Prepared s) (locked : s.draft.Locked)
    (entries : ∀ entry ∈ opening.bound.entries, ∀ handle, entry.2.handle? = some handle →
      Issued s handle) (callee : FnId) :
    Prepared { s with
      loops := []
      activations := opening.activation callee :: s.activations } := by
  refine Ready.pushed (s := { s with loops := [] })
    ⟨prepared.tidy, prepared.issued, prepared.settled⟩ ?_
  intro operand member handle behind
  refine ⟨?_, locked.held handle⟩
  rcases List.mem_cons.mp member with rfl | member
  · contradiction
  · obtain ⟨entry, among, rfl⟩ := List.mem_map.mp member
    exact entries entry among handle behind

/-- The body of an expansion keeps the locked values.  Its result is new. -/
theorem expansionBody_ok {env : Env} {callee : FnId} {opening : Opening} {final : Activation}
    (prepared : Prepared s) (locked : s.draft.Locked)
    (entries : ∀ entry ∈ opening.bound.entries, ∀ handle, entry.2.handle? = some handle →
      Issued s handle)
    (executes : Executes C (block env ((env.program.function callee).body.getD [])))
    (run : expansionBody env callee opening s = .ok final s') :
    Draft.Guards (fun handle => s.draft.Carries handle true) C s.draft s'.draft ∧
      s'.activations = s.activations ∧
      ∀ handle, final.result.handle? = some handle → ¬ Issued s handle ∧ Issued s' handle := by
  unfold expansionBody at run
  obtain ⟨⟨_, final⟩, s₁, generated, run⟩ := Success.bind_ok.mp run
  obtain ⟨_, s₂, closed, run⟩ := Success.bind_ok.mp run
  obtain ⟨rfl, rfl⟩ := Success.pure_ok.mp run
  obtain ⟨s₃, inside, rfl⟩ := outsideLoops_ok generated
  obtain ⟨s₄, ran, chosen, rfl⟩ := withActivation_ok inside
  have begun := prepared.expansion locked entries callee
  have advances := executes _ _ s₄ begun ran
  have quiet := plain_closeExpansion _ _ _ _ closed
  have last : Draft.Guards (fun handle => s.draft.Carries handle true) C s₄.draft s₂.draft :=
    .of_same (quiet.tidy advances.prepared.tidy) (congrArg Pool.slots quiet.pool) quiet.timeline
  obtain ⟨innermost, left, result⟩ := advances.continued.of_busy
  refine ⟨advances.guards.trans last, ?_, ?_⟩
  · refine quiet.activations.trans ?_
    change s₄.activations.drop 1 = s.activations
    rw [left]
    rfl
  · intro handle behind
    have same : final = innermost := by
      refine chosen.trans ?_
      rw [left]
      rfl
    subst same
    rcases result with absent | fresh
    · rw [absent] at behind
      contradiction
    · refine ⟨Nat.not_lt_of_le (fresh handle behind), ?_⟩
      have settled := advances.prepared.settled final (by simp [left]) final.result
        (by simp [Activation.operands]) handle behind
      exact Nat.lt_of_lt_of_le settled.1 last.count

theorem guards_freeAnyway {operands : List Operand} (tidy : s.draft.Tidy)
    (free : ∀ operand ∈ operands, ∀ handle, operand.handle? = some handle → ¬ guarded handle)
    (run : operands.forM freeAnyway s = .ok u s') :
    Draft.Guards guarded C s.draft s'.draft ∧ s'.activations = s.activations := by
  induction operands generalizing s with
  | nil =>
      obtain ⟨_, rfl⟩ := Success.pure_ok.mp run
      exact ⟨.refl tidy, rfl⟩
  | cons operand rest inductionHypothesis =>
      obtain ⟨_, s₁, freed, run⟩ := Success.bind_ok.mp run
      obtain ⟨_, s₂, freeing, ended⟩ := Success.bind_ok.mp freed
      obtain ⟨_, rfl⟩ := Success.pure_ok.mp ended
      obtain ⟨draft, drafted, rfl⟩ := drafting_ok.mp freeing
      have one : Draft.Guards guarded C s.draft draft := by
        refine .free tidy drafted ?_
        intro handle behind guards
        exact absurd guards (free operand (by simp) handle behind)
      obtain ⟨two, activations⟩ := inductionHypothesis one.tidy
        (fun other member => free other (by simp [member])) run
      exact ⟨one.trans two, activations⟩

theorem unlockAll_ok {registers : List Register}
    (run : registers.forM (fun register => drafting (Drafting.unlock (.reg register))) s =
      .ok u s') : { s with draft := s.draft.unlockAll registers } = s' := by
  induction registers generalizing s with
  | nil =>
      obtain ⟨_, rfl⟩ := Success.pure_ok.mp run
      rfl
  | cons register rest inductionHypothesis =>
      obtain ⟨_, s₁, unlocked, run⟩ := Success.bind_ok.mp run
      obtain ⟨draft, drafted, rfl⟩ := drafting_ok.mp unlocked
      obtain rfl := Success.modify_ok.mp drafted
      exact inductionHypothesis run

theorem steady_expansionValue {fn : Function} {result value : Operand} (ready : Ready guarded s)
    (fresh : Fresh guarded s result) (run : expansionValue fn result s = .ok value s') :
    Steady guarded C s s' ∧ Owned guarded s' value := by
  simp only [expansionValue, Success.ite_apply] at run
  split at run
  · obtain ⟨rfl, rfl⟩ := Success.pure_ok.mp run
    exact ⟨.refl ready, (Fresh.of_none rfl).owned⟩
  · cases result with
    | absent =>
        obtain ⟨_, s₁, reported, run⟩ := Success.bind_ok.mp run
        obtain ⟨rfl, rfl⟩ := Success.pure_ok.mp run
        exact ⟨(plain_report _).steady ready reported, (Fresh.of_none rfl).owned⟩
    | reg register =>
        obtain ⟨_, s₁, settled, run⟩ := Success.bind_ok.mp run
        obtain ⟨rfl, rfl⟩ := Success.pure_ok.mp run
        have step := steady_settle (C := C) ready fresh settled
        exact ⟨step, (fresh.steady step).owned⟩
    | mem pointer =>
        obtain ⟨rfl, rfl⟩ := Success.pure_ok.mp run
        exact ⟨.refl ready, fresh.owned⟩
    | lit literal =>
        obtain ⟨rfl, rfl⟩ := Success.pure_ok.mp run
        exact ⟨.refl ready, fresh.owned⟩

/-- Behind an expansion the guarded values are where they were, with the locks that they had. -/
theorem expands_expandBody {env : Env} {callee : FnId}
    (executes : Executes C (block env ((env.program.function callee).body.getD []))) :
    Expands guarded C (expandBody env callee) := by
  intro s arguments result s' ready owned run
  rw [expandBody_eq] at run
  obtain ⟨opening, s₁, openRun, run⟩ := Success.bind_ok.mp run
  obtain ⟨final, s₂, bodyRun, run⟩ := Success.bind_ok.mp run
  obtain ⟨free, locked, opened⟩ := openExpansion_ok (C := C) ready owned openRun
  obtain ⟨body, activations, resultNew⟩ := expansionBody_ok opened.prepared opened.allLocked
    opened.entries executes bodyRun
  simp only [closeOpening, Success.bind_ok] at run
  obtain ⟨_, s₃, freed, _, s₄, freed', _, s₅, unlocked, valued⟩ := run
  -- the values that were in the pool before it was locked
  let kept : Handle → Prop := fun handle => guarded handle ∧ free.Live handle
  have issued : ∀ handle, kept handle → handle < free.timeline.count := by
    rintro handle ⟨guards, _⟩
    exact Nat.lt_of_lt_of_le (ready.issued handle guards) opened.before.count
  have stays : ∀ handle, kept handle → s₁.draft.Carries handle true := by
    rintro handle ⟨guards, slot, here⟩
    obtain ⟨lock, carries⟩ := Draft.carries_of_holds here
    exact opened.after.kept (issued handle ⟨guards, slot, here⟩) (opened.relocks.carries carries)
  have one : Draft.Guards kept C locked s₂.draft :=
    (opened.after.mono issued fun _ claimed => claimed).trans
      (body.mono stays fun _ claimed => claimed)
  obtain ⟨two, activations₃⟩ : Draft.Guards kept C s₂.draft s₃.draft ∧ _ :=
    guards_freeAnyway one.tidy opened.own freed
  obtain ⟨three, activations₄⟩ : Draft.Guards kept C s₃.draft s₄.draft ∧ _ :=
    guards_freeAnyway two.tidy
      (fun copy member handle behind guards =>
        Nat.not_lt_of_le (opened.copies copy member handle behind) (issued handle guards)) freed'
  have middle := (one.trans two).trans three
  obtain rfl := unlockAll_ok unlocked
  have restored : Draft.Guards guarded C free (s₄.draft.unlockAll opening.locked) := by
    refine .of_locked opened.relocks middle (Draft.relocks_unlockAll _ middle.tidy) ?_
    intro handle lock carries
    cases lock with
    | false => exact if_pos ((opened.unlocked handle).mpr carries)
    | true =>
        refine if_neg fun listed => ?_
        have tidy : free.Tidy := opened.before.tidy
        exact Bool.noConfusion
          (tidy.carries_unique carries ((opened.unlocked handle).mp listed))
  have steady : Steady guarded C s
      { s₄ with draft := s₄.draft.unlockAll opening.locked } :=
    ⟨opened.before.trans restored, (activations₄.trans activations₃).trans
      (activations.trans opened.activations)⟩
  have fresh : Fresh guarded { s₄ with draft := s₄.draft.unlockAll opening.locked }
      final.result := by
    intro handle behind
    obtain ⟨new, issued⟩ := resultNew handle behind
    have later : s₂.draft.timeline.count ≤ (s₄.draft.unlockAll opening.locked).timeline.count := by
      rw [(Draft.relocks_unlockAll opening.locked middle.tidy).timeline]
      exact (two.trans three).count
    refine ⟨Nat.lt_of_lt_of_le issued later, ?_⟩
    intro guards
    refine new (Nat.lt_of_lt_of_le (ready.issued handle guards) ?_)
    have first := opened.before.count
    have second := opened.after.count
    rw [opened.relocks.timeline] at second
    exact Nat.le_trans first second
  obtain ⟨last, ownedValue⟩ := steady_expansionValue (C := C) (steady.ready ready) fresh
    valued
  exact ⟨steady.trans last, ownedValue⟩

/-- Calls can be expanded under guard to any depth. -/
theorem expanding_expandAt (program : TypedProgram) (options : Options) (depth : Nat)
    (guarded : Handle → Prop) (C : Pool.Slot → Prop) :
    Env.Expanding { program, options, expand := expandAt program options depth } guarded C := by
  induction depth generalizing guarded C with
  | zero =>
      intro callee body _ _ s arguments result s' _ _ run
      simp [expandAt] at run
  | succ depth inductionHypothesis =>
      intro callee body found claimed
      have executes : Executes C (block { program, options, expand := expandAt program options depth }
          ((program.function callee).body.getD [])) := by
        simp only at found
        rw [found]
        refine executes_statements (fun guarded => inductionHypothesis guarded C) body ?_
        intro stmt member slot C
        exact claimed slot (.part member C)
      exact expands_expandBody executes

end X64Backend.Lower
