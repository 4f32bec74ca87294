import X64Backend.Proofs.Lower.Execution

/-!
Inline expansions as moves of the generator.  An expansion is a call in progress: it begins without
a label behind it, and when it ends the label is defined if a jump to it is left.
-/

namespace X64Backend.Lower

open X64Backend.Tree

variable {program : TypedProgram} {since : Handle} {c c' : Config}

section Opening

theorem keeps_copyArgument {body : List Stmt} {id : VarId} {v : Variable} {argument : Operand}
    (usable : argument.Usable since c.count) :
    Keeps program since c (copyArgument program body id v argument) (Yield since) := by
  have chosen : ∀ copy c₁, Kept c c₁ → Yield since copy c₁ → Keeps program since c₁ (do
      move copy argument v.type.isSigned .lowFirst
      drafting (Drafting.lock copy)
      return copy) (Yield since) := by
    intro copy c₁ kept₁ ofCopy
    refine (keeps_move ofCopy (kept₁.usable usable)).bind fun _ c₂ kept₂ _ => ?_
    exact (keeps_lock copy).bind fun _ c₃ kept₃ _ => Keeps.pure ((kept₂.trans kept₃).usable ofCopy)
  unfold copyArgument
  split
  · exact (keeps_stackTemp _).bind chosen
  · exact (keeps_stable _).bind chosen

/-- What the parameters stand for may be named. -/
def Bound.Usable (since : Handle) (bound : Bound) (c : Config) : Prop :=
  ∀ entry ∈ bound.entries, entry.2.Usable since c.count

theorem Bound.Usable.append {bound : Bound} (usable : bound.Usable since c) {operand : Operand}
    (last : operand.Usable since c.count) (id : VarId) (copies : List Operand) :
    Bound.Usable since ⟨bound.entries ++ [(id, operand)], copies⟩ c := by
  intro entry member
  rcases List.mem_append.mp member with member | member
  · exact usable entry member
  · rw [List.mem_singleton.mp member]
    exact last

theorem keeps_bindArgument {fn : Function} {body : List Stmt} {bound : Bound}
    {item : (VarId × Variable) × Operand} (usable : bound.Usable since c)
    (given : item.2.Usable since c.count) :
    Keeps program since c (bindArgument program fn body bound item) (Bound.Usable since) := by
  obtain ⟨⟨id, v⟩, argument⟩ := item
  unfold bindArgument
  dsimp only
  split
  · refine (keeps_copyArgument given).bind fun copy c₁ kept ofCopy => Keeps.pure ?_
    have later : bound.Usable since c₁ := fun entry member => kept.usable (usable entry member)
    exact later.append ofCopy id _
  · exact Keeps.pure (usable.append given id _)

theorem keeps_takeLocals (callee : FnId) :
    Keeps program since c (takeLocals callee (program.function callee)) Any := by
  refine (Keeps.get (P := Any) trivial).bind fun s c₁ _ _ => ?_
  exact (Keeps.modify (.grow (.locals callee)) rfl rfl).bind fun _ _ _ _ => Keeps.pure trivial

theorem keeps_openExpansion {env : Env} {callee : FnId} {arguments : List Operand}
    (usable : ∀ argument ∈ arguments, argument.Usable since c.count) :
    Keeps env.program since c (openExpansion env callee arguments) fun opening c' =>
      opening.bound.Usable since c' := by
  refine keeps_reserveIfBusy.bind fun _ c₁ kept₁ _ => ?_
  refine (Keeps.get (P := Any) trivial).bind fun s c₂ kept₂ _ => ?_
  refine keeps_lockLive.bind fun locked c₃ kept₃ _ => ?_
  have begun := kept₁.trans (kept₂.trans kept₃)
  have bound : Keeps env.program since c₃
      (((argumentIds callee (env.program.function callee)).zip arguments).foldlM
        (bindArgument env.program (env.program.function callee)
          ((env.program.function callee).body.getD [])) ⟨[], []⟩) (Bound.Usable since) := by
    refine Keeps.foldlM (by simp [Bound.Usable]) ?_
    intro item member bound c₄ kept₄ ofBound
    refine keeps_bindArgument ofBound ?_
    exact (begun.trans kept₄).usable (usable item.2 (List.of_mem_zip member).2)
  refine bound.bind fun bound c₄ kept₄ ofBound => ?_
  refine (keeps_takeLocals callee).bind fun locals c₅ kept₅ _ => ?_
  refine (Keeps.get (P := Any) trivial).bind fun s c₆ kept₆ _ => ?_
  refine (keeps_log _).bind fun _ c₇ kept₇ _ => Keeps.pure ?_
  intro entry member
  exact (kept₅.trans (kept₆.trans kept₇)).usable (ofBound entry member)

end Opening

section Closing

variable {s : State} {label : String}

/-- The state without its newest instruction, which is noted. -/
def State.withoutLast (s : State) (message : String) : State :=
  { s with draft := { s.draft with
    text := s.draft.text.removeLast
    trace := message :: s.draft.trace } }

theorem dropJump_eq (jumps : Nat) : dropJump label jumps s =
    if isJumpTo label (s.draft.text.last?.getD .absent) then
      .ok (jumps - 1)
        (s.withoutLast ("inline: dropped the jump to " ++ label ++ " before its label"))
    else .ok jumps s := by
  by_cases direct : isJumpTo label (s.draft.text.last?.getD .absent) = true
  · rw [if_pos direct]
    refine Success.bind_ok.mpr ⟨_, s, rfl, ?_⟩
    rw [if_pos direct]
    rfl
  · rw [if_neg direct]
    refine Success.bind_ok.mpr ⟨_, s, rfl, ?_⟩
    rw [if_neg direct]
    rfl

/-- The label behind an expansion is defined if a jump to it is left. -/
theorem closeExpansion_eq {activation : Activation} (made : activation.exit = some label) :
    ∃ s', closeExpansion activation s = .ok () s' ∧
      Noted (s.withText (closedText s.draft.text label activation.jumps)) s' := by
  have ended : ∀ jumps s₁, dropJump label activation.jumps s = .ok jumps s₁ →
      closeExpansion activation s =
        .ok () (if 0 < jumps then s₁.emitted (.label label false) else s₁) := by
    intro jumps s₁ dropped
    simp only [closeExpansion, made]
    refine Success.bind_ok.mpr ⟨jumps, s₁, dropped, ?_⟩
    split
    · rfl
    · rfl
  by_cases direct : isJumpTo label (s.draft.text.last?.getD .absent) = true
  · refine ⟨_, ended _ _ ((dropJump_eq activation.jumps).trans (if_pos direct)), ?_⟩
    by_cases jumps : 0 < activation.jumps - 1
    · simp only [closedText, direct, if_true, jumps]
      exact ⟨rfl, rfl, rfl, rfl, rfl, rfl, rfl, rfl, id⟩
    · simp only [closedText, direct, if_true, jumps, if_false]
      exact ⟨rfl, rfl, rfl, rfl, rfl, rfl, rfl, rfl, id⟩
  · refine ⟨_, ended _ _ ((dropJump_eq activation.jumps).trans (if_neg direct)), ?_⟩
    by_cases jumps : 0 < activation.jumps
    · simp only [closedText, direct, Bool.false_eq_true, if_false, jumps, if_true]
      exact ⟨rfl, rfl, rfl, rfl, rfl, rfl, rfl, rfl, id⟩
    · simp only [closedText, direct, Bool.false_eq_true, if_false, jumps]
      exact ⟨rfl, rfl, rfl, rfl, rfl, rfl, rfl, rfl, id⟩

/-- The end of an expansion: the call is over, the loops around it are back. -/
theorem follows_endExpansion {innermost : Activation} {outer : List Activation}
    {loops : List Loop} (calls : c.state.activations = innermost :: outer)
    (aimed : ∀ loop ∈ loops, loop.exit ∈ c.targets ∧ loop.next ∈ c.targets) :
    Follows program since c (do
      modify fun s => { s with activations := outer }
      modify fun s => { s with loops }
      closeExpansion innermost) fun _ c' =>
        Kept (c.turn { c.state with activations := outer, loops }) c' := by
  cases made : innermost.exit with
  | none =>
      have ended : Follows program since c (modify fun s => { s with activations := outer })
          fun _ c' => c.turn { c.state with activations := outer } = c' :=
        Follows.modify (.done calls made) rfl rfl
      refine Follows.bind ended ?_
      rintro _ _ rfl
      have back : Follows program since (c.turn { c.state with activations := outer })
          (modify fun s => { s with loops })
          fun _ c' => c.turn { c.state with activations := outer, loops } = c' :=
        Follows.modify (.loops aimed) rfl rfl
      refine Follows.bind back ?_
      rintro _ _ rfl
      simp only [closeExpansion, made]
      exact Follows.pure (.refl _)
  | some label =>
      intro valid
      obtain ⟨s', ran, noted⟩ := closeExpansion_eq
        (s := { c.state with activations := outer, loops }) made
      have run : (do
          modify fun s => { s with activations := outer }
          modify fun s => { s with loops }
          closeExpansion innermost : Gen Unit) c.state = .ok () s' := ran
      rw [run]
      let text := closedText c.state.draft.text label innermost.jumps
      let c₁ := c.turn { c.state.withText text with activations := outer }
      let c₂ := c.turn { c.state.withText text with activations := outer, loops }
      have first : Move program since c c₁ := .close calls made
      have second : Move program since c₁ c₂ := .loops aimed
      have third : Move program since c₂ (c₂.turn s') := .note noted
      refine ⟨c₂.turn s', rfl, .tail (.tail (.single first) second) third, ?_⟩
      exact ⟨rfl, rfl, noted.loops, noted.activations,
        Nat.le_of_eq (congrArg Timeline.count noted.timeline.symm), .refl _⟩

theorem keeps_closeOpening {fn : Function} {opening : Opening} {result : Operand}
    (usable : result.Usable since c.count) :
    Keeps program since c (closeOpening fn opening result) (Yield since) := by
  refine (Keeps.forM fun operand _ c' _ => keeps_freeAnyway operand).bind fun _ c₁ kept₁ _ => ?_
  refine (Keeps.forM fun operand _ c' _ => keeps_freeAnyway operand).bind fun _ c₂ kept₂ _ => ?_
  refine (Keeps.forM fun register _ c' _ => keeps_unlock (.reg register)).bind
    fun _ c₃ kept₃ _ => ?_
  have usable₃ := (kept₁.trans (kept₂.trans kept₃)).usable usable
  unfold expansionValue
  split
  · exact Keeps.pure Operand.usable_absent
  · split
    · exact (keeps_report _).bind fun _ _ _ _ => Keeps.pure (Operand.usable_lit _)
    · exact (keeps_settle _).bind fun _ _ kept₄ _ => Keeps.pure (kept₄.usable usable₃)
    · exact Keeps.pure usable₃

end Closing

theorem expansionBody_eq (env : Env) (callee : FnId) (opening : Opening) :
    expansionBody env callee opening = (do
      let loops := (← get).loops
      modify fun s => { s with loops := [] }
      modify fun s => { s with activations := opening.activation callee :: s.activations }
      block env ((env.program.function callee).body.getD [])
      let left := (← get).activations
      modify fun s => { s with activations := left.drop 1 }
      modify fun s => { s with loops }
      closeExpansion (left.head?.getD (opening.activation callee))
      return left.head?.getD (opening.activation callee)) := by
  simp only [expansionBody, outsideLoops, withActivation, bind_assoc, pure_bind]

section Expansion

variable {env : Env} {callee : FnId}

theorem keeps_expansionBody {opening : Opening}
    (performs : Performs env.program since
      (block env ((env.program.function callee).body.getD [])))
    (idle : c.words = 0) (usable : opening.bound.Usable since c) :
    Keeps env.program since c (expansionBody env callee opening) fun final c' =>
      Yield since final.result c' := by
  rw [expansionBody_eq]
  refine Follows.given fun valid => ?_
  refine Follows.bind (Follows.get (P := fun s c' => c.state = s ∧ c = c') ⟨rfl, rfl⟩) ?_
  rintro _ _ ⟨rfl, rfl⟩
  have none : ∀ operand ∈ (opening.activation callee).operands, operand.Usable since c.count := by
    intro operand member
    rcases List.mem_cons.mp member with rfl | member
    · exact Operand.usable_absent
    · obtain ⟨entry, among, rfl⟩ := List.mem_map.mp member
      exact usable entry among
  let outside := c.turn { c.state with loops := [] }
  let inside := outside.during (opening.activation callee :: c.state.activations)
  have left : Follows env.program since c (modify fun s => { s with loops := [] })
      fun _ c' => outside = c' :=
    Follows.modify (.loops (by simp)) rfl rfl
  have entered : Follows env.program since outside
      (modify fun s => { s with activations := opening.activation callee :: s.activations })
      fun _ c' => inside = c' :=
    Follows.modify (.enter rfl rfl none) rfl rfl
  refine Follows.bind left ?_
  rintro _ _ rfl
  refine Follows.bind entered ?_
  rintro _ _ rfl
  refine Follows.bind (performs inside idle) fun _ c₁ resumed => Follows.given fun valid₁ => ?_
  refine Follows.bind (Follows.get (P := fun s c' => c₁.state = s ∧ c₁ = c') ⟨rfl, rfl⟩) ?_
  rintro _ _ ⟨rfl, rfl⟩
  obtain ⟨innermost, outer, calls⟩ := List.exists_cons_of_length_pos
    (Nat.lt_of_lt_of_eq (Nat.succ_pos _) resumed.length.symm)
  have same : outer = c.state.activations := by
    have tails := resumed.outer
    rw [calls] at tails
    exact tails
  subst same
  have aimed : ∀ loop ∈ c.state.loops, loop.exit ∈ c₁.targets ∧ loop.next ∈ c₁.targets := by
    intro loop member
    obtain ⟨exit, next⟩ := valid.loops loop member
    exact ⟨resumed.targets exit, resumed.targets next⟩
  have ended : Follows env.program since c₁ _ _ := follows_endExpansion calls aimed
  simp only [calls, List.drop_one, List.tail_cons, List.head?_cons, Option.getD_some]
  simp only [← bind_assoc] at ended ⊢
  refine Follows.bind ended fun _ c₂ kept => Follows.pure ⟨?_, ?_⟩
  · exact ⟨kept.awaited.trans resumed.awaited, kept.words.trans resumed.words, kept.loops,
      kept.activations, Nat.le_trans resumed.count kept.count,
      Multiset.Subset.trans resumed.defined kept.defined⟩
  · have result := valid₁.innermost calls innermost.result (List.mem_cons_self ..)
    exact result.later kept.count

theorem keeps_expandBody {arguments : List Operand}
    (performs : Performs env.program since
      (block env ((env.program.function callee).body.getD [])))
    (idle : c.words = 0) (usable : ∀ argument ∈ arguments, argument.Usable since c.count) :
    Keeps env.program since c (expandBody env callee arguments) (Yield since) := by
  rw [expandBody_eq]
  refine (keeps_openExpansion usable).bind fun opening c₁ kept₁ bound => ?_
  refine (keeps_expansionBody performs (kept₁.words.trans idle) bound).bind
    fun final c₂ _ result => ?_
  exact keeps_closeOpening result

end Expansion

/-- A block of the body of a function is one of the program. -/
theorem contains_body {callee : FnId} {stmt : Stmt} {block : Block}
    (member : stmt ∈ (program.function callee).body.getD []) (inside : Stmt.Contains block stmt) :
    program.Contains block := by
  cases found : (program.function callee).body with
  | none =>
      rw [found] at member
      contradiction
  | some body =>
      rw [found] at member
      exact ⟨callee, body, found, .part member inside⟩

/-- Calls can be expanded in each other to any depth. -/
theorem expandable_envAt (program : TypedProgram) (options : Options) (depth : Nat) :
    (envAt program options depth).Expandable since := by
  induction depth with
  | zero => exact fun callee c arguments _ _ => Keeps.throw rfl
  | succ depth inductionHypothesis =>
      intro callee c arguments idle usable
      have inlined : Keeps program since c
          (expandBody (envAt program options depth) callee arguments) (Yield since) := by
        refine keeps_expandBody ?_ idle usable
        exact performs_statements inductionHypothesis _ fun stmt member block inside =>
          contains_body member inside
      exact inlined

end X64Backend.Lower
