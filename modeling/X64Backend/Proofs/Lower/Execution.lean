import X64Backend.Proofs.Lower.Evaluation

/-!
Statements as moves of the generator.  A statement defines the labels that it makes, and returns
change only the innermost of the calls in progress.
-/

namespace X64Backend.Lower

open X64Backend.Tree

variable {program : TypedProgram} {since : Handle} {c c' c'' : Config}

/-- Between statements nothing is owed that was not owed before, and only the innermost call in
progress has changed. -/
structure Resumed (c c' : Config) : Prop where
  awaited : c'.awaited = c.awaited
  words : c'.words = c.words
  loops : c'.state.loops = c.state.loops
  outer : c'.state.activations.tail = c.state.activations.tail
  length : c'.state.activations.length = c.state.activations.length
  count : c.count ≤ c'.count
  defined : c.defined ⊆ c'.defined

/-- Other calls are in progress. -/
def Config.during (c : Config) (calls : List Activation) : Config :=
  c.turn { c.state with activations := calls }

/-- At most the innermost call in progress was replaced. -/
theorem Kept.resumed_during {calls : List Activation} (kept : Kept (c.during calls) c')
    (outer : calls.tail = c.state.activations.tail)
    (length : calls.length = c.state.activations.length) : Resumed c c' :=
  ⟨kept.awaited, kept.words, kept.loops, (congrArg List.tail kept.activations).trans outer,
    (congrArg List.length kept.activations).trans length, kept.count, kept.defined⟩

theorem Kept.resumed (kept : Kept c c') : Resumed c c' :=
  ⟨kept.awaited, kept.words, kept.loops, congrArg List.tail kept.activations,
    congrArg List.length kept.activations, kept.count, kept.defined⟩

theorem Resumed.trans (first : Resumed c c') (second : Resumed c' c'') : Resumed c c'' :=
  ⟨second.awaited.trans first.awaited, second.words.trans first.words,
    second.loops.trans first.loops, second.outer.trans first.outer,
    second.length.trans first.length, Nat.le_trans first.count second.count,
    Multiset.Subset.trans first.defined second.defined⟩

theorem Resumed.owing (resumed : Resumed c c') (label : String) :
    Resumed (c.owing label) (c'.owing label) :=
  ⟨congrArg (label ::ₘ ·) resumed.awaited, resumed.words, resumed.loops, resumed.outer,
    resumed.length, resumed.count, resumed.defined⟩

theorem Resumed.targets (resumed : Resumed c c') {label : String} (member : label ∈ c.targets) :
    label ∈ c'.targets := by
  rw [Config.targets, resumed.awaited]
  rcases Multiset.mem_add.mp member with awaited | defined
  · exact Multiset.mem_add.mpr (.inl awaited)
  · exact Multiset.mem_add.mpr (.inr (resumed.defined defined))

/-- A computation of statements. -/
def Performs (program : TypedProgram) (since : Handle) (action : Gen Unit) : Prop :=
  ∀ c : Config, c.words = 0 → Follows program since c action fun _ c' => Resumed c c'

/-- A computation that makes one move. -/
theorem Follows.single {α : Type} {action : Gen α} {P : α → Config → Prop} {a : α}
    (move : Move program since c c') (run : action c.state = .ok a c'.state) (promise : P a c') :
    Follows program since c action P := by
  intro valid
  rw [run]
  exact ⟨c', rfl, .single move, promise⟩

theorem Follows.withMoves {α : Type} {action : Gen α} {P : α → Config → Prop}
    (follows : Follows program since c action P) :
    Follows program since c action fun a c' => Moves program since c c' ∧ P a c' :=
  follows.mono fun _ _ moves promise => ⟨moves, promise⟩

theorem Keeps.withMoves {α : Type} {action : Gen α} {P : α → Config → Prop}
    (keeps : Keeps program since c action P) :
    Follows program since c action fun a c' => Moves program since c c' ∧ Kept c c' ∧ P a c' :=
  Follows.withMoves keeps

/-- A computation of expressions among statements. -/
theorem Keeps.resumes {α : Type} {action : Gen α} {P : α → Config → Prop}
    (keeps : Keeps program since c action P) :
    Follows program since c action fun a c' => Resumed c c' ∧ P a c' :=
  Follows.mono keeps fun _ _ _ promise => ⟨promise.1.resumed, promise.2⟩

theorem resumes_defineLabel {label : String} (resumed : Resumed (c.owing label) c') :
    Follows program since c' (defineLabel label) fun _ c'' =>
      Resumed c c'' ∧ c''.defined = label ::ₘ c'.defined := by
  refine Follows.modify (.define resumed.awaited) rfl ⟨?_, rfl⟩
  exact ⟨rfl, resumed.words, resumed.loops, resumed.outer, resumed.length, resumed.count,
    Multiset.Subset.trans resumed.defined (Multiset.subset_cons _ _)⟩

theorem performs_inLoop {entry : Loop} {body : Gen Unit} (performs : Performs program since body)
    (idle : c.words = 0) (exit : entry.exit ∈ c.targets) (next : entry.next ∈ c.targets) :
    Follows program since c (inLoop entry body) fun _ c' => Resumed c c' := by
  refine Follows.given fun valid => ?_
  have among : ∀ loop ∈ entry :: c.state.loops, loop.exit ∈ c.targets ∧ loop.next ∈ c.targets := by
    intro loop member
    rcases List.mem_cons.mp member with rfl | member
    · exact ⟨exit, next⟩
    · exact valid.loops loop member
  have entered : Follows program since c
      (modify fun s => { s with loops := entry :: s.loops }) fun _ c' =>
        c.turn { c.state with loops := entry :: c.state.loops } = c' :=
    Follows.modify (.loops among) rfl rfl
  refine Follows.bind entered ?_
  rintro _ _ rfl
  refine Follows.bind (performs _ idle) fun _ c₁ resumed => Follows.given fun valid₁ => ?_
  refine Follows.modify (.loops fun loop member => valid₁.loops loop (List.mem_of_mem_drop member))
    rfl ?_
  exact ⟨resumed.awaited, resumed.words, congrArg (List.drop 1) resumed.loops, resumed.outer,
    resumed.length, resumed.count, resumed.defined⟩

theorem performs_leaveLoop {keyword : String} {target : Loop → String}
    (aims : ∀ loop, target loop = loop.exit ∨ target loop = loop.next) :
    Performs program since (leaveLoop keyword target) := by
  intro c idle
  refine Follows.given fun valid => ?_
  refine Follows.bind (Follows.get (P := fun s c' => c.state = s ∧ c = c') ⟨rfl, rfl⟩) ?_
  rintro _ _ ⟨rfl, rfl⟩
  split
  · exact (keeps_report _).resumes.mono fun _ _ _ promise => promise.1
  · rename_i innermost outer inside
    have aimed : target innermost ∈ c.targets := by
      obtain ⟨exit, next⟩ := valid.loops innermost (by simp [inside])
      rcases aims innermost with same | same
      · rw [same]
        exact exit
      · rw [same]
        exact next
    have jumps : Keeps program since c (jumpTo (target innermost)) Any := keeps_jumpTo nofun aimed
    exact jumps.resumes.mono fun _ _ _ promise => promise.1

section Returns

variable {innermost : Activation} {outer : List Activation}

theorem modifyActivation_eq {s : State} (calls : s.activations = innermost :: outer)
    (change : Activation → Activation) :
    modifyActivation change s =
      .ok () { s with activations := change innermost :: outer } := by
  rw [modifyActivation, Success.modify_eq, calls]

theorem modifyFrame_eq {s : State} {frame : Frame} (found : s.frame = some frame)
    (change : Frame → Frame) :
    modifyFrame change s = .ok () { s with frame := some (change frame) } := by
  rw [modifyFrame, Success.modify_eq, found]
  rfl

theorem follows_setResult {result : Operand} (calls : c.state.activations = innermost :: outer)
    (usable : result.Usable since c.count) :
    Follows program since c (setResult result) fun _ c' =>
      Kept (c.during ({ innermost with result } :: outer)) c' := by
  have chosen : Follows program since c
      (modifyActivation fun activation => { activation with result }) fun _ c' =>
        c.during ({ innermost with result } :: outer) = c' :=
    Follows.single (.result calls usable) (modifyActivation_eq calls _) rfl
  refine Follows.bind chosen ?_
  rintro _ _ rfl
  exact Follows.mono (keeps_lock result) fun _ _ _ promise => promise.1

/-- A returned value is handed to the innermost call in progress. -/
theorem follows_storeResult {value : Operand} {size : Size} {signed : Bool}
    (calls : c.state.activations = innermost :: outer) (usable : value.Usable since c.count) :
    Follows program since c (storeResult innermost.result value size signed) fun _ c' =>
      ∃ result, Kept (c.during ({ innermost with result } :: outer)) c' := by
  have same : c.during (innermost :: outer) = c := by rw [Config.during, ← calls]; rfl
  refine Follows.given fun valid => ?_
  have earlier : innermost.result.Usable since c.count :=
    valid.innermost calls innermost.result (List.mem_cons_self ..)
  have stored : Follows program since c (store innermost.result value signed .lowFirst) fun _ c' =>
      ∃ result, Kept (c.during ({ innermost with result } :: outer)) c' := by
    refine Follows.mono (keeps_store earlier usable) fun _ c' _ promise => ⟨innermost.result, ?_⟩
    rw [same]
    exact promise.1
  unfold storeResult
  split
  · refine Follows.bind (Follows.get (P := fun _ c' => c = c') rfl) ?_
    rintro s _ rfl
    split
    · exact (follows_setResult calls usable).mono fun _ c' _ kept => ⟨value, kept⟩
    · refine Follows.bind (keeps_stable size) ?_
      rintro chosen c₁ ⟨kept₁, fresh⟩
      refine Follows.bind (follows_setResult (kept₁.activations.trans calls) fresh) ?_
      intro _ c₂ kept₂
      have ofChosen : chosen.Usable since c₂.count := fresh.later kept₂.count
      have ofValue : value.Usable since c₂.count :=
        usable.later (Nat.le_trans kept₁.count kept₂.count)
      refine Follows.mono (keeps_store ofChosen ofValue) fun _ c₃ _ promise => ⟨chosen, ?_⟩
      have begun : Kept (c.during ({ innermost with result := chosen } :: outer))
          (c₁.during ({ innermost with result := chosen } :: outer)) :=
        ⟨kept₁.awaited, kept₁.words, kept₁.loops, rfl, kept₁.count, kept₁.defined⟩
      exact begun.trans (kept₂.trans promise.1)
  · exact stored

/-- The label behind the innermost call in progress is made when it is needed. -/
theorem follows_expansionExit {result : Operand}
    (calls : c.state.activations = { innermost with result } :: outer) :
    Follows program since c (expansionExit innermost) fun label c' =>
      Kept (c.during ({ innermost with result, exit := some label } :: outer)) c' := by
  unfold expansionExit
  split
  · rename_i label made
    have same : c.during ({ innermost with result, exit := some label } :: outer) = c := by
      rw [← made, Config.during, ← calls]
      rfl
    refine Follows.pure ?_
    rw [same]
    exact .refl c
  · rename_i unmade
    have made : Follows program since c (do
        let label ← newLabel
        modifyActivation fun activation => { activation with exit := some label }
        return label) fun label c' =>
          c.state.nextLabel = label ∧ c' = c.turn { c.state with
            labels := c.state.labels + 1
            activations := { innermost with result, exit := some label } :: outer } := by
      refine Follows.single (.exit calls unmade) ?_ ⟨rfl, rfl⟩
      refine Success.bind_ok.mpr ⟨_, { c.state with labels := c.state.labels + 1 }, rfl, ?_⟩
      exact Success.bind_ok.mpr ⟨_, _, modifyActivation_eq
        (s := { c.state with labels := c.state.labels + 1 }) calls _, rfl⟩
    refine made.mono ?_
    rintro label c' _ ⟨_, rfl⟩
    exact ⟨rfl, rfl, rfl, rfl, Nat.le_refl _, .refl _⟩

/-- A jump behind the innermost call in progress is counted. -/
theorem follows_jumpOut {label : String} (calls : c.state.activations = innermost :: outer)
    (made : innermost.exit = some label) :
    Follows program since c (do
      jumpTo label
      modifyActivation fun activation => { activation with jumps := activation.jumps + 1 })
      fun _ c' => Resumed c c' := by
  refine Follows.single (a := ()) (.jumpOut calls made) ?_ ?_
  · refine Success.bind_ok.mpr ⟨(), c.state.emitted (.branch .jmp label), rfl, ?_⟩
    exact modifyActivation_eq (s := c.state.emitted (.branch .jmp label)) calls _
  · exact ⟨rfl, rfl, rfl, (congrArg List.tail calls).symm, (congrArg List.length calls).symm,
      Nat.le_refl _, .refl _⟩

/-- A jump to the epilogue is counted. -/
theorem follows_leave {exit : String} (same : c.state.frame.map Frame.exit = some exit) :
    Follows program since c (do
      jumpTo exit
      modifyFrame fun frame => { frame with jumps := frame.jumps + 1 })
      fun _ c' => Resumed c c' := by
  obtain ⟨frame, found, rfl⟩ := Option.map_eq_some_iff.mp same
  refine Follows.single (a := ()) (.leave found) ?_
    ⟨rfl, rfl, rfl, rfl, rfl, Nat.le_refl _, .refl _⟩
  refine Success.bind_ok.mpr ⟨(), c.state.emitted (.branch .jmp frame.exit), rfl, ?_⟩
  exact modifyFrame_eq (s := c.state.emitted (.branch .jmp frame.exit)) found _

variable {env : Env} {value : Expr}

theorem follows_returnInside (tracked : (lower env value).Tracked env.program since)
    (idle : c.words = 0) (calls : c.state.activations = innermost :: outer) :
    Follows env.program since c (returnInside env innermost value) fun _ c' => Resumed c c' := by
  have leave : ∀ (c₁ : Config) result, Kept (c.during ({ innermost with result } :: outer)) c₁ →
      Follows env.program since c₁ (do
        jumpTo (← expansionExit innermost)
        modifyActivation fun activation => { activation with jumps := activation.jumps + 1 })
        fun _ c' => Resumed c c' := by
    intro c₁ result kept₁
    refine Follows.bind (follows_expansionExit kept₁.activations) ?_
    intro label c₂ kept₂
    have begun := kept₁.resumed_during (congrArg List.tail calls).symm (congrArg List.length calls).symm
    have made := kept₂.resumed_during (congrArg List.tail kept₁.activations).symm
      (congrArg List.length kept₁.activations).symm
    refine (follows_jumpOut kept₂.activations rfl).mono fun _ c₃ _ ended => ?_
    exact begun.trans (made.trans ended)
  unfold returnInside
  dsimp only
  split
  · refine Follows.bind (tracked.value c idle) ?_
    rintro returned c₁ ⟨kept₁, usable⟩
    refine Follows.bind (follows_storeResult (kept₁.activations.trans calls) usable) ?_
    rintro _ c₂ ⟨result, kept₂⟩
    refine leave c₂ result ?_
    have begun : Kept (c.during ({ innermost with result } :: outer))
        (c₁.during ({ innermost with result } :: outer)) :=
      ⟨kept₁.awaited, kept₁.words, kept₁.loops, rfl, kept₁.count, kept₁.defined⟩
    exact begun.trans kept₂
  · refine leave c innermost.result ?_
    rw [Config.during, ← calls]
    exact .refl c

theorem follows_returnFrom (tracked : (lower env value).Tracked env.program since)
    (idle : c.words = 0) {frame : Frame} (found : c.state.frame = some frame) :
    Follows env.program since c (returnFrom env frame value) fun _ c' => Resumed c c' := by
  have leave : ∀ c₁, Moves env.program since c c₁ → Resumed c c₁ →
      Follows env.program since c₁ (do
        jumpTo frame.exit
        modifyFrame fun frame => { frame with jumps := frame.jumps + 1 })
        fun _ c' => Resumed c c' := by
    intro c₁ moves resumed
    have same : c₁.state.frame.map Frame.exit = some frame.exit := by
      have kept := congrArg (Option.map fun identity => identity.2.2.2) moves.identity
      rw [Option.map_map, Option.map_map, found] at kept
      exact kept
    exact (follows_leave same).mono fun _ c₂ _ left => resumed.trans left
  unfold returnFrom
  dsimp only
  split
  · refine Follows.bind (tracked.value c idle).withMoves ?_
    rintro returned c₁ ⟨moves₁, kept₁, usable⟩
    split
    · refine Follows.bind (keeps_report _).withMoves ?_
      rintro _ c₂ ⟨moves₂, kept₂, _⟩
      refine Follows.bind (keeps_release returned).withMoves ?_
      rintro _ c₃ ⟨moves₃, kept₃, _⟩
      exact leave c₃ (moves₁.trans (moves₂.trans moves₃)) (kept₁.trans (kept₂.trans kept₃)).resumed
    · refine Follows.bind (keeps_store (usable_fixed (by decide)) usable).withMoves ?_
      rintro _ c₂ ⟨moves₂, kept₂, _⟩
      exact leave c₂ (moves₁.trans moves₂) (kept₁.trans kept₂).resumed
  · exact leave c .refl (Kept.refl c).resumed

theorem performs_ret (tracked : (lower env value).Tracked env.program since) :
    Performs env.program since (ret env value) := by
  intro c idle
  have looked : Follows env.program since c expansion? fun expansion c' =>
      c = c' ∧ ∀ activation, expansion = some activation →
        ∃ outer, c.state.activations = activation :: outer := by
    refine Follows.bind (Follows.get (P := fun s c' => c.state = s ∧ c = c') ⟨rfl, rfl⟩) ?_
    rintro _ _ ⟨rfl, rfl⟩
    split
    · rename_i innermost outer calls
      refine Follows.pure ⟨rfl, fun activation found => ⟨outer, ?_⟩⟩
      split at found
      · cases found
        exact calls
      · contradiction
    · exact Follows.pure ⟨rfl, by simp⟩
  refine Follows.bind looked ?_
  rintro expansion _ ⟨rfl, innermost⟩
  refine Follows.bind (Follows.get (P := fun s c' => c.state = s ∧ c = c') ⟨rfl, rfl⟩) ?_
  rintro _ _ ⟨rfl, rfl⟩
  split
  · rename_i _ activation
    obtain ⟨outer, calls⟩ := innermost activation rfl
    exact follows_returnInside tracked idle calls
  · rename_i frame found
    exact follows_returnFrom tracked idle found
  · exact Follows.pure (Kept.refl c).resumed

end Returns

section Branches

variable {cond : Lowered} {body thenBody : Gen Unit}

/-- The label behind the first body of a choice is owed. -/
theorem follows_beforeThen (tracked : cond.Tracked program since) (idle : c.words = 0) :
    Follows program since c (beforeThen cond) fun otherwise c' => Kept (c.owing otherwise) c' := by
  refine Follows.bind follows_newLabel fun otherwise c₁ kept₁ => ?_
  refine Follows.bind (tracked.branch c₁ otherwise false (kept₁.words.trans idle)
    (kept₁.targets (c.mem_owing otherwise))) ?_
  rintro _ c₂ ⟨kept₂, _⟩
  refine Follows.bind keeps_endStatement ?_
  rintro _ c₃ ⟨kept₃, _⟩
  exact Follows.pure (kept₁.trans (kept₂.trans kept₃))

/-- The label behind both bodies of a choice is owed. -/
theorem follows_beforeElse (tracked : cond.Tracked program since)
    (performs : Performs program since thenBody) (idle : c.words = 0) :
    Follows program since c (beforeElse cond thenBody) fun done c' =>
      Resumed (c.owing done) c' := by
  refine Follows.bind (follows_beforeThen tracked idle) fun otherwise c₁ kept₁ => ?_
  refine Follows.bind (performs c₁ (kept₁.words.trans idle)) fun _ c₂ resumed₂ => ?_
  refine Follows.bind follows_newLabel fun done c₃ kept₃ => ?_
  have both := ((kept₁.resumed.trans resumed₂).owing done).trans kept₃.resumed
  have rest : ∀ c₄, Resumed ((c.owing otherwise).owing done) c₄ → Follows program since c₄ (do
      defineLabel otherwise
      return done) fun done c' => Resumed (c.owing done) c' := by
    intro c₄ resumed₄
    rw [Config.owing_comm] at resumed₄
    refine Follows.bind (resumes_defineLabel resumed₄) ?_
    rintro _ c₅ ⟨resumed₅, _⟩
    exact Follows.pure resumed₅
  refine Follows.bind (follows_lastInstr (P := fun _ c' => c₃ = c') rfl) ?_
  rintro last _ rfl
  split
  · have jumps : Keeps program since c₃ (jumpTo done) Any :=
      keeps_jumpTo nofun (both.targets (Config.mem_owing _ done))
    refine Follows.bind jumps ?_
    rintro _ c₄ ⟨kept₄, _⟩
    exact rest c₄ (both.trans kept₄.resumed)
  · exact rest c₃ both

theorem choose_none {cond : Lowered} {thenBody : Gen Unit} (unknown : cond.literal? = none) :
    choose cond thenBody none = (do
      let otherwise ← beforeThen cond
      thenBody
      defineLabel otherwise) := by
  simp only [choose, unknown, beforeThen, bind_assoc, pure_bind]

theorem performs_choose {elseBody : Option (Gen Unit)} (tracked : cond.Tracked program since)
    (performs : Performs program since thenBody)
    (otherwise : ∀ body, elseBody = some body → Performs program since body) :
    Performs program since (choose cond thenBody elseBody) := by
  intro c idle
  cases known : cond.literal? with
  | some literal =>
      simp only [choose, known]
      split
      · exact performs c idle
      · cases elseBody with
        | none => exact Follows.pure (Kept.refl c).resumed
        | some body => exact otherwise body rfl c idle
  | none =>
      cases elseBody with
      | none =>
          rw [choose_none known]
          refine Follows.bind (follows_beforeThen tracked idle) fun label c₁ kept₁ => ?_
          refine Follows.bind (performs c₁ (kept₁.words.trans idle)) fun _ c₂ resumed₂ => ?_
          have owed := kept₁.resumed.trans resumed₂
          exact (resumes_defineLabel owed).mono fun _ _ _ defined => defined.1
      | some body =>
          rw [choose_eq known]
          refine Follows.bind (follows_beforeElse tracked performs idle) fun done c₁ owed => ?_
          refine Follows.bind (otherwise body rfl c₁ (owed.words.trans idle)) ?_
          intro _ c₂ resumed₂
          refine Follows.bind keeps_endStatement ?_
          rintro _ c₃ ⟨kept₃, _⟩
          have last := owed.trans (resumed₂.trans kept₃.resumed)
          exact (resumes_defineLabel last).mono fun _ _ _ defined => defined.1

/-- The start of a loop is defined, its end is owed. -/
theorem follows_beforeWhile : Follows program since c beforeWhile fun entry c' =>
    Kept (c.owing entry.exit) c' ∧ entry.next ∈ c'.defined := by
  refine Follows.bind follows_newLabel fun top c₁ kept₁ => ?_
  refine Follows.bind follows_newLabel fun done c₂ kept₂ => ?_
  have both := (kept₁.owing done).trans kept₂
  rw [Config.owing_comm] at both
  refine Follows.bind (follows_defineLabel both) ?_
  rintro _ c₃ ⟨kept₃, defined⟩
  exact Follows.pure ⟨kept₃, by rw [defined]; exact Multiset.mem_cons_self top _⟩

theorem follows_beforeRound (tracked : cond.Tracked program since) (idle : c.words = 0) :
    Follows program since c (beforeRound cond) fun entry c' =>
      Kept (c.owing entry.exit) c' ∧ entry.next ∈ c'.defined := by
  refine Follows.bind follows_beforeWhile ?_
  rintro entry c₁ ⟨kept₁, defined⟩
  refine Follows.bind (tracked.branch c₁ entry.exit false (kept₁.words.trans idle)
    (kept₁.targets (c.mem_owing entry.exit))) ?_
  rintro _ c₂ ⟨kept₂, _⟩
  refine Follows.bind keeps_endStatement ?_
  rintro _ c₃ ⟨kept₃, _⟩
  have kept := kept₂.trans kept₃
  exact Follows.pure ⟨kept₁.trans kept, kept.defined defined⟩

theorem performs_repeatWhile (tracked : cond.Tracked program since)
    (performs : Performs program since body) :
    Performs program since (repeatWhile cond body) := by
  intro c idle
  by_cases runs : cond.literal?.all truth = true
  · rw [repeatWhile_eq runs]
    refine Follows.bind (follows_beforeRound tracked idle) ?_
    rintro entry c₁ ⟨kept₁, defined⟩
    have next : entry.next ∈ c₁.targets := Multiset.mem_add.mpr (.inr defined)
    refine Follows.bind (performs_inLoop performs (kept₁.words.trans idle)
      (kept₁.targets (c.mem_owing entry.exit)) next) ?_
    intro _ c₂ resumed₂
    have jumps : Keeps program since c₂ (jumpTo entry.next) Any :=
      keeps_jumpTo nofun (resumed₂.targets next)
    refine Follows.bind jumps ?_
    rintro _ c₃ ⟨kept₃, _⟩
    have last := kept₁.resumed.trans (resumed₂.trans kept₃.resumed)
    exact (resumes_defineLabel last).mono fun _ _ _ defined => defined.1
  · simp only [repeatWhile, runs]
    exact Follows.pure (Kept.refl c).resumed

theorem performs_headerPart {part : Option (Gen Unit)}
    (performs : ∀ action, part = some action →
      Follows program since c action fun _ c' => Resumed c c') :
    Follows program since c (headerPart part) fun _ c' => Resumed c c' := by
  unfold headerPart
  split
  · refine Follows.bind (performs _ rfl) fun _ c₁ resumed => ?_
    exact (keeps_endStatement (c := c₁)).resumes.mono fun _ _ _ promise =>
      resumed.trans promise.1
  · exact Follows.pure (Kept.refl c).resumed

section Headers

variable {start post : Option (Gen Unit)} {cond : Option Lowered}
  (starts : ∀ action, start = some action → Performs program since action)
include starts

/-- The start of the rounds is defined; the start of the step and the end are owed. -/
theorem follows_beforeFor (idle : c.words = 0) :
    Follows program since c (beforeFor start) fun head c' =>
      Resumed ((c.owing head.2.next).owing head.2.exit) c' ∧ head.1 ∈ c'.defined := by
  refine Follows.bind (performs_headerPart fun action given => starts action given c idle) ?_
  intro _ c₁ resumed₁
  refine Follows.bind follows_newLabel fun top c₂ kept₂ => ?_
  refine Follows.bind follows_newLabel fun next c₃ kept₃ => ?_
  refine Follows.bind follows_newLabel fun done c₄ kept₄ => ?_
  have three := (((kept₂.owing next).trans kept₃).owing done).trans kept₄
  rw [Config.owing_comm c₁, Config.owing_comm (c₁.owing next)] at three
  refine Follows.bind (follows_defineLabel three) ?_
  rintro _ c₅ ⟨kept₅, defined⟩
  refine Follows.pure ⟨((resumed₁.owing next).owing done).trans kept₅.resumed, ?_⟩
  rw [defined]
  exact Multiset.mem_cons_self top _

variable (tracked : ∀ lowered, cond = some lowered → lowered.Tracked program since)
include tracked

theorem follows_beforeForRound (idle : c.words = 0) :
    Follows program since c (beforeForRound start cond) fun head c' =>
      Resumed ((c.owing head.2.next).owing head.2.exit) c' ∧ head.1 ∈ c'.defined := by
  refine Follows.bind (follows_beforeFor starts idle) ?_
  rintro ⟨top, entry⟩ c₁ ⟨owed, defined⟩
  refine Follows.bind (performs_headerPart (c := c₁) ?_) fun _ c₂ resumed₂ => ?_
  · intro action given
    obtain ⟨lowered, known, rfl⟩ := Option.map_eq_some_iff.mp given
    exact ((tracked lowered known).branch c₁ entry.exit false (owed.words.trans idle)
      (owed.targets (Config.mem_owing _ entry.exit))).resumes.mono fun _ _ _ promise => promise.1
  · exact Follows.pure ⟨owed.trans resumed₂, resumed₂.defined defined⟩

theorem follows_beforePost (performs : Performs program since body) (idle : c.words = 0) :
    Follows program since c (beforePost start cond body) fun head c' =>
      Resumed (c.owing head.2.exit) c' ∧ head.1 ∈ c'.defined := by
  refine Follows.bind (follows_beforeForRound starts tracked idle) ?_
  rintro ⟨top, entry⟩ c₁ ⟨owed, defined⟩
  refine Follows.bind (performs_inLoop performs (owed.words.trans idle)
    (owed.targets (Config.mem_owing _ entry.exit))
    (owed.targets (Config.targets_owing (c.mem_owing entry.next)))) fun _ c₂ resumed₂ => ?_
  have both := owed.trans resumed₂
  rw [Config.owing_comm] at both
  refine Follows.bind (resumes_defineLabel both) ?_
  rintro _ c₃ ⟨resumed₃, defined₃⟩
  refine Follows.pure ⟨resumed₃, ?_⟩
  rw [defined₃]
  exact Multiset.mem_cons_of_mem (resumed₂.defined defined)

theorem performs_repeatFor
    (posts : ∀ action, post = some action → Performs program since action)
    (performs : Performs program since body) :
    Performs program since (repeatFor start cond post body) := by
  intro c idle
  rw [repeatFor_eq]
  refine Follows.bind (follows_beforePost starts tracked performs idle) ?_
  rintro ⟨top, entry⟩ c₁ ⟨owed, defined⟩
  refine Follows.bind (performs_headerPart fun action given => posts action given c₁
    (owed.words.trans idle)) fun _ c₂ resumed₂ => ?_
  have again : top ∈ c₂.targets := resumed₂.targets (Multiset.mem_add.mpr (.inr defined))
  have jumps : Keeps program since c₂ (jumpTo top) Any := keeps_jumpTo nofun again
  refine Follows.bind jumps ?_
  rintro _ c₃ ⟨kept₃, _⟩
  have last := owed.trans (resumed₂.trans kept₃.resumed)
  exact (resumes_defineLabel last).mono fun _ _ _ ended => ended.1

end Headers

end Branches

theorem contained_expr {stmt : Stmt} {e : Expr} (member : e ∈ stmt.exprs)
    (contained : ∀ block, Stmt.Contains block stmt → program.Contains block) :
    ∀ block, Expr.Contains block e → program.Contains block :=
  fun block inside => contained block (.expr member inside)

theorem contained_stmt {stmt part : Stmt} (member : part ∈ stmt.parts)
    (contained : ∀ block, Stmt.Contains block stmt → program.Contains block) :
    ∀ block, Stmt.Contains block part → program.Contains block :=
  fun block inside => contained block (.part member inside)

section Statements

variable {env : Env}

theorem performs_assign {target value : Expr}
    (ofTarget : (lower env target).Tracked env.program since)
    (ofValue : (lower env value).Tracked env.program since) :
    Performs env.program since (assign env target value) := by
  intro c idle
  have keeps : Keeps env.program since c (assign env target value) Any := by
    refine (ofValue.value c idle).bind fun result c₁ kept₁ ofResult => ?_
    refine (produces_placeOf ofTarget c₁ (kept₁.words.trans idle)).bind
      fun dst c₂ kept₂ ofDst => ?_
    exact (keeps_store ofDst (kept₂.usable ofResult)).bind fun _ _ _ _ => keeps_release dst
  exact keeps.resumes.mono fun _ _ _ promise => promise.1

mutual

theorem performs_statement (expandable : env.Expandable since) (stmt : Stmt)
    (contained : ∀ block, Stmt.Contains block stmt → env.program.Contains block) :
    Performs env.program since (statement env stmt) := by
  have tracked : ∀ e ∈ stmt.exprs, (lower env e).Tracked env.program since := fun e member =>
    tracked_lower expandable e (contained_expr member contained)
  cases stmt with
  | absent =>
      rw [statement]
      exact fun c _ => Follows.throw rfl
  | expr value =>
      rw [statement]
      intro c idle
      have keeps := ((tracked value (by simp [Stmt.exprs])).value c idle).bind
        fun operand c₁ _ _ => keeps_release (c := c₁) operand
      exact keeps.resumes.mono fun _ _ _ promise => promise.1
  | assign target value =>
      rw [statement]
      exact performs_assign (tracked target (by simp [Stmt.exprs]))
        (tracked value (by simp [Stmt.exprs]))
  | ret value =>
      rw [statement]
      exact performs_ret (tracked value (by simp [Stmt.exprs]))
  | ite cond thenBody elseBody =>
      have first := performs_statements expandable thenBody fun stmt member =>
        contained_stmt (by simp [Stmt.parts, member]) contained
      have second := performs_statement expandable elseBody
        (contained_stmt (by simp [Stmt.parts]) contained)
      rw [statement]
      refine performs_choose (tracked cond (by simp [Stmt.exprs])) first ?_
      intro body given
      split at given
      · contradiction
      · cases given
        exact second
  | «while» cond body =>
      have inner := performs_statements expandable body fun stmt member =>
        contained_stmt (by simp [Stmt.parts, member]) contained
      rw [statement]
      exact performs_repeatWhile (tracked cond (by simp [Stmt.exprs])) inner
  | «for» start cond post body =>
      have first := performs_statement expandable start
        (contained_stmt (by simp [Stmt.parts]) contained)
      have last := performs_statement expandable post
        (contained_stmt (by simp [Stmt.parts]) contained)
      have inner := performs_statements expandable body fun stmt member =>
        contained_stmt (by simp [Stmt.parts, member]) contained
      rw [statement]
      refine performs_repeatFor ?_ ?_ ?_ inner
      · intro action given
        split at given
        · contradiction
        · cases given
          exact first
      · intro lowered given
        split at given
        · contradiction
        · cases given
          exact tracked cond (by simp [Stmt.exprs])
      · intro action given
        split at given
        · contradiction
        · cases given
          exact last
  | «break» =>
      rw [statement]
      exact performs_leaveLoop fun _ => .inl rfl
  | «continue» =>
      rw [statement]
      exact performs_leaveLoop fun _ => .inr rfl
  | block body =>
      rw [statement]
      exact performs_statements expandable body fun stmt member =>
        contained_stmt (by simp [Stmt.parts, member]) contained

theorem performs_statements (expandable : env.Expandable since) (body : List Stmt)
    (contained : ∀ stmt ∈ body, ∀ block, Stmt.Contains block stmt → env.program.Contains block) :
    Performs env.program since (statement.statements env body) := by
  cases body with
  | nil =>
      rw [statement.statements]
      exact fun c _ => Follows.pure (Kept.refl c).resumed
  | cons stmt rest =>
      have first := performs_statement expandable stmt (contained stmt (by simp))
      have others := performs_statements expandable rest fun other member =>
        contained other (by simp [member])
      rw [statement.statements]
      intro c idle
      refine Follows.bind (first c idle) fun _ c₁ resumed₁ => ?_
      refine Follows.bind keeps_endStatement ?_
      rintro _ c₂ ⟨kept₂, _⟩
      have begun := resumed₁.trans kept₂.resumed
      exact (others c₂ (begun.words.trans idle)).mono fun _ _ _ resumed => begun.trans resumed

end

end Statements

end X64Backend.Lower
