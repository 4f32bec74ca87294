import X64Backend.Proofs.Lower.CallChecks

/-!
Statements record what the analysis finds in them.  A statement is in a procedure, or in a body that
is being expanded; there it may hand over a result, which is kept in a register or in memory at the
width of what the function returns.
-/

namespace X64Backend.Lower

open X64Backend.Tree Drafting

/-- What a statement cannot change of a call in progress. -/
def Activation.settings (activation : Activation) : Bool × FnId × List (VarId × Operand) :=
  (activation.inlining, activation.fn, activation.bound)

/-- Where a statement stands. -/
def State.stand (s : State) :
    Option (Bool × FnId × List (VarId × Operand)) × List Activation × List Loop × Option FnId ×
      Nat :=
  (s.activations.head?.map Activation.settings, s.activations.drop 1, s.loops,
    s.frame.map Frame.fn, s.collector.maxErrors)

/-- The result that has been handed over to the innermost call. -/
def State.handed (s : State) : Operand :=
  (s.activations.head?.map Activation.result).getD .absent

/-- A statement of a function, in a loop or not. -/
structure Inside (program : TypedProgram) (fn : Function) (looping : Bool) (s : State) : Prop where
  function :
    (s.activations = [] ∧ ∃ id, s.frame.map Frame.fn = some id ∧ program.function id = fn) ∨
    ∃ innermost outer, s.activations = innermost :: outer ∧ innermost.inlining = true ∧
      program.function innermost.fn = fn
  loops : looping = true ↔ s.loops ≠ []

/-- A result that has been handed over is no literal and has the width of the function's type. -/
def State.Keeping (fn : Function) (s : State) : Prop :=
  s.handed = .absent ∨ s.handed.constant? = none ∧ s.handed.size = fn.returnType.operandSize

/-- What has been handed over stays handed over. -/
structure Hands (fn : Function) (answers : Prop) (s s' : State) : Prop where
  keeping : s.Keeping fn → s'.Keeping fn
  kept : s.handed ≠ .absent → s'.handed ≠ .absent
  answers : answers → s.activations ≠ [] → s'.handed ≠ .absent

/-- A computation of statements is judged by what it checks, what is enough for it, and whether it
hands over a result. -/
abbrev Proceeds {α : Type} (fn : Function) (s : State) (action : Gen α)
    (checked enough answers : Prop) : Prop :=
  Checks s action checked (s.Keeping fn ∧ enough) fun _ s' =>
    s'.stand = s.stand ∧ (s'.Unreported → Hands fn answers s s')

section Stands

variable {program : TypedProgram} {fn : Function} {looping : Bool} {s s₁ : State}

theorem stand_of_same (same : s₁.surroundings = s.surroundings) : s₁.stand = s.stand := by
  simp only [State.surroundings, Prod.mk.injEq] at same
  simp only [State.stand, same]

theorem handed_of_same (same : s₁.surroundings = s.surroundings) : s₁.handed = s.handed := by
  simp only [State.handed, activations_of_same same]

/-- Where the same is in place, the same calls are in progress but for what has become of the
innermost one. -/
theorem stand_cases (same : s₁.stand = s.stand) : s₁.activations = [] ∧ s.activations = [] ∨
    ∃ innermost₁ innermost outer, s₁.activations = innermost₁ :: outer ∧
      s.activations = innermost :: outer ∧ innermost₁.settings = innermost.settings := by
  simp only [State.stand, Prod.mk.injEq] at same
  obtain ⟨head, tail, _⟩ := same
  cases calls : s.activations with
  | nil => simp_all
  | cons innermost outer =>
      cases calls₁ : s₁.activations with
      | nil => simp [calls, calls₁] at head
      | cons innermost₁ outer₁ =>
          simp only [calls, calls₁, List.head?_cons, Option.map_some, Option.some.injEq,
            List.drop_one, List.tail_cons] at head tail
          exact .inr ⟨innermost₁, innermost, outer, by rw [tail], rfl, head⟩

theorem exact_of_stand (same : s₁.stand = s.stand) :
    Exact s₁.activations ↔ Exact s.activations := by
  rcases stand_cases same with
    ⟨none₁, none⟩ | ⟨innermost₁, innermost, outer, calls₁, calls, settings⟩
  · rw [none₁, none]
  · simp only [Activation.settings, Prod.mk.injEq] at settings
    simp [Exact, calls₁, calls, settings]

theorem unfolded_of_stand (same : s₁.stand = s.stand) :
    Unfolded program s₁.activations ↔ Unfolded program s.activations := by
  rcases stand_cases same with
    ⟨none₁, none⟩ | ⟨innermost₁, innermost, outer, calls₁, calls, settings⟩
  · rw [none₁, none]
  · simp only [Activation.settings, Prod.mk.injEq] at settings
    simp [Unfolded, calls₁, calls, settings]

theorem Inside.of_stand (inside : Inside program fn looping s) (same : s₁.stand = s.stand) :
    Inside program fn looping s₁ := by
  have parts := same
  simp only [State.stand, Prod.mk.injEq] at parts
  obtain ⟨_, _, loops, frame, _⟩ := parts
  refine ⟨?_, by rw [loops]; exact inside.loops⟩
  rw [frame]
  rcases stand_cases same with
    ⟨none₁, none⟩ | ⟨innermost₁, innermost, outer, calls₁, calls, settings⟩
  · rcases inside.function with ⟨_, found⟩ | ⟨_, _, calls, _⟩
    · exact .inl ⟨none₁, found⟩
    · rw [none] at calls
      contradiction
  · rcases inside.function with ⟨none, _⟩ | ⟨_, _, calls', expanding, found⟩
    · rw [calls] at none
      contradiction
    · rw [calls] at calls'
      cases calls'
      simp only [Activation.settings, Prod.mk.injEq] at settings
      exact .inr ⟨innermost₁, outer, calls₁, settings.1.trans expanding,
        by rw [settings.2.1, found]⟩

namespace Hands

variable {answers answers' : Prop} {s' s'' : State}

theorem of_handed (same : s'.handed = s.handed) (never : ¬ answers) : Hands fn answers s s' := by
  refine ⟨fun keeping => ?_, fun kept => ?_, fun answer => absurd answer never⟩
  · unfold State.Keeping
    rw [same]
    exact keeping
  · rwa [same]

theorem trans (first : Hands fn answers s s') (second : Hands fn answers' s' s'')
    (stand : s'.stand = s.stand) : Hands fn (answers ∨ answers') s s'' := by
  refine ⟨second.keeping ∘ first.keeping, second.kept ∘ first.kept, fun answer calls => ?_⟩
  rcases answer with answer | answer
  · exact second.kept (first.answers answer calls)
  · refine second.answers answer fun none => calls ?_
    rcases stand_cases stand with ⟨_, none⟩ | ⟨_, _, _, calls', _⟩
    · exact none
    · rw [calls'] at none
      contradiction

theorem mono (hands : Hands fn answers s s') (weaker : answers' → answers) :
    Hands fn answers' s s' :=
  ⟨hands.keeping, hands.kept, hands.answers ∘ weaker⟩

end Hands

end Stands

section Rules

variable {α β : Type} {fn : Function} {s : State} {action : Gen α} {next : α → Gen β}
  {checked checked' enough enough' answers answers' : Prop}

namespace Proceeds

theorem mono (proceeds : Proceeds fn s action checked enough answers)
    (ofChecked : checked → checked') (ofEnough : enough' → enough)
    (ofAnswers : answers' → answers) : Proceeds fn s action checked' enough' answers' :=
  Checks.mono proceeds (fun _ _ _ _ => ofChecked) (And.imp_right ofEnough) fun _ _ _ promised =>
    ⟨promised.1, fun unreported => (promised.2 unreported).mono ofAnswers⟩

/-- One statement after the other. -/
theorem bind (first : Proceeds fn s action checked enough answers)
    (second : ∀ a s₁, s₁.stand = s.stand →
      Proceeds fn s₁ (next a) checked' enough' answers') :
    Proceeds fn s (action >>= next) (checked ∧ checked') (enough ∧ enough')
      (answers ∨ answers') := by
  refine ⟨?_, ?_⟩
  · intro b s' run
    obtain ⟨a, s₁, ran, run⟩ := Success.bind_ok.mp run
    obtain ⟨⟨stand, hands⟩, earlier⟩ := first.ok ran
    obtain ⟨⟨stand', hands'⟩, earlier'⟩ := (second a s₁ stand).ok run
    refine ⟨⟨stand'.trans stand, fun unreported => ?_⟩, fun unreported => ?_⟩
    · exact (hands (earlier' unreported).1).trans (hands' unreported) stand
    · obtain ⟨unreported₁, checks'⟩ := earlier' unreported
      obtain ⟨unreported₀, checks⟩ := earlier unreported₁
      exact ⟨unreported₀, checks, checks'⟩
  · rintro ⟨keeping, adequate, adequate'⟩ unreported
    have behind := first.silent ⟨keeping, adequate⟩ unreported
    cases ran : action s with
    | error fault s₁ =>
        rw [ran] at behind
        rw [Success.bind_of_error ran]
        exact behind
    | ok a s₁ =>
        rw [ran] at behind
        rw [Success.bind_of_ok ran]
        obtain ⟨⟨stand, hands⟩, _⟩ := first.ok ran
        exact (second a s₁ stand).silent ⟨(hands behind).keeping keeping, adequate'⟩ behind

/-- An expression before the statements that use its value. -/
theorem of_value (checked' enough' : α → Prop) {promise : α → Prop}
    (first : Judges s action checked enough promise)
    (second : ∀ a s₁, action s = .ok a s₁ → s₁.surroundings = s.surroundings →
      Proceeds fn s₁ (next a) (checked' a) (enough' a) answers) :
    Proceeds fn s (action >>= next) (checked ∧ ∃ a, promise a ∧ checked' a)
      (enough ∧ ∀ a, promise a → enough' a) answers := by
  refine ⟨?_, ?_⟩
  · intro b s' run
    obtain ⟨a, s₁, ran, run⟩ := Success.bind_ok.mp run
    obtain ⟨⟨same, promised⟩, earlier⟩ := first.ok ran
    obtain ⟨⟨stand, hands⟩, earlier'⟩ := (second a s₁ ran same).ok run
    refine ⟨⟨stand.trans (stand_of_same same), fun unreported => ?_⟩, fun unreported => ?_⟩
    · have first : Hands fn False s s₁ := .of_handed (handed_of_same same) id
      exact (first.trans (hands unreported) (stand_of_same same)).mono .inr
    · obtain ⟨unreported₁, checks'⟩ := earlier' unreported
      obtain ⟨unreported₀, checks⟩ := earlier unreported₁
      exact ⟨unreported₀, checks, a, promised unreported₁, checks'⟩
  · rintro ⟨keeping, adequate, others⟩ unreported
    have behind := first.silent adequate unreported
    cases ran : action s with
    | error fault s₁ =>
        rw [ran] at behind
        rw [Success.bind_of_error ran]
        exact behind
    | ok a s₁ =>
        rw [ran] at behind
        rw [Success.bind_of_ok ran]
        obtain ⟨⟨same, promised⟩, _⟩ := first.ok ran
        refine (second a s₁ ran same).silent ⟨?_, others a (promised behind)⟩ behind
        unfold State.Keeping
        rw [handed_of_same same]
        exact keeping

/-- Outside of calls there is nobody to hand a result to. -/
theorem idle (proceeds : Proceeds fn s action checked enough answers) (idle : s.activations = []) :
    Proceeds fn s action checked enough answers' :=
  Checks.mono proceeds (fun _ _ _ _ => id) id fun _ _ _ promised => ⟨promised.1, fun unreported =>
    ⟨(promised.2 unreported).keeping, (promised.2 unreported).kept,
      fun _ busy => absurd idle busy⟩⟩

/-- What leaves the surroundings alone hands over nothing. -/
theorem of_judges {promise : α → Prop} (judges : Judges s action checked enough promise) :
    Proceeds fn s action checked enough False :=
  Checks.mono judges (fun _ _ _ _ => id) And.right fun _ _ _ promised =>
    ⟨stand_of_same promised.1, fun _ => .of_handed (handed_of_same promised.1) id⟩

theorem of_mute (mute : Mute action) : Proceeds fn s action True True False :=
  of_judges mute.silent

/-- Statements behind a computation that records nothing. -/
theorem behind (mute : Mute action)
    (rest : ∀ a s₁, action s = .ok a s₁ → s₁.surroundings = s.surroundings →
      Proceeds fn s₁ (next a) checked enough answers) :
    Proceeds fn s (action >>= next) checked enough answers :=
  (of_value (fun _ => checked) (fun _ => enough) mute.silent rest).mono
    (fun checks => checks.2.choose_spec.2) (fun adequate => ⟨trivial, fun _ _ => adequate⟩) id

/-- Statements before computations that record nothing. -/
theorem before (proceeds : Proceeds fn s action checked enough answers)
    (mute : ∀ a, Mute (next a)) :
    Proceeds fn s (action >>= next) checked enough answers :=
  (proceeds.bind fun a _ _ => of_mute (mute a)).mono And.left (fun adequate => ⟨adequate, trivial⟩)
    .inl

end Proceeds

end Rules

section Returns

variable {fn : Function} {s : State}

theorem modifyActivation_idle {s : State} (idle : s.activations = [])
    (change : Activation → Activation) : modifyActivation change s = .ok () s := by
  rw [modifyActivation, Success.modify_eq, idle]

/-- A change of the innermost call in progress records nothing, and the call stays the one that it
is. -/
theorem proceeds_modifyActivation {change : Activation → Activation} {answers : Prop}
    (settings : ∀ activation, (change activation).settings = activation.settings)
    (hands : ∀ innermost outer, s.activations = innermost :: outer →
      Hands fn answers s { s with activations := change innermost :: outer }) :
    Proceeds fn s (modifyActivation change) True True answers := by
  cases current : s.activations with
  | nil =>
      have run := modifyActivation_idle current change
      constructor
      · intro _ s' ran
        rw [run] at ran
        cases ran
        refine ⟨⟨rfl, fun _ => ⟨id, id, fun _ busy => absurd current busy⟩⟩, ?_⟩
        exact fun unreported => ⟨unreported, trivial⟩
      · intro _ unreported
        rw [run]
        exact unreported
  | cons innermost outer =>
      have run := modifyActivation_eq current change
      constructor
      · intro _ s' ran
        rw [run] at ran
        cases ran
        refine ⟨⟨?_, fun _ => hands innermost outer current⟩,
          fun unreported => ⟨unreported, trivial⟩⟩
        simp [State.stand, current, settings]
      · intro _ unreported
        rw [run]
        exact unreported

/-- A change that is not of the result hands over nothing. -/
theorem proceeds_aside {change : Activation → Activation}
    (settings : ∀ activation, (change activation).settings = activation.settings)
    (kept : ∀ activation, (change activation).result = activation.result) :
    Proceeds fn s (modifyActivation change) True True False := by
  refine proceeds_modifyActivation settings fun innermost outer calls => .of_handed ?_ id
  simp [State.handed, calls, kept]

/-- A value that can be the result of an expansion is a register or memory of the right width. -/
theorem proceeds_setResult {result : Operand} (isNone : result.constant? = none)
    (size : result.size = fn.returnType.operandSize) (present : result ≠ .absent) :
    Proceeds fn s (setResult result) True True True := by
  have chosen : Proceeds fn s (modifyActivation fun activation => { activation with result })
      True True True :=
    proceeds_modifyActivation (fun _ => rfl) fun _ _ _ =>
      ⟨fun _ => .inr ⟨isNone, size⟩, fun _ => present, fun _ _ => present⟩
  exact chosen.before fun _ => mute_lock result

theorem constant?_of_keepable {draft : Draft} {value : Operand} {size : Size}
    (keeps : keepable draft value size = true) :
    value.constant? = none ∧ value.size = size ∧ value ≠ .absent := by
  unfold keepable at keeps
  split at keeps
  · simp only [Bool.and_eq_true, decide_eq_true_eq] at keeps
    exact ⟨rfl, keeps.1.2, nofun⟩
  · contradiction

/-- The first return chooses where the result is, and the others store theirs there. -/
theorem proceeds_storeResult {value : Operand} {size : Size} (signed : Bool)
    (sized : fn.returnType.operandSize = size) :
    Proceeds fn s (storeResult s.handed value size signed) True
      (Fit value.constant? size ∧ Sound value.constant?) True := by
  subst sized
  unfold storeResult
  split
  · refine .behind mute_get fun _ s₁ got _ => ?_
    obtain ⟨rfl, rfl⟩ := Success.get_ok.mp got
    split
    · rename_i keeps
      obtain ⟨isNone, same, present⟩ := constant?_of_keepable keeps
      exact (proceeds_setResult isNone same present).mono id (fun _ => trivial) id
    · refine .behind (mute_stable _) fun chosen s₁ ran _ => ?_
      obtain ⟨isNone, same, present⟩ := stable_ok ran
      refine ((proceeds_setResult isNone same present).bind fun _ s₂ _ =>
        .of_judges (judges_store .lowFirst)).mono (fun _ => trivial)
        (fun fits => ⟨trivial, ?_⟩) .inl
      rwa [same]
  · rename_i present
    have stored : Judges s (store s.handed value signed .lowFirst)
      (Fit value.constant? s.handed.size)
      (Fit value.constant? s.handed.size ∧ Sound value.constant?) fun _ => True :=
        judges_store .lowFirst
    refine Checks.mono stored (fun _ _ _ _ _ => trivial) ?_ fun _ s' _ promised => ?_
    · rintro ⟨keeping, fits⟩
      rwa [(keeping.resolve_left present).2]
    · have kept := handed_of_same promised.1
      have hands : Hands fn False s s' := .of_handed kept id
      exact ⟨stand_of_same promised.1, fun _ =>
        ⟨hands.keeping, hands.kept, fun _ _ => hands.kept present⟩⟩

end Returns

section Loops

variable {program : TypedProgram} {fn : Function} {looping : Bool} {s : State}
  {checked checked' checked'' enough enough' enough'' answers answers' : Prop}

/-- Only in a loop there is something to leave. -/
theorem proceeds_leaveLoop (keyword : String) (target : Loop → String)
    (inside : Inside program fn looping s) :
    Proceeds fn s (leaveLoop keyword target) (looping = true) (looping = true) False := by
  refine .behind mute_get fun _ s₁ got _ => ?_
  obtain ⟨rfl, rfl⟩ := Success.get_ok.mp got
  split
  · rename_i none
    have reported : Judges s (report (.ofMessage (keyword ++ " outside of a loop")))
        (looping = true) (looping = true) fun _ => True :=
      judges_report _ fun looping => inside.loops.mp looping none
    exact .of_judges reported
  · rename_i around
    have looping := inside.loops.mpr (by rw [around]; exact nofun)
    exact (Proceeds.of_mute (mute_emit _)).mono (fun _ => looping) (fun _ => trivial) id

/-- The body of a loop leaves the loops around it alone. -/
theorem proceeds_inLoop {entry : Loop} {body : Gen Unit}
    (inner : Proceeds fn { s with loops := entry :: s.loops } body checked enough answers) :
    Proceeds fn s (inLoop entry body) checked enough answers := by
  have began : (modify fun state => { state with loops := entry :: state.loops } : Gen Unit) s =
      .ok () { s with loops := entry :: s.loops } := Success.modify_eq
  constructor
  · intro _ s' run
    rw [inLoop, Success.bind_of_ok began] at run
    obtain ⟨_, s₁, ran, run⟩ := Success.bind_ok.mp run
    obtain rfl := Success.modify_ok.mp run
    obtain ⟨⟨stand, hands⟩, earlier⟩ := inner.ok ran
    refine ⟨⟨?_, fun unreported => ?_⟩, earlier⟩
    · simp only [State.stand, Prod.mk.injEq] at stand ⊢
      exact ⟨stand.1, stand.2.1, by rw [stand.2.2.1, List.drop_one, List.tail_cons],
        stand.2.2.2⟩
    · have hands := hands unreported
      exact ⟨hands.keeping, hands.kept, hands.answers⟩
  · intro adequate unreported
    have behind := inner.silent adequate unreported
    rw [inLoop, Success.bind_of_ok began]
    cases ran : body { s with loops := entry :: s.loops } with
    | error fault s₁ =>
        rw [ran] at behind
        rw [Success.bind_of_error ran]
        exact behind
    | ok _ s₁ =>
        rw [ran] at behind
        rw [Success.bind_of_ok ran]
        exact behind

/-- Both bodies of a choice are generated, unless the condition is known. -/
theorem proceeds_choose {cond : Lowered} {thenBody : Gen Unit} {elseBody : Option (Gen Unit)}
    (unknown : cond.literal? = none)
    (branch : ∀ s₁ label wanted, s₁.stand = s.stand →
      Judges s₁ (cond.branch label wanted) checked enough fun _ => True)
    (ofThen : ∀ s₁, s₁.stand = s.stand → Proceeds fn s₁ thenBody checked' enough' answers)
    (ofElse : ∀ s₁, s₁.stand = s.stand →
      Proceeds fn s₁ (elseBody.getD (pure ())) checked'' enough'' answers') :
    Proceeds fn s (choose cond thenBody elseBody) (checked ∧ checked' ∧ checked'')
      (enough ∧ enough' ∧ enough'') (answers ∨ answers') := by
  unfold choose
  rw [unknown]
  refine .behind mute_newLabel fun otherwise s₁ _ same => ?_
  have stand := stand_of_same same
  refine ((Proceeds.of_judges (branch s₁ otherwise false stand)).bind fun _ s₂ same₂ => ?_).mono
    id id .inr
  have stand₂ := same₂.trans stand
  refine .behind mute_endStatement fun _ s₃ _ same₃ => ?_
  have stand₃ := (stand_of_same same₃).trans stand₂
  refine (ofThen s₃ stand₃).bind fun _ s₄ stand₄ => ?_
  have stand₄ := stand₄.trans stand₃
  cases elseBody with
  | none =>
      have labelled := (ofElse s₄ stand₄).before fun _ => mute_emit [.label otherwise false]
      rwa [Option.getD_none, pure_bind] at labelled
  | some body =>
      have ended : ∀ (done : String) s₅, s₅.stand = s.stand → Proceeds fn s₅ (do
          defineLabel otherwise
          body
          endStatement
          defineLabel done) checked'' enough'' answers' := fun done s₅ stand₅ =>
        .behind (mute_emit _) fun _ s₆ _ same₆ =>
          .before (ofElse s₆ ((stand_of_same same₆).trans stand₅)) fun _ =>
            mute_endStatement.bind fun _ => mute_emit _
      refine .behind mute_newLabel fun done s₅ _ same₅ => ?_
      refine .behind mute_lastInstr fun last s₆ _ same₆ => ?_
      have stand₆ := (stand_of_same same₆).trans ((stand_of_same same₅).trans stand₄)
      split
      · exact .behind (mute_emit _) fun _ s₇ _ same₇ =>
          ended done s₇ ((stand_of_same same₇).trans stand₆)
      · exact ended done s₆ stand₆

/-- The condition and the body of a loop are generated, unless the condition is known to fail. -/
theorem proceeds_repeatWhile {cond : Lowered} {body : Gen Unit}
    (runs : cond.literal?.all truth = true)
    (branch : ∀ s₁ label wanted, s₁.stand = s.stand →
      Judges s₁ (cond.branch label wanted) checked enough fun _ => True)
    (ofBody : ∀ (s₁ : State) (entry : Loop), s₁.stand = s.stand →
      Proceeds fn { s₁ with loops := entry :: s₁.loops } body checked' enough' answers) :
    Proceeds fn s (repeatWhile cond body) (checked ∧ checked') (enough ∧ enough') answers := by
  unfold repeatWhile
  rw [if_pos runs]
  refine .behind mute_newLabel fun top s₁ _ same₁ => ?_
  refine .behind mute_newLabel fun done s₂ _ same₂ => ?_
  refine .behind (mute_emit _) fun _ s₃ _ same₃ => ?_
  have stand₃ : s₃.stand = s.stand := stand_of_same (same₃.trans (same₂.trans same₁))
  refine ((Proceeds.of_judges (branch s₃ done false stand₃)).bind fun _ s₄ stand₄ => ?_).mono id id
    .inr
  refine .behind mute_endStatement fun _ s₅ _ same₅ => ?_
  have stand₅ := (stand_of_same same₅).trans (stand₄.trans stand₃)
  exact .before (proceeds_inLoop (ofBody s₅ ⟨done, top⟩ stand₅)) fun _ =>
    (mute_emit _).bind fun _ => mute_emit _

theorem proceeds_headerPart {part : Option (Gen Unit)}
    (proceeds : Proceeds fn s (part.getD (pure ())) checked enough answers) :
    Proceeds fn s (headerPart part) checked enough answers := by
  cases part with
  | none => exact proceeds
  | some action => exact proceeds.before fun _ => mute_endStatement

/-- All parts of a loop are generated; the start and the step are outside of its body. -/
theorem proceeds_repeatFor {start post : Option (Gen Unit)} {cond : Option Lowered}
    {body : Gen Unit} {ofCond condEnough ofPost postEnough answers'' : Prop}
    (ofStart : Proceeds fn s (start.getD (pure ())) checked enough answers)
    (branch : ∀ s₁ label, s₁.stand = s.stand →
      Judges s₁ ((cond.map fun cond => cond.branch label false).getD (pure ())) ofCond condEnough
        fun _ => True)
    (ofBody : ∀ (s₁ : State) (entry : Loop), s₁.stand = s.stand →
      Proceeds fn { s₁ with loops := entry :: s₁.loops } body checked' enough' answers')
    (ofStep : ∀ s₁, s₁.stand = s.stand →
      Proceeds fn s₁ (post.getD (pure ())) ofPost postEnough answers'') :
    Proceeds fn s (repeatFor start cond post body) (checked ∧ ofCond ∧ checked' ∧ ofPost)
      (enough ∧ condEnough ∧ enough' ∧ postEnough) (answers ∨ answers' ∨ answers'') := by
  unfold repeatFor
  refine (proceeds_headerPart ofStart).bind fun _ s₁ stand₁ => ?_
  refine .behind mute_newLabel fun top s₂ _ same₂ => ?_
  refine .behind mute_newLabel fun next s₃ _ same₃ => ?_
  refine .behind mute_newLabel fun done s₄ _ same₄ => ?_
  refine .behind (mute_emit _) fun _ s₅ _ same₅ => ?_
  have stand₅ : s₅.stand = s.stand :=
    (stand_of_same (same₅.trans (same₄.trans (same₃.trans same₂)))).trans stand₁
  refine ((proceeds_headerPart (.of_judges (branch s₅ done stand₅))).bind
    fun _ s₆ stand₆ => ?_).mono id id .inr
  have stand₆ := stand₆.trans stand₅
  refine (proceeds_inLoop (ofBody s₆ ⟨done, next⟩ stand₆)).bind fun _ s₇ stand₇ => ?_
  refine .behind (mute_emit _) fun _ s₈ _ same₈ => ?_
  have stand₈ := (stand_of_same same₈).trans (stand₇.trans stand₆)
  exact .before (proceeds_headerPart (ofStep s₈ stand₈)) fun _ =>
    (mute_emit _).bind fun _ => mute_emit _

end Loops

section Statements

variable {program : TypedProgram} {expands : FnId → Bool} {env : Env}
  {fn : Function} {looping : Bool} {s s₁ : State} {calls : List Activation} {stmt : Stmt}

variable (program expands fn) in
/-- What the silence of a statement shows, outside of expansions. -/
def ShownIn (calls : List Activation) (looping : Bool) (stmt : Stmt) : Prop :=
  Exact calls → stmt.All program (Expr.Checked program expands) (Stmt.Checked program fn) looping

variable (program fn) in
/-- What is enough for a statement to be silent. -/
def GrantedIn (calls : List Activation) (looping : Bool) (stmt : Stmt) : Prop :=
  program.Careful ∧ Unfolded program calls ∧
    stmt.All program (fun e => e.Checked program (fun _ => false) ∧ e.Safe program)
      (fun looping stmt => stmt.Checked program fn looping ∧ stmt.Safe program) looping

theorem shownIn_of_stand (same : s₁.stand = s.stand) :
    ShownIn program expands fn s₁.activations = ShownIn program expands fn s.activations := by
  funext looping stmt
  simp only [ShownIn, exact_of_stand same]

theorem grantedIn_of_stand (same : s₁.stand = s.stand) :
    GrantedIn program fn s₁.activations = GrantedIn program fn s.activations := by
  funext looping stmt
  simp only [GrantedIn, unfolded_of_stand same]

theorem ShownIn.intro (rule : Exact calls → stmt.Checked program fn looping)
    (exprs : ∀ e ∈ stmt.evaluated, Shown program expands calls e)
    (parts : ∀ part ∈ stmt.emitted looping, ShownIn program expands fn calls part.1 part.2) :
    ShownIn program expands fn calls looping stmt :=
  fun exact => .intro (rule exact) (fun e member => exprs e member exact)
    fun part member => parts part member exact

namespace GrantedIn

variable (granted : GrantedIn program fn calls looping stmt)

include granted

theorem rule : stmt.Checked program fn looping ∧ stmt.Safe program := by
  cases granted.2.2 with
  | intro rule _ _ => exact rule

theorem expr {e : Expr} (member : e ∈ stmt.evaluated) : Granted program calls e := by
  cases granted.2.2 with
  | intro _ exprs _ => exact ⟨granted.1, granted.2.1, exprs e member⟩

theorem part {part : Bool × Stmt} (member : part ∈ stmt.emitted looping) :
    GrantedIn program fn calls part.1 part.2 := by
  cases granted.2.2 with
  | intro _ _ parts => exact ⟨granted.1, granted.2.1, parts part member⟩

end GrantedIn

/-- A statement returns a value only if it is a return or one of its parts returns one. -/
theorem answers_cases (answers : stmt.Answers) (others : ∀ value, stmt ≠ .ret value) :
    ∃ looping, ∃ part ∈ stmt.emitted looping, part.2.Answers := by
  cases answers with
  | ret => exact absurd rfl (others _)
  | part member answers => exact ⟨_, _, member, answers⟩

variable (judged : env.Judged program expands)

include judged

theorem proceeds_release {value : Expr} (free : ∀ block, ¬ value.Contains block) :
    Proceeds fn s (statement env (.expr value))
      (ShownIn program expands fn s.activations looping (.expr value))
      (GrantedIn program fn s.activations looping (.expr value))
      (Stmt.expr value).Answers := by
  have evaluated := (judged_lower judged value free).value s
  rw [statement]
  refine (Proceeds.before (.of_judges evaluated) fun _ => mute_release _).mono
    (fun shown => ?_) (fun granted => ?_) fun answers => ?_
  · exact .intro (fun _ => trivial) (by simpa [Stmt.evaluated] using shown) (by simp [Stmt.emitted])
  · exact granted.expr (by simp [Stmt.evaluated])
  · simpa [Stmt.emitted] using answers_cases answers

theorem proceeds_assign {target value : Expr} (freeTarget : ∀ block, ¬ target.Contains block)
    (freeValue : ∀ block, ¬ value.Contains block) :
    Proceeds fn s (assign env target value)
      (ShownIn program expands fn s.activations looping (.assign target value))
      (GrantedIn program fn s.activations looping (.assign target value))
      (Stmt.assign target value).Answers := by
  have ofTarget := judged_lower judged target freeTarget
  have placed : ∀ s₁, s₁.surroundings = s.surroundings →
      Judges s₁ (placeOf env target (lower env target).place?)
        (Shown program expands s.activations target) (Granted program s.activations target)
        fun dst => Known program s.activations target → dst.size = target.width program := by
    intro s₁ same
    rw [← activations_of_same same]
    unfold placeOf
    cases known : (lower env target).place? with
    | none => exact .of_error rfl
    | some place => exact ofTarget.place place known s₁
  unfold assign
  refine (Proceeds.of_judges (Judges.bind
    (fun result => Shown program expands s.activations target ∧ ∃ dst : Operand,
      (Known program s.activations target → dst.size = target.width program) ∧
        Fit result.constant? dst.size)
    (fun result => Granted program s.activations target ∧ ∀ dst : Operand,
      (Known program s.activations target → dst.size = target.width program) →
        Fit result.constant? dst.size ∧ Sound result.constant?)
    (fun _ _ => True) ((judged_lower judged value freeValue).value s)
    fun result s₁ same => (Judges.bind _ _ _ (placed s₁ same) fun dst s₂ _ =>
      (judges_store _).after (fun _ => mute_release dst) fun _ _ _ _ _ _ => trivial).mono id id
        fun _ _ _ => trivial)).mono ?_ ?_ ?_
  · rintro ⟨ofValue, result, same, ofTarget, dst, width, fits⟩
    refine .intro (fun exact => ?_) (by simp [Stmt.evaluated, ofValue, ofTarget])
      (by simp [Stmt.emitted])
    rw [same exact.unfolded, width (exact.known target)] at fits
    exact fits
  · intro granted
    have ofValue := granted.expr (by simp [Stmt.evaluated] : value ∈ _)
    refine ⟨ofValue, fun result same => ⟨granted.expr (by simp [Stmt.evaluated]),
      fun dst width => ?_⟩⟩
    have lent := granted.rule.2 target value rfl
    rw [same granted.2.1, width (granted.2.1.known lent)]
    exact ⟨granted.rule.1, ofValue.sound⟩
  · intro answers
    simpa [Stmt.emitted] using answers_cases answers

omit judged in
theorem answers_ret {value : Expr} (answers : (Stmt.ret value).Answers) :
    value.isAbsent = false := by
  cases answers with
  | ret present => exact present
  | part member => simp [Stmt.emitted] at member

omit judged in
/-- A return without a value shows nothing. -/
theorem shownIn_absent {value : Expr} (absent : value.isAbsent = true) :
    ShownIn program expands fn calls looping (.ret value) := by
  cases value with
  | absent =>
      refine .intro (fun _ => by simp [Stmt.Checked, absent]) (fun e member => ?_)
        (by simp [Stmt.emitted])
      obtain rfl := List.mem_singleton.mp member
      exact shown_leaf (by rintro _ ⟨⟩) rfl
  | _ => contradiction

theorem proceeds_returnFrom {frame : Frame} {value : Expr}
    (free : ∀ block, ¬ value.Contains block) (found : program.function frame.fn = fn) :
    Proceeds fn s (returnFrom env frame value)
      (ShownIn program expands fn s.activations looping (.ret value))
      (GrantedIn program fn s.activations looping (.ret value)) False := by
  have leave : Mute (do
      jumpTo frame.exit
      modifyFrame fun frame => { frame with jumps := frame.jumps + 1 }) :=
    (mute_emit _).bind fun _ => mute_modifyFrame _ fun _ => rfl
  unfold returnFrom
  rw [judged.same, found]
  cases absent : value.isAbsent with
  | true =>
      exact (Proceeds.of_mute leave).mono (fun _ => shownIn_absent absent) (fun _ => trivial) id
  | false =>
      refine (Proceeds.of_judges (Judges.bind
        (fun result => fn.returnType.operandSize ≠ .unsized ∧
          Fit result.constant? fn.returnType.operandSize)
        (fun result => (fn.returnType.operandSize ≠ .unsized ∧
          Fit result.constant? fn.returnType.operandSize) ∧ Sound result.constant?)
        (fun _ _ => True) ((judged_lower judged value free).value s)
        fun result s₁ same => .ite (fun unsized => ?_) fun sized => ?_)).mono ?_ ?_ id
      · exact judges_reporting _ ((mute_release _).bind fun _ => leave)
          fun adequate => adequate.1.1 unsized
      · exact ((judges_store _).after (fun _ => leave) fun _ _ _ _ _ _ => trivial).mono
          (fun fits => ⟨sized, fits⟩) (fun adequate => ⟨adequate.1.2, adequate.2⟩) fun _ _ => id
      · rintro ⟨shown, result, same, sized, fits⟩
        refine .intro (fun exact _ => ⟨sized, ?_⟩) (by simpa [Stmt.evaluated] using shown)
          (by simp [Stmt.emitted])
        rwa [same exact.unfolded] at fits
      · intro granted
        have ofValue := granted.expr (by simp [Stmt.evaluated] : value ∈ _)
        refine ⟨ofValue, fun result same => ?_⟩
        rw [same granted.2.1]
        exact ⟨granted.rule.1 absent, ofValue.sound⟩

theorem proceeds_returnInside {activation : Activation} {outer : List Activation} {value : Expr}
    (free : ∀ block, ¬ value.Contains block) (calls : s.activations = activation :: outer)
    (found : program.function activation.fn = fn) (expanding : activation.inlining = true) :
    Proceeds fn s (returnInside env activation value)
      (ShownIn program expands fn s.activations looping (.ret value))
      (GrantedIn program fn s.activations looping (.ret value))
      (Stmt.ret value).Answers := by
  have busy : ¬ Exact s.activations := by
    intro exact
    rw [(exact activation (by simp [calls])).1] at expanding
    contradiction
  have leave : ∀ s₁, Proceeds fn s₁ (do
      jumpTo (← expansionExit activation)
      modifyActivation fun activation => { activation with jumps := activation.jumps + 1 })
      True True False := by
    intro s₁
    have exit : Proceeds fn s₁ (expansionExit activation) True True False := by
      unfold expansionExit
      cases activation.exit with
      | some label => exact .of_mute (.pure _)
      | none =>
          exact .behind mute_newLabel fun label _ _ _ =>
            .before (proceeds_aside (fun _ => rfl) fun _ => rfl) fun _ => .pure _
    have counted : ∀ (label : String) s₂, Proceeds fn s₂ (do
        jumpTo label
        modifyActivation fun activation => { activation with jumps := activation.jumps + 1 })
        True True False := fun label s₂ =>
      .behind (mute_emit _) fun _ _ _ _ => proceeds_aside (fun _ => rfl) fun _ => rfl
    exact (exit.bind fun label s₂ _ => counted label s₂).mono (fun _ => trivial)
      (fun _ => ⟨trivial, trivial⟩) .inl
  have handed : s.handed = activation.result := by simp [State.handed, calls]
  unfold returnInside
  rw [judged.same, found]
  cases absent : value.isAbsent with
  | true =>
      refine (leave s).mono (fun _ exact => absurd exact busy) (fun _ => trivial) fun answers => ?_
      rw [answers_ret answers] at absent
      contradiction
  | false =>
      refine (Proceeds.of_value (fun _ => True)
        (fun result => Fit result.constant? fn.returnType.operandSize ∧ Sound result.constant?)
        ((judged_lower judged value free).value s) fun result s₁ _ same => ?_).mono
        (fun _ exact => absurd exact busy) ?_ fun _ => trivial
      · rw [← handed, ← handed_of_same same]
        exact ((proceeds_storeResult _ rfl).bind fun _ s₂ _ => leave s₂).mono (fun _ => trivial)
          (fun fits => ⟨fits, trivial⟩) .inl
      · intro granted
        have ofValue := granted.expr (by simp [Stmt.evaluated] : value ∈ _)
        refine ⟨ofValue, fun result same => ?_⟩
        rw [same granted.2.1]
        exact ⟨(granted.rule.1 absent).2, ofValue.sound⟩

theorem proceeds_ret {value : Expr} (free : ∀ block, ¬ value.Contains block)
    (inside : Inside program fn looping s) :
    Proceeds fn s (ret env value)
      (ShownIn program expands fn s.activations looping (.ret value))
      (GrantedIn program fn s.activations looping (.ret value))
      (Stmt.ret value).Answers := by
  have got : (get : Gen State) s = .ok s s := rfl
  rcases inside.function with
    ⟨idle, id, framed, found⟩ | ⟨activation, outer, calls, expanding, found⟩
  · obtain ⟨frame, known, rfl⟩ := Option.map_eq_some_iff.mp framed
    have looked : expansion? s = .ok none s := by
      rw [expansion?, Success.bind_of_ok got, idle]
      rfl
    have run : ret env value s = returnFrom env frame value s := by
      rw [ret, Success.bind_of_ok looked, Success.bind_of_ok got, known]
    exact .congr run ((proceeds_returnFrom judged free found).idle idle)
  · have looked : expansion? s = .ok (some activation) s := by
      rw [expansion?, Success.bind_of_ok got, calls]
      simp only [expanding, if_true]
      rfl
    have run : ret env value s = returnInside env activation value s := by
      rw [ret, Success.bind_of_ok looked, Success.bind_of_ok got]
    exact .congr run (proceeds_returnInside judged free calls found expanding)

omit judged in
/-- What is missing shows nothing and returns nothing. -/
theorem proceeds_statement? (proceeds : Proceeds fn s (statement env stmt)
      (ShownIn program expands fn calls looping stmt)
      (GrantedIn program fn calls looping stmt) stmt.Answers) :
    Proceeds fn s ((if stmt.isAbsent then none else some (statement env stmt)).getD (pure ()))
      (ShownIn program expands fn calls looping stmt)
      (GrantedIn program fn calls looping stmt) stmt.Answers := by
  cases stmt with
  | absent =>
      refine (Proceeds.of_mute (.pure ())).mono (fun _ => ?_) (fun _ => trivial) fun answers => ?_
      · exact .intro (fun _ => trivial) (by simp [Stmt.evaluated]) (by simp [Stmt.emitted])
      · simpa [Stmt.emitted] using answers_cases answers
  | _ => exact proceeds

omit judged in
theorem free_expr {e : Expr} (free : ∀ block, ¬ stmt.Contains block) (member : e ∈ stmt.exprs) :
    ∀ block, ¬ e.Contains block :=
  fun block inside => free block (.expr member inside)

omit judged in
theorem free_stmt {part : Stmt} (free : ∀ block, ¬ stmt.Contains block)
    (member : part ∈ stmt.parts) : ∀ block, ¬ part.Contains block :=
  fun block inside => free block (.part member inside)

omit judged in
/-- In the body of a loop. -/
theorem Inside.entered (inside : Inside program fn looping s) (same : s₁.stand = s.stand)
    (entry : Loop) : Inside program fn true { s₁ with loops := entry :: s₁.loops } :=
  ⟨(inside.of_stand same).function, by simp⟩

omit judged in
/-- The branch on a condition between statements. -/
theorem branch_of_stand {cond : Expr} {lowered : Lowered}
    (ofCond : lowered.Judged program expands cond) (s₁ : State) (label : String)
    (wanted : Bool) (stand : s₁.stand = s.stand) : Judges s₁ (lowered.branch label wanted)
      (Shown program expands s.activations cond) (Granted program s.activations cond)
      fun _ => True := by
  refine (ofCond.branch s₁ label wanted).mono (fun shown exact => ?_) (fun granted => ?_)
    fun _ _ => id
  · exact shown ((exact_of_stand stand).mpr exact)
  · exact ⟨granted.1, (unfolded_of_stand stand).mpr granted.2.1, granted.2.2⟩

omit judged in
/-- The branch in the header of a loop, where the condition may be missing. -/
theorem branch_of_part {cond : Expr}
    (ofCond : (lower env cond).Judged program expands cond) (s₁ : State) (label : String)
    (stand : s₁.stand = s.stand) :
    Judges s₁ (((if cond.isAbsent then none else some (lower env cond)).map
        fun cond => cond.branch label false).getD (pure ()))
      (Shown program expands s.activations cond) (Granted program s.activations cond)
      fun _ => True := by
  cases cond with
  | absent => exact .pure trivial (shown_leaf (by rintro _ ⟨⟩) rfl)
  | _ => exact branch_of_stand ofCond s₁ label false stand

omit judged in
/-- A branch on a literal is decided beforehand. -/
theorem mute_branch_literal {cond : Expr} {value : Literal} (known : cond.literal? = some value)
    (label : String) (wanted : Bool) : Mute ((lower env cond).branch label wanted) := by
  cases cond with
  | lit value type =>
      rw [lower]
      exact (mute_literal _).bind fun _ => mute_testAndBranch _ _ _
  | _ => contradiction

section Compounds

omit judged

variable (program expands env fn) in
/-- A body is judged by the analysis in a state, where the calls in progress are given. -/
def BodyProceeds (calls : List Activation) (looping : Bool) (s : State) (body : List Stmt) : Prop :=
  Proceeds fn s (statement.statements env body)
    (∀ part ∈ body, ShownIn program expands fn calls looping part)
    (∀ part ∈ body, GrantedIn program fn calls looping part) (∃ part ∈ body, part.Answers)

variable (program expands env fn) in
/-- So is a part of a statement that may be missing. -/
def PartProceeds (calls : List Activation) (looping : Bool) (s : State) (part : Stmt) : Prop :=
  Proceeds fn s ((if part.isAbsent then none else some (statement env part)).getD (pure ()))
    (ShownIn program expands fn calls looping part) (GrantedIn program fn calls looping part)
    part.Answers

variable {cond : Expr} {value : Literal} {thenBody body : List Stmt} {elseBody start post : Stmt}

/-- Of a choice with a literal condition only one body is generated. -/
theorem proceeds_ite_known (known : cond.literal? = some value)
    (ofThen : BodyProceeds program expands env fn s.activations looping s thenBody)
    (ofElse : PartProceeds program expands env fn s.activations looping s elseBody) :
    Proceeds fn s (statement env (.ite cond thenBody elseBody))
      (ShownIn program expands fn s.activations looping (.ite cond thenBody elseBody))
      (GrantedIn program fn s.activations looping (.ite cond thenBody elseBody))
      (Stmt.ite cond thenBody elseBody).Answers := by
  rw [statement]
  unfold choose
  rw [literal?_lower, known]
  dsimp only
  cases holds : truth value with
  | true =>
      refine ofThen.mono (fun shown => ?_) (fun granted part member => ?_) fun answers => ?_
      · exact .intro (fun _ => trivial) (by simp [Stmt.evaluated, known])
          (by simpa [Stmt.emitted, known, holds] using shown)
      · exact granted.part (show (looping, part) ∈ _ by
          simp [Stmt.emitted, known, holds, member])
      · simpa [Stmt.emitted, known, holds] using answers_cases answers
  | false =>
      refine ofElse.mono (fun shown => ?_) (fun granted => ?_) fun answers => ?_
      · exact .intro (fun _ => trivial) (by simp [Stmt.evaluated, known])
          (by simpa [Stmt.emitted, known, holds] using shown)
      · exact granted.part (show (looping, elseBody) ∈ _ by simp [Stmt.emitted, known, holds])
      · simpa [Stmt.emitted, known, holds] using answers_cases answers

theorem proceeds_ite (ofCond : (lower env cond).Judged program expands cond)
    (ofThen : ∀ s₁, s₁.stand = s.stand →
      BodyProceeds program expands env fn s.activations looping s₁ thenBody)
    (ofElse : ∀ s₁, s₁.stand = s.stand →
      PartProceeds program expands env fn s.activations looping s₁ elseBody) :
    Proceeds fn s (statement env (.ite cond thenBody elseBody))
      (ShownIn program expands fn s.activations looping (.ite cond thenBody elseBody))
      (GrantedIn program fn s.activations looping (.ite cond thenBody elseBody))
      (Stmt.ite cond thenBody elseBody).Answers := by
  cases known : cond.literal? with
  | some value => exact proceeds_ite_known known (ofThen s rfl) (ofElse s rfl)
  | none =>
      rw [statement]
      have all := proceeds_choose ((literal?_lower env cond).trans known)
        (branch_of_stand ofCond) ofThen ofElse
      refine all.mono (fun checks => ?_) (fun granted => ⟨?_, fun part member => ?_, ?_⟩)
        fun answers => ?_
      · exact .intro (fun _ => trivial) (by simpa [Stmt.evaluated, known] using checks.1)
          (by simpa [Stmt.emitted, known, or_imp, forall_and] using checks.2)
      · exact granted.expr (by simp [Stmt.evaluated, known])
      · exact granted.part (show (looping, part) ∈ _ by simp [Stmt.emitted, known, member])
      · exact granted.part (show (looping, elseBody) ∈ _ by simp [Stmt.emitted, known])
      · simpa [Stmt.emitted, known, or_and_right, exists_or] using answers_cases answers

/-- Of a loop whose condition is known to fail nothing is generated, and of one whose condition is
known to hold the body is. -/
theorem proceeds_while_known (known : cond.literal? = some value)
    (ofBody : ∀ (s₁ : State) (entry : Loop), s₁.stand = s.stand →
      BodyProceeds program expands env fn s.activations true
        { s₁ with loops := entry :: s₁.loops } body) :
    Proceeds fn s (statement env (.while cond body))
      (ShownIn program expands fn s.activations looping (.while cond body))
      (GrantedIn program fn s.activations looping (.while cond body))
      (Stmt.while cond body).Answers := by
  have same := (literal?_lower env cond).trans known
  rw [statement]
  cases holds : truth value with
  | true =>
      have runs : (lower env cond).literal?.all truth = true := by simp [same, holds]
      have all := proceeds_repeatWhile runs
        (fun s₁ label wanted _ => (mute_branch_literal known label wanted).silent) ofBody
      refine all.mono (fun checks => ?_) (fun granted => ⟨trivial, fun part member => ?_⟩)
        fun answers => ?_
      · exact .intro (fun _ => trivial) (by simp [Stmt.evaluated, known])
          (by simpa [Stmt.emitted, known, holds] using checks.2)
      · exact granted.part (show (true, part) ∈ _ by simp [Stmt.emitted, known, holds, member])
      · simpa [Stmt.emitted, known, holds] using answers_cases answers
  | false =>
      unfold repeatWhile
      rw [if_neg (by simp [same, holds])]
      refine (Proceeds.of_mute (.pure ())).mono (fun _ => ?_) (fun _ => trivial) fun answers => ?_
      · exact .intro (fun _ => trivial) (by simp [Stmt.evaluated, known])
          (by simp [Stmt.emitted, known, holds])
      · simpa [Stmt.emitted, known, holds] using answers_cases answers

theorem proceeds_while (ofCond : (lower env cond).Judged program expands cond)
    (ofBody : ∀ (s₁ : State) (entry : Loop), s₁.stand = s.stand →
      BodyProceeds program expands env fn s.activations true
        { s₁ with loops := entry :: s₁.loops } body) :
    Proceeds fn s (statement env (.while cond body))
      (ShownIn program expands fn s.activations looping (.while cond body))
      (GrantedIn program fn s.activations looping (.while cond body))
      (Stmt.while cond body).Answers := by
  cases known : cond.literal? with
  | some value => exact proceeds_while_known known ofBody
  | none =>
      have same := (literal?_lower env cond).trans known
      have runs : (lower env cond).literal?.all truth = true := by simp [same]
      have all := proceeds_repeatWhile runs (branch_of_stand ofCond) ofBody
      rw [statement]
      refine all.mono (fun checks => ?_) (fun granted => ⟨?_, fun part member => ?_⟩)
        fun answers => ?_
      · exact .intro (fun _ => trivial) (by simpa [Stmt.evaluated, known] using checks.1)
          (by simpa [Stmt.emitted, known] using checks.2)
      · exact granted.expr (by simp [Stmt.evaluated, known])
      · exact granted.part (show (true, part) ∈ _ by simp [Stmt.emitted, known, member])
      · simpa [Stmt.emitted, known] using answers_cases answers

theorem proceeds_for (ofCond : (lower env cond).Judged program expands cond)
    (ofStart : PartProceeds program expands env fn s.activations looping s start)
    (ofBody : ∀ (s₁ : State) (entry : Loop), s₁.stand = s.stand →
      BodyProceeds program expands env fn s.activations true
        { s₁ with loops := entry :: s₁.loops } body)
    (ofPost : ∀ s₁, s₁.stand = s.stand →
      PartProceeds program expands env fn s.activations looping s₁ post) :
    Proceeds fn s (statement env (.for start cond post body))
      (ShownIn program expands fn s.activations looping (.for start cond post body))
      (GrantedIn program fn s.activations looping (.for start cond post body))
      (Stmt.for start cond post body).Answers := by
  have all := proceeds_repeatFor ofStart
    (fun s₁ label stand => branch_of_part ofCond s₁ label stand) ofBody ofPost
  rw [statement]
  refine all.mono (fun checks => ?_) (fun granted => ⟨?_, ?_, fun part member => ?_, ?_⟩)
    fun answers => ?_
  · exact .intro (fun _ => trivial) (by simpa [Stmt.evaluated] using checks.2.1)
      (by simpa [Stmt.emitted] using ⟨checks.1, checks.2.2.2, checks.2.2.1⟩)
  · exact granted.part (show (looping, start) ∈ _ by simp [Stmt.emitted])
  · exact granted.expr (by simp [Stmt.evaluated])
  · exact granted.part (show (true, part) ∈ _ by simp [Stmt.emitted, member])
  · exact granted.part (show (looping, post) ∈ _ by simp [Stmt.emitted])
  · simpa [Stmt.emitted, or_comm, or_left_comm, or_assoc] using answers_cases answers

/-- Leaving a loop or going on with its next round has no parts. -/
theorem proceeds_leave {keyword : String} {target : Loop → String}
    (inside : Inside program fn looping s) (leaves : stmt = .break ∨ stmt = .continue) :
    Proceeds fn s (leaveLoop keyword target)
      (ShownIn program expands fn s.activations looping stmt)
      (GrantedIn program fn s.activations looping stmt) stmt.Answers := by
  refine (proceeds_leaveLoop _ _ inside).mono (fun looping => ?_) (fun granted => ?_)
    fun answers => ?_
  · rcases leaves with rfl | rfl <;>
      exact .intro (fun _ => looping) (by simp [Stmt.evaluated]) (by simp [Stmt.emitted])
  · rcases leaves with rfl | rfl <;> exact granted.rule.1
  · rcases leaves with rfl | rfl <;> simpa [Stmt.emitted] using answers_cases answers

theorem proceeds_block (ofBody : BodyProceeds program expands env fn s.activations looping s body) :
    Proceeds fn s (statement env (.block body))
      (ShownIn program expands fn s.activations looping (.block body))
      (GrantedIn program fn s.activations looping (.block body)) (Stmt.block body).Answers := by
  rw [statement]
  refine ofBody.mono (fun shown => ?_) (fun granted part member => ?_) fun answers => ?_
  · exact .intro (fun _ => trivial) (by simp [Stmt.evaluated])
      (by simpa [Stmt.emitted] using shown)
  · exact granted.part (show (looping, part) ∈ _ by simp [Stmt.emitted, member])
  · simpa [Stmt.emitted] using answers_cases answers

end Compounds

end Statements

section Bodies

variable {program : TypedProgram} {expands : FnId → Bool} {env : Env}
  {fn : Function}

mutual

/-- What is generated for a statement without blocks is judged by the analysis. -/
theorem proceeds_statement {looping : Bool} {s : State}
    (judged : env.Judged program expands) (stmt : Stmt)
    (free : ∀ block, ¬ stmt.Contains block)
    (inside : Inside program fn looping s) :
    Proceeds fn s (statement env stmt) (ShownIn program expands fn s.activations looping stmt)
      (GrantedIn program fn s.activations looping stmt) stmt.Answers := by
  cases stmt with
  | absent =>
      rw [statement]
      exact .of_error rfl
  | expr value => exact proceeds_release judged (free_expr free (by simp [Stmt.exprs]))
  | assign target value =>
      rw [statement]
      exact proceeds_assign judged (free_expr free (by simp [Stmt.exprs]))
        (free_expr free (by simp [Stmt.exprs]))
  | ret value =>
      rw [statement]
      exact proceeds_ret judged (free_expr free (by simp [Stmt.exprs])) inside
  | ite cond thenBody elseBody =>
      refine proceeds_ite (judged_lower judged cond (free_expr free (by simp [Stmt.exprs])))
        (fun s₁ stand => ?_) fun s₁ stand => ?_
      · rw [BodyProceeds, ← shownIn_of_stand stand, ← grantedIn_of_stand stand]
        exact proceeds_statements judged thenBody (fun part member =>
          free_stmt free (by simp [Stmt.parts, member])) (inside.of_stand stand)
      · rw [PartProceeds, ← shownIn_of_stand stand, ← grantedIn_of_stand stand]
        exact proceeds_statement? (proceeds_statement judged elseBody
          (free_stmt free (by simp [Stmt.parts])) (inside.of_stand stand))
  | «while» cond body =>
      refine proceeds_while (judged_lower judged cond (free_expr free (by simp [Stmt.exprs])))
        fun s₁ entry stand => ?_
      rw [BodyProceeds, ← shownIn_of_stand stand, ← grantedIn_of_stand stand]
      exact proceeds_statements judged body (fun part member =>
        free_stmt free (by simp [Stmt.parts, member])) (inside.entered stand entry)
  | «for» start cond post body =>
      refine proceeds_for (judged_lower judged cond (free_expr free (by simp [Stmt.exprs])))
        ?_ (fun s₁ entry stand => ?_) fun s₁ stand => ?_
      · exact proceeds_statement? (proceeds_statement judged start
          (free_stmt free (by simp [Stmt.parts])) inside)
      · rw [BodyProceeds, ← shownIn_of_stand stand, ← grantedIn_of_stand stand]
        exact proceeds_statements judged body (fun part member =>
          free_stmt free (by simp [Stmt.parts, member])) (inside.entered stand entry)
      · rw [PartProceeds, ← shownIn_of_stand stand, ← grantedIn_of_stand stand]
        exact proceeds_statement? (proceeds_statement judged post
          (free_stmt free (by simp [Stmt.parts])) (inside.of_stand stand))
  | «break» =>
      rw [statement]
      exact proceeds_leave inside (.inl rfl)
  | «continue» =>
      rw [statement]
      exact proceeds_leave inside (.inr rfl)
  | block body =>
      exact proceeds_block (proceeds_statements judged body (fun part member =>
        free_stmt free (by simp [Stmt.parts, member])) inside)

theorem proceeds_statements {looping : Bool} {s : State}
    (judged : env.Judged program expands) (body : List Stmt)
    (free : ∀ part ∈ body, ∀ block, ¬ part.Contains block)
    (inside : Inside program fn looping s) :
    Proceeds fn s (statement.statements env body)
      (∀ part ∈ body, ShownIn program expands fn s.activations looping part)
      (∀ part ∈ body, GrantedIn program fn s.activations looping part)
      (∃ part ∈ body, part.Answers) := by
  cases body with
  | nil =>
      rw [statement.statements]
      exact (Proceeds.of_mute (.pure ())).mono (fun _ => nofun) (fun _ => trivial) (by simp)
  | cons first rest =>
      have ofFirst := proceeds_statement judged first (free first (by simp)) inside
      have ofRest : ∀ s₁, s₁.stand = s.stand → Proceeds fn s₁ (statement.statements env rest)
          (∀ part ∈ rest, ShownIn program expands fn s.activations looping part)
          (∀ part ∈ rest, GrantedIn program fn s.activations looping part)
          (∃ part ∈ rest, part.Answers) := by
        intro s₁ stand
        rw [← shownIn_of_stand stand, ← grantedIn_of_stand stand]
        exact proceeds_statements judged rest (fun part member => free part (by simp [member]))
          (inside.of_stand stand)
      have both := ofFirst.bind fun _ s₁ stand₁ => .behind mute_endStatement fun _ s₂ _ same₂ =>
        ofRest s₂ ((stand_of_same same₂).trans stand₁)
      rw [statement.statements]
      refine both.mono (fun checks => ?_) (fun granted => ?_) fun answers => ?_
      · simpa using checks
      · simpa using granted
      · simpa using answers

end

end Bodies

end X64Backend.Lower
