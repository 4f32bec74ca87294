import X64Backend.Proofs.Lower.ExpansionChecks
import X64Backend.Proofs.Lower.Sections

/-!
Programs record what the analysis finds in them.  If nothing is on record behind a program without
blocks, then all that is checked in the bodies of its functions holds.  If nothing is on record
where every call is emitted, then nothing is with expansions either, provided that the program is
as safe to expand as to call.
-/

namespace X64Backend.Lower

open X64Backend.Tree Drafting

section Generation

variable {α β : Type} {s : State} {action : Gen α} {next : α → Gen β}
  {checked checked' enough enough' : Prop}

/-- A computation of whole procedures is judged by what it checks and what is enough for it. -/
abbrev Generates (s : State) (action : Gen α) (checked enough : Prop) : Prop :=
  Checks s action checked enough fun _ s' => s'.collector.maxErrors = s.collector.maxErrors

namespace Generates

theorem of_judges {promise : α → Prop} (judges : Judges s action checked enough promise) :
    Generates s action checked enough := by
  refine Checks.mono judges (fun _ _ _ _ => id) id fun _ _ _ promised => ?_
  have same := promised.1
  simp only [State.surroundings, Prod.mk.injEq] at same
  exact same.2.2.2

theorem bind (first : Generates s action checked enough)
    (second : ∀ a s₁, Generates s₁ (next a) checked' enough') :
    Generates s (action >>= next) (checked ∧ checked') (enough ∧ enough') := by
  have both := Checks.bind first fun a s₁ same => (second a s₁).mono (fun _ _ _ _ => id) id
    fun _ _ _ same' => same'.trans same
  refine both.mono ?_ ?_ fun _ _ _ same => same
  · rintro _ _ _ _ ⟨checks, _, _, _, _, checks'⟩
    exact ⟨checks, checks'⟩
  · rintro ⟨adequate, adequate'⟩
    exact ⟨adequate, fun _ _ _ _ => adequate'⟩

theorem mono (generates : Generates s action checked enough) (ofChecked : checked → checked')
    (ofEnough : enough' → enough) : Generates s action checked' enough' :=
  Checks.mono generates (fun _ _ _ _ => ofChecked) ofEnough fun _ _ _ same => same

theorem forM {items : List α} {action : α → Gen Unit} {checked enough : α → Prop}
    (each : ∀ item s, Generates s (action item) (checked item) (enough item)) :
    Generates s (items.forM action) (∀ item ∈ items, checked item)
      (∀ item ∈ items, enough item) := by
  induction items generalizing s with
  | nil => exact .pure rfl nofun
  | cons item rest inductionHypothesis =>
      simp only [List.mem_cons, forall_eq_or_imp]
      exact (each item s).bind fun _ _ => inductionHypothesis

end Generates

end Generation

section Procedures

variable {program : TypedProgram} {options : Options} {depth : Nat} {s : State}

theorem mute_finishProcedure (options : Options) (fn : Function) (frame : Frame) :
    Mute (finishProcedure options fn frame) := by
  have closed : Mute (closeBody frame) := by
    refine mute_lastInstr.bind fun last => ?_
    have exit : ∀ jumps, Mute (if 0 < jumps then defineLabel frame.exit else pure ()) := by
      intro jumps
      split
      · exact mute_emit _
      · exact .pure ()
    dsimp only
    split
    · exact (mute_modifyText _).bind fun _ => exit _
    · exact exit _
  have checked : Mute (checkBalance frame) := by
    refine mute_get.bind fun s => ?_
    dsimp only
    split
    · exact .throw nofun
    · exact .pure ()
  exact closed.bind fun _ => checked.bind fun _ => mute_get.bind fun _ =>
    (mute_log _).bind fun _ => (mute_emit _).bind fun _ => mute_modifyText _

/-- Closing the body of a procedure, where there is a frame to close. -/
theorem mute_closing (options : Options) (fn : Function) (frame? : Option Frame) :
    Mute (match frame? with
      | some frame => finishProcedure options fn frame
      | none => return () : Gen Unit) := by
  cases frame? with
  | some frame => exact mute_finishProcedure options fn frame
  | none => exact .pure ()

/-- A procedure begins without calls in progress. -/
theorem generates_procedure {id : FnId} {body : List Stmt}
    (free : ∀ block, ¬ program.Contains block) (found : (program.function id).body = some body) :
    Generates s (procedure (envAt program options depth) id body)
      ((Stmt.block body).All program (Expr.Checked program (expandsFirst program options))
        (Stmt.Checked program (program.function id)) false)
      (GrantedIn program (program.function id) [] false (.block body)) := by
  have bodyFree : ∀ block, ¬ (Stmt.block body).Contains block :=
    fun block inside => free block ⟨id, body, found, inside⟩
  have inside : Inside program (program.function id) false (s.begun id (program.function id)) :=
    ⟨.inl ⟨rfl, id, rfl, rfl⟩, by simp [State.begun]⟩
  have spilled : Proceeds (program.function id) (s.begun id (program.function id)) (do
      emit (spillArguments (program.function id))
      block (envAt program options depth) body)
      (ShownIn program (expandsFirst program options) (program.function id) [] false (.block body))
      (GrantedIn program (program.function id) [] false (.block body))
      (Stmt.block body).Answers := by
    refine .behind (mute_emit _) fun _ s₁ _ same => ?_
    have generated := proceeds_statement (judged_envAt options depth free) (.block body) bodyFree
      (inside.of_stand (stand_of_same same))
    rw [statement, activations_of_same same] at generated
    exact generated
  have whole := spilled.before fun _ => mute_get.bind fun s₁ =>
    mute_closing options (program.function id) s₁.frame
  refine ⟨fun run => ?_, fun granted unreported => ?_⟩
  · rw [procedure_eq] at run
    obtain ⟨⟨stand, _⟩, earlier⟩ := whole.ok run
    simp only [State.stand, Prod.mk.injEq] at stand
    exact ⟨stand.2.2.2.2, fun unreported =>
      (earlier unreported).imp_right fun shown => shown exact_nil⟩
  · rw [procedure_eq]
    exact whole.silent ⟨.inl rfl, granted⟩ unreported

/-- The function that the entry point calls. -/
def entryFunction? (program : TypedProgram) (options : Options) : Option Function :=
  program.lookup (if program.entry = "" then options.entry else program.entry)

/-- The function that the entry point calls has to be there. -/
theorem judges_entryPoint (program : TypedProgram) (options : Options) (depth : Nat) :
    Judges s (entryPoint (envAt program options depth))
    ((entryFunction? program options).isSome = true)
    ((entryFunction? program options).isSome = true) fun _ => True := by
  refine (mute_emit _).before fun _ s₁ _ _ => ?_
  split
  case h_1 fn found =>
      have found : entryFunction? program options = some fn := found
      rw [found]
      exact (mute_emit _).judges (fun _ _ _ => trivial) rfl
  case h_2 missing =>
      have missing : entryFunction? program options = none := missing
      rw [missing]
      exact judges_report _ Bool.false_ne_true

/-- Every body is generated on its own. -/
theorem generates_functionCode (free : ∀ block, ¬ program.Contains block) (id : FnId) :
    Generates s (functionCode (envAt program options depth) id)
      (∀ body, (program.function id).body = some body →
        (Stmt.block body).All program (Expr.Checked program (expandsFirst program options))
          (Stmt.Checked program (program.function id)) false)
      (∀ body, (program.function id).body = some body →
        GrantedIn program (program.function id) [] false (.block body)) := by
  unfold functionCode
  split
  case h_1 body found =>
      have found : (program.function id).body = some body := found
      refine (generates_procedure free found).mono (fun all other same => ?_) fun granted => ?_
      · cases found.symm.trans same
        exact all
      · exact granted body found
  case h_2 missing =>
      have missing : (program.function id).body = none := missing
      exact .pure rfl fun body found => by simp [missing] at found

theorem generates_wholeProgram (free : ∀ block, ¬ program.Contains block) :
    Generates s (wholeProgram (envAt program options depth))
      ((entryFunction? program options).isSome = true ∧
        ∀ id body, (program.function id).body = some body →
          (Stmt.block body).All program (Expr.Checked program (expandsFirst program options))
            (Stmt.Checked program (program.function id)) false)
      ((entryFunction? program options).isSome = true ∧
        ∀ id body, (program.function id).body = some body →
          GrantedIn program (program.function id) [] false (.block body)) := by
  have size : ∀ id body, (program.function id).body = some body →
      id ∈ List.range program.functions.size := by
    intro id body found
    by_contra outside
    rw [List.mem_range, not_lt] at outside
    have missing : program.function id = default := by
      simp [TypedProgram.function, Array.getD, Nat.not_lt.mpr outside]
    rw [missing] at found
    contradiction
  have closed : ∀ s₁, Generates s₁ (modify fun state =>
      { state with frame := none, data := withTables state.data (methodTables program) } : Gen Unit)
      True True :=
    fun s₁ => ⟨fun run => by cases run; exact ⟨rfl, fun unreported => ⟨unreported, trivial⟩⟩,
      fun _ unreported => unreported⟩
  have started : Generates s (emit [.sectionName ".text", .globalName "_start"]) True True :=
    .of_judges (mute_emit _).silent
  have functions : ∀ s₁, Generates s₁ ((List.range program.functions.size).forM
      (functionCode (envAt program options depth))) _ _ :=
    fun s₁ => .forM fun id s => generates_functionCode free id
  have whole := started.bind fun _ s₁ =>
    (Generates.of_judges (judges_entryPoint program options depth)).bind fun _ s₂ =>
      (functions s₂).bind fun _ s₃ => closed s₃
  refine whole.mono ?_ ?_
  · rintro ⟨_, entry, all, _⟩
    exact ⟨entry, fun id body found => all id (size id body found) body found⟩
  · rintro ⟨entry, granted⟩
    exact ⟨trivial, entry, fun id _ body found => granted id body found, trivial⟩

end Procedures

section Programs

variable {program : TypedProgram} {options : Options}

/-- What is checked in a program without blocks holds if code comes out and nothing is reported. -/
theorem accepted_checked {code : Program} (free : ∀ block, ¬ program.Contains block)
    (compiled : (generate options program).program? = some code)
    (ok : (generate options program).ok = true) :
    (entryFunction? program options.normalize).isSome = true ∧
      ∀ id body, (program.function id).body = some body →
        (Stmt.block body).All program
          (Expr.Checked program (expandsFirst program options.normalize))
          (Stmt.Checked program (program.function id)) false := by
  have generates : Generates .initial (wholeProgram (.of program options.normalize)) _ _ :=
    generates_wholeProgram free
  unfold generate at compiled ok
  split at compiled
  · rename_i final ran
    rw [ran] at ok
    obtain ⟨limit, earlier⟩ := generates.ok ran
    refine (earlier ⟨?_, ?_⟩).2
    · have none : (!decide (0 < final.collector.errors.size)) = true := ok
      rw [Bool.not_eq_true', decide_eq_false_iff_not] at none
      exact Array.size_eq_zero_iff.mp (by omega)
    · rw [limit]
      decide
  · contradiction

theorem fits_of_numeric {value : Literal} {type : TypeRef} {size : Size}
    (numeric : value.kind ≠ .string) (fit : Fit ((Expr.lit value type).constant? program) size) :
    value.FitsIn size := by
  refine Literal.fitsIn_blur.mp (fit value.blur ?_)
  rw [Expr.constant?, if_neg numeric]
  rfl

/-- Numbers that are assigned or returned fit, if code comes out and nothing is reported. -/
theorem accepted_numbers_fit {code : Program} {id : FnId} {body : List Stmt} {looping : Bool}
    {value : Literal} {type : TypeRef} (free : ∀ block, ¬ program.Contains block)
    (compiled : (generate options program).program? = some code)
    (ok : (generate options program).ok = true)
    (found : (program.function id).body = some body) (numeric : value.kind ≠ .string) :
    (∀ target, Stmt.Reaches (false, .block body) (looping, .assign target (.lit value type)) →
      value.FitsIn (target.width program)) ∧
    (Stmt.Reaches (false, .block body) (looping, .ret (.lit value type)) →
      value.FitsIn (program.function id).returnType.operandSize) := by
  have all := (accepted_checked free compiled ok).2 id body found
  refine ⟨fun target reaches => ?_, fun reaches => ?_⟩
  · exact fits_of_numeric numeric (all.reached reaches).1
  · exact fits_of_numeric numeric ((all.reached reaches).1 rfl).2

/-- Numbers among the arguments of a call fit their parameters, if code comes out and nothing is
reported: the first six of a call that is emitted, and those that an expansion copies. -/
theorem accepted_arguments_fit {code : Program} {id : FnId} {body : List Stmt} {site : CallSite}
    {s : Bool × Stmt} {outer e : Expr} (free : ∀ block, ¬ program.Contains block)
    (compiled : (generate options program).program? = some code)
    (ok : (generate options program).ok = true)
    (found : (program.function id).body = some body)
    (reached : Stmt.Reaches (false, .block body) s) (part : outer ∈ s.2.evaluated)
    (within : outer.Reaches program e) (called : e.site? program = some site) :
    if !site.isVirtual && expandsFirst program options.normalize site.callee then
      ∀ binding ∈ (argumentIds site.callee (program.function site.callee)).zip (site.items program),
        ∀ value type, binding.2 = .value (.lit value type) → value.kind ≠ .string →
          binding.1.2.byRef = false → program.writesOwn binding.1.1 = true →
            value.FitsIn binding.1.2.operandSize
    else
      ∀ passed ∈ ((program.function site.callee).args.zip (site.items program)).take 6,
        ∀ value type, passed.2 = .value (.lit value type) → value.kind ≠ .string →
          passed.1.byRef = false → value.FitsIn passed.1.operandSize := by
  have all := (accepted_checked free compiled ok).2 id body found
  have checked := (checked_of_site called).mp (((all.reached reached).2 outer part).reached within)
  split at checked
  · rename_i expanded
    rw [if_pos expanded]
    simp only [CallSite.Copies, Copied, CallSite.constants, List.zip_map_right,
      List.forall_mem_map] at checked
    rintro ⟨parameter, item⟩ member value type rfl numeric byValue copied
    have fit : Fit ((Expr.lit value type).constant? program) parameter.2.operandSize :=
      checked _ member byValue copied
    exact fits_of_numeric numeric fit
  · rename_i emitted
    rw [if_neg emitted]
    simp only [CallSite.Fits, Passable, CallSite.constants, List.zip_map_right, ← List.map_take,
      List.forall_mem_map] at checked
    rintro ⟨parameter, item⟩ member value type rfl numeric byValue
    have fit : Fit ((Expr.lit value type).constant? program) parameter.operandSize :=
      checked _ member byValue
    exact fits_of_numeric numeric fit

/-- An internal fault is recorded behind the problems, unless there are too many already. -/
theorem collector_add_fatal (collector : Collector) (detail : String) (location : Location) :
    ∃ diagnostic : Diagnostic, diagnostic.cause = some (.internal detail) ∧
      collector.add (.fatal detail location) =
        if collector.errors.size < collector.maxErrors then
          { collector with errors := collector.errors.push diagnostic }
        else collector :=
  ⟨{ Diagnostic.fatal detail location with sourceLine := collector.sourceLine location.line },
    rfl, rfl⟩

/-- Where nothing is expanded first, everything is called. -/
theorem expandsFirst_zero (program : TypedProgram) (options : Options) :
    expandsFirst program { options with inlineDepth := 0 }.normalize = fun _ => false := by
  funext callee
  simp [expandsFirst, Options.normalize]

/-- Expansions report nothing that calls do not, in a program that is safe. -/
theorem expansions_silent {code : Program} (free : ∀ block, ¬ program.Contains block)
    (safe : program.Safe)
    (compiled : (generate { options with inlineDepth := 0 } program).program? = some code)
    (ok : (generate { options with inlineDepth := 0 } program).ok = true) :
    ∀ diagnostic ∈ (generate options program).collector.errors, ∀ problem,
      diagnostic.cause ≠ some (.problem problem) := by
  obtain ⟨entry, all⟩ := accepted_checked free compiled ok
  rw [expandsFirst_zero] at all
  have granted : ∀ id body, (program.function id).body = some body →
      (Stmt.block body).All program (fun e => e.Checked program (fun _ => false) ∧ e.Safe program)
        (fun looping s => s.Checked program (program.function id) looping ∧ s.Safe program)
        false := fun id body found => (all id body found).and (safe id body found).1
  have careful : program.Careful := fun id body found isInline =>
    ⟨granted id body found, (safe id body found).2 isInline⟩
  have generates : Generates .initial (wholeProgram (.of program options.normalize)) _ _ :=
    generates_wholeProgram free
  have silent := generates.silent ⟨entry, fun id body found =>
    ⟨careful, unfolded_nil, granted id body found⟩⟩ ⟨rfl, by decide⟩
  intro diagnostic member problem
  unfold generate at member
  cases ran : wholeProgram (.of program options.normalize) .initial with
  | ok _ final =>
      rw [ran] at silent member
      have none : final.collector.errors = #[] := silent.1
      simp [Compilation.ofState, none] at member
  | error fault final =>
      rw [ran] at silent member
      have none : final.collector.errors = #[] := silent.1
      obtain ⟨fatal, cause, added⟩ :=
        collector_add_fatal final.collector fault.detail final.location
      simp only [Compilation.ofState, added] at member
      split at member
      · rw [none] at member
        obtain rfl : diagnostic = fatal := by simpa using member
        rw [cause]
        exact nofun
      · simp [none] at member

/-- A program that calls a function with a variable, and the function is expanded in place. -/
def halving : TypedProgram :=
  let int (name : String) (isParam : Bool) : Variable := ⟨name, .int, false, isParam, 0⟩
  .ofParts "Main" #[]
    #[{ (default : Function) with
        name := "Main"
        returnType := .int
        mods := { Mods.none with isStatic := true }
        locals := [int "whole" false]
        body := some [.ret (.call 1 .absent [.var ⟨0, 0⟩] false)] },
      { (default : Function) with
        name := "half"
        returnType := .int
        mods := { Mods.none with isStatic := true, isInline := true }
        params := [int "whole" true]
        body := some [.ret (.binary .div (.var ⟨1, 0⟩) (.lit (.ofInt 2) .int) .int)] }]

theorem halving_body {id : FnId} {body : List Stmt}
    (found : (halving.function id).body = some body) :
    id = 0 ∧ body = [.ret (.call 1 .absent [.var ⟨0, 0⟩] false)] ∨
      id = 1 ∧ body = [.ret (.binary .div (.var ⟨1, 0⟩) (.lit (.ofInt 2) .int) .int)] := by
  match id with
  | 0 =>
      have known : (halving.function 0).body =
          some [.ret (.call 1 .absent [.var ⟨0, 0⟩] false)] := by
        with_unfolding_all rfl
      rw [known] at found
      exact .inl ⟨rfl, (Option.some.inj found).symm⟩
  | 1 =>
      have known : (halving.function 1).body =
          some [.ret (.binary .div (.var ⟨1, 0⟩) (.lit (.ofInt 2) .int) .int)] := by
        with_unfolding_all rfl
      rw [known] at found
      exact .inr ⟨rfl, (Option.some.inj found).symm⟩
  | later + 2 =>
      have two : halving.functions.size = 2 := by decide +kernel
      have outside : halving.functions.size ≤ later + 2 := by omega
      rw [TypedProgram.function, Array.getD_eq_getD_getElem?,
        Array.getElem?_eq_none outside] at found
      cases found

theorem halving_free (block : Block) : ¬ halving.Contains block := by
  have clear : ∀ e : Expr, (∀ block vars type, e ≠ .asm block vars type) →
      (∀ part ∈ e.parts, ¬ Expr.Contains block part) → ¬ Expr.Contains block e := by
    intro e plain parts contains
    cases contains with
    | block => exact plain _ _ _ rfl
    | part member inside => exact parts _ member inside
  have absent : ¬ Expr.Contains block .absent := clear _ (by simp) (by simp [Expr.parts])
  have named : ∀ id, ¬ Expr.Contains block (.var id) :=
    fun _ => clear _ (by simp) (by simp [Expr.parts])
  have literal : ∀ value type, ¬ Expr.Contains block (.lit value type) :=
    fun _ _ => clear _ (by simp) (by simp [Expr.parts])
  have answer : ∀ value, ¬ Expr.Contains block value →
      ¬ Stmt.Contains block (.block [.ret value]) := by
    intro value clear contains
    cases contains with
    | expr member _ => simp [Stmt.exprs] at member
    | part member inside =>
        rw [Stmt.parts, List.mem_singleton] at member
        subst member
        cases inside with
        | expr member inside => exact clear (List.mem_singleton.mp member ▸ inside)
        | part member _ => simp [Stmt.parts] at member
  rintro ⟨id, body, found, contains⟩
  obtain ⟨_, rfl⟩ | ⟨_, rfl⟩ := halving_body found
  · exact answer _ (clear _ (by simp) (by simp [Expr.parts, absent, named])) contains
  · exact answer _ (clear _ (by simp) (by simp [Expr.parts, named, literal])) contains

theorem halving_safe : halving.Safe := by
  have leaf : ∀ e : Expr, e.evaluated halving = [] → e.Safe halving →
      e.All halving (Expr.Safe halving) := by
    intro e none safe
    exact .intro safe (by simp [none])
  have answer : ∀ value : Expr, value.All halving (Expr.Safe halving) →
      (Stmt.block [.ret value]).All halving (Expr.Safe halving) (fun _ s => s.Safe halving)
        false := by
    intro value safe
    refine .intro (by simp [Stmt.Safe]) (by simp [Stmt.evaluated]) ?_
    simp only [Stmt.emitted, List.map_cons, List.map_nil, List.mem_singleton, forall_eq]
    exact .intro (by simp [Stmt.Safe]) (by simpa [Stmt.evaluated] using safe)
      (by simp [Stmt.emitted])
  have operands : (argumentIds 1 (halving.function 1)).zip
      (callItems (halving.function 1) none [.var ⟨0, 0⟩]) =
        [((⟨1, 0⟩, ⟨"whole", .int, false, true, -8⟩), .value (.var ⟨0, 0⟩))] := by
    with_unfolding_all rfl
  have noInline : (halving.function 0).mods.isInline = false := by with_unfolding_all rfl
  intro id body found
  obtain ⟨rfl, rfl⟩ | ⟨rfl, rfl⟩ := halving_body found
  · refine ⟨answer _ (.intro ⟨by simp, ?_⟩ ?_), ?_⟩
    · rintro _ ⟨⟩ _ _ _
      change ∀ binding ∈ (argumentIds 1 (halving.function 1)).zip
        (callItems (halving.function 1) none [.var ⟨0, 0⟩]), _
      rw [operands]
      simp [Item.constant?, Expr.constant?]
    · have only : (Expr.call 1 .absent [.var ⟨0, 0⟩] false).evaluated halving =
          [.var ⟨0, 0⟩] := by
        with_unfolding_all rfl
      rw [only]
      simpa using leaf (.var ⟨0, 0⟩) rfl (by simp [Expr.Safe, Expr.site?])
    · rw [noInline]
      simp
  · refine ⟨answer _ (.intro (by simp [Expr.Safe, Expr.site?]) ?_), fun _ _ => ?_⟩
    · simp only [Expr.evaluated, List.mem_cons, List.not_mem_nil, or_false, forall_eq_or_imp,
        forall_eq]
      have two : (Literal.ofInt 2).Valid := valid_of_numeric? (numeric?_literalOf 2 true)
      exact ⟨leaf _ rfl (by simp [Expr.Safe, Expr.site?]),
        leaf _ rfl (by simp [Expr.Safe, Expr.site?, two])⟩
    · exact .part (List.mem_singleton_self (false, _)) (.ret rfl)

theorem halving_silent : halving.Safe ∧ (∀ block, ¬ halving.Contains block) ∧
    (generate { Options.default with inlineDepth := 0 } halving).ok = true ∧
    ∀ depth, ∀ diagnostic ∈
      (generate { Options.default with inlineDepth := depth } halving).collector.errors,
      ∀ problem, diagnostic.cause ≠ some (.problem problem) := by
  have compiled :
      (generate { Options.default with inlineDepth := 0 } halving).program?.isSome = true ∧
      (generate { Options.default with inlineDepth := 0 } halving).ok = true := by
    decide +kernel
  obtain ⟨code, generated⟩ := Option.isSome_iff_exists.mp compiled.1
  exact ⟨halving_safe, halving_free, compiled.2,
    fun depth => expansions_silent halving_free halving_safe generated compiled.2⟩

end Programs

end X64Backend.Lower
