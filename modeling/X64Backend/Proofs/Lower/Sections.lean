import X64Backend.Generate
import X64Backend.Proofs.Lower.Procedures

/-!
The code of a program, procedure by procedure.  Behind the label of a procedure come its prologue,
its body and its epilogue; the moves of the generator change nothing in front of the body.
-/

namespace X64Backend

namespace Stream

/-- The entries from the first to the newest. -/
def code (stream : Stream) : List Entry := stream.entries.toList

@[simp]
theorem code_emit (stream : Stream) (instr : Instr) :
    (stream.emit instr).code = stream.code ++ [⟨stream.clock, instr⟩] := by
  simp [code, emit]

theorem size_eq (stream : Stream) : stream.size = stream.code.length :=
  rfl

theorem last?_eq (stream : Stream) : stream.last? = stream.code.getLast?.map Entry.instr := by
  simp [last?, code]

@[simp]
theorem code_removeLast (stream : Stream) : stream.removeLast.code = stream.code.dropLast := by
  simp [code, removeLast]

theorem code_replaceLast {stream : Stream} {older : List Entry} {last : Entry} (instr : Instr)
    (same : stream.code = older ++ [last]) :
    (stream.replaceLast instr).code = older ++ [{ last with instr }] := by
  have position : stream.entries.size - 1 = older.length := by
    have length := congrArg List.length same
    simp only [code, Array.length_toList, List.length_append, List.length_singleton] at length
    omega
  simp only [code] at same
  simp [code, replaceLast, position, Array.toList_modify, same, List.modify_eq_take_cons_drop]

/-- Appended instructions come last. -/
theorem code_append (stream : Stream) (instrs : List Instr) :
    ∃ added, (stream.append instrs).code = stream.code ++ added ∧ added.map Entry.instr = instrs := by
  induction instrs generalizing stream with
  | nil => exact ⟨[], by simp [append], rfl⟩
  | cons instr rest inductionHypothesis =>
      obtain ⟨added, same, spelled⟩ := inductionHypothesis (stream.emit instr)
      refine ⟨⟨stream.clock, instr⟩ :: added, ?_, by simp [spelled]⟩
      change ((stream.emit instr).append rest).code = _
      simp [same]

/-- Inserted instructions come between the entries in front of an index and the others. -/
theorem code_insert {stream : Stream} {before behind : List Entry} (instrs : List Instr)
    (same : stream.code = before ++ behind) :
    ∃ added, (stream.insert before.length instrs).code = before ++ added ++ behind ∧
      added.map Entry.instr = instrs := by
  have unfolded : ∃ stamp, (stream.insert before.length instrs).entries =
      stream.entries.extract 0 (min before.length stream.entries.size) ++
        (instrs.map (Entry.mk stamp)).toArray ++
        stream.entries.extract (min before.length stream.entries.size) stream.entries.size :=
    ⟨_, rfl⟩
  obtain ⟨stamp, inserted⟩ := unfolded
  have fits : min before.length stream.entries.size = before.length := by
    have length := congrArg List.length same
    simp only [code, Array.length_toList, List.length_append] at length
    omega
  refine ⟨instrs.map (Entry.mk stamp), ?_, by simp [Function.comp_def]⟩
  have length := congrArg List.length same
  simp only [code, Array.length_toList] at same length
  simp [code, inserted, same, length]

/-- The newest instruction stands behind an entry of another kind. -/
theorem behind_last? {stream : Stream} {base body : List Entry} {instr : Instr}
    (same : stream.code = base ++ body) (last : stream.last? = some instr)
    (other : base.getLast?.map Entry.instr ≠ some instr) :
    ∃ older tick, body = older ++ [⟨tick, instr⟩] := by
  rw [last?_eq, same] at last
  rcases List.eq_nil_or_concat body with rfl | ⟨older, entry, rfl⟩
  · rw [List.append_nil] at last
    exact absurd last other
  · rw [List.concat_eq_append, ← List.append_assoc, List.getLast?_concat] at last
    obtain rfl := Option.some.inj last
    exact ⟨older, entry.tick, List.concat_eq_append⟩

end Stream

namespace Lower

open X64Backend.Tree

variable {program : TypedProgram} {options : Options} {since : Handle} {c c' : Config}
  {base body : List Entry} {text : Stream} {label : String}

/-- Code that ends with the label of a procedure. -/
def Headed (base : List Entry) : Prop :=
  ∃ name, base.getLast?.map Entry.instr = some (.label name true)

theorem Headed.ne (headed : Headed base) {instr : Instr} (proper : ∀ name, instr ≠ .label name true) :
    base.getLast?.map Entry.instr ≠ some instr := by
  obtain ⟨name, same⟩ := headed
  rw [same]
  intro equal
  exact proper name (Option.some.inj equal).symm

/-- A comparison that is written anew is in the body. -/
theorem Headed.behind_set (headed : Headed base) {cond : Cond} {location : Operand}
    (same : text.code = base ++ body) (last : text.last? = some (.unary (.set cond) location)) :
    ∃ older tick, body = older ++ [⟨tick, .unary (.set cond) location⟩] ∧
      ∀ instr, (text.replaceLast instr).code = base ++ (older ++ [⟨tick, instr⟩]) := by
  obtain ⟨older, tick, rfl⟩ := Stream.behind_last? same last (headed.ne (by simp))
  refine ⟨older, tick, rfl, fun instr => ?_⟩
  rw [← List.append_assoc] at same ⊢
  exact Stream.code_replaceLast instr same

/-- A body behind which a label is defined if a jump to it is left.  Jumps to it right before it are
dropped. -/
inductive Closed (label : String) : Nat → List Entry → List Entry → Prop where
  | unused {body : List Entry} : Closed label 0 body body
  | defined {jumps : Nat} {body : List Entry} (tick : Nat) : 0 < jumps →
      Closed label jumps body (body ++ [⟨tick, .label label false⟩])
  | direct {jumps : Nat} {older body : List Entry} {last : Entry} :
      isJumpTo label last.instr = true → Closed label (jumps - 1) older body →
      Closed label jumps (older ++ [last]) body

theorem Headed.closed (headed : Headed base) (label : String) (jumps : Nat) (same : text.code = base ++ body) :
    ∃ body', (closedText text label jumps).code = base ++ body' ∧ Closed label jumps body body' := by
  have ended : ∀ (kept : Stream) older left, kept.code = base ++ older →
      ∃ body', (if 0 < left then kept.emit (.label label false) else kept).code = base ++ body' ∧
        Closed label left older body' := by
    intro kept older left same
    by_cases some : 0 < left
    · rw [if_pos some, Stream.code_emit, same, List.append_assoc]
      exact ⟨_, rfl, .defined _ some⟩
    · obtain rfl := Nat.eq_zero_of_not_pos some
      rw [if_neg some]
      exact ⟨older, same, .unused⟩
  unfold closedText
  dsimp only
  by_cases direct : isJumpTo label (text.last?.getD .absent) = true
  · simp only [direct, if_true]
    cases last : text.last? with
    | none =>
        rw [last] at direct
        contradiction
    | some instr =>
        rw [last, Option.getD_some] at direct
        have proper : ∀ name, instr ≠ .label name true := by
          rintro name rfl
          contradiction
        obtain ⟨older, tick, rfl⟩ := Stream.behind_last? same last (headed.ne proper)
        have dropped : text.removeLast.code = base ++ older := by
          rw [Stream.code_removeLast, same, ← List.append_assoc, List.dropLast_concat]
        obtain ⟨body', same', closed⟩ := ended text.removeLast older (jumps - 1) dropped
        exact ⟨body', same', .direct direct closed⟩
  · simp only [direct, Bool.false_eq_true, if_false]
    exact ended text body jumps same

/-- The moves of the generator change nothing in front of the body. -/
theorem Move.code (move : Move program since c c') (headed : Headed base)
    (same : c.state.draft.text.code = base ++ body) :
    ∃ body', c'.state.draft.text.code = base ++ body' := by
  have emitted : ∀ instr, ∃ body', (c.state.draft.text.emit instr).code = base ++ body' := by
    intro instr
    rw [Stream.code_emit, same, List.append_assoc]
    exact ⟨_, rfl⟩
  cases move with
  | draft step =>
      cases step with
      | shift => exact emitted _
      | _ => exact ⟨body, same⟩
  | note noted => exact ⟨body, (congrArg Stream.code noted.text).trans same⟩
  | reset last =>
      obtain ⟨older, tick, _, replaced⟩ := headed.behind_set same last
      exact ⟨_, replaced _⟩
  | fuse last =>
      obtain ⟨older, tick, _, replaced⟩ := headed.behind_set same last
      exact ⟨_, replaced _⟩
  | close _ _ =>
      obtain ⟨body', same', _⟩ := headed.closed _ _ same
      exact ⟨body', same'⟩
  | emit => exact emitted _
  | transfer => exact emitted _
  | jump => exact emitted _
  | define => exact emitted _
  | leave => exact emitted _
  | jumpOut => exact emitted _
  | push => exact emitted _
  | _ => exact ⟨body, same⟩

theorem Moves.code (moves : Moves program since c c') (headed : Headed base)
    (same : c.state.draft.text.code = base ++ body) :
    ∃ body', c'.state.draft.text.code = base ++ body' := by
  induction moves with
  | refl => exact ⟨body, same⟩
  | tail _ last inductionHypothesis =>
      obtain ⟨body₁, same₁⟩ := inductionHypothesis
      exact last.code headed same₁

/-- The code of one procedure. -/
structure Section where
  fn : FnId
  /-- The label of the procedure. -/
  head : Entry
  prologue : List Entry
  body : List Entry
  epilogue : List Entry

namespace Section

/-- The instructions between the label and the next procedure. -/
def inner (sec : Section) : List Entry := sec.prologue ++ sec.body ++ sec.epilogue

/-- Everything from the label on. -/
def entries (sec : Section) : List Entry := sec.head :: sec.inner

end Section

/-- A procedure has been generated.  Its body came to a configuration; it was closed there, and the
prologue and the epilogue were put around it. -/
structure Generated (program : TypedProgram) (options : Options) (s : State) (sec : Section)
    (s' : State) (c : Config) (frame : Frame) (unclosed : List Entry) : Prop where
  written : Written program sec.fn s c
  found : c.state.frame = some frame
  finished : Finished options (program.function sec.fn) frame c.state s'
  head : sec.head = ⟨s.draft.text.clock, .label (program.function sec.fn).linkName true⟩
  body : c.state.draft.text.code = s.draft.text.code ++ [sec.head] ++ unclosed
  closed : Closed frame.exit frame.jumps unclosed sec.body
  prologue : sec.prologue.map Entry.instr =
    (c.state.plan options (program.function sec.fn) frame).prologue
  epilogue : sec.epilogue.map Entry.instr =
    (c.state.plan options (program.function sec.fn) frame).epilogue
  code : s'.draft.text.code = s.draft.text.code ++ sec.entries

theorem headed_label (before : List Entry) (tick : Nat) (name : String) :
    Headed (before ++ [⟨tick, .label name true⟩]) :=
  ⟨name, by rw [List.getLast?_concat]; rfl⟩

theorem code_begun (s : State) (id : FnId) :
    (Config.begun s id (program.function id)).state.draft.text.code =
      s.draft.text.code ++ [⟨s.draft.text.clock, .label (program.function id).linkName true⟩] :=
  Stream.code_emit _ _

theorem procedure_generated {depth : Nat} {id : FnId} {stmts : List Stmt} {s s' : State} {u : Unit}
    (known : (program.function id).body = some stmts)
    (run : procedure (envAt program options depth) id stmts s = .ok u s') :
    ∃ sec c frame unclosed, sec.fn = id ∧
      Generated program options s sec s' c frame unclosed := by
  obtain ⟨c, frame, written, found, finished⟩ := procedure_ok known run
  let head : Entry := ⟨s.draft.text.clock, .label (program.function id).linkName true⟩
  have headed : Headed (s.draft.text.code ++ [head]) := headed_label _ _ _
  obtain ⟨unclosed, body⟩ := written.moves.code headed
    ((code_begun s id).trans (List.append_nil _).symm)
  obtain ⟨closed, same, closes⟩ := headed.closed frame.exit frame.jumps body
  obtain ⟨epilogue, appended, ofEpilogue⟩ := Stream.code_append
    (closedText c.state.draft.text frame.exit frame.jumps)
    (c.state.plan options (program.function id) frame).epilogue
  rw [same, List.append_assoc _ closed epilogue] at appended
  obtain ⟨prologue, inserted, ofPrologue⟩ := Stream.code_insert
    (c.state.plan options (program.function id) frame).prologue appended
  obtain ⟨_, found', _, _, start, _⟩ := written.frame
  rw [found] at found'
  cases found'
  have position : frame.start = (s.draft.text.code ++ [head]).length := by
    rw [start, List.length_append, Stream.size_eq, List.length_singleton]
  refine ⟨⟨id, head, prologue, closed, epilogue⟩, c, frame, unclosed, rfl, ?_⟩
  refine ⟨written, found, finished, rfl, body, closes, ofPrologue, ofEpilogue, ?_⟩
  rw [finished.text, State.finishedText, position, inserted]
  simp [Section.entries, Section.inner]

/-- Procedures have been generated one after the other. -/
inductive Chain (program : TypedProgram) (options : Options) : State → List Section → State → Prop
    where
  | nil {s} : Chain program options s [] s
  | cons {s s₁ s' sec rest c frame unclosed} : Generated program options s sec s₁ c frame unclosed →
      Chain program options s₁ rest s' → Chain program options s (sec :: rest) s'

/-- The functions that are not defined elsewhere, in their order. -/
def definedAmong (program : TypedProgram) (ids : List FnId) : List FnId :=
  ids.filter fun id => (program.function id).body.isSome

theorem functions_chain (depth : Nat) {ids : List FnId} {s s' : State} {u : Unit}
    (run : ids.forM (functionCode (envAt program options depth)) s = .ok u s') :
    ∃ sections, Chain program options s sections s' ∧
      sections.map Section.fn = definedAmong program ids := by
  induction ids generalizing s with
  | nil =>
      obtain ⟨_, rfl⟩ := Success.pure_ok.mp run
      exact ⟨[], .nil, rfl⟩
  | cons id rest inductionHypothesis =>
      obtain ⟨_, s₁, ran, run⟩ := Success.bind_ok.mp run
      obtain ⟨sections, chain, functions⟩ := inductionHypothesis run
      unfold functionCode at ran
      cases known : (program.function id).body with
      | none =>
          have absent : ((envAt program options depth).program.function id).body = none := known
          rw [absent] at ran
          obtain ⟨_, rfl⟩ := Success.pure_ok.mp ran
          refine ⟨sections, chain, ?_⟩
          rw [functions, definedAmong, definedAmong, List.filter_cons_of_neg (by simp [known])]
      | some stmts =>
          have present : ((envAt program options depth).program.function id).body = some stmts :=
            known
          rw [present] at ran
          obtain ⟨sec, c, frame, unclosed, same, generated⟩ := procedure_generated known ran
          refine ⟨sec :: sections, .cons generated chain, ?_⟩
          rw [List.map_cons, same, functions, definedAmong, definedAmong,
            List.filter_cons_of_pos (by simp [known])]

/-- The texts of procedures that are generated one after the other stay filed. -/
theorem Chain.filed {s s' : State} {sections : List Section}
    (chain : Chain program options s sections s') (filed : s.Filed) : s'.Filed := by
  induction chain with
  | nil => exact filed
  | cons generated _ inductionHypothesis =>
      exact inductionHypothesis
        (generated.finished.filed (generated.written.moves.filed filed))

theorem Chain.code {s s' : State} {sections : List Section}
    (chain : Chain program options s sections s') :
    s'.draft.text.code = s.draft.text.code ++ sections.flatMap Section.entries := by
  induction chain with
  | nil => simp
  | cons generated _ inductionHypothesis =>
      rw [inductionHypothesis, generated.code, List.flatMap_cons, List.append_assoc]

/-- The generation of a program that succeeds, from the code in front of the procedures on. -/
theorem wholeProgram_chain {s' : State} {u : Unit}
    (run : wholeProgram (.of program options) .initial = .ok u s') :
    ∃ s₀ s₁ sections, (do
        emit [.sectionName ".text", .globalName "_start"]
        entryPoint (.of program options) : Gen Unit) .initial = .ok () s₀ ∧
      Chain program options s₀ sections s₁ ∧
      sections.map Section.fn = definedAmong program (List.range program.functions.size) ∧
      s'.draft.text = s₁.draft.text ∧ s'.draft.timeline = s₁.draft.timeline ∧
      s'.texts = s₁.texts ∧ s'.data = withTables s₁.data (methodTables program) := by
  obtain ⟨_, s₂, emitted, run⟩ := Success.bind_ok.mp run
  obtain ⟨_, s₀, entered, run⟩ := Success.bind_ok.mp run
  obtain ⟨_, s₁, generated, run⟩ := Success.bind_ok.mp run
  obtain rfl := Success.modify_ok.mp run
  obtain ⟨sections, chain, functions⟩ :=
    functions_chain options.inlineDepth.toNat generated
  refine ⟨s₀, s₁, sections, ?_, chain, functions, rfl, rfl, rfl, rfl⟩
  exact (Success.bind_of_ok emitted).trans entered

/-- A compilation that comes to code generates the whole program. -/
theorem generate_ok {code : Program} (run : (generate options program).program? = some code) :
    ∃ s, wholeProgram (.of program options.normalize) .initial = .ok () s ∧
      code.text = s.draft.text ∧ code.timeline = s.draft.timeline ∧ code.data = s.data := by
  unfold generate at run
  split at run
  · rename_i u s ran
    cases run
    exact ⟨s, ran, rfl, rfl, rfl⟩
  · cases run

end Lower

end X64Backend
