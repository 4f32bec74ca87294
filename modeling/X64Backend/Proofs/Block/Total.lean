import X64Backend.Proofs.Block.Statements

/-!
Reading a whole block.  After a malformed statement reading goes on behind it, so the loop over the
statements takes words in every round and stops at the closing brace or at the end of the text.
What it found can be replayed statement by statement.
-/

namespace X64Backend.Block

namespace Parser

/-- Sound statements, each with operands that are grounded in the declarations in force there. -/
inductive Replays : List Alloc → List Statement → Prop where
  | nil {live : List Alloc} : Replays live []
  | cons {live : List Alloc} {statement : Statement} {rest : List Statement} :
      (∀ term ∈ statement.terms, Grounded live term) →
      (∀ instruction, statement = .instr instruction → instruction.Sound) →
      Replays (statement.liveAfter live) rest → Replays live (statement :: rest)

/-- The names of the declarations in force were declared by some statements and not given back. -/
def Declared (before : List Statement) (live : List Alloc) : Prop :=
  ∀ declaration ∈ live, InForce before declaration.name

theorem Declared.liveAfter {before : List Statement} {live : List Alloc}
    (declared : Declared before live) (statement : Statement) :
    Declared (before ++ [statement]) (statement.liveAfter live) := by
  intro declaration member
  cases statement with
  | alloc given =>
      rcases List.mem_cons.mp member with rfl | member
      · exact .of_alloc before declaration
      · exact (declared declaration member).append nofun
  | free pos name implicit =>
      obtain ⟨member, other⟩ := List.mem_filter.mp member
      refine (declared declaration member).append fun pos' implicit' same => ?_
      cases same
      exact absurd rfl (of_decide_eq_true other)
  | instr instruction => exact (declared declaration member).append nofun
  | value pos operand => exact (declared declaration member).append nofun

namespace Replays

variable {live : List Alloc} {statements : List Statement}

/-- Statements that use no names may stand at the end. -/
theorem append {last : List Statement} (replays : Replays live statements)
    (later : ∀ live, Replays live last) : Replays live (statements ++ last) := by
  induction replays with
  | nil => exact later _
  | cons grounded sound _ inductionHypothesis => exact .cons grounded sound inductionHypothesis

theorem frees (live declarations : List Alloc) : Replays live (declarations.map fun declaration =>
    .free declaration.pos declaration.name true) := by
  induction declarations generalizing live with
  | nil => exact .nil
  | cons declaration rest inductionHypothesis =>
      exact .cons (List.forall_mem_nil _) nofun (inductionHypothesis _)

theorem sound (replays : Replays live statements) :
    ∀ instruction, .instr instruction ∈ statements → instruction.Sound := by
  induction replays with
  | nil => exact fun _ member => absurd member List.not_mem_nil
  | cons _ sound _ inductionHypothesis =>
      intro instruction member
      rcases List.mem_cons.mp member with same | member
      · exact sound instruction same.symm
      · exact inductionHypothesis instruction member

theorem grounded (replays : Replays live statements) :
    ∀ statement ∈ statements, ∀ term ∈ statement.terms, ∃ live, Grounded live term := by
  induction replays with
  | nil => exact List.forall_mem_nil _
  | @cons live _ _ grounded _ _ inductionHypothesis =>
      intro statement member
      rcases List.mem_cons.mp member with rfl | member
      · exact fun term member => ⟨live, grounded term member⟩
      · exact inductionHypothesis statement member

/-- A named register is in force where it is used. -/
theorem named {before middle after : List Statement} {statement : Statement}
    (replays : Replays live (middle ++ statement :: after)) (declared : Declared before live)
    {term : Term} (member : term ∈ statement.terms) {ref : RegRef}
    (register : term.register? = some ref) (named : ref.named = true) :
    InForce (before ++ middle) ref.name := by
  induction middle generalizing live before with
  | nil =>
      cases replays with
      | cons grounded _ _ =>
          obtain ⟨declaration, member, same⟩ :=
            (grounded term member).named ref register named
          rw [List.append_nil, ← same]
          exact declared declaration member
  | cons first rest inductionHypothesis =>
      cases replays with
      | cons _ _ replays =>
          have force := inductionHypothesis replays (declared.liveAfter first)
          rwa [List.append_assoc] at force

end Replays

variable {reading reading₁ reading' : Reading}

section Resynchronizing

theorem skipStatement_suffix (words : List Token) : skipStatement words <:+ words := by
  induction words with
  | nil => exact List.suffix_refl _
  | cons word rest inductionHypothesis =>
      have behind {tokens : List Token} (suffix : tokens <:+ rest) :
          (if rest.isEmpty then [word] else tokens) <:+ word :: rest := by
        split
        · rename_i none
          exact List.isEmpty_iff.mp none ▸ List.suffix_refl _
        · exact suffix.trans (List.suffix_cons word rest)
      unfold skipStatement
      split
      · exact List.suffix_refl _
      · exact List.suffix_refl _
      · exact behind (List.suffix_refl _)
      · exact behind inductionHypothesis

theorem skipStatement_ne_nil {words : List Token} (some : words ≠ []) :
    skipStatement words ≠ [] := by
  induction words with
  | nil => exact absurd rfl some
  | cons word rest inductionHypothesis =>
      unfold skipStatement
      split
      · exact List.cons_ne_nil _ _
      · exact List.cons_ne_nil _ _
      · split
        · exact List.cons_ne_nil _ _
        · rename_i more
          simpa using more
      · split
        · exact List.cons_ne_nil _ _
        · rename_i more
          exact inductionHypothesis (by simpa using more)

/-- Where a statement starts, at least one word is skipped. -/
theorem length_skipStatement {word : Token} {rest : List Token} (ends : Ends (word :: rest))
    (brace : word.kind ≠ .rightBrace) (eof : word.kind ≠ .eof) :
    (skipStatement (word :: rest)).length < (word :: rest).length := by
  have more : rest.isEmpty = false := by
    cases ends with
    | last isEof => exact absurd isEof eof
    | more _ ends => simpa using ends.ne_nil
  have fewer := (skipStatement_suffix rest).length_le
  unfold skipStatement
  split
  · rename_i isEof
    exact absurd isEof eof
  · rename_i isBrace
    exact absurd isBrace brace
  · simp [more]
  · simp only [more, List.length_cons]
    exact Nat.lt_succ_of_le fewer

theorem reads_synchronize : Reads reading synchronize fun _ reading' =>
    { reading with tokens := skipStatement reading.tokens } = reading' := by
  refine ⟨fun run => ?_, nofun⟩
  cases run
  exact ⟨⟨⟨skipStatement_suffix _, skipStatement_ne_nil, id⟩, rfl⟩, rfl⟩

theorem reads_note (token : Token) (suggestion message : String) :
    Reads reading (note token suggestion message) fun _ reading' =>
      reading'.tokens = reading.tokens := by
  refine ⟨fun run => ?_, nofun⟩
  cases run
  exact ⟨⟨⟨List.suffix_refl _, id, id⟩, rfl⟩, rfl⟩

/-- No further statement starts here. -/
def AtEnd (reading : Reading) : Prop :=
  reading.word.kind = .rightBrace ∨ reading.word.kind = .eof

/-- Where a statement starts, fewer words are left. -/
abbrev Progress (reading : Reading) : Unit → Reading → Prop :=
  fun _ reading' => ¬ AtEnd reading → reading'.tokens.length < reading.tokens.length

theorem length_skipStatement_tokens (ends : Ends reading.tokens) (starts : ¬ AtEnd reading) :
    (skipStatement reading.tokens).length < reading.tokens.length := by
  obtain ⟨brace, eof⟩ := not_or.mp starts
  obtain ⟨tokens⟩ := reading
  cases tokens with
  | nil => cases ends
  | cons word rest => exact length_skipStatement ends brace eof

theorem progress_synchronize (ends : Ends reading.tokens) :
    Reads reading synchronize (Progress reading) := by
  refine reads_synchronize.mono fun _ _ _ same starts => ?_
  obtain rfl := same
  exact length_skipStatement_tokens ends starts

theorem progress_endStatement (ends : Ends reading.tokens) :
    Reads reading endStatement (Progress reading) := by
  refine reads_current.bind fun token reading' _ found => ?_
  obtain ⟨rfl, rfl⟩ := found
  split
  · refine reads_advance.mono fun _ _ _ same starts => ?_
    obtain rfl := same
    exact Reading.length_advanced ends (not_or.mp starts).2
  · refine (reads_note _ _ _).bind fun _ reading₁ onward same => ?_
    refine (progress_synchronize (onward.ends ends)).mono fun _ _ _ progress => ?_
    unfold Progress AtEnd Reading.word at *
    rwa [same] at progress

/-- Reading goes on behind a statement, which took some words or left its first one. -/
theorem shorter_behind (later : reading.Later reading₁) (starts : ¬ AtEnd reading)
    (progress : Progress reading₁ () reading')
    (fewer : reading'.tokens.length ≤ reading₁.tokens.length) :
    reading'.tokens.length < reading.tokens.length := by
  rcases Nat.lt_or_eq_of_le later.length_le with shorter | same
  · omega
  · have same := later.rest.eq_of_length same
    unfold Progress AtEnd Reading.word at *
    rw [same] at progress
    exact progress starts

end Resynchronizing

section Loop

/-- What reading found up to the end of the statements. -/
structure Sequel (reading : Reading) (statements : List Statement) (reading' : Reading) :
    Prop where
  atEnd : AtEnd reading'
  replays : Replays reading.live statements
  returns : statements.countP Statement.returns ≤ 1
  /-- No second value is accepted. -/
  returned : reading.returned = true → statements.countP Statement.returns = 0

/-- Behind a malformed statement, the names in force are the same. -/
theorem Sequel.skip {statements : List Statement} (sequel : Sequel reading₁ statements reading')
    (onward : reading.Onward reading₁) : Sequel reading statements reading' :=
  ⟨sequel.atEnd, onward.live ▸ sequel.replays, sequel.returns,
    sequel.returned ∘ onward.returned⟩

theorem Sequel.cons {statement : Statement} {statements : List Statement}
    (sequel : Sequel reading₁ statements reading') (found : Found reading statement reading₁) :
    Sequel reading (statement :: statements) reading' := by
  refine ⟨sequel.atEnd, .cons found.grounded found.sound (found.live ▸ sequel.replays), ?_, ?_⟩
  · cases returns : statement.returns with
    | true =>
        have none := sequel.returned (found.first returns).2
        simp [returns, none]
    | false => simpa [returns] using sequel.returns
  · intro returned
    have later := sequel.returned (found.returned returned)
    have other : statement.returns ≠ true := fun returns =>
      absurd ((found.first returns).1.symm.trans returned) Bool.false_ne_true
    simp [other, later]

/-- How the loop goes from one reading to the other: it finds statements, and skips malformed
ones. -/
inductive Trace : Reading → List Statement → Reading → Prop where
  | done {reading : Reading} : AtEnd reading → Trace reading [] reading
  | skip {reading reading₁ reading' : Reading} {statements : List Statement} :
      reading.Onward reading₁ → Trace reading₁ statements reading' →
        Trace reading statements reading'
  | found {reading reading₁ reading' : Reading} {statement : Statement}
      {statements : List Statement} : Found reading statement reading₁ →
        Trace reading₁ statements reading' → Trace reading (statement :: statements) reading'

theorem Trace.sequel {statements : List Statement} (trace : Trace reading statements reading') :
    Sequel reading statements reading' := by
  induction trace with
  | done atEnd => exact ⟨atEnd, .nil, Nat.zero_le _, fun _ => rfl⟩
  | skip onward _ inductionHypothesis => exact inductionHypothesis.skip onward
  | found first _ inductionHypothesis => exact inductionHypothesis.cons first

theorem Trace.ends {statements : List Statement} (trace : Trace reading statements reading')
    (ends : Ends reading.tokens) : Ends reading'.tokens := by
  induction trace with
  | done _ => exact ends
  | skip onward _ inductionHypothesis => exact inductionHypothesis (onward.ends ends)
  | found first _ inductionHypothesis => exact inductionHypothesis (first.ends ends)

theorem attempt_cases {α : Type} {reader : Parser α} {result : Option α}
    (run : attempt reader reading = .ok result reading') :
    (∃ a, result = some a ∧ reader reading = .ok a reading') ∨
      result = none ∧ reader reading = .error () reading' := by
  unfold attempt at run
  cases ran : reader reading with
  | ok a reading₁ =>
      rw [ran] at run
      cases run
      exact .inl ⟨a, rfl, rfl⟩
  | error u reading₁ =>
      rw [ran] at run
      cases run
      exact .inr ⟨rfl, rfl⟩

/-- The loop over the statements ends because no further one follows. -/
theorem trace_statements {steps : Nat} {found : List Statement} (ends : Ends reading.tokens)
    (enough : reading.tokens.length ≤ steps)
    (run : statements steps reading = .ok found reading') : Trace reading found reading' := by
  induction steps generalizing reading found reading' with
  | zero =>
      have some := List.length_pos_iff.mpr ends.ne_nil
      omega
  | succ steps inductionHypothesis =>
      obtain ⟨kind, _, ran, run⟩ := Success.bind_ok.mp run
      obtain ⟨-, isKind, rfl⟩ := reads_currentKind.ok ran
      split at run
      · cases run
        exact .done (.inl isKind)
      · cases run
        exact .done (.inr isKind)
      · rename_i brace eof
        rw [← isKind] at brace eof
        have starts : ¬ AtEnd reading := not_or.mpr ⟨brace, eof⟩
        obtain ⟨result, reading₁, tried, run⟩ := Success.bind_ok.mp run
        rcases attempt_cases tried with ⟨statement, rfl, ran⟩ | ⟨rfl, ran⟩
        · have first := (finds_statement ends).ok ran
          obtain ⟨_, reading₂, ended, run⟩ := Success.bind_ok.mp run
          obtain ⟨onward, progress⟩ := (progress_endStatement (first.ends ends)).ok ended
          obtain ⟨rest, reading₃, went, run⟩ := Success.bind_ok.mp run
          cases run
          have shorter := shorter_behind first.toLater starts progress onward.length_le
          have ends₂ := onward.ends (first.ends ends)
          exact .found first (.skip onward (inductionHypothesis ends₂ (by omega) went))
        · have onward := (finds_statement ends).error ran
          obtain ⟨_, reading₂, skipped, run⟩ := Success.bind_ok.mp run
          obtain ⟨onward₂, progress⟩ := (progress_synchronize (onward.ends ends)).ok skipped
          have shorter := shorter_behind onward.toLater starts progress onward₂.length_le
          have both := onward.trans onward₂
          exact .skip both (inductionHypothesis (both.ends ends) (by omega) run)

theorem statements_ok (steps : Nat) (reading : Reading) :
    ∃ found reading', statements steps reading = .ok found reading' := by
  obtain ⟨found, after, raised, ran⟩ := collects_statements steps reading
  exact ⟨found, _, ran reading.collector reading.failed⟩

end Loop

section Blocks

theorem sound_of_replays {name : String} {found : List Statement} {decls : List Alloc}
    (replays : Replays [] found) (returns : found.countP Statement.returns ≤ 1) :
    Sound ⟨name, found, decls⟩ where
  instructions := replays.sound
  valued statement member term used :=
    have ⟨_, grounded⟩ := replays.grounded statement member term used
    grounded.valued
  based statement member term used :=
    have ⟨_, grounded⟩ := replays.grounded statement member term used
    grounded.based
  returns := returns
  named before statement after same term used ref register named := by
    dsimp only at same
    subst same
    have declared : Declared [] [] := List.forall_mem_nil _
    exact replays.named declared used register named

/-- Giving names back at the end returns no value. -/
theorem returns_frees (declarations : List Alloc) :
    (declarations.map fun declaration =>
      Statement.free declaration.pos declaration.name true).countP Statement.returns = 0 := by
  simp [List.countP_map, Function.comp_def, Statement.returns]

/-- What is given back at the end of a block: every name that never was, in the order of
declaration. -/
def implicitFrees (names : Names) : List Statement :=
  (names.decls.reverse.filter fun declaration => !names.freed.contains declaration.name).map
    fun declaration => .free declaration.pos declaration.name true

/-- A block that opens has the statements that were found, and gives back the names that are
left. -/
theorem block_ok {found : Block} (ends : Ends reading.tokens)
    (run : block reading = .ok found reading') :
    found = ⟨reading.name, [], []⟩ ∨ ∃ opened statements closed,
      reading.Onward opened ∧ Trace opened statements closed ∧ found =
        ⟨reading.name, statements ++ implicitFrees closed.names, closed.decls.reverse⟩ := by
  obtain ⟨_, _, got, run⟩ := Success.bind_ok.mp run
  obtain ⟨rfl, rfl⟩ := Success.get_ok.mp got
  obtain ⟨opened, reading₁, tried, run⟩ := Success.bind_ok.mp run
  rcases attempt_cases tried with ⟨_, rfl, ran⟩ | ⟨rfl, ran⟩
  · have onward := ((reads_expect ends (by decide)).ok ran).1
    obtain ⟨_, _, got, run⟩ := Success.bind_ok.mp run
    obtain ⟨rfl, rfl⟩ := Success.get_ok.mp got
    obtain ⟨statements, reading₂, went, run⟩ := Success.bind_ok.mp run
    have trace := trace_statements (onward.ends ends) (Nat.le_refl _) went
    refine .inr ⟨reading₁, statements, reading₂, onward, trace, ?_⟩
    have ends₂ : Ends reading₂.tokens := trace.ends (onward.ends ends)
    obtain ⟨_, reading₃, tried, run⟩ := Success.bind_ok.mp run
    have onward₃ : reading₂.Onward reading₃ := by
      have reads : Reads reading₂ (expect .rightBrace) (Shorter reading₂) :=
        reads_expect ends₂ (by decide)
      rcases attempt_cases tried with ⟨_, _, ran⟩ | ⟨_, ran⟩
      · exact (reads.ok ran).1
      · exact reads.error ran
    obtain ⟨token, reading₄, read, run⟩ := Success.bind_ok.mp run
    obtain ⟨onward₄, -⟩ := reads_current.ok read
    -- the complaint about further words changes nothing of what was found
    have ended : ∀ (name : String) (reading₅ : Reading), reading₂.Onward reading₅ → (do
        let reading ← get
        let decls := reading.decls.reverse
        let unfreed := decls.filter fun declaration => !reading.freed.contains declaration.name
        let frees := unfreed.map fun declaration =>
          Statement.free declaration.pos declaration.name true
        return ⟨name, statements ++ frees, decls⟩ : Parser Block) reading₅ =
          .ok found reading' → found =
        ⟨name, statements ++ implicitFrees reading₂.names, reading₂.decls.reverse⟩ := by
      intro name reading₅ onward₅ run
      cases run
      change _ = (⟨_, statements ++ implicitFrees _, reading₂.names.decls.reverse⟩ : Block)
      rw [← onward₅.names]
      rfl
    have onward₄ := onward₃.trans onward₄
    split at run
    · obtain ⟨_, reading₅, noted, run⟩ := Success.bind_ok.mp run
      exact ended _ reading₅ (onward₄.trans ((reads_note _ _ _).ok noted).1) run
    · exact ended _ reading₄ onward₄ run
  · cases run
    exact .inl rfl

theorem sound_block {found : Block} (ends : Ends reading.tokens) (fresh : reading.live = [])
    (run : block reading = .ok found reading') : Sound found := by
  rcases block_ok ends run with rfl | ⟨opened, statements, closed, onward, trace, rfl⟩
  · exact sound_of_replays .nil (Nat.zero_le _)
  · have sequel := trace.sequel
    have replays := onward.live.trans fresh ▸ sequel.replays
    refine sound_of_replays (replays.append fun live => .frees live _) ?_
    rw [List.countP_append, implicitFrees, returns_frees]
    exact sequel.returns

end Blocks

/-- With a step for every word that is left, the loops of reading do not run out of steps: each
stops at a word that ends it. -/
structure LoopsStop (reading : Reading) : Prop where
  suffix : ∀ type size found reading',
    Parser.suffix reading.tokens.length type size reading = .ok found reading' →
      reading'.word.kind ≠ .colon
  operands : ∀ mnemonic spec terms found reading',
    Parser.operands mnemonic spec reading.tokens.length terms reading = .ok found reading' →
      Closing reading'.word.kind
  statements : ∃ found reading',
    Parser.statements reading.tokens.length reading = .ok found reading' ∧ AtEnd reading'

theorem loopsStop (ends : Ends reading.tokens) : LoopsStop reading := by
  have enough := Nat.le_refl reading.tokens.length
  refine ⟨fun _ _ _ _ run => ((reads_suffix ends enough).ok run).2,
    fun _ _ _ _ _ run => ((reads_operands ends enough).ok run).2.2, ?_⟩
  obtain ⟨found, reading', run⟩ := statements_ok reading.tokens.length reading
  exact ⟨found, reading', run, (trace_statements ends enough run).sequel.atEnd⟩

end Parser

/-- What is read can be replayed, whatever was reported. -/
theorem sound_parseBytes (name : String) (source : List UInt8) (collector : Collector) :
    Sound (parseBytes name source collector).block := by
  unfold parseBytes
  dsimp only
  split
  · rename_i ran
    exact Parser.sound_block (ends_tokensOfBytes source) rfl ran
  · exact Parser.sound_of_replays .nil (Nat.zero_le _)

/-- Reading is total and sound.  The words of every text end, and wherever reading stands among
them its loops stop by themselves.  What is read is a sound block, together with the diagnostics
that were raised on the way; it can be used exactly if there are none. -/
theorem parseBytes_total_sound (name : String) (source : List UInt8) :
    Ends (tokensOfBytes source) ∧
      (∀ reading : Reading, reading.tokens ≠ [] → reading.tokens <:+ tokensOfBytes source →
        Parser.LoopsStop reading) ∧
      ∃ block raised, Sound block ∧ ∀ collector, parseBytes name source collector =
        ⟨block, List.isEmpty raised, raised.foldl Collector.add collector⟩ := by
  have ends := ends_tokensOfBytes source
  refine ⟨ends, fun reading some left => Parser.loopsStop (ends.suffix left some), ?_⟩
  obtain ⟨block, raised, parsed⟩ := parseBytes_eq name source
  have sound := sound_parseBytes name source .empty
  rw [parsed] at sound
  exact ⟨block, raised, sound, parsed⟩

/-- A block that squares a number, in a register of its own. -/
def squareBlock : List UInt8 :=
  Text.bytes "\x7b alloc x : 8; mov x, 7; imul x, x; return x; \x7d"

theorem squareBlock_read :
    Parser.LoopsStop ⟨tokensOfBytes squareBlock, "square", .empty, false, [], [], [], false⟩ ∧
      ∃ block, Sound block ∧ block.statements.length = 5 ∧ ∀ collector,
        parseBytes "square" squareBlock collector = ⟨block, true, collector⟩ := by
  obtain ⟨ends, stop, block, raised, sound, parsed⟩ :=
    parseBytes_total_sound "square" squareBlock
  have read : (parseBytes "square" squareBlock .empty).ok = true ∧
      (parseBytes "square" squareBlock .empty).block.statements.length = 5 := by decide +kernel
  rw [parsed] at read
  obtain ⟨usable, length⟩ := read
  obtain rfl := List.isEmpty_iff.mp usable
  simp only [List.isEmpty_nil, List.foldl_nil] at parsed
  exact ⟨stop _ ends.ne_nil (List.suffix_refl _), block, sound, length, parsed⟩

end X64Backend.Block
