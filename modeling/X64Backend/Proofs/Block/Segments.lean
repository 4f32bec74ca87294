import X64Backend.Proofs.Block.Locality

/-!
Recovery from errors.  What becomes of the words up to a semicolon can be told from these words, from
the names known in front of them and from whether the block already has a value.  A block between
braces is read segment by segment, so a malformed one costs one diagnostic and no other statement.
-/

namespace X64Backend.Block

/-- What is known in front of a statement: the names, and whether the block has a value. -/
structure Known extends Names where
  returned : Bool

namespace Known

/-- Nothing is known at the start of a block. -/
def none : Known := ⟨⟨[], [], []⟩, false⟩

/-- A reading of some words and nothing else, with nothing reported yet. -/
def reading (known : Known) (name : String) (tokens : List Token) : Reading :=
  { tokens, name
    collector := .empty
    failed := false
    decls := known.decls
    live := known.live
    freed := known.freed
    returned := known.returned }

end Known

/-- What is known so far. -/
def Reading.known (reading : Reading) : Known := ⟨reading.names, reading.returned⟩

/-- What becomes of a segment. -/
structure Outcome where
  found : List Statement
  raised : List Diagnostic
  /-- What is known behind it. -/
  known : Known

namespace Segment

/-- What becomes of a segment where it stands by itself. -/
def outcome (segment : Segment) (name : String) (known : Known) : Outcome :=
  match Parser.statements 1 (known.reading name (segment.tokens ++ [Parser.missing])) with
  | .ok found after => ⟨found, after.collector.errors.toList, after.known⟩
  | .error _ after => ⟨[], after.collector.errors.toList, after.known⟩

/-- An outcome is a statement, or a diagnostic that points into the segment, or both if something is
left in front of the semicolon. -/
structure Settled (segment : Segment) (outcome : Outcome) : Prop where
  atMost : outcome.raised.length ≤ 1
  statement : outcome.raised = [] → ∃ statement, outcome.found = [statement]
  few : outcome.found.length ≤ 1
  placed : ∀ diagnostic ∈ outcome.raised, ∃ token ∈ segment.tokens,
    diagnostic.location.line = token.pos.line ∧ diagnostic.location.column = token.pos.column

end Segment

/-- What becomes of some segments, one after the other. -/
def outcomes (name : String) : Known → List Segment → List Outcome
  | _, [] => []
  | known, segment :: rest =>
      segment.outcome name known :: outcomes name (segment.outcome name known).known rest

/-- What is known behind some segments. -/
def knownBehind (name : String) (known : Known) (segments : List Segment) : Known :=
  segments.foldl (fun known segment => (segment.outcome name known).known) known

section Diagnostics

variable {reading : Reading} {token : Token} {suggestion message : String}

theorem sourceLine_empty (line : Int) : Collector.empty.sourceLine line = "" := by
  unfold Collector.sourceLine
  split
  · rfl
  · cases (line - 1).toNat with
    | zero => rfl
    | succ index => rfl

/-- A diagnostic about a block without a text is collected as it is. -/
theorem errors_add_diagnosis :
    (Collector.empty.add (reading.diagnosis token suggestion message)).errors.toList =
      [reading.diagnosis token suggestion message] := by
  unfold Collector.add
  rw [sourceLine_empty]
  rfl

end Diagnostics

namespace Parser

variable {segment : Segment} {reading : Reading} {rest : List Token} {collector : Collector}
  {failed : Bool} {steps : Nat}

/-- Behind a segment the words go on after its semicolon. -/
theorem skipStatement_front {front : List Token} (inside : front <:+ segment.words)
    (some : rest ≠ []) : skipStatement (front ++ segment.stop :: rest) = rest := by
  induction front with
  | nil =>
    unfold skipStatement
    simp [Segment.stop, some]
  | cons token front' inductionHypothesis =>
    obtain ⟨semicolon, brace, eof⟩ := segment.plain token (inside.subset List.mem_cons_self)
    have later := inductionHypothesis ((List.suffix_cons token front').trans inside)
    rw [List.cons_append]
    unfold skipStatement
    split
    · contradiction
    · contradiction
    · contradiction
    · simp [later]

/-- In front of a segment the loop over the statements goes on. -/
theorem statements_within : statements (steps + 1)
      (reading.within segment segment.words rest collector failed) = (do
    match ← attempt statement with
    | none =>
        synchronize
        statements steps
    | some found =>
        endStatement
        return found :: (← statements steps))
      (reading.within segment segment.words rest collector failed) := by
  have starts : (segment.word segment.words).kind ≠ .rightBrace ∧
      (segment.word segment.words).kind ≠ .eof := by
    rcases List.mem_append.mp (segment.word_mem (List.suffix_refl _)) with inside | stop
    · exact (segment.plain _ inside).2
    · rw [List.mem_singleton.mp stop]
      exact ⟨by simp [Segment.stop], by simp [Segment.stop]⟩
  have kind : currentKind (reading.within segment segment.words rest collector failed) =
      .ok (segment.word segment.words).kind
        (reading.within segment segment.words rest collector failed) := by
    cases h : segment.words with
    | nil => rfl
    | cons token front => rfl
  rw [statements]
  apply (Success.bind_of_ok kind).trans
  cases here : (segment.word segment.words).kind with
  | rightBrace => exact absurd here starts.1
  | eof => exact absurd here starts.2
  | _ => rfl

section Ends

variable {front : List Token} (some : rest ≠ [])
include some

theorem synchronize_front (inside : front <:+ segment.words) :
    synchronize (reading.within segment front rest collector failed) =
      .ok () ((reading.facing rest).noting collector failed) := by
  unfold synchronize
  rw [Success.modify_eq]
  apply congrArg (EStateM.Result.ok ())
  exact congrArg (fun tokens => (reading.facing tokens).noting collector failed)
    (skipStatement_front inside some)

theorem endStatement_stop : endStatement (reading.within segment [] rest collector failed) =
    .ok () ((reading.facing rest).noting collector failed) := by
  obtain ⟨second, more, rfl⟩ := List.exists_cons_of_ne_nil some
  rfl

theorem endStatement_front {token : Token} (inside : token :: front <:+ segment.words) :
    endStatement (reading.within segment (token :: front) rest collector failed) =
      .ok () ((reading.facing rest).noting (collector.add (reading.diagnosis token ""
        ("expected ';' after statement, got " ++ token.shown))) true) := by
  have plain := segment.plain token (inside.subset List.mem_cons_self)
  have looked : current (reading.within segment (token :: front) rest collector failed) =
      .ok token (reading.within segment (token :: front) rest collector failed) := rfl
  unfold endStatement
  rw [Success.bind_of_ok looked, if_neg plain.1]
  exact synchronize_front some inside

end Ends

/-- What a round of the loop makes of a segment, and where it leaves the rest. -/
structure Round (segment : Segment) (reading : Reading) (found : List Statement)
    (raised : List Diagnostic) (after : Reading) : Prop where
  named : after.name = reading.name
  placed : raised = [] ∨ ∃ token ∈ segment.tokens, ∃ suggestion message,
    raised = [reading.diagnosis token suggestion message]
  statement : raised = [] → ∃ statement, found = [statement]
  few : found.length ≤ 1
  ran : ∀ {steps rest collector failed more last}, rest ≠ [] →
    statements steps ((after.facing rest).noting (raised.foldl Collector.add collector)
      (failed || !raised.isEmpty)) = .ok more last →
    statements (steps + 1) (reading.within segment segment.words rest collector failed) =
      .ok (found ++ more) last

/-- Every round gets behind its segment. -/
theorem exists_round (segment : Segment) (reading : Reading) :
    ∃ found raised after, Round segment reading found raised after := by
  have settles : Settles segment segment.words reading fun _ => statement :=
    local_statement (List.suffix_refl _)
  cases settles with
  | found statement front after behind named ran =>
    have tried : ∀ rest collector failed, rest ≠ [] → attempt Parser.statement
        (reading.within segment segment.words rest collector failed) =
          .ok (some statement) (after.within segment front rest collector failed) := by
      intro rest collector failed some
      rw [attempt, ran rest collector failed some]
    cases front with
    | nil =>
      refine ⟨[statement], [], after, named, .inl rfl, fun _ => ⟨statement, rfl⟩, Nat.le_refl _, ?_⟩
      intro steps rest collector failed more last some later
      rw [List.isEmpty_nil, Bool.not_true, Bool.or_false, List.foldl_nil] at later
      rw [statements_within, Success.bind_of_ok (tried rest collector failed some)]
      dsimp only
      rw [Success.bind_of_ok (endStatement_stop some), Success.bind_of_ok later]
      rfl
    | cons token front' =>
      refine ⟨[statement], [reading.diagnosis token ""
        ("expected ';' after statement, got " ++ token.shown)], after, named, .inr ?_,
        fun none => absurd none (List.cons_ne_nil _ _), Nat.le_refl _, ?_⟩
      · exact ⟨token, List.mem_append_left _ (behind.subset List.mem_cons_self), _, _, rfl⟩
      · intro steps rest collector failed more last some later
        rw [← Reading.diagnosis_congr named, List.isEmpty_cons, Bool.not_false, Bool.or_true,
          List.foldl_cons, List.foldl_nil] at later
        rw [statements_within, Success.bind_of_ok (tried rest collector failed some)]
        dsimp only
        rw [Success.bind_of_ok (endStatement_front some behind), Success.bind_of_ok later]
        rfl
  | refused token suggestion message front after member behind named ran =>
    refine ⟨[], [reading.diagnosis token suggestion message], after, named,
      .inr ⟨token, member, suggestion, message, rfl⟩,
      fun none => absurd none (List.cons_ne_nil _ _), Nat.zero_le _, ?_⟩
    intro steps rest collector failed more last some later
    have tried : attempt Parser.statement
        (reading.within segment segment.words rest collector failed) =
          .ok none (after.within segment front rest
            (collector.add (reading.diagnosis token suggestion message)) true) := by
      rw [attempt, ran rest collector failed some]
    rw [List.isEmpty_cons, Bool.not_false, Bool.or_true] at later
    rw [statements_within, Success.bind_of_ok tried]
    dsimp only
    rw [Success.bind_of_ok (synchronize_front some behind)]
    exact later

namespace Round

variable {found : List Statement} {raised : List Diagnostic} {after : Reading}

theorem collected (round : Round segment reading found raised after) :
    (raised.foldl Collector.add Collector.empty).errors.toList = raised := by
  obtain rfl | ⟨token, -, suggestion, message, rfl⟩ := round.placed
  · rfl
  · exact errors_add_diagnosis

/-- What a round makes of a segment is the outcome of the segment by itself. -/
theorem outcome_eq (round : Round segment reading found raised after) :
    segment.outcome reading.name reading.known = ⟨found, raised, after.known⟩ := by
  have alone : reading.known.reading reading.name (segment.tokens ++ [missing]) =
      reading.within segment segment.words [missing] .empty false := by
    unfold Segment.tokens
    rw [List.append_assoc]
    rfl
  have ran : statements 1 (reading.within segment segment.words [missing] .empty false) =
      .ok (found ++ []) ((after.facing [missing]).noting (raised.foldl Collector.add .empty)
        (false || !raised.isEmpty)) :=
    round.ran (List.cons_ne_nil _ _) rfl
  unfold Segment.outcome
  rw [alone, ran]
  dsimp only [Reading.noting]
  rw [round.collected, List.append_nil]
  rfl

theorem settled (round : Round segment reading found raised after) :
    segment.Settled ⟨found, raised, after.known⟩ := by
  obtain rfl | ⟨token, member, suggestion, message, rfl⟩ := round.placed
  · exact ⟨Nat.zero_le _, round.statement, round.few, List.forall_mem_nil _⟩
  · refine ⟨Nat.le_refl _, fun none => absurd none (List.cons_ne_nil _ _), round.few, ?_⟩
    intro diagnostic here
    rw [List.mem_singleton.mp here]
    exact ⟨token, member, rfl, rfl⟩

end Round

theorem statements_closing {closing : Token} (closes : closing.kind = .rightBrace) :
    statements steps ((reading.facing (closing :: rest)).noting collector failed) =
      .ok [] ((reading.facing (closing :: rest)).noting collector failed) := by
  cases steps with
  | zero => rfl
  | succ steps =>
    have kind : currentKind ((reading.facing (closing :: rest)).noting collector failed) =
        .ok .rightBrace ((reading.facing (closing :: rest)).noting collector failed) :=
      congrArg (EStateM.Result.ok · _) closes
    rw [statements, Success.bind_of_ok kind]
    rfl

/-- The loop over the statements goes from segment to segment, and each has the outcome that it has
by itself. -/
theorem statements_segments {segments : List Segment} {closing : Token}
    (closes : closing.kind = .rightBrace) (enough : segments.length ≤ steps) :
    ∃ after : Reading, after.name = reading.name ∧
      after.known = knownBehind reading.name reading.known segments ∧
      statements steps ((reading.facing (segments.flatMap Segment.tokens ++ closing :: rest)).noting
        collector failed) =
      .ok ((outcomes reading.name reading.known segments).flatMap Outcome.found)
        ((after.facing (closing :: rest)).noting
          (((outcomes reading.name reading.known segments).flatMap Outcome.raised).foldl
            Collector.add collector)
          (failed || !((outcomes reading.name reading.known segments).flatMap
            Outcome.raised).isEmpty)) := by
  induction segments generalizing reading collector failed steps with
  | nil =>
    refine ⟨reading, rfl, rfl, ?_⟩
    rw [outcomes, List.flatMap_nil, List.flatMap_nil, List.flatMap_nil, List.isEmpty_nil,
      Bool.not_true, Bool.or_false]
    exact statements_closing closes
  | cons segment segments inductionHypothesis =>
    obtain ⟨fewer, rfl⟩ := Nat.exists_eq_add_of_le' (Nat.lt_of_lt_of_le (Nat.succ_pos _) enough)
    obtain ⟨found, raised, after, round⟩ := exists_round segment reading
    have behind : segments.flatMap Segment.tokens ++ closing :: rest ≠ [] :=
      List.append_ne_nil_of_right_ne_nil _ (List.cons_ne_nil _ _)
    obtain ⟨last, named, known, later⟩ := @inductionHypothesis after
      (raised.foldl Collector.add collector) (failed || !raised.isEmpty) fewer
      (Nat.le_of_succ_le_succ enough)
    have whole := round.ran behind later
    rw [round.named] at named known whole
    refine ⟨last, named, ?_, ?_⟩
    · rw [known, knownBehind, knownBehind, List.foldl_cons, round.outcome_eq]
    · have either : ∀ others : List Diagnostic,
          (failed || !(raised ++ others).isEmpty) =
            (failed || !raised.isEmpty || !others.isEmpty) := by
        intro others
        rw [Bool.or_assoc]
        cases raised <;> rfl
      rw [outcomes, round.outcome_eq]
      simp only [List.flatMap_cons, List.foldl_append, either]
      refine Eq.trans ?_ whole
      unfold Segment.tokens
      simp only [List.append_assoc]
      rfl

theorem attempt_expect {token : Token} {kind : TokenKind} (known : token.kind = kind)
    (behind : rest ≠ []) :
    attempt (expect kind) ((reading.facing (token :: rest)).noting collector failed) =
      .ok (some ()) ((reading.facing rest).noting collector failed) := by
  obtain ⟨second, more, rfl⟩ := List.exists_cons_of_ne_nil behind
  have looked : current ((reading.facing (token :: second :: more)).noting collector failed) =
      .ok token ((reading.facing (token :: second :: more)).noting collector failed) := rfl
  unfold attempt expect
  rw [Success.bind_of_ok looked, if_pos known]
  rfl

theorem length_le_flatMap_tokens (segments : List Segment) :
    segments.length ≤ (segments.flatMap Segment.tokens).length := by
  induction segments with
  | nil => exact Nat.le_refl 0
  | cons segment segments inductionHypothesis =>
    simp only [List.flatMap_cons, List.length_append, List.length_cons, Segment.tokens]
    omega

/-- A block of segments between braces. -/
theorem block_segments {segments : List Segment} {opening closing ending : Token}
    (opens : opening.kind = .leftBrace) (closes : closing.kind = .rightBrace)
    (stops : ending.kind = .eof) :
    ∃ after : Reading, block ((reading.facing
        (opening :: (segments.flatMap Segment.tokens ++ [closing, ending]))).noting
        collector failed) =
      .ok ⟨reading.name, (outcomes reading.name reading.known segments).flatMap Outcome.found ++
          implicitFrees (knownBehind reading.name reading.known segments).toNames,
          (knownBehind reading.name reading.known segments).decls.reverse⟩
        (after.noting
          (((outcomes reading.name reading.known segments).flatMap Outcome.raised).foldl
            Collector.add collector)
          (failed || !((outcomes reading.name reading.known segments).flatMap
            Outcome.raised).isEmpty)) := by
  have behind : segments.flatMap Segment.tokens ++ [closing, ending] ≠ [] :=
    List.append_ne_nil_of_right_ne_nil _ (List.cons_ne_nil _ _)
  have enough : segments.length ≤ (segments.flatMap Segment.tokens ++ [closing, ending]).length := by
    rw [List.length_append]
    exact Nat.le_add_right_of_le (length_le_flatMap_tokens segments)
  obtain ⟨after, named, known, ran⟩ := @statements_segments reading [ending] collector failed
    (segments.flatMap Segment.tokens ++ [closing, ending]).length segments closing closes enough
  refine ⟨after.facing [ending], ?_⟩
  unfold block
  rw [Success.bind_of_ok (Success.get_ok.mpr ⟨rfl, rfl⟩),
    Success.bind_of_ok (attempt_expect opens behind)]
  dsimp only
  rw [Success.bind_of_ok (Success.get_ok.mpr ⟨rfl, rfl⟩)]
  apply (Success.bind_of_ok ran).trans
  rw [Success.bind_of_ok (attempt_expect closes (List.cons_ne_nil _ _))]
  have looked : ∀ collector failed, current ((after.facing [ending]).noting collector failed) =
      .ok ending ((after.facing [ending]).noting collector failed) := fun _ _ => rfl
  rw [Success.bind_of_ok (looked _ _), if_neg (not_not.mpr stops),
    Success.bind_of_ok (Success.get_ok.mpr ⟨rfl, rfl⟩), ← known]
  rfl

end Parser

theorem settled_outcomes (name : String) (known : Known) (segments : List Segment) :
    List.Forall₂ Segment.Settled segments (outcomes name known segments) := by
  induction segments generalizing known with
  | nil => exact .nil
  | cons segment segments inductionHypothesis =>
    refine .cons ?_ (inductionHypothesis _)
    obtain ⟨found, raised, after, round⟩ := Parser.exists_round segment (known.reading name [])
    have outcome : segment.outcome name known = ⟨found, raised, after.known⟩ := round.outcome_eq
    rw [outcome]
    exact round.settled

variable {source : List UInt8} {segments : List Segment} {opening closing ending : Token}

/-- A text of segments between braces is read segment by segment.  What is found, what is reported
and what is known behind it are those of the segments, each by itself and in front of what the ones
before have left.  One that costs no diagnostic is one statement, and none costs more than one. -/
theorem parseBytes_segments (name : String) (collector : Collector)
    (text : tokensOfBytes source =
      opening :: (segments.flatMap Segment.tokens ++ [closing, ending]))
    (opens : opening.kind = .leftBrace) (closes : closing.kind = .rightBrace) :
    List.Forall₂ Segment.Settled segments (outcomes name .none segments) ∧
      parseBytes name source collector =
        { block :=
            { name
              statements := (outcomes name .none segments).flatMap Outcome.found ++
                Parser.implicitFrees (knownBehind name .none segments).toNames
              decls := (knownBehind name .none segments).decls.reverse }
          ok := ((outcomes name .none segments).flatMap Outcome.raised).isEmpty
          collector := ((outcomes name .none segments).flatMap Outcome.raised).foldl Collector.add
            collector } := by
  refine ⟨settled_outcomes name .none segments, ?_⟩
  have stops : ending.kind = .eof := by
    have ends := ends_tokensOfBytes source
    rw [text] at ends
    have last : [ending] <:+ opening :: (segments.flatMap Segment.tokens ++ [closing, ending]) :=
      ⟨opening :: (segments.flatMap Segment.tokens ++ [closing]), by simp⟩
    cases ends.suffix last (List.cons_ne_nil _ _) with
    | last eof => exact eof
    | more _ none => cases none
  obtain ⟨after, ran⟩ := @Parser.block_segments (Known.none.reading name []) collector false segments
    opening closing ending opens closes stops
  have start : Parser.block
      { tokens := tokensOfBytes source, name, collector, failed := false, decls := [], live := []
        freed := [], returned := false } = _ :=
    (congrArg (fun tokens => Parser.block
      (((Known.none.reading name []).facing tokens).noting collector false)) text).trans ran
  unfold parseBytes
  dsimp only
  rw [start]
  dsimp only [Reading.noting]
  rw [Bool.false_or, Bool.not_not]
  rfl

/-- A malformed statement costs its own diagnostic only; the statement behind it is found. -/
theorem malformed_segment :
    let source := Text.bytes "\x7b frob; nop; \x7d"
    let malformed : Segment := ⟨[⟨.ident, "frob", ⟨1, 3⟩⟩], ⟨1, 7⟩, by decide⟩
    let segment : Segment := ⟨[⟨.ident, "nop", ⟨1, 9⟩⟩], ⟨1, 12⟩, by decide⟩
    let opening : Token := ⟨.leftBrace, "\x7b", ⟨1, 1⟩⟩
    let closing : Token := ⟨.rightBrace, "\x7d", ⟨1, 14⟩⟩
    tokensOfBytes source = opening ::
        ([malformed, segment].flatMap Segment.tokens ++ [closing, ⟨.eof, "", ⟨1, 15⟩⟩]) ∧
      opening.kind = .leftBrace ∧ closing.kind = .rightBrace ∧
      List.Forall₂ Segment.Settled [malformed, segment]
        (outcomes "test" .none [malformed, segment]) ∧
      (parseBytes "test" source .empty).ok = false ∧
      (parseBytes "test" source .empty).block.statements = (segment.outcome "test" .none).found ∧
      (parseBytes "test" source .empty).collector.errors.size = 1 := by
  intro source malformed segment opening closing
  have text : tokensOfBytes source = opening ::
      ([malformed, segment].flatMap Segment.tokens ++ [closing, ⟨.eof, "", ⟨1, 15⟩⟩]) := by
    decide +kernel
  obtain ⟨settled, parsed⟩ := parseBytes_segments "test" .empty text rfl rfl
  refine ⟨text, rfl, rfl, settled, ?_⟩
  rw [parsed]
  decide +kernel

deriving instance DecidableEq for Names

/-- The names alone do not tell the outcome of a segment: behind a statement that gives the block a
value no other one may, though no name has changed. -/
theorem second_value_refused :
    let plain : Segment := ⟨[⟨.ident, "nop", ⟨1, 3⟩⟩], ⟨1, 11⟩, by decide⟩
    let first : Segment :=
      ⟨[⟨.ident, "return", ⟨1, 3⟩⟩, ⟨.number, "1", ⟨1, 10⟩⟩], ⟨1, 11⟩, by decide⟩
    let segment : Segment :=
      ⟨[⟨.ident, "return", ⟨1, 13⟩⟩, ⟨.number, "1", ⟨1, 20⟩⟩], ⟨1, 21⟩, by decide⟩
    let opening : Token := ⟨.leftBrace, "\x7b", ⟨1, 1⟩⟩
    let closing : List Token := [⟨.rightBrace, "\x7d", ⟨1, 23⟩⟩, ⟨.eof, "", ⟨1, 24⟩⟩]
    tokensOfBytes (Text.bytes "\x7b nop     ; return 1; \x7d") =
        opening :: ([plain, segment].flatMap Segment.tokens ++ closing) ∧
      tokensOfBytes (Text.bytes "\x7b return 1; return 1; \x7d") =
        opening :: ([first, segment].flatMap Segment.tokens ++ closing) ∧
      (plain.outcome "test" .none).known.toNames = (first.outcome "test" .none).known.toNames ∧
      (segment.outcome "test" (plain.outcome "test" .none).known).found =
        [.value ⟨1, 13⟩ (.lit ⟨1, 20⟩ ⟨.int, "1"⟩)] ∧
      (segment.outcome "test" (first.outcome "test" .none).known).found = [] ∧
      (segment.outcome "test" (first.outcome "test" .none).known).raised.map Diagnostic.message =
        ["block already returns a value"] := by
  decide +kernel

end X64Backend.Block
