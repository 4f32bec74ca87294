import X64Backend.Block.Parser
import X64Backend.Proofs.Success

/-!
What reading reports.  Every reader of a part of a statement either succeeds and reports nothing, or
reports exactly one diagnostic and gives up; a whole block collects these.  None of this depends on
what was reported before.
-/

namespace X64Backend.Block

/-- The same place in the text, with other diagnostics. -/
def Reading.noting (reading : Reading) (collector : Collector) (failed : Bool) : Reading :=
  { reading with collector, failed }

/-- Without the current word, unless that is the end. -/
def Reading.advanced (reading : Reading) : Reading :=
  { reading with
    tokens := match reading.tokens with
      | _ :: second :: rest => second :: rest
      | tokens => tokens }

theorem Parser.advance_eq (reading : Reading) :
    Parser.advance reading = .ok () reading.advanced := by
  unfold advance Reading.advanced
  rw [Success.modify_eq]
  cases reading with
  | mk tokens =>
      match tokens with
      | [] => rfl
      | [_] => rfl
      | _ :: _ :: _ => rfl

/-- The diagnostic that reports a word. -/
def Reading.diagnosis (reading : Reading) (token : Token) (suggestion message : String) :
    Diagnostic :=
  { Diagnostic.ofGrammar message
      { file := reading.name
        line := token.pos.line
        column := token.pos.column
        length := (max (Text.byteLength token.text) 1 : Nat) } with suggestion }

namespace Parser

variable {α β : Type}

/-- A reader that succeeds and reports nothing, or reports one diagnostic and gives up. -/
def Careful (reader : Parser α) : Prop :=
  ∀ reading : Reading,
    (∃ a after, ∀ collector failed,
      reader (reading.noting collector failed) = .ok a (Reading.noting after collector failed)) ∨
    ∃ diagnostic after, ∀ collector failed,
      reader (reading.noting collector failed) =
        .error () (Reading.noting after (collector.add diagnostic) true)

namespace Careful

theorem pure (a : α) : Careful (Pure.pure a) :=
  fun reading => .inl ⟨a, reading, fun _ _ => rfl⟩

theorem bind {reader : Parser α} {next : α → Parser β} (first : Careful reader)
    (later : ∀ a, Careful (next a)) : Careful (reader >>= next) := by
  intro reading
  rcases first reading with ⟨a, after, ran⟩ | ⟨diagnostic, after, ran⟩
  · have went : ∀ collector failed, (reader >>= next) (reading.noting collector failed) =
        next a (after.noting collector failed) :=
      fun collector failed => Success.bind_of_ok (ran collector failed)
    rcases later a after with ⟨b, after', ran'⟩ | ⟨diagnostic, after', ran'⟩
    · exact .inl ⟨b, after', fun collector failed => (went ..).trans (ran' collector failed)⟩
    · exact .inr ⟨diagnostic, after', fun collector failed =>
        (went ..).trans (ran' collector failed)⟩
  · exact .inr ⟨diagnostic, after, fun collector failed =>
      Success.bind_of_error (ran collector failed)⟩

theorem map {reader : Parser α} {f : α → β} (careful : Careful reader) :
    Careful (f <$> reader) := by
  rw [map_eq_pure_bind]
  exact careful.bind fun a => pure (f a)

theorem ite {c : Prop} [Decidable c] {first second : Parser α} (ofFirst : Careful first)
    (ofSecond : Careful second) : Careful (if c then first else second) := by
  split
  · exact ofFirst
  · exact ofSecond

/-- A change that neither looks at the diagnostics nor changes them. -/
theorem modify {change : Reading → Reading}
    (blind : ∀ reading collector failed,
      change (reading.noting collector failed) = (change reading).noting collector failed) :
    Careful (modify change) :=
  fun reading => .inl ⟨(), change reading, fun collector failed =>
    congrArg (EStateM.Result.ok ()) (blind reading collector failed)⟩

/-- A computation that goes on with the state, but not with the diagnostics in it. -/
theorem get_bind {next : Reading → Parser α}
    (blind : ∀ reading collector failed, next (reading.noting collector failed) = next reading)
    (later : ∀ reading, Careful (next reading)) : Careful (get >>= next) := by
  intro reading
  have went : ∀ collector failed, (get >>= next) (reading.noting collector failed) =
      next reading (reading.noting collector failed) :=
    fun collector failed => congrFun (blind reading collector failed) _
  rcases later reading reading with ⟨a, after, ran⟩ | ⟨diagnostic, after, ran⟩
  · exact .inl ⟨a, after, fun collector failed => (went ..).trans (ran collector failed)⟩
  · exact .inr ⟨diagnostic, after, fun collector failed => (went ..).trans (ran collector failed)⟩

end Careful

section Readers

theorem careful_current : Careful current :=
  .get_bind (fun _ _ _ => rfl) fun _ => .pure _

theorem careful_following : Careful following := by
  refine .get_bind (fun _ _ _ => rfl) fun reading => ?_
  split
  · exact .pure _
  · exact .pure _
  · exact .pure _

theorem careful_advance : Careful advance :=
  fun reading => .inl ⟨(), reading.advanced, fun _ _ => advance_eq _⟩

theorem careful_currentKind : Careful currentKind :=
  careful_current.bind fun _ => .pure _

theorem careful_live? (name : String) : Careful (live? name) :=
  .get_bind (fun _ _ _ => rfl) fun _ => .pure _

theorem careful_reject (token : Token) (suggestion message : String) :
    Careful (reject token suggestion message : Parser α) :=
  fun reading => .inr ⟨reading.diagnosis token suggestion message, reading, fun _ _ => rfl⟩

theorem careful_rejectCurrent (message : String) :
    Careful (rejectCurrent message : Parser α) :=
  careful_current.bind fun _ => careful_reject _ _ _

/-- A check in front of the rest. -/
theorem Careful.check {c : Prop} [Decidable c] {refusal : Parser β} {rest : Parser α}
    (ofRefusal : Careful refusal) (ofRest : Careful rest) :
    Careful (if c then refusal >>= fun _ => rest else rest) :=
  .ite (ofRefusal.bind fun _ => ofRest) ofRest

theorem careful_expect (kind : TokenKind) : Careful (expect kind) :=
  careful_current.bind fun _ => .ite careful_advance (careful_reject _ _ _)

theorem careful_suffix (steps : Nat) (type : String) (size : Size) :
    Careful (suffix steps type size) := by
  induction steps generalizing type size with
  | zero => exact .pure _
  | succ steps inductionHypothesis =>
      refine careful_currentKind.bind fun kind => .ite (.pure _) ?_
      refine careful_advance.bind fun _ => careful_current.bind fun token => ?_
      split
      · exact .check (careful_rejectCurrent _) (careful_advance.bind fun _ =>
          inductionHypothesis _ _)
      · dsimp only
        split
        · exact careful_advance.bind fun _ => inductionHypothesis _ _
        · exact careful_rejectCurrent _
      · exact careful_rejectCurrent _

theorem careful_suffixes (type : String) (size : Size) : Careful (suffixes type size) :=
  .get_bind (fun _ _ _ => rfl) fun _ => careful_suffix _ _ _

theorem careful_register (pos : Pos) : Careful (register pos) := by
  refine careful_current.bind fun token => (careful_live? _).bind fun declared => ?_
  have rest : ∀ found : RegRef, Careful (do
      advance
      let given ← suffixes found.type found.size
      return { found with type := given.1, size := given.2 }) := fun found =>
    careful_advance.bind fun _ => (careful_suffixes _ _).bind fun _ => .pure _
  dsimp only
  split
  · exact .bind (.pure _) rest
  · exact .bind (.pure _) rest
  · exact .get_bind (fun _ _ _ => rfl) fun _ => (careful_reject _ _ _).bind rest

theorem careful_varRef (pos : Pos) : Careful (varRef pos) := by
  refine careful_advance.bind fun _ => careful_current.bind fun token => ?_
  exact .check (careful_rejectCurrent _) (careful_advance.bind fun _ => .pure _)

theorem careful_displacement : Careful displacement := by
  refine careful_currentKind.bind fun sign => .ite (.pure _) ?_
  refine careful_advance.bind fun _ => careful_current.bind fun token => ?_
  refine .check (careful_rejectCurrent _) ?_
  split
  · exact careful_advance.bind fun _ => .pure _
  · exact careful_rejectCurrent _

theorem careful_memory (pos : Pos) (size : Size) : Careful (memory pos size) := by
  refine (careful_expect _).bind fun _ => careful_current.bind fun token => ?_
  have rest : ∀ base, Careful (do
      let disp ← displacement
      expect .rightBracket
      return Term.mem pos size base disp) := fun base =>
    careful_displacement.bind fun _ => (careful_expect _).bind fun _ => .pure _
  dsimp only
  split
  · exact (careful_varRef _).map.bind rest
  · exact (careful_register _).map.bind rest
  · exact (careful_rejectCurrent _).bind rest

theorem careful_digits (pos : Pos) (negative : Bool) : Careful (digits pos negative) := by
  refine careful_current.bind fun token => ?_
  dsimp only
  split
  · exact careful_advance.bind fun _ => .pure _
  · exact careful_rejectCurrent _

theorem careful_number (pos : Pos) : Careful (number pos) := by
  refine careful_currentKind.bind fun kind => .ite ?_ (careful_digits _ _)
  exact careful_advance.bind fun _ => careful_current.bind fun token =>
    .check (careful_rejectCurrent _) (careful_digits _ _)

theorem careful_operand : Careful operand := by
  refine careful_current.bind fun token => ?_
  split
  · exact (careful_varRef _).map
  · exact careful_memory _ _
  · exact careful_number _
  · exact careful_number _
  · refine careful_following.bind fun second => ?_
    split
    · exact careful_advance.bind fun _ =>
        .check careful_advance (careful_memory _ _)
    · exact .ite (careful_advance.bind fun _ => .pure _) (careful_register _).map
  · exact careful_rejectCurrent _

theorem careful_allocTail (name : String) (phys : Option Phys) (size : Size) :
    Careful (allocTail name phys size) := by
  refine careful_current.bind fun token => ?_
  split
  · split
    · exact careful_reject _ _ _
    · exact .check (careful_reject _ _ _) (careful_advance.bind fun _ => .pure _)
  · exact (careful_suffixes _ _).bind fun _ => .pure _

theorem careful_alloc (pos : Pos) : Careful (alloc pos) := by
  refine careful_advance.bind fun _ => careful_current.bind fun token => ?_
  refine .check (careful_rejectCurrent _) (careful_advance.bind fun _ => ?_)
  refine (careful_live? _).bind fun declared => .check (careful_reject _ _ _) ?_
  refine .check (careful_reject _ _ _) ((careful_allocTail _ _ _).bind fun tail => ?_)
  refine .check (careful_reject _ _ _) (.check (careful_reject _ _ _) ?_)
  exact (Careful.modify fun _ _ _ => rfl).bind fun _ => .pure _

theorem careful_free (pos : Pos) : Careful (free pos) := by
  refine careful_advance.bind fun _ => careful_current.bind fun token => ?_
  refine .check (careful_rejectCurrent _) (careful_advance.bind fun _ => ?_)
  refine (careful_live? _).bind fun declared => ?_
  have rest : Careful (do
      modify fun reading =>
        { reading with
          live := reading.live.filter fun declaration => declaration.name ≠ token.text
          freed := token.text :: reading.freed }
      return Statement.free pos token.text false) :=
    .bind (.modify fun _ _ _ => rfl) fun _ => .pure _
  dsimp only
  split
  · exact .get_bind (fun _ _ _ => rfl) fun _ => (careful_reject _ _ _).bind fun _ => rest
  · exact rest

theorem careful_check (token : Token) (mnemonic : String) (index : Nat) (position : Position)
    (term : Term) : Careful (check token mnemonic index position term) := by
  unfold check
  dsimp only
  split
  · exact .ite (.pure _) (careful_reject _ _ _)
  · exact .ite (.pure _) (careful_reject _ _ _)

theorem careful_operands (mnemonic : String) (spec : Spec) (steps : Nat) (terms : List Term) :
    Careful (operands mnemonic spec steps terms) := by
  induction steps generalizing terms with
  | zero => exact .pure _
  | succ steps inductionHypothesis =>
      refine careful_currentKind.bind fun kind => ?_
      split
      · exact .pure _
      · exact .pure _
      · exact .pure _
      · refine .check (careful_expect _) (careful_current.bind fun token => ?_)
        refine careful_operand.bind fun term => ?_
        split
        · exact (careful_check _ _ _ _ _).bind fun _ => inductionHypothesis _
        · exact Careful.bind (.pure _) fun _ => inductionHypothesis _

theorem careful_instruction (pos : Pos) (returned : Bool) (spec : Spec) :
    Careful (instruction pos returned spec) := by
  refine careful_current.bind fun token => careful_advance.bind fun _ => ?_
  refine .get_bind (fun _ _ _ => rfl) fun reading => (careful_operands _ _ _ _).bind fun terms => ?_
  exact .check (careful_reject _ _ _) (.check (careful_reject _ _ _)
    (.check (careful_reject _ _ _) (.pure _)))

theorem careful_returnMark : Careful returnMark := by
  refine careful_current.bind fun token => .ite ?_ (.pure _)
  refine careful_advance.bind fun _ => .get_bind (fun _ _ _ => rfl) fun reading => ?_
  exact .check (careful_rejectCurrent _) (.bind (.modify fun _ _ _ => rfl) fun _ => .pure _)

theorem careful_statement : Careful statement := by
  refine careful_current.bind fun first => careful_returnMark.bind fun returned =>
    careful_current.bind fun token => .ite ?_ ?_
  · refine .ite (.check (careful_rejectCurrent _) (.ite (careful_alloc _) (careful_free _))) ?_
    split
    · exact careful_instruction _ _ _
    · exact .ite (careful_operand.bind fun _ => .pure _) (careful_reject _ _ _)
  · exact .ite (careful_operand.bind fun _ => .pure _) (careful_rejectCurrent _)

end Readers

/-- A reader that always succeeds and may report any number of diagnostics. -/
def Collects (reader : Parser α) : Prop :=
  ∀ reading : Reading, ∃ a after raised, ∀ collector failed,
    reader (reading.noting collector failed) =
      .ok a (Reading.noting after (List.foldl Collector.add collector raised)
        (failed || !raised.isEmpty))

namespace Collects

theorem pure (a : α) : Collects (Pure.pure a) :=
  fun reading => ⟨a, reading, [], fun _ failed => congrArg (fun failed =>
    EStateM.Result.ok a (reading.noting _ failed)) (Bool.or_false failed).symm⟩

theorem bind {reader : Parser α} {next : α → Parser β} (first : Collects reader)
    (later : ∀ a, Collects (next a)) : Collects (reader >>= next) := by
  intro reading
  obtain ⟨a, after, raised, ran⟩ := first reading
  obtain ⟨b, after', raised', ran'⟩ := later a after
  refine ⟨b, after', raised ++ raised', fun collector failed => ?_⟩
  rw [Success.bind_of_ok (ran collector failed), ran', List.foldl_append, Bool.or_assoc]
  cases raised <;> rfl

theorem ite {c : Prop} [Decidable c] {first second : Parser α} (ofFirst : Collects first)
    (ofSecond : Collects second) : Collects (if c then first else second) := by
  split
  · exact ofFirst
  · exact ofSecond

/-- A check in front of the rest. -/
theorem check {c : Prop} [Decidable c] {complaint : Parser β} {rest : Parser α}
    (ofComplaint : Collects complaint) (ofRest : Collects rest) :
    Collects (if c then complaint >>= fun _ => rest else rest) :=
  .ite (ofComplaint.bind fun _ => ofRest) ofRest

/-- A computation that goes on with the state, but not with the diagnostics in it. -/
theorem get_bind {next : Reading → Parser α}
    (blind : ∀ reading collector failed, next (reading.noting collector failed) = next reading)
    (later : ∀ reading, Collects (next reading)) : Collects (get >>= next) := by
  intro reading
  obtain ⟨a, after, raised, ran⟩ := later reading reading
  exact ⟨a, after, raised, fun collector failed =>
    (congrFun (blind reading collector failed) _).trans (ran collector failed)⟩

theorem modify {change : Reading → Reading}
    (blind : ∀ reading collector failed,
      change (reading.noting collector failed) = (change reading).noting collector failed) :
    Collects (modify change) :=
  fun reading => ⟨(), change reading, [], fun collector failed => by
    rw [Success.modify_eq, blind, List.isEmpty_nil, Bool.not_true, Bool.or_false, List.foldl_nil]⟩

end Collects

section Statements

theorem collects_current : Collects current :=
  .get_bind (fun _ _ _ => rfl) fun _ => .pure _

theorem collects_currentKind : Collects currentKind :=
  collects_current.bind fun _ => .pure _

theorem collects_note (token : Token) (suggestion message : String) :
    Collects (note token suggestion message) :=
  fun reading => ⟨(), reading, [reading.diagnosis token suggestion message],
    fun _ failed => congrArg (fun failed => EStateM.Result.ok () (reading.noting _ failed))
      (Bool.or_true failed).symm⟩

theorem collects_attempt {reader : Parser α} (careful : Careful reader) :
    Collects (attempt reader) := by
  intro reading
  rcases careful reading with ⟨a, after, ran⟩ | ⟨diagnostic, after, ran⟩
  · refine ⟨some a, after, [], fun collector failed => ?_⟩
    rw [attempt, ran collector failed]
    simp
  · refine ⟨none, after, [diagnostic], fun collector failed => ?_⟩
    rw [attempt, ran collector failed]
    simp

theorem collects_synchronize : Collects synchronize :=
  .modify fun _ _ _ => rfl

theorem collects_advance : Collects advance :=
  fun reading => ⟨(), reading.advanced, [], fun _ failed => (advance_eq _).trans
    (congrArg (fun failed => EStateM.Result.ok () (reading.advanced.noting _ failed))
      (Bool.or_false failed).symm)⟩

theorem collects_endStatement : Collects endStatement :=
  collects_current.bind fun _ =>
    .ite collects_advance ((collects_note _ _ _).bind fun _ => collects_synchronize)

theorem collects_statements (steps : Nat) : Collects (statements steps) := by
  induction steps with
  | zero => exact .pure _
  | succ steps inductionHypothesis =>
      refine collects_currentKind.bind fun kind => ?_
      split
      · exact .pure _
      · exact .pure _
      · refine (collects_attempt careful_statement).bind fun result => ?_
        split
        · exact collects_synchronize.bind fun _ => inductionHypothesis
        · exact collects_endStatement.bind fun _ => inductionHypothesis.bind fun _ => .pure _

theorem collects_block : Collects block := by
  refine .get_bind (fun _ _ _ => rfl) fun reading => ?_
  refine (collects_attempt (careful_expect _)).bind fun opened => ?_
  split
  · exact .pure _
  · refine .get_bind (fun _ _ _ => rfl) fun reading => (collects_statements _).bind fun found => ?_
    refine (collects_attempt (careful_expect _)).bind fun _ => collects_current.bind fun token => ?_
    exact .check (collects_note _ _ _) (.get_bind (fun _ _ _ => rfl) fun _ => .pure _)

end Statements

end Parser

/-- A block is read in the same way whatever was reported before.  It can be used exactly if it
raises no diagnostic of its own. -/
theorem parseBytes_eq (name : String) (source : List UInt8) :
    ∃ block raised, ∀ collector, parseBytes name source collector =
      ⟨block, List.isEmpty raised, raised.foldl Collector.add collector⟩ := by
  obtain ⟨block, after, raised, ran⟩ := Parser.collects_block
    { tokens := tokensOfBytes source
      name
      collector := .empty
      failed := false
      decls := []
      live := []
      freed := []
      returned := false }
  refine ⟨block, raised, fun collector => ?_⟩
  have read := ran collector false
  simp only [Reading.noting, Bool.false_or] at read
  simp only [parseBytes, read, Bool.not_not]

end X64Backend.Block
