import X64Backend.Proofs.Block.Reading

/-!
Reading one statement.  Instructions that were read are sound, a statement is the only one that
returns a value, and the names in force change as the statement says.
-/

namespace X64Backend.Block

/-- The declarations in force behind a statement. -/
def Statement.liveAfter (live : List Alloc) : Statement → List Alloc
  | .alloc declaration => declaration :: live
  | .free _ name _ => live.filter fun declaration => declaration.name ≠ name
  | _ => live

/-- The names behind a statement. -/
def Statement.namesAfter (names : Names) : Statement → Names
  | .alloc declaration =>
      { names with live := declaration :: names.live, decls := declaration :: names.decls }
  | .free pos name implicit =>
      { names with
        live := (free pos name implicit).liveAfter names.live
        freed := name :: names.freed }
  | _ => names

theorem Statement.live_namesAfter (names : Names) (statement : Statement) :
    (statement.namesAfter names).live = statement.liveAfter names.live := by
  cases statement <;> rfl

/-- Only a name that is not in force is declared, and only one in force is given back. -/
def Statement.Lawful (live : List Alloc) : Statement → Prop
  | .alloc declaration => ∀ other ∈ live, other.name ≠ declaration.name
  | .free _ name _ => ∃ other ∈ live, other.name = name
  | _ => True

/-- Whether the block itself did not say so. -/
def Statement.isImplicit : Statement → Bool
  | .free _ _ implicit => implicit
  | _ => false

namespace Parser

variable {α β : Type} {reading reading₁ reading' : Reading}

section Instructions

theorem reads_check {position : Position} {term : Term} (token : Token) (mnemonic : String)
    (index : Nat) :
    Reads reading (check token mnemonic index position term) fun _ _ => position.Takes term := by
  have accepted : ∀ {c : Bool} message, (c = true → position.Takes term) →
      Reads reading (if c then pure () else reject token "" message : Parser Unit)
        fun _ _ => position.Takes term := by
    intro c message takes
    split
    · rename_i accepted
      exact .pure (takes accepted)
    · exact (refuses_reject _ _ _).finds
  cases term with
  | var ref => exact accepted _ id
  | reg ref => exact accepted _ id
  | mem pos size base disp => exact accepted _ id
  | lit pos value => exact accepted _ id

/-- Whether a word ends the operands of an instruction. -/
def Closing (kind : TokenKind) : Prop :=
  kind = .semicolon ∨ kind = .rightBrace ∨ kind = .eof

/-- Operands that may stand in the positions of an instruction, from the first one on. -/
structure Arguments (live : List Alloc) (spec : Spec) (terms : List Term) : Prop where
  grounded : ∀ term ∈ terms, Grounded live term
  fit : Fit spec.positions terms

theorem Arguments.append {live : List Alloc} {spec : Spec} {terms : List Term} {term : Term}
    (arguments : Arguments live spec terms) (grounded : Grounded live term)
    (takes : ∀ position, spec.positions[terms.length]? = some position → position.Takes term) :
    Arguments live spec (terms ++ [term]) := by
  refine ⟨fun other member => ?_, arguments.fit.append takes⟩
  rcases List.mem_append.mp member with member | member
  · exact arguments.grounded other member
  · exact List.mem_singleton.mp member ▸ grounded

/-- More operands were read, up to a word that ends them. -/
abbrev MoreArguments (reading : Reading) (spec : Spec) (terms : List Term) :
    List Term → Reading → Prop :=
  fun found reading' => (Arguments reading.live spec terms → Arguments reading.live spec found) ∧
    Closing reading'.word.kind

/-- The loop over the operands ends because no further one follows. -/
theorem reads_operands {mnemonic : String} {spec : Spec} {steps : Nat} {terms : List Term}
    (ends : Ends reading.tokens) (enough : reading.tokens.length ≤ steps) :
    Reads reading (operands mnemonic spec steps terms) (MoreArguments reading spec terms) := by
  induction steps generalizing reading terms with
  | zero =>
      have some := List.length_pos_iff.mpr ends.ne_nil
      omega
  | succ steps inductionHypothesis =>
      -- with one more operand, which took at least one word
      have again : ∀ (term : Term) (reading₁ : Reading), reading.Onward reading₁ →
          reading₁.tokens.length < reading.tokens.length → Grounded reading.live term →
          (∀ position, spec.positions[terms.length]? = some position → position.Takes term) →
          Reads reading₁ (operands mnemonic spec steps (terms ++ [term]))
            (MoreArguments reading spec terms) := by
        intro term reading₁ onward shorter grounded takes
        refine (inductionHypothesis (onward.ends ends) (by omega)).mono
          fun found _ _ more => ⟨fun arguments => ?_, more.2⟩
        have later := more.1
        rw [onward.live] at later
        exact later (arguments.append grounded takes)
      refine reads_currentKind.bind fun kind reading' _ found => ?_
      obtain ⟨rfl, rfl⟩ := found
      split
      · rename_i semicolon
        exact .pure ⟨id, .inl semicolon⟩
      · rename_i rightBrace
        exact .pure ⟨id, .inr (.inl rightBrace)⟩
      · rename_i eof
        exact .pure ⟨id, .inr (.inr eof)⟩
      · refine .optional ((reads_expect ends (by decide)).mono fun _ _ _ _ => trivial)
          fun reading₁ onward => ?_
        refine reads_current.bind fun token reading' _ found => ?_
        obtain ⟨rfl, rfl⟩ := found
        refine ((reads_operand (onward.ends ends)).behind onward).bind
          fun term reading₂ onward₂ operand => ?_
        have onward := onward.trans onward₂
        split
        · rename_i position known
          refine (reads_check _ _ _).bind fun _ reading₃ onward₃ takes => ?_
          have shorter := Nat.lt_of_le_of_lt onward₃.length_le operand.2
          refine again term reading₃ (onward.trans onward₃) shorter operand.1 fun other same => ?_
          rw [known] at same
          cases same
          exact takes
        · rename_i unknown
          exact again term reading₂ onward operand.2 operand.1
            fun _ same => absurd (unknown.symm.trans same) (Option.some_ne_none _).symm

theorem arity_le {word : String} {spec : Spec} (known : spec? word = some spec) :
    spec.arity ≤ 2 := by
  have every : ∀ spec ∈ specs, spec.arity ≤ 2 := by decide
  exact every spec (List.mem_of_find?_eq_some known)

/-- Of at most two operands that are not both memory cells, at most one is. -/
theorem cells_le {terms : List Term} {arity : Nat} (length : terms.length = arity)
    (few : arity ≤ 2) (differ : ¬(decide (arity = 2) && terms.all isMemory) = true) :
    terms.countP isMemory ≤ 1 := by
  subst length
  have below : terms.countP isMemory ≤ terms.length := List.countP_le_length
  rcases Nat.lt_or_eq_of_le few with fewer | two
  · omega
  · have every : terms.countP isMemory ≠ terms.length := by
      rw [Ne, List.countP_eq_length, ← List.all_eq_true]
      simpa [two] using differ
    omega

/-- An instruction that was read is sound, and returns a value where it is marked so. -/
theorem reads_instruction (ends : Ends reading.tokens) {word : String} {spec : Spec}
    (known : spec? word = some spec) (pos : Pos) (returned : Bool) :
    Reads reading (instruction pos returned spec) fun statement _ =>
      ∃ instruction : Instruction, statement = .instr instruction ∧ instruction.Sound ∧
        (∀ term ∈ instruction.operands, Grounded reading.live term) ∧
          instruction.returned = returned := by
  refine reads_current.bind fun token reading' _ found => ?_
  obtain ⟨rfl, rfl⟩ := found
  refine reads_advance.bind fun _ reading₁ onward _ => ?_
  refine Reads.get.bind fun found reading' _ same => ?_
  obtain ⟨rfl, rfl⟩ := same
  refine (reads_operands (onward.ends ends) (Nat.le_refl _)).bind fun terms _ _ more => ?_
  have arguments := more.1 ⟨List.forall_mem_nil _, .nil _⟩
  rw [onward.live] at arguments
  refine (refuses_reject _ _ _).check fun arity => ?_
  refine (refuses_reject _ _ _).check fun _ => ?_
  refine (refuses_reject _ _ _).check fun cells => Reads.pure ?_
  have arity := not_not.mp arity
  exact ⟨_, rfl, ⟨arity, arguments.fit, cells_le arity (arity_le known) cells⟩,
    arguments.grounded, rfl⟩

end Instructions

/-- A statement was read, and the names are those behind it. -/
structure Found (reading : Reading) (statement : Statement) (reading' : Reading) : Prop
    extends reading.Later reading' where
  names : reading'.names = statement.namesAfter reading.names
  lawful : statement.Lawful reading.live
  explicit : statement.isImplicit = false
  grounded : ∀ term ∈ statement.terms, Grounded reading.live term
  sound : ∀ instruction, statement = .instr instruction → instruction.Sound
  /-- Only the first statement that returns a value is accepted. -/
  first : statement.returns = true → reading.returned = false ∧ reading'.returned = true

theorem Found.live {statement : Statement} (found : Found reading statement reading') :
    reading'.live = statement.liveAfter reading.live :=
  (congrArg Names.live found.names).trans (statement.live_namesAfter reading.names)

/-- A statement that was found behind some words. -/
theorem Found.behind {statement : Statement} (found : Found reading₁ statement reading')
    (onward : reading.Onward reading₁) : Found reading statement reading' := by
  refine ⟨onward.toLater.trans found.toLater, onward.names ▸ found.names,
    onward.live ▸ found.lawful, found.explicit, onward.live ▸ found.grounded, found.sound,
    fun returns => ?_⟩
  obtain ⟨unreturned, returned⟩ := found.first returns
  refine ⟨?_, returned⟩
  rw [← Bool.not_eq_true] at unreturned ⊢
  exact mt onward.returned unreturned

theorem Finds.behind {reader : Parser Statement} (finds : Finds reading₁ reader (Found reading₁))
    (onward : reading.Onward reading₁) : Finds reading₁ reader (Found reading) :=
  finds.mono fun _ _ found => found.behind onward

/-- A change of the names behind a statement. -/
theorem finds_modify {P : Statement → Reading → Prop} {change : Reading → Reading}
    {statement : Statement} (promise : P statement (change reading)) :
    Finds reading (modify change >>= fun _ => pure statement) P :=
  ⟨fun run => by cases run; exact promise, nofun⟩

section Statements

theorem reads_allocTail (ends : Ends reading.tokens) (name : String) (phys : Option Phys)
    (size : Size) : Reads reading (allocTail name phys size) fun _ _ => True := by
  refine reads_current.bind fun token reading' _ found => ?_
  obtain ⟨rfl, rfl⟩ := found
  split
  · split
    · exact (refuses_reject _ _ _).finds
    · refine (refuses_reject _ _ _).check fun _ => ?_
      exact reads_advance.bind fun _ _ _ _ => .pure trivial
  · exact (reads_suffixes ends).bind fun _ _ _ _ => .pure trivial

theorem finds_alloc (ends : Ends reading.tokens) (pos : Pos) :
    Finds reading (alloc pos) (Found reading) := by
  refine reads_advance.finds_bind fun _ reading₁ onward₁ _ => ?_
  refine reads_current.finds_bind fun token reading' _ found => ?_
  obtain ⟨rfl, rfl⟩ := found
  refine (refuses_rejectCurrent _).check fun _ => ?_
  refine reads_advance.finds_bind fun _ reading₂ onward₂ _ => ?_
  refine (reads_live? _).finds_bind fun declared reading' _ found => ?_
  obtain ⟨known, rfl⟩ := found
  refine (refuses_reject _ _ _).check fun undeclared => ?_
  refine (refuses_reject _ _ _).check fun _ => ?_
  have onward := onward₁.trans onward₂
  have unknown : ∀ other ∈ reading.live, other.name ≠ reading₁.word.text := by
    rw [← onward.live]
    rw [← known] at undeclared
    simpa using undeclared
  refine (reads_allocTail (onward.ends ends) _ _ _).finds_bind fun tail reading₃ onward₃ _ => ?_
  refine (refuses_reject _ _ _).check fun _ => ?_
  refine (refuses_reject _ _ _).check fun _ => finds_modify ?_
  have onward := onward.trans onward₃
  exact ⟨⟨onward.rest, onward.some, onward.returned⟩,
    congrArg (fun names => Statement.namesAfter names (.alloc _)) onward.names, unknown, rfl,
    List.forall_mem_nil _, nofun, nofun⟩

theorem finds_free (pos : Pos) : Finds reading (free pos) (Found reading) := by
  refine reads_advance.finds_bind fun _ reading₁ onward₁ _ => ?_
  refine reads_current.finds_bind fun token reading' _ found => ?_
  obtain ⟨rfl, rfl⟩ := found
  refine (refuses_rejectCurrent _).check fun _ => ?_
  refine reads_advance.finds_bind fun _ reading₂ onward₂ _ => ?_
  refine (reads_live? _).finds_bind fun declared reading' _ found => ?_
  obtain ⟨known, rfl⟩ := found
  have onward := onward₁.trans onward₂
  have given : ∀ name, (∃ other ∈ reading.live, other.name = name) → Finds reading₂ (do
      modify fun reading =>
        { reading with
          live := reading.live.filter fun declaration => declaration.name ≠ name
          freed := name :: reading.freed }
      return .free pos name false) (Found reading) := fun name lawful => finds_modify
    ⟨⟨onward.rest, onward.some, onward.returned⟩,
      congrArg (fun names => Statement.namesAfter names (.free pos name false)) onward.names,
      lawful, rfl, List.forall_mem_nil _, nofun, nofun⟩
  split
  · refine Reads.get.finds_bind fun _ _ _ _ => ?_
    exact (refuses_reject _ _ _).bind
  · rename_i declared
    refine given _ ?_
    rw [← onward.live]
    rw [← known] at declared
    simpa using declared

/-- The mark of a value stands only before the first one. -/
theorem reads_returnMark : Reads reading returnMark fun mark reading' =>
    mark = true → reading.returned = false ∧ reading'.returned = true := by
  refine reads_current.bind fun token reading' _ found => ?_
  obtain ⟨rfl, rfl⟩ := found
  split
  · refine reads_advance.bind fun _ reading₁ _ same => ?_
    obtain rfl := same
    refine Reads.get.bind fun found reading' _ same => ?_
    obtain ⟨rfl, rfl⟩ := same
    refine (refuses_rejectCurrent _).check fun unreturned => ?_
    refine Reads.bind (Q := fun _ reading' => reading'.returned = true) ⟨fun run => ?_, nofun⟩
      fun _ _ _ returned => .pure fun _ => ⟨Bool.not_eq_true _ ▸ unreturned, returned⟩
    cases run
    exact ⟨⟨⟨List.suffix_refl _, id, fun _ => rfl⟩, rfl⟩, rfl⟩
  · exact .pure nofun

theorem finds_statement (ends : Ends reading.tokens) :
    Finds reading statement (Found reading) := by
  refine reads_current.finds_bind fun first reading' _ found => ?_
  obtain ⟨_, rfl⟩ := found
  refine reads_returnMark.finds_bind fun mark reading₁ onward marked => ?_
  have ends₁ := onward.ends ends
  have value : mark = true → Finds reading₁ (valueStatement first.pos) (Found reading) := by
    intro isValue
    refine (reads_operand ends₁).finds_bind fun term reading₂ onward₂ operand => ?_
    have both := onward.trans onward₂
    obtain ⟨unreturned, returned⟩ := marked isValue
    refine ⟨fun run => ?_, nofun⟩
    cases run
    refine ⟨both.toLater, both.names, trivial, rfl, fun other member => ?_, nofun,
      fun _ => ⟨unreturned, onward₂.returned returned⟩⟩
    exact List.mem_singleton.mp member ▸ onward.live ▸ operand.1
  refine reads_current.finds_bind fun token reading' _ found => ?_
  obtain ⟨rfl, rfl⟩ := found
  split
  · dsimp only
    split
    · refine (refuses_rejectCurrent _).check fun _ => ?_
      split
      · exact (finds_alloc ends₁ _).behind onward
      · exact (finds_free _).behind onward
    · split
      · rename_i spec known
        refine Finds.mono (reads_instruction ends₁ known _ _) fun statement reading₂ read => ?_
        obtain ⟨onward₂, instruction, rfl, sound, grounded, isValue⟩ := read
        have both := onward.trans onward₂
        refine ⟨both.toLater, both.names, trivial, rfl, onward.live ▸ grounded,
          fun _ same => ?_, fun returns => ?_⟩
        · cases same
          exact sound
        · obtain ⟨unreturned, returned⟩ := marked (isValue ▸ returns)
          exact ⟨unreturned, onward₂.returned returned⟩
      · split
        · rename_i isValue
          exact value isValue
        · exact (refuses_reject _ _ _).finds
  · split
    · rename_i isValue
      exact value isValue
    · exact (refuses_rejectCurrent _).finds

end Statements

end Parser

end X64Backend.Block
