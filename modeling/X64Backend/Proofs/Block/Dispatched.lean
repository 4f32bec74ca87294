import X64Backend.Block.Parser
import X64Backend.Proofs.Success

/-!
The instructions of a block that was read are those of the dispatch table, so none of them leaves the
line of the code.
-/

namespace X64Backend.Block

/-- An instruction stands in the dispatch table. -/
def Statement.Dispatched : Statement → Prop
  | .instr instruction => instruction.spec ∈ specs
  | _ => True

/-- Every instruction of a block stands in the dispatch table. -/
def Dispatched (block : Block) : Prop :=
  ∀ statement ∈ block.statements, statement.Dispatched

theorem isBranch_of_specs {spec : Spec} (member : spec ∈ specs) : spec.op.isBranch = false := by
  revert spec
  decide

namespace Parser

variable {α β : Type}

/-- What a reader returns is as promised. -/
def Returns (P : α → Prop) (reader : Parser α) : Prop :=
  ∀ reading a reading', reader reading = .ok a reading' → P a

theorem Returns.pure {P : α → Prop} {a : α} (promise : P a) : Returns P (Pure.pure a) := by
  intro reading b reading' run
  obtain ⟨rfl, _⟩ := Success.pure_ok.mp run
  exact promise

theorem Returns.bind {P : β → Prop} {reader : Parser α} {next : α → Parser β}
    (later : ∀ a, Returns P (next a)) : Returns P (reader >>= next) := by
  intro reading b reading' run
  obtain ⟨a, reading₁, _, ran⟩ := Success.bind_ok.mp run
  exact later a reading₁ b reading' ran

theorem Returns.bind_of {Q : α → Prop} {P : β → Prop} {reader : Parser α} {next : α → Parser β}
    (first : Returns Q reader) (later : ∀ a, Q a → Returns P (next a)) :
    Returns P (reader >>= next) := by
  intro reading b reading' run
  obtain ⟨a, reading₁, read, ran⟩ := Success.bind_ok.mp run
  exact later a (first reading a reading₁ read) reading₁ b reading' ran

theorem returns_reject {P : α → Prop} (token : Token) (suggestion message : String) :
    Returns P (reject token suggestion message) :=
  .bind fun _ _ _ _ run => absurd run (by simp)

theorem returns_attempt {P : α → Prop} {reader : Parser α} (returns : Returns P reader) :
    Returns (fun result => ∀ a, result = some a → P a) (attempt reader) := by
  rintro reading result reading' run a rfl
  unfold attempt at run
  split at run
  · rename_i read
    cases run
    exact returns reading a reading' read
  · cases run

theorem Returns.ite {P : α → Prop} {c : Prop} [Decidable c] {first second : Parser α}
    (ofFirst : Returns P first) (ofSecond : Returns P second) :
    Returns P (if c then first else second) := by
  split
  · exact ofFirst
  · exact ofSecond

/-- A check in front of the rest. -/
theorem Returns.check {P : α → Prop} {c : Prop} [Decidable c] {reader : Parser β} {rest : Parser α}
    (later : Returns P rest) : Returns P (if c then reader >>= fun _ => rest else rest) :=
  .ite (.bind fun _ => later) later

theorem returns_instruction {spec : Spec} (dispatched : spec ∈ specs) (pos : Pos) (returned : Bool) :
    Returns Statement.Dispatched (instruction pos returned spec) := by
  refine .bind fun token => .bind fun _ => .bind fun reading => .bind fun terms => ?_
  exact .check (.check (.check (.pure dispatched)))

theorem returns_alloc (pos : Pos) : Returns Statement.Dispatched (alloc pos) := by
  refine .bind fun _ => .bind fun token => .check (.bind fun _ => .bind fun known => ?_)
  refine .check (.check (.bind fun tail => .check (.check (.bind fun _ => ?_))))
  exact .pure trivial

theorem returns_free (pos : Pos) : Returns Statement.Dispatched (free pos) := by
  refine .bind fun _ => .bind fun token => .check (.bind fun _ => .bind fun known => .ite ?_ ?_)
  · exact .bind fun _ => .bind fun _ => .bind fun _ => .pure trivial
  · exact .bind fun _ => .pure trivial

theorem returns_statement : Returns Statement.Dispatched statement := by
  refine .bind fun token => .bind fun returned => .bind fun token => .ite ?_ ?_
  · refine .ite (.check (.ite (returns_alloc _) (returns_free _))) ?_
    split
    · rename_i spec found
      exact returns_instruction (List.mem_of_find?_eq_some found) _ _
    · exact .ite (.bind fun _ => .pure trivial) (returns_reject _ _ _)
  · exact .ite (.bind fun _ => .pure trivial) (.bind fun token => returns_reject token _ _)

theorem returns_statements (steps : Nat) :
    Returns (fun found => ∀ statement ∈ found, statement.Dispatched) (statements steps) := by
  induction steps with
  | zero => exact .pure (by simp)
  | succ steps inductionHypothesis =>
      refine .bind fun kind => ?_
      split
      · exact .pure (by simp)
      · exact .pure (by simp)
      · refine .bind_of (returns_attempt returns_statement) fun result dispatched => ?_
        split
        · exact .bind fun _ => inductionHypothesis
        · rename_i found
          refine .bind fun _ => .bind_of inductionHypothesis fun rest others => .pure ?_
          intro statement member
          rcases List.mem_cons.mp member with rfl | member
          · exact dispatched statement rfl
          · exact others statement member

theorem returns_block : Returns Dispatched block := by
  refine .bind fun reading => .bind fun opened => ?_
  split
  · exact .pure (by simp [Dispatched])
  · refine .bind fun reading => .bind_of (returns_statements _) fun found dispatched => ?_
    refine .bind fun _ => .bind fun token => .check (.bind fun reading => .pure ?_)
    intro statement member
    rcases List.mem_append.mp member with member | member
    · exact dispatched statement member
    · obtain ⟨declaration, _, rfl⟩ := List.mem_map.mp member
      trivial

end Parser

/-- Every instruction of a block that was read stands in the dispatch table. -/
theorem dispatched_parse (name source : String) (collector : Collector) :
    (parse name source collector).block.Dispatched := by
  unfold parse parseBytes
  dsimp only
  split
  · rename_i ran
    exact Parser.returns_block _ _ _ ran
  · simp [Dispatched]

end X64Backend.Block
