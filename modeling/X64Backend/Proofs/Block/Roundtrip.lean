import X64Backend.Proofs.Block.Acceptance
import X64Backend.Proofs.Block.Writing
import X64Backend.Proofs.Code.Registers

/-!
Instructions are read back as they were written.  The line of an instruction spells a statement of
the grammar, so it is read as what that statement means.
-/

namespace X64Backend.Block

open Grammar

/-- The kind of an operand of an instruction. -/
def kindOfOperand? : Operand → Option OperandKind
  | .absent => none
  | .reg _ => some .reg
  | .mem _ => some .mem
  | .lit _ => some .imm

/-- An instruction of the dispatch table with operands that a block can write and that the positions
accept.  Not both are memory cells, and it is no move of a full-width register onto itself, which
is not written. -/
structure Accepted (spec : Spec) (ins : Instr) : Prop where
  op : ins.op? = some spec.op
  writable : ∀ operand ∈ ins.operands, Writable operand
  arity : ins.operands.length = spec.arity
  fit : ∀ (index : Nat) (position : Position) (operand : Operand),
    spec.positions[index]? = some position → ins.operands[index]? = some operand →
      ∃ kind, kindOfOperand? operand = some kind ∧ position.accepts kind = true
  cells : ins.operands.countP Operand.isMem ≤ 1
  moves : ∀ phys, ins ≠ .binary .mov (.reg (.fix phys .s64)) (.reg (.fix phys .s64))

section Instructions

theorem Denotes.takes {operand : Operand} {term : Term} {position : Position} {kind : OperandKind}
    (denotes : Denotes operand term) (isKind : kindOfOperand? operand = some kind)
    (accepts : position.accepts kind = true) : position.Takes term := by
  cases denotes with
  | reg => cases isKind; exact accepts
  | mem => cases isKind; exact accepts
  | lit => cases isKind; exact accepts

theorem Denotes.isMemory {operand : Operand} {term : Term} (denotes : Denotes operand term) :
    Parser.isMemory term = operand.isMem := by
  cases denotes <;> rfl

/-- What a term denotes does not depend on its place. -/
theorem Denotes.of_unplaced {operand : Operand} {term : Term}
    (denotes : Denotes operand term.unplaced) : Denotes operand term := by
  generalize same : term.unplaced = bare at denotes
  cases denotes with
  | reg =>
      cases term with
      | reg ref =>
          obtain ⟨pos, name, named, phys, type, size⟩ := ref
          cases same
          exact .reg
      | _ => cases same
  | mem =>
      cases term with
      | mem pos size base disp =>
          cases base with
          | reg ref =>
              obtain ⟨pos', name, named, phys, type, size⟩ := ref
              cases same
              exact .mem
          | var ref => cases same
      | _ => cases same
  | lit bits bits' =>
      cases term with
      | lit pos value =>
          cases same
          exact .lit bits bits'
      | _ => cases same

/-- An accepted instruction is no move that is left out. -/
theorem Accepted.isSelfMove {spec : Spec} {ins : Instr} (accepted : Accepted spec ins)
    (timeline : Timeline) (tick : Nat) : Listing.isSelfMove timeline tick ins = false := by
  rw [Bool.eq_false_iff]
  intro isMove
  unfold Listing.isSelfMove at isMove
  split at isMove
  · rename_i dst src
    simp only [Bool.and_eq_true, decide_eq_true_eq] at isMove
    obtain ⟨⟨wide, wide'⟩, same⟩ := isMove
    have isDst := accepted.writable (.reg dst) List.mem_cons_self
    have isSrc := accepted.writable (.reg src) (List.mem_cons_of_mem _ List.mem_cons_self)
    cases isDst
    cases isSrc
    cases wide
    cases wide'
    cases same
    exact accepted.moves _ rfl
  · cases isMove

/-- The line of an instruction, and the operands that are read from it. -/
theorem Accepted.line {spec : Spec} {ins : Instr} (accepted : Accepted spec ins)
    (known : spec ∈ specs) : ∃ text arguments terms,
      (∀ timeline tick, ins.oneLine timeline tick = text) ∧
      (∀ {rest : List Char} {words : List Word}, Breaks rest → Spells rest words →
        Spells (text.toList ++ rest)
          (.name spec.op.name :: (argumentWords false arguments ++ words))) ∧
      List.Forall₂ (fun argument term => argument.term? [] = some term) arguments terms ∧
      List.Forall₂ Denotes ins.operands terms := by
  obtain ⟨name, -, -, straight⟩ := name_mnemonic spec known
  have op := accepted.op
  cases ins with
  | nullary op =>
      cases op
      refine ⟨spec.op.name, [], [], fun timeline tick => ?_, fun breaks spells => ?_, .nil, .nil⟩
      · exact trimBlank_solid name.solid
      · have read := Spells.name name breaks spells
        rwa [String.ofList_toList] at read
  | unary op operand =>
      cases op
      obtain ⟨text, argument, term, written⟩ :=
        (accepted.writable operand List.mem_cons_self).written
      refine ⟨spec.op.name ++ " " ++ text, [argument], [term], fun timeline tick => ?_,
        fun breaks spells => ?_, .cons written.means .nil, .cons written.denotes .nil⟩
      · have shown : Listing.instr timeline tick (.unary spec.op operand) =
            .ok ("\t" ++ (spec.op.name ++ " " ++ text) ++ "\n") := by
          simp only [Listing.instr, straight, written.shown, ← String.append_assoc]
          rfl
        have solid : Solid (spec.op.name ++ " " ++ text).toList := by
          have both : Solid (spec.op.name.toList ++ ([' '] ++ text.toList)) :=
            name.solid.append written.solid
          simpa [String.toList_append] using both
        rw [Instr.oneLine, shown]
        exact trimBlank_solid solid
      · have read := Spells.name name (breaks_cons (by decide))
          (.blank (written.spells breaks spells))
        rw [String.ofList_toList] at read
        simpa [argumentWords, String.toList_append] using read
  | binary op dst src =>
      cases op
      obtain ⟨text, argument, term, written⟩ :=
        (accepted.writable dst List.mem_cons_self).written
      obtain ⟨text', argument', term', written'⟩ :=
        (accepted.writable src (List.mem_cons_of_mem _ List.mem_cons_self)).written
      refine ⟨spec.op.name ++ " " ++ (text ++ ", " ++ text'), [argument, argument'], [term, term'],
        fun timeline tick => ?_, fun breaks spells => ?_,
        .cons written.means (.cons written'.means .nil),
        .cons written.denotes (.cons written'.denotes .nil)⟩
      · have shown : Listing.instr timeline tick (.binary spec.op dst src) =
            .ok ("\t" ++ (spec.op.name ++ " " ++ (text ++ ", " ++ text')) ++ "\n") := by
          simp only [Listing.instr, accepted.isSelfMove, written.shown, written'.shown,
            ← String.append_assoc]
          rfl
        have solid : Solid (spec.op.name ++ " " ++ (text ++ ", " ++ text')).toList := by
          have both : Solid (spec.op.name.toList ++ (([' '] ++ text.toList ++ [',', ' ']) ++
              text'.toList)) := name.solid.append written'.solid
          simpa [String.toList_append] using both
        rw [Instr.oneLine, shown]
        exact trimBlank_solid solid
      · have second := Spells.mark (c := ',') (by decide) (.blank (written'.spells breaks spells))
        have read := Spells.name name (breaks_cons (by decide))
          (.blank (written.spells (breaks_cons (by decide)) second))
        rw [String.ofList_toList] at read
        simpa [argumentWords, String.toList_append] using read
  | _ => cases op

theorem countP_denotes {operands : List Operand} {terms : List Term}
    (denotes : List.Forall₂ Denotes operands terms) :
    terms.countP Parser.isMemory = operands.countP Operand.isMem := by
  induction denotes with
  | nil => rfl
  | cons first _ inductionHypothesis =>
      rw [List.countP_cons, List.countP_cons, first.isMemory, inductionHypothesis]

theorem Accepted.sound {spec : Spec} {ins : Instr} {terms : List Term}
    (accepted : Accepted spec ins) (denotes : List.Forall₂ Denotes ins.operands terms)
    (pos : Pos) (mnemonic : String) (returned : Bool) :
    Instruction.Sound ⟨pos, mnemonic, spec, terms, returned⟩ where
  arity := denotes.length_eq.symm.trans accepted.arity
  fit index position term known found := by
    obtain ⟨inside, rfl⟩ := List.getElem?_eq_some_iff.mp found
    have inside' : index < ins.operands.length := denotes.length_eq ▸ inside
    obtain ⟨kind, isKind, accepts⟩ := accepted.fit index position ins.operands[index] known
      (List.getElem?_eq_getElem inside')
    have same : Denotes ins.operands[index] terms[index] :=
      (List.forall₂_iff_get.mp denotes).2 index inside' inside
    exact same.takes isKind accepts
  cells := Nat.le_trans (Nat.le_of_eq (countP_denotes denotes)) accepted.cells

/-- A block that is one instruction apart from its places. -/
theorem eq_of_unplaced {block : Block} {name : String} {bare : Instruction}
    (same : block.unplaced = ⟨name, [.instr bare], []⟩) :
    ∃ instruction : Instruction, block = ⟨name, [.instr instruction], []⟩ ∧
      instruction.unplaced = bare := by
  obtain ⟨name', statements, decls⟩ := block
  simp only [Block.unplaced, Block.mk.injEq, List.map_eq_nil_iff, List.map_eq_singleton_iff]
    at same
  obtain ⟨rfl, ⟨statement, rfl, same⟩, rfl⟩ := same
  cases statement with
  | instr instruction =>
      cases same
      exact ⟨instruction, rfl, rfl⟩
  | _ => cases same

/-- Writing and reading are inverse.  The line of an accepted instruction, put into braces, is read
as a block of that one instruction, and nothing is reported. -/
theorem parse_oneLine {spec : Spec} {ins : Instr} (known : spec ∈ specs)
    (accepted : Accepted spec ins) (timeline : Timeline) (tick : Nat) (name : String)
    (collector : Collector) :
    ∃ instruction : Instruction,
      parse name ("\x7b " ++ ins.oneLine timeline tick ++ "; \x7d") collector =
        ⟨⟨name, [.instr instruction], []⟩, true, collector⟩ ∧
      instruction.spec = spec ∧ instruction.mnemonic = spec.op.name ∧
      instruction.returned = false ∧ List.Forall₂ Denotes ins.operands instruction.operands := by
  obtain ⟨text, arguments, terms, shown, spells, means, denotes⟩ := accepted.line known
  obtain ⟨-, lower, found, -⟩ := name_mnemonic spec known
  have closed : Spells [';', ' ', '\x7d'] [.mark ';', .mark '\x7d'] :=
    .mark (by decide) (.blank (.mark (by decide) .nil))
  have whole : Spells ("\x7b " ++ text ++ "; \x7d").toList
      (blockWords [.instr false spec.op.name arguments]) := by
    have read := Spells.mark (c := '\x7b') (by decide)
      (.blank (spells (breaks_cons (by decide)) closed))
    simpa [blockWords, bodyWords, Line.words, String.toList_append] using read
  have line : Line.Means .fresh (.instr false spec.op.name arguments) _ _ :=
    .instr (by rw [lower, found]) means (accepted.sound denotes _ _ _)
      fun returned => absurd returned Bool.false_ne_true
  obtain ⟨block, parsed, same⟩ := parse_of_spells whole (.cons line .nil) name collector
  obtain ⟨instruction, rfl, rest⟩ := eq_of_unplaced same
  rw [shown]
  obtain ⟨pos, mnemonic, spec', operands, returned⟩ := instruction
  simp only [Instruction.unplaced, Instruction.mk.injEq] at rest
  obtain ⟨-, rfl, rfl, rfl, rfl⟩ := rest
  refine ⟨_, parsed, rfl, lower, rfl, ?_⟩
  exact (List.forall₂_map_right_iff.mp denotes).imp fun _ _ => Denotes.of_unplaced

/-- A move with the least displacement and the least signed word. -/
def leastMove : Instr :=
  .binary .mov (.mem (.ofBase (.fix .rbp .s64) (-0x80000000) .s64))
    (.lit (.ofInt (-0x8000000000000000 : Int64).toInt))

theorem leastMove_read :
    leastMove.oneLine .empty 1 = "mov QWORD PTR [rbp-2147483648], -9223372036854775808" ∧
      ∃ instruction : Instruction,
        parse "least" "\x7b mov QWORD PTR [rbp-2147483648], -9223372036854775808; \x7d" .empty =
          ⟨⟨"least", [.instr instruction], []⟩, true, .empty⟩ ∧
        instruction.spec = ⟨.mov, [.dst, .src]⟩ ∧
        List.Forall₂ Denotes leastMove.operands instruction.operands := by
  have shown : leastMove.oneLine .empty 1 =
      "mov QWORD PTR [rbp-2147483648], -9223372036854775808" := by decide +kernel
  have accepted : Accepted ⟨.mov, [.dst, .src]⟩ leastMove :=
    { op := rfl
      writable := List.forall_mem_cons.mpr
        ⟨.mem .rbp .s64 _ (by decide), List.forall_mem_singleton.mpr (.int _)⟩
      arity := rfl
      fit := by
        intro index position operand known found
        match index with
        | 0 =>
            cases known
            cases found
            exact ⟨.mem, rfl, by decide⟩
        | 1 =>
            cases known
            cases found
            exact ⟨.imm, rfl, by decide⟩
        | index + 2 => cases known
      cells := by decide
      moves := nofun }
  obtain ⟨instruction, parsed, isMove, -, -, denotes⟩ :=
    parse_oneLine (by decide) accepted .empty 1 "least" .empty
  rw [shown] at parsed
  exact ⟨shown, instruction, parsed, isMove, denotes⟩

end Instructions

end X64Backend.Block
