import X64Backend.Block.Parser

/-!
Sound blocks: what the replay of a block relies on.  Instructions have the operands that the
dispatch table asks for, literals have values, at most one statement returns a value, and a named
register is in force where it is used.
-/

namespace X64Backend.Block

/-- An operand is of a kind that a position takes. -/
def Position.Takes (position : Position) : Term → Prop
  | .var _ => position.takesVariable = true
  | .reg _ => position.accepts .reg = true
  | .mem _ _ _ _ => position.accepts .mem = true
  | .lit _ _ => position.accepts .imm = true

/-- The register that an operand names, itself or as the base of an address. -/
def Term.register? : Term → Option RegRef
  | .reg ref | .mem _ _ (.reg ref) _ => some ref
  | _ => none

/-- A literal has a value. -/
def Term.Valued : Term → Prop
  | .lit _ value => ∃ word, value.bits = .ok word
  | _ => True

/-- The base of an address is a register or a variable. -/
def Term.Based : Term → Prop
  | .mem _ _ base _ => (∃ ref, base = .reg ref) ∨ ∃ ref, base = .var ref
  | _ => True

/-- The operands of a statement. -/
def Statement.terms : Statement → List Term
  | .instr instruction => instruction.operands
  | .value _ operand => [operand]
  | _ => []

/-- Whether a statement gives the block its value. -/
def Statement.returns : Statement → Bool
  | .instr instruction => instruction.returned
  | .value _ _ => true
  | _ => false

/-- Behind some statements a name is in force: it was declared there, and not given back since. -/
def InForce (before : List Statement) (name : String) : Prop :=
  ∃ first declaration last, before = first ++ .alloc declaration :: last ∧
    declaration.name = name ∧ ∀ pos implicit, .free pos name implicit ∉ last

/-- Operands are of the kinds that their positions take. -/
def Fit (positions : List Position) (terms : List Term) : Prop :=
  ∀ (index : Nat) (position : Position) (term : Term),
    positions[index]? = some position → terms[index]? = some term → position.Takes term

/-- The operands of an instruction are those of its entry in the dispatch table. -/
structure Instruction.Sound (instruction : Instruction) : Prop where
  arity : instruction.operands.length = instruction.spec.arity
  fit : Fit instruction.spec.positions instruction.operands
  /-- At most one operand is a memory cell. -/
  cells : instruction.operands.countP Parser.isMemory ≤ 1

/-- A block that can be replayed. -/
structure Sound (block : Block) : Prop where
  instructions : ∀ instruction, .instr instruction ∈ block.statements → instruction.Sound
  valued : ∀ statement ∈ block.statements, ∀ term ∈ statement.terms, term.Valued
  based : ∀ statement ∈ block.statements, ∀ term ∈ statement.terms, term.Based
  /-- At most one statement returns a value. -/
  returns : block.statements.countP Statement.returns ≤ 1
  /-- A named register is in force where it is used. -/
  named : ∀ before statement after, block.statements = before ++ statement :: after →
    ∀ term ∈ statement.terms, ∀ ref, term.register? = some ref → ref.named = true →
      InForce before ref.name

namespace InForce

variable {before : List Statement} {name : String} {statement : Statement}

/-- A declaration brings its name into force. -/
theorem of_alloc (before : List Statement) (declaration : Alloc) :
    InForce (before ++ [.alloc declaration]) declaration.name :=
  ⟨before, declaration, [], rfl, rfl, by simp⟩

/-- A name stays in force until it is given back. -/
theorem append (force : InForce before name)
    (other : ∀ pos implicit, statement ≠ .free pos name implicit) :
    InForce (before ++ [statement]) name := by
  obtain ⟨first, declaration, last, rfl, same, kept⟩ := force
  refine ⟨first, declaration, last ++ [statement], by simp, same, fun pos implicit member => ?_⟩
  rcases List.mem_append.mp member with member | member
  · exact kept pos implicit member
  · exact other pos implicit (List.mem_singleton.mp member).symm

end InForce

theorem Fit.nil (positions : List Position) : Fit positions [] := by
  simp [Fit]

/-- One more operand that its position takes. -/
theorem Fit.append {positions : List Position} {terms : List Term} {term : Term}
    (fit : Fit positions terms)
    (takes : ∀ position, positions[terms.length]? = some position → position.Takes term) :
    Fit positions (terms ++ [term]) := by
  intro index position other known found
  rcases Nat.lt_trichotomy index terms.length with before | rfl | behind
  · rw [List.getElem?_append_left before] at found
    exact fit index position other known found
  · rw [List.getElem?_concat_length] at found
    cases found
    exact takes position known
  · rw [List.getElem?_eq_none (by simp; omega)] at found
    cases found

end X64Backend.Block
