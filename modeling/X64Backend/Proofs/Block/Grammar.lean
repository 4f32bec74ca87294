import Mathlib.Data.List.Forall2
import X64Backend.Proofs.Block.Sound
import X64Backend.Proofs.Block.Spelling

/-!
The grammar of blocks: the trees that a block is written from, their words, and what they mean
among the declarations in force.  A meaning is a part of a block without its places in the text.
-/

namespace X64Backend.Block

section Places

/-- The place of what was not read from a text. -/
def Pos.nowhere : Pos := ⟨0, 0⟩

def RegRef.unplaced (ref : RegRef) : RegRef := { ref with pos := .nowhere }

def VarRef.unplaced (ref : VarRef) : VarRef := { ref with pos := .nowhere }

def BaseRef.unplaced : BaseRef → BaseRef
  | .reg ref => .reg ref.unplaced
  | .var ref => .var ref.unplaced

/-- An operand without its places in the text. -/
def Term.unplaced : Term → Term
  | .var ref => .var ref.unplaced
  | .reg ref => .reg ref.unplaced
  | .mem _ size base disp => .mem .nowhere size base.unplaced disp
  | .lit _ value => .lit .nowhere value

def Alloc.unplaced (declaration : Alloc) : Alloc := { declaration with pos := .nowhere }

def Instruction.unplaced (instruction : Instruction) : Instruction :=
  { instruction with pos := .nowhere, operands := instruction.operands.map Term.unplaced }

/-- A statement without its places in the text. -/
def Statement.unplaced : Statement → Statement
  | .alloc declaration => .alloc declaration.unplaced
  | .free _ name implicit => .free .nowhere name implicit
  | .instr instruction => .instr instruction.unplaced
  | .value _ operand => .value .nowhere operand.unplaced

/-- A block without its places in the text. -/
def unplaced (block : Block) : Block :=
  { block with
    statements := block.statements.map Statement.unplaced
    decls := block.decls.map Alloc.unplaced }

/-- The position of an operand does not look at its place. -/
theorem Position.takes_unplaced {position : Position} {term : Term} :
    position.Takes term.unplaced ↔ position.Takes term := by
  cases term <;> rfl

theorem isMemory_unplaced (term : Term) :
    Parser.isMemory term.unplaced = Parser.isMemory term := by
  cases term <;> rfl

end Places

namespace Grammar

/-- The names known so far. -/
structure Scope where
  /-- The declarations in force, newest first. -/
  live : List Alloc
  /-- Every declaration so far, newest first. -/
  decls : List Alloc
  /-- The names that were ever given back. -/
  freed : List String
  /-- Whether the block already has a value. -/
  returned : Bool
  deriving DecidableEq

/-- No names are known. -/
def Scope.fresh : Scope := ⟨[], [], [], false⟩

/-- A type and a size, each behind a colon; both may be left out. -/
structure Suffix where
  type : Option String
  width : Option String
  deriving DecidableEq

namespace Suffix

/-- Neither type nor size. -/
def none : Suffix := ⟨.none, .none⟩

def words (suffix : Suffix) : List Word :=
  (match suffix.type with
    | some type => [.mark ':', .name type]
    | .none => []) ++
  match suffix.width with
    | some digits => [.mark ':', .number digits]
    | .none => []

/-- The width of a number of bytes. -/
def size? (digits : String) : Option Size :=
  match Numeral.readInteger (.fixed 10) digits.toList with
  | .ok count => Size.ofBytes? count
  | .error _ => .none

/-- The type in the place of one known otherwise.  A type is given at most once. -/
def typeAfter? (suffix : Suffix) (type : String) : Option String :=
  match suffix.type with
  | some given => if type = "" then some given else .none
  | .none => some type

/-- The size in the place of one known otherwise. -/
def sizeAfter? (suffix : Suffix) (size : Size) : Option Size :=
  match suffix.width with
  | some digits => size? digits
  | .none => some size

def after? (suffix : Suffix) (type : String) (size : Size) : Option (String × Size) := do
  let type ← suffix.typeAfter? type
  let size ← suffix.sizeAfter? size
  return (type, size)

end Suffix

/-- A register by its own spelling or by a name declared for it. -/
structure Name where
  text : String
  suffix : Suffix
  deriving DecidableEq

namespace Name

def words (name : Name) : List Word :=
  .name name.text :: name.suffix.words

/-- What a name stands for by itself.  A declaration hides a hardware register. -/
def bare? (live : List Alloc) (text : String) : Option RegRef :=
  match live.find? fun declaration => declaration.name = text, Phys.lookup text with
  | some declaration, _ =>
      some ⟨.nowhere, text, true, declaration.phys, declaration.type, .unsized⟩
  | none, some (phys, size) => some ⟨.nowhere, text, false, some phys, "", size⟩
  | none, none => none

def ref? (live : List Alloc) (name : Name) : Option RegRef := do
  let found ← bare? live name.text
  let (type, size) ← name.suffix.after? found.type found.size
  return { found with type, size }

end Name

/-- The base of an address. -/
inductive Base where
  | register (name : Name)
  | var (name : String)
  deriving DecidableEq

namespace Base

def words : Base → List Word
  | .register name => name.words
  | .var name => [.mark '$', .name name]

def ref? (live : List Alloc) : Base → Option BaseRef
  | .register name => .reg <$> name.ref? live
  | .var name => some (.var ⟨.nowhere, name⟩)

end Base

/-- A displacement behind a base. -/
structure Displacement where
  negative : Bool
  digits : String
  deriving DecidableEq

def Displacement.words (disp : Displacement) : List Word :=
  [.mark (if disp.negative then '-' else '+'), .number disp.digits]

/-- The width of a memory cell, with the word that may stand behind it. -/
structure Width where
  keyword : String
  ptr : Option String
  deriving DecidableEq

namespace Width

def words (width : Width) : List Word :=
  .name width.keyword :: width.ptr.toList.map Word.name

def size? (width : Width) : Option Size :=
  if width.ptr.all fun word => lowerCase word = "ptr" then Parser.sizeKeyword? width.keyword
  else none

end Width

/-- The operand of an instruction. -/
inductive Argument where
  | var (name : String)
  | cell (width : Option Width) (base : Base) (disp : Option Displacement)
  | register (name : Name)
  | truth (value : Bool)
  | number (negative : Bool) (digits : String)
  deriving DecidableEq

namespace Argument

def words : Argument → List Word
  | .var name => [.mark '$', .name name]
  | .cell width base disp =>
      width.elim [] Width.words ++ .mark '[' :: (base.words ++
        (disp.elim [] Displacement.words ++ [.mark ']']))
  | .register name => name.words
  | .truth value => [.name (if value then "true" else "false")]
  | .number negative digits => (if negative then [.mark '-'] else []) ++ [.number digits]

/-- The operand, if its names are in force and its numbers have values. -/
def term? (live : List Alloc) : Argument → Option Term
  | .var name => some (.var ⟨.nowhere, name⟩)
  | .cell width base disp => do
      let size ← width.elim (some .unsized) Width.size?
      let base ← base.ref? live
      let disp ← disp.elim (some 0) fun disp => Parser.displacement? disp.negative disp.digits
      return .mem .nowhere size base disp
  | .register name =>
      if name.text = "true" ∨ name.text = "false" then none
      else .reg <$> name.ref? live
  | .truth value => some (.lit .nowhere (.ofBool value))
  | .number negative digits =>
      let literal := Parser.literalOf negative (Parser.withoutUnderscores digits)
      if literal.bits.isOk then some (.lit .nowhere literal) else none

/-- Whether the operand starts with a word that starts a statement. -/
def isReserved : Argument → Bool
  | .register name => Parser.isReserved name.text
  | _ => false

end Argument

/-- The words of some operands, perhaps behind others. -/
def argumentWords : (behind : Bool) → List Argument → List Word
  | _, [] => []
  | behind, argument :: rest =>
      (if behind then [.mark ','] else []) ++ argument.words ++ argumentWords true rest

/-- What stands behind the name of a declaration. -/
inductive Tail where
  | register (text : String)
  | suffix (given : Suffix)
  deriving DecidableEq

namespace Tail

def words : Tail → List Word
  | .register text => [.name text]
  | .suffix given => given.words

/-- The register, type and size of a declaration, whose name may itself stand for a register of some
size.  Such a name is bound to no other register. -/
def binding? (own : Option Phys) (ownSize : Size) : Tail → Option (Option Phys × String × Size)
  | .register text => do
      let (phys, size) ← Phys.lookup text
      if own.isSome && own ≠ some phys then none else return (some phys, "", size)
  | .suffix given => do
      let (type, size) ← given.after? "" ownSize
      return (own, type, size)

end Tail

/-- The register and the size that the name of a declaration stands for by itself. -/
def own (name : String) : Option Phys × Size :=
  match Phys.lookup name with
  | some (phys, size) => (some phys, size)
  | none => (none, .s64)

/-- A statement of a block. -/
inductive Line where
  | alloc (name : String) (tail : Tail)
  | free (name : String)
  | instr (returned : Bool) (mnemonic : String) (arguments : List Argument)
  | value (argument : Argument)
  deriving DecidableEq

/-- The words of a statement without its semicolon. -/
def Line.words : Line → List Word
  | .alloc name tail => .name "alloc" :: .name name :: tail.words
  | .free name => [.name "free", .name name]
  | .instr returned mnemonic arguments =>
      (if returned then [.name "return"] else []) ++
        .name mnemonic :: argumentWords false arguments
  | .value argument => .name "return" :: argument.words

/-- A register that a declaration may bind its name to. -/
structure Bindable (phys : Option Phys) (size : Size) : Prop where
  stack : phys ≠ some .rsp
  frame : phys ≠ some .rbp
  /-- Only some registers have an upper byte. -/
  upper : size = .high8 → phys.any Phys.hasHigh8 = true

/-- What a statement means, and the names known behind it. -/
inductive Line.Means (scope : Scope) : Line → Statement → Scope → Prop where
  /-- A name is declared that is not in force, for a register that may be bound. -/
  | alloc {name : String} {tail : Tail} {phys : Option Phys} {type : String} {size : Size} :
      (∀ declaration ∈ scope.live, declaration.name ≠ name) → Parser.isReserved name = false →
      tail.binding? (own name).1 (own name).2 = some (phys, type, size) → Bindable phys size →
      Line.Means scope (.alloc name tail) (.alloc ⟨.nowhere, name, phys, type, size⟩)
        { scope with
          live := ⟨.nowhere, name, phys, type, size⟩ :: scope.live
          decls := ⟨.nowhere, name, phys, type, size⟩ :: scope.decls }
  /-- A name in force is given back. -/
  | free {name : String} :
      (∃ declaration ∈ scope.live, declaration.name = name) →
      Line.Means scope (.free name) (.free .nowhere name false)
        { scope with
          live := scope.live.filter fun declaration => declaration.name ≠ name
          freed := name :: scope.freed }
  /-- An instruction has the operands that the dispatch table asks for.  Its first operand may be
  the only value of the block. -/
  | instr {returned : Bool} {mnemonic : String} {arguments : List Argument} {spec : Spec}
      {terms : List Term} :
      spec? (lowerCase mnemonic) = some spec →
      arguments.Forall₂ (fun argument term => argument.term? scope.live = some term) terms →
      Instruction.Sound ⟨.nowhere, lowerCase mnemonic, spec, terms, returned⟩ →
      (returned = true → scope.returned = false ∧ spec.arity ≠ 0) →
      Line.Means scope (.instr returned mnemonic arguments)
        (.instr ⟨.nowhere, lowerCase mnemonic, spec, terms, returned⟩)
        { scope with returned := scope.returned || returned }
  /-- An operand is the only value of the block. -/
  | value {argument : Argument} {term : Term} :
      argument.term? scope.live = some term → argument.isReserved = false →
      scope.returned = false →
      Line.Means scope (.value argument) (.value .nowhere term) { scope with returned := true }

/-- What some statements mean one after the other. -/
inductive Means : Scope → List Line → List Statement → Scope → Prop where
  | nil {scope : Scope} : Means scope [] [] scope
  | cons {scope scope₁ scope₂ : Scope} {line : Line} {lines : List Line} {statement : Statement}
      {statements : List Statement} :
      line.Means scope statement scope₁ → Means scope₁ lines statements scope₂ →
        Means scope (line :: lines) (statement :: statements) scope₂

/-- The words of statements, each with its semicolon. -/
def bodyWords (lines : List Line) : List Word :=
  lines.flatMap fun line => line.words ++ [.mark ';']

/-- The words of a block. -/
def blockWords (lines : List Line) : List Word :=
  .mark '\x7b' :: (bodyWords lines ++ [.mark '\x7d'])

/-- The block of some statements.  Names that were never given back are given back at the end. -/
def Scope.close (scope : Scope) (name : String) (statements : List Statement) : Block :=
  let decls := scope.decls.reverse
  let unfreed := decls.filter fun declaration => !scope.freed.contains declaration.name
  ⟨name, statements ++ unfreed.map fun declaration => .free .nowhere declaration.name true, decls⟩

section Words

variable {argument : Argument} {term : Term} {live : List Alloc}

/-- No operand starts like the end of a list of operands. -/
theorem Argument.starts (argument : Argument) : ∃ word more, argument.words = word :: more ∧
    word.kind ∉ [.semicolon, .rightBrace, .eof] := by
  cases argument with
  | var text => exact ⟨_, _, rfl, by decide⟩
  | cell width base disp =>
      cases width with
      | none => exact ⟨_, _, rfl, by decide⟩
      | some width => exact ⟨_, _, rfl, by simp [Word.name]⟩
  | register text => exact ⟨_, _, rfl, by simp [Word.name]⟩
  | truth value => exact ⟨_, _, rfl, by simp [Word.name]⟩
  | number negative digits =>
      cases negative with
      | false => exact ⟨_, _, rfl, by simp [Word.number]⟩
      | true => exact ⟨_, _, rfl, by decide⟩

theorem isReserved_of_sizeKeyword {text : String} {size : Size}
    (keyword : Parser.sizeKeyword? text = some size) : Parser.isReserved text = false := by
  have width : lowerCase text ∈ ["byte", "word", "dword", "qword"] := by
    unfold Parser.sizeKeyword? at keyword
    split at keyword
    · simp [*]
    · simp [*]
    · simp [*]
    · simp [*]
    · cases keyword
  have unknown : ∀ word ∈ ["byte", "word", "dword", "qword"], (spec? word).isSome = false := by
    decide
  have other : ∀ word ∈ ["alloc", "free", "return"], text ≠ word := by
    rintro word member rfl
    have differ : ∀ word ∈ ["alloc", "free", "return"],
        lowerCase word ∉ ["byte", "word", "dword", "qword"] := by decide
    exact differ _ member width
  simp only [List.mem_cons, List.not_mem_nil, or_false, forall_eq_or_imp, forall_eq] at other
  simp [Parser.isReserved, isMnemonic, unknown _ width, other]

/-- An operand that is no reserved word does not start with one. -/
theorem Argument.starts_plain (means : argument.term? live = some term)
    (unreserved : argument.isReserved = false) : ∃ word more, argument.words = word :: more ∧
      (word.kind = .ident → Parser.isReserved word.text = false) := by
  cases argument with
  | var text => exact ⟨_, _, rfl, by decide⟩
  | cell width base disp =>
      cases width with
      | none => exact ⟨_, _, rfl, by decide⟩
      | some width =>
          obtain ⟨size, sized, -⟩ := Option.bind_eq_some_iff.mp means
          obtain ⟨-, known⟩ := Option.ite_none_right_eq_some.mp sized
          exact ⟨_, _, rfl, fun _ => isReserved_of_sizeKeyword known⟩
  | register name => exact ⟨_, _, rfl, fun _ => unreserved⟩
  | truth value =>
      have plain : ∀ value,
          Parser.isReserved (if value = true then "true" else "false") = false := by decide
      exact ⟨_, _, rfl, fun _ => plain value⟩
  | number negative digits =>
      cases negative with
      | false => exact ⟨_, _, rfl, nofun⟩
      | true => exact ⟨_, _, rfl, by decide⟩

theorem length_argumentWords (behind : Bool) (arguments : List Argument) :
    arguments.length ≤ (argumentWords behind arguments).length := by
  induction arguments generalizing behind with
  | nil => exact Nat.le_refl 0
  | cons argument arguments inductionHypothesis =>
      obtain ⟨word, more, starts, -⟩ := argument.starts
      have later := inductionHypothesis true
      simp only [argumentWords, starts, List.length_append, List.length_cons]
      omega

/-- Every statement starts with a name. -/
theorem Line.starts (line : Line) : ∃ text more, line.words = .name text :: more := by
  cases line with
  | alloc name tail => exact ⟨_, _, rfl⟩
  | free name => exact ⟨_, _, rfl⟩
  | instr returned mnemonic arguments =>
      cases returned with
      | false => exact ⟨_, _, rfl⟩
      | true => exact ⟨_, _, rfl⟩
  | value argument => exact ⟨_, _, rfl⟩

theorem bodyWords_cons (line : Line) (lines : List Line) :
    bodyWords (line :: lines) = line.words ++ (.mark ';' :: bodyWords lines) := by
  simp [bodyWords]

/-- Every statement takes at least one word. -/
theorem length_bodyWords (lines : List Line) : lines.length ≤ (bodyWords lines).length := by
  induction lines with
  | nil => exact Nat.le_refl 0
  | cons line lines inductionHypothesis =>
      simp only [bodyWords_cons, List.length_append, List.length_cons]
      omega

end Words

end Grammar

end X64Backend.Block
