import X64Backend.Proofs.Block.Reports
import X64Backend.Proofs.Block.Sound
import X64Backend.Proofs.Block.Words

/-!
Reading a statement.  Readers only take words away and leave the names alone; what they return is
sound, and every loop among them ends because the next word ends it.
-/

namespace X64Backend.Block

/-- Some words were taken away.  A value that the block has it keeps. -/
structure Reading.Later (reading reading' : Reading) : Prop where
  rest : reading'.tokens <:+ reading.tokens
  some : reading.tokens ≠ [] → reading'.tokens ≠ []
  returned : reading.returned = true → reading'.returned = true

/-- What reading knows about the names of a block. -/
structure Names where
  /-- The declarations in force. -/
  live : List Alloc
  /-- Every declaration so far, newest first. -/
  decls : List Alloc
  /-- The names that were ever given back. -/
  freed : List String

/-- The names known so far. -/
def Reading.names (reading : Reading) : Names :=
  ⟨reading.live, reading.decls, reading.freed⟩

/-- Some words were taken away, and the names are the same. -/
structure Reading.Onward (reading reading' : Reading) : Prop extends reading.Later reading' where
  names : reading'.names = reading.names

namespace Reading

variable {reading reading₁ reading₂ : Reading}

theorem Later.refl (reading : Reading) : reading.Later reading :=
  ⟨List.suffix_refl _, id, id⟩

theorem Later.trans (first : reading.Later reading₁) (second : reading₁.Later reading₂) :
    reading.Later reading₂ :=
  ⟨second.rest.trans first.rest, second.some ∘ first.some, second.returned ∘ first.returned⟩

theorem Later.ends (later : reading.Later reading₁) (ends : Ends reading.tokens) :
    Ends reading₁.tokens :=
  ends.suffix later.rest (later.some ends.ne_nil)

theorem Later.length_le (later : reading.Later reading₁) :
    reading₁.tokens.length ≤ reading.tokens.length :=
  later.rest.length_le

theorem Onward.refl (reading : Reading) : reading.Onward reading :=
  ⟨.refl reading, rfl⟩

theorem Onward.trans (first : reading.Onward reading₁) (second : reading₁.Onward reading₂) :
    reading.Onward reading₂ :=
  ⟨first.toLater.trans second.toLater, second.names.trans first.names⟩

theorem Onward.live (onward : reading.Onward reading₁) : reading₁.live = reading.live :=
  congrArg Names.live onward.names

/-- The current word. -/
def word (reading : Reading) : Token :=
  reading.tokens.head?.getD Parser.missing

theorem onward_advanced (reading : Reading) : reading.Onward reading.advanced := by
  obtain ⟨tokens⟩ := reading
  match tokens with
  | [] => exact .refl _
  | [_] => exact .refl _
  | first :: second :: rest =>
      exact ⟨⟨List.suffix_cons first _, fun _ => List.cons_ne_nil second rest, id⟩, rfl⟩

/-- A word that is not the end is taken away. -/
theorem length_advanced (ends : Ends reading.tokens) (other : reading.word.kind ≠ .eof) :
    reading.advanced.tokens.length < reading.tokens.length := by
  obtain ⟨tokens⟩ := reading
  cases ends with
  | last eof => exact absurd eof other
  | @more first rest _ ends =>
      cases rest with
      | nil => cases ends
      | cons second rest => exact Nat.lt_succ_self _

end Reading

namespace Parser

variable {α β : Type} {reading : Reading} {P Q : α → Reading → Prop}

/-- From a reading, a reader finds what is promised.  Where it gives up, only some words were taken
away. -/
structure Finds (reading : Reading) (reader : Parser α) (P : α → Reading → Prop) : Prop where
  ok : ∀ {a reading'}, reader reading = .ok a reading' → P a reading'
  error : ∀ {u reading'}, reader reading = .error u reading' → reading.Onward reading'

/-- In any case, the reader only takes some words away. -/
abbrev Reads (reading : Reading) (reader : Parser α) (P : α → Reading → Prop) : Prop :=
  Finds reading reader fun a reading' => reading.Onward reading' ∧ P a reading'

/-- A reader that never succeeds. -/
abbrev Refuses (reading : Reading) (reader : Parser α) : Prop :=
  Reads reading reader fun _ _ => False

section Rules

variable {reader : Parser α} {next : α → Parser β} {after : β → Reading → Prop}

theorem Finds.mono {P' : α → Reading → Prop} (finds : Finds reading reader P)
    (weaker : ∀ a reading', P a reading' → P' a reading') : Finds reading reader P' :=
  ⟨fun run => weaker _ _ (finds.ok run), finds.error⟩

theorem Reads.finds_bind (first : Reads reading reader Q)
    (later : ∀ a reading', reading.Onward reading' → Q a reading' →
      Finds reading' (next a) after) :
    Finds reading (reader >>= next) after := by
  constructor
  · intro b reading' run
    obtain ⟨a, reading₁, ran, run⟩ := Success.bind_ok.mp run
    obtain ⟨onward, promise⟩ := first.ok ran
    exact (later a reading₁ onward promise).ok run
  · intro u reading' run
    cases ran : reader reading with
    | error u₁ reading₁ =>
        rw [Success.bind_of_error ran] at run
        cases run
        exact first.error ran
    | ok a reading₁ =>
        rw [Success.bind_of_ok ran] at run
        obtain ⟨onward, promise⟩ := first.ok ran
        exact onward.trans ((later a reading₁ onward promise).error run)

theorem Refuses.finds (refuses : Refuses reading reader) : Finds reading reader P :=
  refuses.mono fun _ _ impossible => impossible.2.elim

/-- Nothing comes behind a refusal. -/
theorem Refuses.bind (refuses : Refuses reading reader) :
    Finds reading (reader >>= next) after :=
  Reads.finds_bind refuses fun _ _ _ impossible => impossible.elim

/-- A check in front of the rest. -/
theorem Refuses.check {c : Prop} [Decidable c] {rest : Parser β} (refuses : Refuses reading reader)
    (ofRest : ¬ c → Finds reading rest after) :
    Finds reading (if c then reader >>= fun _ => rest else rest) after := by
  split
  · exact refuses.bind
  · rename_i passed
    exact ofRest passed

end Rules

namespace Reads

variable {reader : Parser α} {next : α → Parser β} {after : β → Reading → Prop}

theorem pure {a : α} (promise : P a reading) : Reads reading (Pure.pure a) P :=
  ⟨fun run => by cases run; exact ⟨.refl _, promise⟩, nofun⟩

theorem mono {P' : α → Reading → Prop} (reads : Reads reading reader P)
    (weaker : ∀ a reading', reading.Onward reading' → P a reading' → P' a reading') :
    Reads reading reader P' :=
  Finds.mono reads fun a reading' promised => ⟨promised.1, weaker a reading' promised.1 promised.2⟩

theorem bind (first : Reads reading reader Q)
    (later : ∀ a reading', reading.Onward reading' → Q a reading' →
      Reads reading' (next a) after) :
    Reads reading (reader >>= next) after :=
  first.finds_bind fun a reading' onward promise =>
    Finds.mono (later a reading' onward promise) fun _ _ promised =>
      ⟨onward.trans promised.1, promised.2⟩

theorem map {f : α → β} (reads : Reads reading reader P)
    (promise : ∀ a reading', P a reading' → after (f a) reading') :
    Reads reading (f <$> reader) after := by
  rw [map_eq_pure_bind]
  exact reads.bind fun a reading' _ promised => pure (promise a reading' promised)

theorem get : Reads reading (MonadState.get : Parser Reading)
    fun found reading' => reading = found ∧ reading = reading' :=
  ⟨fun run => by cases run; exact ⟨.refl _, rfl, rfl⟩, nofun⟩

/-- A part that may be left out, in front of the rest. -/
theorem optional {c : Prop} [Decidable c] {rest : Parser β}
    (ofFirst : Reads reading reader fun _ _ => True)
    (ofRest : ∀ reading', reading.Onward reading' → Reads reading' rest after) :
    Reads reading (if c then reader >>= fun _ => rest else rest) after := by
  split
  · exact ofFirst.bind fun _ reading' onward _ => ofRest reading' onward
  · exact ofRest reading (.refl _)

end Reads

section Basics

theorem reads_current : Reads reading current
    fun token reading' => reading.word = token ∧ reading = reading' :=
  Reads.get.bind fun _ _ _ found => .pure ⟨congrArg Reading.word found.1, found.2⟩

theorem reads_currentKind : Reads reading currentKind
    fun kind reading' => reading.word.kind = kind ∧ reading = reading' :=
  reads_current.bind fun _ _ _ found => .pure ⟨congrArg Token.kind found.1, found.2⟩

theorem reads_following : Reads reading following fun _ reading' => reading = reading' := by
  refine Reads.get.bind fun found reading' _ ⟨_, same⟩ => ?_
  split
  · exact .pure same
  · exact .pure same
  · exact .pure same

theorem reads_advance : Reads reading advance fun _ reading' => reading.advanced = reading' := by
  constructor
  · intro u reading' run
    rw [advance_eq] at run
    cases run
    exact ⟨reading.onward_advanced, rfl⟩
  · intro u reading' run
    rw [advance_eq] at run
    cases run

theorem reads_live? (name : String) : Reads reading (live? name) fun declared reading' =>
    reading.live.find? (fun declaration => declaration.name = name) = declared ∧
      reading = reading' :=
  Reads.get.bind fun _ _ _ found => .pure ⟨by rw [← found.1], found.2⟩

theorem refuses_reject (token : Token) (suggestion message : String) :
    Refuses reading (reject token suggestion message : Parser α) :=
  ⟨nofun, fun run => by cases run; exact ⟨⟨List.suffix_refl _, id, id⟩, rfl⟩⟩

theorem refuses_rejectCurrent (message : String) :
    Refuses reading (rejectCurrent message : Parser α) :=
  reads_current.bind fun _ _ _ _ => refuses_reject _ _ _

/-- Fewer words are left than in another reading. -/
abbrev Shorter (reading : Reading) : α → Reading → Prop :=
  fun _ reading' => reading'.tokens.length < reading.tokens.length

/-- A word that is not the end is taken. -/
theorem reads_take (ends : Ends reading.tokens) (other : reading.word.kind ≠ .eof) :
    Reads reading advance (Shorter reading) :=
  reads_advance.mono fun _ _ _ same => same ▸ Reading.length_advanced ends other

theorem reads_expect (ends : Ends reading.tokens) {kind : TokenKind} (other : kind ≠ .eof) :
    Reads reading (expect kind) (Shorter reading) := by
  refine reads_current.bind fun token reading' _ found => ?_
  obtain ⟨rfl, rfl⟩ := found
  split
  · rename_i same
    exact reads_take ends (same ▸ other)
  · exact (refuses_reject _ _ _).finds

end Basics

section Registers

variable {type : String} {size : Size}

/-- The loop over the suffixes ends because no colon follows. -/
theorem reads_suffix {steps : Nat} (ends : Ends reading.tokens)
    (enough : reading.tokens.length ≤ steps) :
    Reads reading (suffix steps type size) fun _ reading' => reading'.word.kind ≠ .colon := by
  induction steps generalizing reading type size with
  | zero =>
      have some := List.length_pos_iff.mpr ends.ne_nil
      omega
  | succ steps inductionHypothesis =>
      -- a round takes the colon and at least one word more
      have again : ∀ (reading₁ : Reading) type size, reading.Onward reading₁ →
          reading₁.tokens.length < reading.tokens.length →
          Reads reading₁ (do advance; suffix steps type size)
            fun _ reading' => reading'.word.kind ≠ .colon := by
        intro reading₁ type size onward shorter
        refine reads_advance.bind fun _ reading₂ onward₂ _ => ?_
        have fewer := onward₂.length_le
        exact inductionHypothesis ((onward.trans onward₂).ends ends) (by omega)
      refine reads_currentKind.bind fun kind reading' _ found => ?_
      obtain ⟨rfl, rfl⟩ := found
      split
      · rename_i other
        exact .pure other
      · rename_i colon
        have other : reading.word.kind ≠ .eof := by
          rw [not_not.mp colon]
          decide
        refine (reads_take ends other).bind fun _ reading₁ onward shorter => ?_
        refine reads_current.bind fun token reading' _ found => ?_
        obtain ⟨rfl, rfl⟩ := found
        split
        · exact (refuses_rejectCurrent _).check fun _ => again _ _ _ onward shorter
        · dsimp only
          split
          · exact again _ _ _ onward shorter
          · exact (refuses_rejectCurrent _).finds
        · exact (refuses_rejectCurrent _).finds

theorem reads_suffixes (ends : Ends reading.tokens) :
    Reads reading (suffixes type size) fun _ reading' => reading'.word.kind ≠ .colon := by
  refine Reads.get.bind fun found reading' _ same => ?_
  obtain ⟨rfl, rfl⟩ := same
  exact reads_suffix ends (Nat.le_refl _)

/-- A register by its declared name is in force. -/
def Known (live : List Alloc) (ref : RegRef) : Prop :=
  ref.named = true → ∃ declaration ∈ live, declaration.name = ref.name

theorem reads_register (ends : Ends reading.tokens) (other : reading.word.kind ≠ .eof)
    (pos : Pos) :
    Reads reading (register pos) fun ref reading' =>
      Known reading.live ref ∧ Shorter reading ref reading' := by
  have rest : ∀ found : RegRef, Known reading.live found → Reads reading (do
      advance
      let given ← suffixes found.type found.size
      return { found with type := given.1, size := given.2 }) fun ref reading' =>
        Known reading.live ref ∧ Shorter reading ref reading' := by
    intro found known
    refine (reads_take ends other).bind fun _ reading₁ onward shorter => ?_
    refine (reads_suffixes (onward.ends ends)).bind fun _ reading₂ onward₂ _ => .pure ⟨known, ?_⟩
    exact Nat.lt_of_le_of_lt onward₂.length_le shorter
  refine reads_current.bind fun token reading' _ same => ?_
  obtain ⟨rfl, rfl⟩ := same
  refine (reads_live? _).bind fun declared reading' _ found => ?_
  obtain ⟨rfl, rfl⟩ := found
  dsimp only
  split
  · rename_i declaration known
    have same : declaration.name = reading.word.text := by simpa using List.find?_some known
    rw [pure_bind]
    exact rest _ fun _ => ⟨declaration, List.mem_of_find?_eq_some known, same⟩
  · rw [pure_bind]
    exact rest _ nofun
  · refine Reads.get.bind fun _ _ _ _ => ?_
    exact (refuses_reject _ _ _).bind

/-- Behind the mark of a variable stands its name. -/
theorem reads_varRef (ends : Ends reading.tokens) (other : reading.word.kind ≠ .eof) (pos : Pos) :
    Reads reading (varRef pos) (Shorter reading) := by
  refine (reads_take ends other).bind fun _ reading₁ onward shorter => ?_
  refine reads_current.bind fun token reading' _ found => ?_
  obtain ⟨rfl, rfl⟩ := found
  refine (refuses_rejectCurrent _).check fun _ => ?_
  refine reads_advance.bind fun _ reading₂ onward₂ _ => .pure ?_
  have fewer := onward₂.length_le
  dsimp only [Shorter] at shorter ⊢
  omega

end Registers

/-- An operand with values for its literals, whose named register is declared and in force. -/
structure Grounded (live : List Alloc) (term : Term) : Prop where
  valued : term.Valued
  based : term.Based
  named : ∀ ref, term.register? = some ref → Known live ref

/-- A grounded operand was read, and some word was taken for it. -/
abbrev Operand (reading : Reading) : Term → Reading → Prop :=
  fun term reading' => Grounded reading.live term ∧ Shorter reading term reading'

section Operands

/-- An operand that was read behind some words. -/
theorem Reads.behind {reader : Parser Term} {reading₁ : Reading}
    (reads : Reads reading₁ reader (Operand reading₁)) (onward : reading.Onward reading₁) :
    Reads reading₁ reader (Operand reading) :=
  reads.mono fun _ _ _ operand =>
    ⟨onward.live ▸ operand.1, Nat.lt_of_lt_of_le operand.2 onward.length_le⟩

theorem reads_displacement : Reads reading displacement fun _ _ => True := by
  refine reads_currentKind.bind fun sign _ _ _ => ?_
  split
  · exact .pure trivial
  · refine reads_advance.bind fun _ _ _ _ => reads_current.bind fun token _ _ _ => ?_
    refine (refuses_rejectCurrent _).check fun _ => ?_
    split
    · exact reads_advance.bind fun _ _ _ _ => .pure trivial
    · exact (refuses_rejectCurrent _).finds

/-- The base of an address is in force if it is a named register. -/
def BaseKnown (live : List Alloc) : BaseRef → Prop
  | .reg ref => Known live ref
  | .var _ => True

theorem grounded_mem {live : List Alloc} {base : BaseRef} (known : BaseKnown live base) (pos : Pos)
    (size : Size) (disp : Int32) : Grounded live (.mem pos size base disp) := by
  cases base with
  | var ref => exact ⟨trivial, .inr ⟨ref, rfl⟩, nofun⟩
  | reg ref =>
      refine ⟨trivial, .inl ⟨ref, rfl⟩, fun other same => ?_⟩
      cases same
      exact known

theorem reads_memory (ends : Ends reading.tokens) (pos : Pos) (size : Size) :
    Reads reading (memory pos size) (Operand reading) := by
  refine (reads_expect ends (by decide)).bind fun _ reading₁ onward shorter => ?_
  have ends₁ := onward.ends ends
  have rest : ∀ base (reading₂ : Reading), reading₁.Onward reading₂ →
      BaseKnown reading.live base → Reads reading₂ (do
        let disp ← displacement
        expect .rightBracket
        return Term.mem pos size base disp) (Operand reading) := by
    intro base reading₂ onward₂ known
    refine reads_displacement.bind fun disp reading₃ onward₃ _ => ?_
    have ends₃ := (onward₂.trans onward₃).ends ends₁
    refine (reads_expect ends₃ (by decide)).bind fun _ reading₄ onward₄ _ => .pure ?_
    have fewer := (onward₂.trans (onward₃.trans onward₄)).length_le
    exact ⟨grounded_mem known _ _ _, Nat.lt_of_le_of_lt fewer shorter⟩
  refine reads_current.bind fun token reading' _ found => ?_
  obtain ⟨rfl, rfl⟩ := found
  dsimp only
  split
  · rename_i dollar
    have var : Reads reading₁ (BaseRef.var <$> varRef reading₁.word.pos)
        fun base _ => BaseKnown reading.live base :=
      (reads_varRef ends₁ (by rw [dollar]; decide) _).map fun _ _ _ => trivial
    exact var.bind rest
  · rename_i ident
    have reg : Reads reading₁ (BaseRef.reg <$> register reading₁.word.pos)
        fun base _ => BaseKnown reading.live base :=
      (reads_register ends₁ (by rw [ident]; decide) _).map fun _ _ known => onward.live ▸ known.1
    exact reg.bind rest
  · exact (refuses_rejectCurrent _).bind

theorem reads_digits (ends : Ends reading.tokens) (other : reading.word.kind ≠ .eof) (pos : Pos)
    (negative : Bool) : Reads reading (digits pos negative) (Operand reading) := by
  refine reads_current.bind fun token reading' _ found => ?_
  obtain ⟨rfl, rfl⟩ := found
  dsimp only
  split
  · rename_i word bits
    exact (reads_take ends other).bind fun _ _ _ shorter =>
      .pure ⟨⟨⟨word, bits⟩, trivial, nofun⟩, shorter⟩
  · exact (refuses_rejectCurrent _).finds

theorem reads_number (ends : Ends reading.tokens) (other : reading.word.kind ≠ .eof) (pos : Pos) :
    Reads reading (number pos) (Operand reading) := by
  refine reads_currentKind.bind fun kind reading' _ found => ?_
  obtain ⟨rfl, rfl⟩ := found
  dsimp only
  split
  · refine (reads_take ends other).bind fun _ reading₁ onward _ => ?_
    refine reads_current.bind fun token reading' _ found => ?_
    obtain ⟨rfl, rfl⟩ := found
    refine (refuses_rejectCurrent _).check fun number => ?_
    have other₁ : reading₁.word.kind ≠ .eof := by
      rw [not_not.mp number]
      decide
    exact (reads_digits (onward.ends ends) other₁ _ _).behind onward
  · exact reads_digits ends other _ _

theorem valued_ofBool (pos : Pos) (value : Bool) : (Term.lit pos (.ofBool value)).Valued := by
  cases value with
  | false => exact ⟨0, by decide⟩
  | true => exact ⟨1, by decide⟩

theorem reads_operand (ends : Ends reading.tokens) :
    Reads reading operand (Operand reading) := by
  refine reads_current.bind fun token reading' _ found => ?_
  obtain ⟨rfl, rfl⟩ := found
  have other : ∀ kind, reading.word.kind = kind → kind ≠ .eof → reading.word.kind ≠ .eof :=
    fun kind same other => same ▸ other
  split
  · rename_i dollar
    exact (reads_varRef ends (other _ dollar (by decide)) _).map fun _ _ shorter =>
      ⟨⟨trivial, trivial, nofun⟩, shorter⟩
  · exact reads_memory ends _ _
  · rename_i number
    exact reads_number ends (other _ number (by decide)) _
  · rename_i minus
    exact reads_number ends (other _ minus (by decide)) _
  · rename_i ident
    have other := other _ ident (by decide)
    refine reads_following.bind fun second reading' _ same => ?_
    obtain rfl := same
    split
    · refine reads_advance.bind fun _ reading₁ onward _ => ?_
      refine .optional (reads_advance.mono fun _ _ _ _ => trivial) fun reading₂ onward₂ => ?_
      have onward := onward.trans onward₂
      exact (reads_memory (onward.ends ends) _ _).behind onward
    · split
      · exact (reads_take ends other).bind fun _ _ _ shorter =>
          .pure ⟨⟨valued_ofBool _ _, trivial, nofun⟩, shorter⟩
      · refine (reads_register ends other _).map fun ref _ known =>
          ⟨⟨trivial, trivial, fun other same => ?_⟩, known.2⟩
        cases same
        exact known.1
  · exact (refuses_rejectCurrent _).finds

end Operands

end Parser

end X64Backend.Block
