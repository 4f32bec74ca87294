import X64Backend.Proofs.Block.Operands

/-!
The grammar is accepted.  The readers of statements find what a statement means, and a text that
spells a block is read as what the block means.
-/

namespace X64Backend.Block

open Grammar

namespace Parser

variable {α β γ : Type} {reading : Reading} {words follow : List Word} {word : Word}

section Instructions

theorem takes_check {position : Position} {term : Term} (takes : position.Takes term)
    (token : Token) (mnemonic : String) (index : Nat) :
    Takes reading (check token mnemonic index position term) [] follow
      fun _ after => reading = after := by
  have accepted : ∀ {c : Bool} message, c = true →
      Takes reading (if c then pure () else reject token "" message : Parser Unit) [] follow
        fun _ after => reading = after := by
    intro c message holds
    rw [if_pos holds]
    exact .pure rfl
  cases term with
  | var ref => exact accepted _ takes
  | reg ref => exact accepted _ takes
  | mem pos size base disp => exact accepted _ takes
  | lit pos value => exact accepted _ takes

/-- The operands of an instruction end here. -/
def ClosesList (words : List Word) : Prop :=
  ∃ c ∈ [';', '\x7d'], ∃ more, words = .mark c :: more

theorem ClosesList.closes (closes : ClosesList follow) {arguments : List Argument} :
    Closes (argumentWords true arguments ++ follow) := by
  cases arguments with
  | nil =>
      obtain ⟨c, known, more, rfl⟩ := closes
      exact ⟨c, List.mem_cons_of_mem _ known, more, rfl⟩
  | cons argument arguments => exact ⟨',', List.mem_cons_self, _, rfl⟩

/-- Where the operands do not end, one more is read. -/
theorem operands_succ {mnemonic : String} {spec : Spec} {steps : Nat} {terms : List Term}
    {P : List Term → Reading → Prop} (isNext : (words ++ follow).head? = some word)
    (more : word.kind ∉ [.semicolon, .rightBrace, .eof])
    (later : Takes reading (do
      if !terms.isEmpty then expect .comma
      let token ← current
      let term ← operand
      match spec.positions[terms.length]? with
      | some position => check token mnemonic terms.length position term
      | none => pure ()
      operands mnemonic spec steps (terms ++ [term])) words follow P) :
    Takes reading (operands mnemonic spec (steps + 1) terms) words follow P := by
  unfold operands
  refine .currentKind_bind isNext ?_
  split
  · rename_i semicolon
    simp [semicolon] at more
  · rename_i rightBrace
    simp [rightBrace] at more
  · rename_i eof
    simp [eof] at more
  · exact later

/-- Operands that were read among others that their positions take. -/
theorem takes_operands {mnemonic : String} {spec : Spec} {steps : Nat} {arguments : List Argument}
    {meaning : List Term} {terms : List Term}
    (means : List.Forall₂ (fun argument term => argument.term? reading.scope.live = some term)
      arguments meaning)
    (fit : Fit spec.positions (terms.map Term.unplaced ++ meaning)) (closes : ClosesList follow)
    (enough : arguments.length ≤ steps) :
    Takes reading (operands mnemonic spec steps terms)
      (argumentWords (!terms.isEmpty) arguments) follow
      (Meant reading (List.map Term.unplaced) (terms.map Term.unplaced ++ meaning)) := by
  induction means generalizing steps terms with
  | nil =>
      rw [List.append_nil]
      cases steps with
      | zero => exact .pure ⟨rfl, rfl⟩
      | succ steps =>
          obtain ⟨c, known, more, rfl⟩ := closes
          unfold operands
          refine .currentKind_bind rfl ?_
          have ends : ∀ c ∈ [';', '\x7d'], (Word.mark c).kind = .semicolon ∨
              (Word.mark c).kind = .rightBrace := forall_of_all (by decide)
          rcases ends c known with semicolon | rightBrace
          · rw [semicolon]
            exact .pure ⟨rfl, rfl⟩
          · rw [rightBrace]
            exact .pure ⟨rfl, rfl⟩
  | @cons argument term arguments meaning first _ inductionHypothesis =>
      obtain ⟨steps, rfl⟩ := Nat.exists_eq_add_one.mpr (Nat.zero_lt_of_lt enough)
      obtain ⟨word, more, starts, other⟩ := argument.starts
      have round : Takes reading (do
          let token ← current
          let term ← operand
          match spec.positions[terms.length]? with
          | some position => check token mnemonic terms.length position term
          | none => pure ()
          operands mnemonic spec steps (terms ++ [term]))
          (argument.words ++ argumentWords true arguments) follow
          (Meant reading (List.map Term.unplaced)
            (terms.map Term.unplaced ++ term :: meaning)) := by
        have isNext : (argument.words ++ argumentWords true arguments ++ follow).head? =
            some word := by rw [starts]; rfl
        refine .current_bind isNext fun pos => ?_
        refine (takes_operand first closes.closes).bind fun found after same => ?_
        obtain ⟨rfl, rfl⟩ := same
        have later : Takes reading (operands mnemonic spec steps (terms ++ [found]))
            (argumentWords true arguments) follow (Meant reading (List.map Term.unplaced)
              (terms.map Term.unplaced ++ found.unplaced :: meaning)) := by
          have fit' : Fit spec.positions ((terms ++ [found]).map Term.unplaced ++ meaning) := by
            simpa using fit
          have read := inductionHypothesis fit' (Nat.le_of_succ_le_succ enough)
          have behind : (!(terms ++ [found]).isEmpty) = true := by simp
          rw [behind, List.map_append, List.append_assoc] at read
          exact read
        split
        · rename_i position known
          have takes : position.Takes found := by
            rw [← Position.takes_unplaced]
            exact fit terms.length position _ known (by simp)
          rw [← List.nil_append (argumentWords true arguments)]
          exact (takes_check takes _ _ _).bind fun _ after same => same ▸ later
        · exact later
      cases terms with
      | nil =>
          have isNext : (argumentWords false (argument :: arguments) ++ follow).head? =
              some word := by simp [argumentWords, starts]
          exact operands_succ isNext other round
      | cons head tail =>
          exact operands_succ rfl (by decide) (.expect_bind rfl round)

theorem takes_instruction {mnemonic : String} {spec : Spec} {arguments : List Argument}
    {meaning : List Term} {returned : Bool}
    (means : List.Forall₂ (fun argument term => argument.term? reading.scope.live = some term)
      arguments meaning)
    (sound : Instruction.Sound ⟨.nowhere, lowerCase mnemonic, spec, meaning, returned⟩)
    (destination : returned = true → spec.arity ≠ 0) (closes : ClosesList follow) (pos : Pos) :
    Takes reading (instruction pos returned spec)
      (.name mnemonic :: argumentWords false arguments) follow
      (Meant reading Statement.unplaced
        (.instr ⟨.nowhere, lowerCase mnemonic, spec, meaning, returned⟩)) := by
  refine .current_bind rfl fun _ => .advance_bind (.get_bind fun tokens same => ?_)
  have enough : arguments.length ≤ tokens.length := by
    have shorter := length_argumentWords false arguments
    have length := congrArg List.length same
    rw [List.length_map, List.length_append] at length
    omega
  have read : Takes reading (operands (lowerCase mnemonic) spec tokens.length [])
      (argumentWords false arguments) follow (Meant reading (List.map Term.unplaced) meaning) :=
    takes_operands means sound.fit closes enough
  refine read.last fun terms after same => ?_
  obtain ⟨rfl, rfl⟩ := same
  have arity : terms.length = spec.arity := (List.length_map Term.unplaced).symm.trans sound.arity
  have cells : terms.countP isMemory ≤ 1 := by
    have few := sound.cells
    simpa only [List.countP_map, Function.comp_def, isMemory_unplaced] using few
  have differ : ¬ (spec.arity = 2 && terms.all isMemory) = true := by
    intro both
    obtain ⟨two, every⟩ := (Bool.and_eq_true _ _).mp both
    have all : terms.countP isMemory = terms.length :=
      List.countP_eq_length.mpr (List.all_eq_true.mp every)
    have two := of_decide_eq_true two
    omega
  rw [if_neg (not_not.mpr arity), if_neg (by simpa using destination), if_neg differ]
  exact .pure ⟨rfl, rfl⟩

end Instructions

/-- Nothing was reported. -/
structure Silent (reading reading' : Reading) : Prop where
  name : reading'.name = reading.name
  collector : reading'.collector = reading.collector
  failed : reading'.failed = reading.failed

theorem Silent.trans {reading reading₁ reading₂ : Reading} (first : Silent reading reading₁)
    (second : Silent reading₁ reading₂) : Silent reading reading₂ :=
  ⟨second.name.trans first.name, second.collector.trans first.collector,
    second.failed.trans first.failed⟩

/-- What was found is what is meant, the names are those behind it, and nothing was reported. -/
structure Stated (reading : Reading) (unplaced : α → γ) (meaning : γ) (scope : Scope) (found : α)
    (after : Reading) : Prop extends Silent reading after where
  meant : unplaced found = meaning
  scope : after.scope = scope

section Statements

theorem takes_allocTail {tail : Tail} {own : Option Phys} {ownSize : Size}
    {binding : Option Phys × String × Size} (means : tail.binding? own ownSize = some binding)
    (name : String) :
    Takes reading (allocTail name own ownSize) tail.words (.mark ';' :: follow)
      (Meant reading id binding) := by
  cases tail with
  | register text =>
      obtain ⟨given, known, means⟩ := Option.bind_eq_some_iff.mp means
      obtain ⟨unbound, means⟩ := Option.ite_none_left_eq_some.mp means
      cases means
      refine .current_bind rfl fun pos => ?_
      dsimp only [Word.name]
      rw [known]
      dsimp only
      rw [if_neg unbound]
      exact .advance_bind (.pure ⟨rfl, rfl⟩)
  | suffix given =>
      obtain ⟨found, suffixed, means⟩ := Option.bind_eq_some_iff.mp means
      cases means
      have semicolon : NoColon (.mark ';' :: follow) := ⟨_, rfl, by decide⟩
      have rest : Takes reading (do
          let suffixed ← suffixes "" ownSize
          return (own, suffixed.1, suffixed.2)) given.words (.mark ';' :: follow)
          (Meant reading id (own, found.1, found.2)) := by
        refine (takes_suffixes suffixed semicolon).last fun read after same => ?_
        obtain ⟨rfl, rfl⟩ := same
        exact .pure ⟨rfl, rfl⟩
      obtain ⟨word, isNext, other⟩ : ∃ word : Word,
          (given.words ++ .mark ';' :: follow).head? = some word ∧ word.kind ≠ .ident := by
        obtain ⟨type?, width?⟩ := given
        cases type? with
        | some type => exact ⟨_, rfl, by decide⟩
        | none =>
            cases width? with
            | some digits => exact ⟨_, rfl, by decide⟩
            | none => exact ⟨_, rfl, by decide⟩
      refine .current_bind isNext fun pos => ?_
      split
      · rename_i ident
        exact absurd ident other
      · exact rest

theorem find?_live {name : String} :
    reading.live.find? (fun declaration => declaration.name = name) = none ↔
      ∀ declaration ∈ reading.scope.live, declaration.name ≠ name := by
  simp [Reading.scope, Alloc.unplaced]

theorem takes_alloc {name : String} {tail : Tail} {phys : Option Phys} {type : String} {size : Size}
    (unused : ∀ declaration ∈ reading.scope.live, declaration.name ≠ name)
    (unreserved : isReserved name = false)
    (bound : tail.binding? (own name).1 (own name).2 = some (phys, type, size))
    (bindable : Bindable phys size) (pos : Pos) :
    Takes reading (alloc pos) (.name "alloc" :: .name name :: tail.words) (.mark ';' :: follow)
      (Stated reading Statement.unplaced (.alloc ⟨.nowhere, name, phys, type, size⟩)
        { reading.scope with
          live := ⟨.nowhere, name, phys, type, size⟩ :: reading.scope.live
          decls := ⟨.nowhere, name, phys, type, size⟩ :: reading.scope.decls }) := by
  refine .advance_bind (.current_bind rfl fun _ => ?_)
  dsimp only [Word.name]
  rw [if_neg (by simp)]
  refine .advance_bind (.live?_bind ?_)
  rw [find?_live.mpr unused, if_neg (by simp), if_neg (by simp [unreserved])]
  refine (takes_allocTail bound name).last fun found after same => ?_
  obtain ⟨rfl, rfl⟩ := same
  have general : ¬ (phys = some .rsp || phys = some .rbp) = true := by
    simp [bindable.stack, bindable.frame]
  have named : ¬ (size = .high8 && !phys.any Phys.hasHigh8) = true := by
    simpa using bindable.upper
  dsimp only [id]
  rw [if_neg general, if_neg named]
  exact .modify_bind (fun _ => rfl) (.pure ⟨⟨rfl, rfl, rfl⟩, rfl, rfl⟩)

theorem takes_free {name : String}
    (used : ∃ declaration ∈ reading.scope.live, declaration.name = name) (pos : Pos) :
    Takes reading (free pos) [.name "free", .name name] (.mark ';' :: follow)
      (Stated reading Statement.unplaced (.free .nowhere name false)
        { reading.scope with
          live := reading.scope.live.filter fun declaration => declaration.name ≠ name
          freed := name :: reading.scope.freed }) := by
  refine .advance_bind (.current_bind rfl fun _ => ?_)
  dsimp only [Word.name]
  rw [if_neg (by simp)]
  refine .advance_bind (.live?_bind ?_)
  have found : reading.live.find? (fun declaration => declaration.name = name) ≠ none := by
    obtain ⟨declaration, member, same⟩ := used
    exact fun none => find?_live.mp none declaration member same
  rw [if_neg (by simpa using found)]
  refine .modify_bind (fun _ => rfl) (.pure ⟨⟨rfl, rfl, rfl⟩, rfl, ?_⟩)
  simp only [Reading.scope, List.filter_map]
  rfl

/-- A mark is read where it stands, and makes the statement the first one that returns a value. -/
theorem takes_returnMark (returned : Bool) (isNext : follow.head? = some word)
    (other : word.kind = .ident → word.text = "return" → returned = true)
    (first : returned = true → reading.returned = false) :
    Takes reading returnMark (if returned then [.name "return"] else []) follow
      fun mark after => mark = returned ∧ reading.marked returned = after := by
  cases returned with
  | false =>
      refine .current_bind isNext fun pos => ?_
      rw [if_neg (by simpa using other)]
      exact .pure ⟨rfl, by simp [Reading.marked]⟩
  | true =>
      refine .current_bind rfl fun pos => ?_
      rw [if_pos (by simp [Word.name])]
      refine .advance_bind (.get_bind fun tokens _ => ?_)
      rw [if_neg (by simp [Reading.facing, first])]
      exact .modify_bind (fun _ => rfl) (.pure ⟨rfl, by simp [Reading.marked]⟩)

theorem takes_statement {line : Line} {meaning : Statement} {scope : Scope}
    (means : line.Means reading.scope meaning scope) :
    Takes reading statement line.words (.mark ';' :: follow)
      (Stated reading Statement.unplaced meaning scope) := by
  cases means with
  | @alloc name tail phys type size unused unreserved bound bindable =>
      refine .current_bind rfl fun pos => ?_
      refine (takes_returnMark false rfl (by decide) nofun).bind fun mark after same => ?_
      obtain ⟨rfl, rfl⟩ := same
      rw [Reading.marked, Bool.or_false]
      exact .current_bind rfl fun _ => takes_alloc unused unreserved bound bindable pos
  | free used =>
      refine .current_bind rfl fun pos => ?_
      refine (takes_returnMark false rfl (by decide) nofun).bind fun mark after same => ?_
      obtain ⟨rfl, rfl⟩ := same
      rw [Reading.marked, Bool.or_false]
      exact .current_bind rfl fun _ => takes_free used pos
  | @instr returned mnemonic arguments spec terms known means sound first =>
      have other : mnemonic ≠ "alloc" ∧ mnemonic ≠ "free" ∧ mnemonic ≠ "return" := by
        have unknown : ∀ word ∈ ["alloc", "free", "return"], spec? (lowerCase word) = none := by
          decide
        have differ : ∀ word ∈ ["alloc", "free", "return"], mnemonic ≠ word := by
          rintro word member rfl
          rw [unknown _ member] at known
          cases known
        simpa using differ
      have isNext : ((if returned then [Word.name "return"] else []) ++
          .name mnemonic :: argumentWords false arguments ++ .mark ';' :: follow).head? =
            some (.name (if returned then "return" else mnemonic)) := by
        cases returned with
        | false => rfl
        | true => rfl
      refine .current_bind isNext fun pos => ?_
      refine (takes_returnMark returned rfl (fun _ same => absurd same other.2.2)
        fun marked => (first marked).1).bind fun mark after same => ?_
      obtain ⟨rfl, rfl⟩ := same
      refine .current_bind rfl fun _ => ?_
      dsimp only [Word.name]
      rw [if_pos rfl, if_neg (by simp [other]), known]
      have closes : ClosesList (.mark ';' :: follow) := ⟨';', by decide, follow, rfl⟩
      have means : List.Forall₂ (fun argument term =>
          argument.term? (reading.marked mark).scope.live = some term) arguments terms := means
      refine (takes_instruction means sound (fun marked => (first marked).2) closes pos).mono
        fun found after same => ?_
      obtain ⟨meant, rfl⟩ := same
      exact ⟨⟨rfl, rfl, rfl⟩, meant, rfl⟩
  | @value argument term means unreserved first =>
      obtain ⟨word, more, starts, plain⟩ := argument.starts_plain means unreserved
      have isNext : (argument.words ++ .mark ';' :: follow).head? = some word := by
        rw [starts]
        rfl
      refine .current_bind rfl fun pos => ?_
      refine (takes_returnMark true isNext (fun _ _ => rfl) fun _ => first).bind
        fun mark after same => ?_
      obtain ⟨rfl, rfl⟩ := same
      have value : Takes (reading.marked true) (valueStatement pos) argument.words
          (.mark ';' :: follow) (Stated reading Statement.unplaced (.value .nowhere term)
            { reading.scope with returned := true }) := by
        have means : argument.term? (reading.marked true).scope.live = some term := means
        refine (takes_operand means ⟨';', by decide, follow, rfl⟩).last fun found after same => ?_
        obtain ⟨rfl, rfl⟩ := same
        refine .pure ⟨⟨rfl, rfl, rfl⟩, rfl, ?_⟩
        simp [Reading.scope, Reading.marked]
      refine .current_bind isNext fun _ => ?_
      dsimp only
      split
      · rename_i ident
        have reserved := plain ident
        simp only [isReserved, isMnemonic, Bool.or_eq_false_iff, decide_eq_false_iff_not]
          at reserved
        obtain ⟨⟨⟨unknown, alloc⟩, free⟩, -⟩ := reserved
        have unknown : spec? (lowerCase word.text) = none := by simpa using unknown
        rw [if_neg (by simp [alloc, free]), unknown]
        exact value
      · exact value

end Statements

section Blocks

theorem takes_attempt {reader : Parser α} {P : α → Reading → Prop}
    (takes : Takes reading reader words follow P) :
    Takes reading (attempt reader) words follow
      fun result after => ∃ a, result = some a ∧ P a after := by
  intro front rest same behind some
  obtain ⟨a, after, ran, promise⟩ := takes front rest same behind some
  exact ⟨Option.some a, after, by rw [attempt, ran], a, rfl, promise⟩

theorem endStatement_bind {next : Unit → Parser β} {P : β → Reading → Prop}
    (later : Takes reading (next ()) words follow P) :
    Takes reading (endStatement >>= next) (.mark ';' :: words) follow P := by
  unfold endStatement
  rw [bind_assoc]
  have known : (Word.mark ';').kind = .semicolon := by decide
  refine .current_bind rfl fun pos => ?_
  rw [if_pos known]
  exact .advance_bind later

/-- Each round of the loop reads one statement. -/
theorem takes_statements {steps : Nat} {lines : List Line} {meaning : List Statement}
    {before scope : Scope} (means : Means before lines meaning scope)
    (known : reading.scope = before) (enough : lines.length ≤ steps) :
    Takes reading (statements steps) (bodyWords lines) (.mark '\x7d' :: follow)
      (Stated reading (List.map Statement.unplaced) meaning scope) := by
  induction means generalizing reading steps with
  | nil =>
      cases steps with
      | zero => exact .pure ⟨⟨rfl, rfl, rfl⟩, rfl, known⟩
      | succ steps => exact .currentKind_bind rfl (.pure ⟨⟨rfl, rfl, rfl⟩, rfl, known⟩)
  | @cons scope scope₁ scope₂ line lines statement meaning first _ inductionHypothesis =>
      obtain ⟨steps, rfl⟩ := Nat.exists_eq_add_one.mpr (Nat.zero_lt_of_lt enough)
      obtain ⟨text, more, starts⟩ := line.starts
      subst known
      rw [bodyWords_cons]
      have isNext : (line.words ++ (.mark ';' :: bodyWords lines) ++ .mark '\x7d' :: follow).head? =
          some (.name text) := by
        rw [starts]
        rfl
      refine .currentKind_bind isNext ?_
      dsimp only [Word.name]
      refine (takes_attempt (takes_statement first)).bind fun _ after ⟨found, same, stated⟩ => ?_
      subst same
      refine endStatement_bind ?_
      have rest := inductionHypothesis stated.scope (Nat.le_of_succ_le_succ enough)
      refine rest.last fun others last told => .pure ?_
      exact ⟨stated.toSilent.trans told.toSilent, congrArg₂ List.cons stated.meant told.meant,
        told.scope⟩

/-- A block is read as what it means. -/
theorem takes_block {lines : List Line} {meaning : List Statement} {scope : Scope}
    (means : Means reading.scope lines meaning scope) :
    Takes reading block (blockWords lines) [.stop] fun found after =>
      found.unplaced = scope.close reading.name meaning ∧ Silent reading after := by
  refine .get_bind fun _ _ => ?_
  refine (takes_attempt (.expect rfl)).bind fun result after ⟨_, isSome, same⟩ => ?_
  subst isSome same
  refine .get_bind fun tokens same => ?_
  have enough : lines.length ≤ tokens.length := by
    have shorter := length_bodyWords lines
    have length : (tokens.map Token.word).length =
        (bodyWords lines ++ [Word.mark '\x7d'] ++ [Word.stop]).length := congrArg List.length same
    simp only [List.length_map, List.length_append] at length
    omega
  refine (takes_statements means rfl enough).bind fun found after told => ?_
  refine (takes_attempt (.expect rfl)).last fun _ after' ⟨_, _, same⟩ => ?_
  subst same
  refine .current_bind rfl fun pos => ?_
  rw [if_neg (by simp [Word.stop])]
  refine .get_bind fun _ _ => .pure ⟨?_, told.toSilent⟩
  obtain ⟨-, rfl, rfl⟩ := told
  simp only [Block.unplaced, Scope.close, Reading.scope, Reading.facing, List.map_append,
    List.map_map, ← List.map_reverse, List.filter_map]
  rfl

end Blocks

end Parser

/-- The grammar is accepted.  A text that spells a block is read as what the block means, and
nothing is reported. -/
theorem parse_of_spells {source : String} {lines : List Line} {meaning : List Statement}
    {scope : Scope} (spells : Spells source.toList (blockWords lines))
    (means : Means .fresh lines meaning scope) (name : String) (collector : Collector) :
    ∃ block, parse name source collector = ⟨block, true, collector⟩ ∧
      block.unplaced = scope.close name meaning := by
  have words := spells.word_tokens
  obtain ⟨front, rest, same, isBlock, isStop⟩ := List.map_eq_append_iff.mp words
  have some : rest ≠ [] := by
    rintro rfl
    cases isStop
  let start : Reading := ⟨front ++ rest, name, collector, false, [], [], [], false⟩
  have takes : Parser.Takes start Parser.block (blockWords lines) [.stop] _ :=
    Parser.takes_block means
  obtain ⟨block, after, ran, meant, silent⟩ := takes front rest isBlock isStop some
  refine ⟨block, ?_, meant⟩
  have ran : Parser.block start = .ok block (after.facing rest) := ran
  have kept : (after.facing rest).failed = false ∧ (after.facing rest).collector = collector :=
    ⟨silent.failed, silent.collector⟩
  simp only [parse, parseBytes, same]
  rw [ran]
  simp only [kept]
  rfl

end X64Backend.Block
