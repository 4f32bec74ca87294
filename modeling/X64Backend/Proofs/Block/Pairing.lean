import X64Backend.Proofs.Block.Total

/-!
Declarations and returns of a name come in turns.

The first statement that concerns a name declares it, and from then on returns and declarations
alternate.  A name that the block itself never gives back is given back at its end.  Whether it
ever did is known by the name alone, so a name that is declared a second time, behind a return, is
not given back at the end: its last declaration may stay open.
-/

namespace X64Backend.Block

/-- The name that a statement declares or gives back. -/
def Statement.subject? : Statement → Option String
  | .alloc declaration => some declaration.name
  | .free _ name _ => some name
  | _ => none

/-- The declaration that a statement is. -/
def Statement.declared? : Statement → Option Alloc
  | .alloc declaration => some declaration
  | _ => none

/-- The name that a statement gives back. -/
def Statement.freed? : Statement → Option String
  | .free _ name _ => some name
  | _ => none

theorem Statement.subject?_of_freed? {statement : Statement} {name : String}
    (returns : statement.freed? = some name) : statement.subject? = some name := by
  cases statement with
  | free pos freed implicit => exact returns
  | _ => cases returns

/-- The first of some statements that concerns a name. -/
def next? (statements : List Statement) (name : String) : Option Statement :=
  statements.find? fun statement => statement.subject? = some name

/-- A block whose declarations and returns come in turns. -/
structure Paired (block : Block) : Prop where
  /-- A name is declared first. -/
  first : ∀ name statement, next? block.statements name = some statement →
    ∃ declaration, statement = .alloc declaration
  /-- Behind a return, a name may only be declared again. -/
  afterFree : ∀ before pos name implicit after,
    block.statements = before ++ .free pos name implicit :: after →
      ∀ statement, next? after name = some statement → ∃ declaration, statement = .alloc declaration
  /-- Behind its declaration a name is given back, unless it was before and nothing more concerns
  it. -/
  afterAlloc : ∀ before declaration after,
    block.statements = before ++ .alloc declaration :: after →
      (∃ pos implicit,
        next? after declaration.name = some (.free pos declaration.name implicit)) ∨
      declaration.name ∈ before.filterMap Statement.freed? ∧ next? after declaration.name = none
  decls : block.decls = block.statements.filterMap Statement.declared?
  /-- What the block itself does not give back is given back at the end, in the order of
  declaration. -/
  closing : ∃ written, (∀ statement ∈ written, statement.isImplicit = false) ∧
    block.statements = written ++ (block.decls.filter fun declaration =>
      declaration.name ∉ written.filterMap Statement.freed?).map fun declaration =>
        .free declaration.pos declaration.name true

/-- The declarations in force behind some statements. -/
def liveBehind (live : List Alloc) (statements : List Statement) : List Alloc :=
  statements.foldl Statement.liveAfter live

/-- A declaration stays in force until its name is given back. -/
theorem mem_liveBehind {live : List Alloc} {statements : List Statement} {declaration : Alloc}
    (member : declaration ∈ live)
    (kept : ∀ pos implicit, .free pos declaration.name implicit ∉ statements) :
    declaration ∈ liveBehind live statements := by
  induction statements generalizing live with
  | nil => exact member
  | cons statement rest inductionHypothesis =>
      refine inductionHypothesis ?_ fun pos implicit later =>
        kept pos implicit (List.mem_cons_of_mem _ later)
      cases statement with
      | alloc other => exact List.mem_cons_of_mem _ member
      | free pos name implicit =>
          refine List.mem_filter.mpr ⟨member, decide_eq_true ?_⟩
          rintro rfl
          exact kept pos implicit List.mem_cons_self
      | instr instruction => exact member
      | value pos operand => exact member

/-- Some declaration of a name is in force. -/
def Open (live : List Alloc) (name : String) : Prop :=
  ∃ declaration ∈ live, declaration.name = name

/-- Statements that declare only names not in force and give back only names in force. -/
inductive InTurn : List Alloc → List Statement → Prop where
  | nil {live : List Alloc} : InTurn live []
  | cons {live : List Alloc} {statement : Statement} {rest : List Statement} :
      statement.Lawful live → InTurn (statement.liveAfter live) rest →
        InTurn live (statement :: rest)

section Turns

variable {live : List Alloc} {name : String} {statement : Statement} {statements : List Statement}

theorem open_liveAfter (other : statement.subject? ≠ some name) :
    Open (statement.liveAfter live) name ↔ Open live name := by
  cases statement with
  | alloc declaration =>
      have different : declaration.name ≠ name := fun same => other (congrArg some same)
      simp [Open, Statement.liveAfter, different]
  | free pos freed implicit =>
      have different : freed ≠ name := fun same => other (congrArg some same)
      simp only [Open, Statement.liveAfter, List.mem_filter, decide_eq_true_eq]
      constructor
      · rintro ⟨declaration, ⟨member, -⟩, same⟩
        exact ⟨declaration, member, same⟩
      · rintro ⟨declaration, member, rfl⟩
        exact ⟨declaration, ⟨member, different.symm⟩, rfl⟩
  | instr instruction => rfl
  | value pos operand => rfl

theorem next?_cons (statement : Statement) (rest : List Statement) :
    next? (statement :: rest) name =
      if statement.subject? = some name then some statement else next? rest name := by
  by_cases subject : statement.subject? = some name
  · simp [next?, subject]
  · simp [next?, subject]

theorem next?_eq_none : next? statements name = none ↔
    ∀ statement ∈ statements, statement.subject? ≠ some name := by
  simp [next?]

/-- What concerns a name in force next gives it back. -/
theorem InTurn.next_of_open (turns : InTurn live statements) (isOpen : Open live name)
    (next : next? statements name = some statement) :
    ∃ pos implicit, statement = .free pos name implicit := by
  induction turns with
  | nil => cases next
  | @cons live head rest lawful _ inductionHypothesis =>
      rw [next?_cons] at next
      split at next
      · rename_i subject
        cases next
        cases statement with
        | alloc declaration =>
            cases subject
            obtain ⟨other, member, same⟩ := isOpen
            exact absurd same (lawful other member)
        | free pos freed implicit =>
            cases subject
            exact ⟨pos, implicit, rfl⟩
        | instr instruction => cases subject
        | value pos operand => cases subject
      · rename_i other
        exact inductionHypothesis ((open_liveAfter other).mpr isOpen) next

/-- What concerns a name not in force next declares it. -/
theorem InTurn.next_of_closed (turns : InTurn live statements) (closed : ¬ Open live name)
    (next : next? statements name = some statement) :
    ∃ declaration, statement = .alloc declaration := by
  induction turns with
  | nil => cases next
  | @cons live head rest lawful _ inductionHypothesis =>
      rw [next?_cons] at next
      split at next
      · rename_i subject
        cases next
        cases statement with
        | alloc declaration => exact ⟨declaration, rfl⟩
        | free pos freed implicit =>
            cases subject
            exact absurd lawful closed
        | instr instruction => cases subject
        | value pos operand => cases subject
      · rename_i other
        exact inductionHypothesis (mt (open_liveAfter other).mp closed) next

theorem InTurn.behind {before : List Statement} (turns : InTurn live (before ++ statements)) :
    InTurn live before ∧ InTurn (liveBehind live before) statements := by
  induction before generalizing live with
  | nil => exact ⟨.nil, turns⟩
  | cons head rest inductionHypothesis =>
      cases turns with
      | cons lawful turns =>
          obtain ⟨front, back⟩ := inductionHypothesis turns
          exact ⟨.cons lawful front, back⟩

theorem replays_behind {before : List Statement}
    (replays : Parser.Replays live (before ++ statements)) :
    Parser.Replays live before ∧ Parser.Replays (liveBehind live before) statements := by
  induction before generalizing live with
  | nil => exact ⟨.nil, replays⟩
  | cons head rest inductionHypothesis =>
      cases replays with
      | cons grounded sound replays =>
          obtain ⟨front, back⟩ := inductionHypothesis replays
          exact ⟨.cons grounded sound front, back⟩

end Turns

section Tables

/-- Whether a name was never given back. -/
def Names.isKept (names : Names) (declaration : Alloc) : Bool :=
  !names.freed.contains declaration.name

/-- The tables of names agree: no name is in force twice, and of the names that were never given
back the declarations in force are all there are. -/
structure Names.Settled (names : Names) : Prop where
  nodup : (names.live.map Alloc.name).Nodup
  kept : names.live.filter names.isKept = names.decls.filter names.isKept

theorem Names.Settled.after {names : Names} (settled : names.Settled) {statement : Statement}
    (lawful : statement.Lawful names.live) : (statement.namesAfter names).Settled := by
  cases statement with
  | alloc declaration =>
      refine ⟨List.nodup_cons.mpr ⟨?_, settled.nodup⟩, ?_⟩
      · rintro member
        obtain ⟨other, member, same⟩ := List.mem_map.mp member
        exact lawful other member same
      · change (declaration :: names.live).filter names.isKept =
          (declaration :: names.decls).filter names.isKept
        rw [List.filter_cons, List.filter_cons, settled.kept]
  | free pos name implicit =>
      have isKept : ((Statement.free pos name implicit).namesAfter names).isKept =
          fun declaration => decide (declaration.name ≠ name) && names.isKept declaration := by
        funext declaration
        simp [Names.isKept, Statement.namesAfter]
      refine ⟨settled.nodup.sublist (List.filter_sublist.map _), ?_⟩
      let other (declaration : Alloc) : Bool := declaration.name ≠ name
      calc (names.live.filter other).filter (Names.isKept _)
          = (names.live.filter names.isKept).filter other := by
            rw [isKept, List.filter_filter, List.filter_filter]
            refine List.filter_congr fun declaration _ => ?_
            simp only [other, Bool.and_comm, Bool.and_self_left]
        _ = (names.decls.filter names.isKept).filter other := by rw [settled.kept]
        _ = names.decls.filter (Names.isKept _) := by rw [isKept, List.filter_filter]
  | instr instruction => exact settled
  | value pos operand => exact settled

/-- The names left at the end are given back in turn. -/
theorem inTurn_frees {live : List Alloc} {declarations : List Alloc}
    (nodup : (declarations.map Alloc.name).Nodup)
    (inForce : ∀ declaration ∈ declarations, Open live declaration.name) :
    InTurn live (declarations.map fun declaration =>
      .free declaration.pos declaration.name true) := by
  induction declarations generalizing live with
  | nil => exact .nil
  | cons declaration rest inductionHypothesis =>
      obtain ⟨apart, nodup⟩ := List.nodup_cons.mp nodup
      refine .cons (inForce declaration List.mem_cons_self) (inductionHypothesis nodup ?_)
      intro other member
      have different : (Statement.free declaration.pos declaration.name true).subject? ≠
          some other.name := by
        intro same
        exact apart (Option.some.inj same ▸ List.mem_map_of_mem member)
      exact (open_liveAfter different).mpr (inForce other (List.mem_cons_of_mem _ member))

theorem Names.Settled.inTurn {names : Names} (settled : names.Settled) :
    InTurn names.live (Parser.implicitFrees names) := by
  change InTurn names.live ((names.decls.reverse.filter names.isKept).map _)
  rw [List.filter_reverse, ← settled.kept]
  refine inTurn_frees ?_ fun declaration member => ?_
  · rw [List.map_reverse, (List.reverse_perm _).nodup_iff]
    exact settled.nodup.sublist (List.filter_sublist.map _)
  · exact ⟨declaration, (List.mem_filter.mp (List.mem_reverse.mp member)).1, rfl⟩

end Tables

namespace Parser.Trace

variable {reading reading' : Reading} {statements : List Statement}

theorem explicit (trace : Trace reading statements reading') :
    ∀ statement ∈ statements, statement.isImplicit = false := by
  induction trace with
  | done _ => exact List.forall_mem_nil _
  | skip _ _ inductionHypothesis => exact inductionHypothesis
  | found first _ inductionHypothesis =>
      exact List.forall_mem_cons.mpr ⟨first.explicit, inductionHypothesis⟩

/-- The declarations are those of the statements, in their order. -/
theorem decls (trace : Trace reading statements reading') : reading'.decls.reverse =
    reading.decls.reverse ++ statements.filterMap Statement.declared? := by
  induction trace with
  | done _ => simp
  | skip onward _ inductionHypothesis =>
      rw [inductionHypothesis]
      exact congrArg (fun names => names.decls.reverse ++ _) onward.names
  | @found _ _ _ statement rest first _ inductionHypothesis =>
      rw [inductionHypothesis]
      refine (congrArg (fun names => names.decls.reverse ++ _) first.names).trans ?_
      cases statement with
      | alloc declaration => simp [Statement.namesAfter, Statement.declared?, Reading.names]
      | free pos name implicit => rfl
      | instr instruction => rfl
      | value pos operand => rfl

/-- The names that were given back are those that the statements gave back. -/
theorem freed (trace : Trace reading statements reading') : reading'.freed =
    (statements.filterMap Statement.freed?).reverse ++ reading.freed := by
  induction trace with
  | done _ => rfl
  | skip onward _ inductionHypothesis =>
      rw [inductionHypothesis]
      exact congrArg (fun names => _ ++ names.freed) onward.names
  | @found _ _ _ statement rest first _ inductionHypothesis =>
      rw [inductionHypothesis]
      refine (congrArg (fun names => _ ++ names.freed) first.names).trans ?_
      cases statement with
      | alloc declaration => rfl
      | free pos name implicit => simp [Statement.namesAfter, Statement.freed?, Reading.names]
      | instr instruction => rfl
      | value pos operand => rfl

theorem settled (trace : Trace reading statements reading') (start : reading.names.Settled) :
    reading'.names.Settled := by
  induction trace with
  | done _ => exact start
  | skip onward _ inductionHypothesis => exact inductionHypothesis (onward.names ▸ start)
  | found first _ inductionHypothesis =>
      exact inductionHypothesis (first.names ▸ start.after first.lawful)

/-- Statements that follow in turn on those that were read. -/
theorem inTurn {last : List Statement} (trace : Trace reading statements reading')
    (turns : InTurn reading'.live last) : InTurn reading.live (statements ++ last) := by
  induction trace with
  | done _ => exact turns
  | skip onward _ inductionHypothesis => exact onward.live ▸ inductionHypothesis turns
  | found first _ inductionHypothesis =>
      exact .cons first.lawful (first.live ▸ inductionHypothesis turns)

end Parser.Trace

/-- A block without statements. -/
theorem Paired.empty (name : String) : Paired ⟨name, [], []⟩ where
  first _ _ next := by cases next
  afterFree before _ _ _ _ same := by simp at same
  afterAlloc before _ _ same := by simp at same
  decls := rfl
  closing := ⟨[], List.forall_mem_nil _, rfl⟩

/-- Statements in turn, with the rest given back at the end. -/
theorem Paired.of_inTurn {block : Block} {written : List Statement}
    (turns : InTurn [] block.statements)
    (explicit : ∀ statement ∈ written, statement.isImplicit = false)
    (decls : block.decls = written.filterMap Statement.declared?)
    (closing : block.statements = written ++ (block.decls.filter fun declaration =>
      declaration.name ∉ written.filterMap Statement.freed?).map fun declaration =>
        .free declaration.pos declaration.name true) : Paired block where
  first name statement next := turns.next_of_closed (by rintro ⟨_, member, _⟩; cases member) next
  afterFree before pos name implicit after same statement next := by
    rw [same] at turns
    obtain ⟨_, turns⟩ := turns.behind
    cases turns with
    | cons _ turns =>
        refine turns.next_of_closed ?_ next
        rintro ⟨declaration, member, same⟩
        exact of_decide_eq_true (List.mem_filter.mp member).2 same
  afterAlloc before declaration after same := by
    cases next : next? after declaration.name with
    | some statement =>
        rw [same] at turns
        obtain ⟨_, turns⟩ := turns.behind
        cases turns with
        | cons _ turns =>
            obtain ⟨pos, implicit, rfl⟩ :=
              turns.next_of_open ⟨declaration, List.mem_cons_self, rfl⟩ next
            exact .inl ⟨pos, implicit, rfl⟩
    | none =>
        refine .inr ⟨?_, rfl⟩
        by_contra unreturned
        have kept : declaration.name ∉ block.statements.filterMap Statement.freed? := by
          intro member
          obtain ⟨statement, member, returns⟩ := List.mem_filterMap.mp member
          have subject := Statement.subject?_of_freed? returns
          rw [same] at member
          rcases List.mem_append.mp member with earlier | later
          · exact unreturned (List.mem_filterMap.mpr ⟨statement, earlier, returns⟩)
          · rcases List.mem_cons.mp later with rfl | later
            · cases returns
            · exact next?_eq_none.mp next statement later subject
        have declared : declaration ∈ block.decls := by
          have member : .alloc declaration ∈ block.statements := by simp [same]
          rw [decls]
          rw [closing] at member
          rcases List.mem_append.mp member with member | member
          · exact List.mem_filterMap.mpr ⟨_, member, rfl⟩
          · simp at member
        -- so it is among the names that are given back at the end
        rw [closing, List.filterMap_append, List.mem_append, not_or] at kept
        refine kept.2 (List.mem_filterMap.mpr ⟨_, List.mem_map.mpr ⟨declaration, ?_, rfl⟩, rfl⟩)
        exact List.mem_filter.mpr ⟨declared, decide_eq_true kept.1⟩
  decls := by
    rw [closing, List.filterMap_append, ← decls, List.filterMap_map]
    refine List.self_eq_append_right.mpr ?_
    exact List.filterMap_eq_nil_iff.mpr fun _ _ => rfl
  closing := ⟨written, explicit, closing⟩

section Blocks

variable (name : String) (source : List UInt8) (collector : Collector)

/-- A block that was read is empty, or made of what was found behind its opening brace. -/
theorem parseBytes_cases :
    (parseBytes name source collector).block = ⟨name, [], []⟩ ∨ ∃ opened statements closed,
      opened.names = ⟨[], [], []⟩ ∧ Parser.Trace opened statements closed ∧
        (parseBytes name source collector).block =
          ⟨name, statements ++ Parser.implicitFrees closed.names, closed.decls.reverse⟩ := by
  unfold parseBytes
  dsimp only
  split
  · rename_i ran
    rcases Parser.block_ok (ends_tokensOfBytes source) ran with
      empty | ⟨opened, statements, closed, onward, trace, found⟩
    · exact .inl empty
    · exact .inr ⟨opened, statements, closed, onward.names, trace, found⟩
  · exact .inl rfl

theorem inTurn_parseBytes : InTurn [] (parseBytes name source collector).block.statements := by
  rcases parseBytes_cases name source collector with
    empty | ⟨opened, statements, closed, opens, trace, found⟩
  · rw [empty]
    exact .nil
  · have settled : opened.names.Settled := by
      rw [opens]
      exact ⟨List.nodup_nil, rfl⟩
    have fresh : opened.live = [] := congrArg Names.live opens
    rw [found, ← fresh]
    exact trace.inTurn (trace.settled settled).inTurn

theorem replays_parseBytes :
    Parser.Replays [] (parseBytes name source collector).block.statements := by
  rcases parseBytes_cases name source collector with
    empty | ⟨opened, statements, closed, opens, trace, found⟩
  · rw [empty]
    exact .nil
  · have fresh : opened.live = [] := congrArg Names.live opens
    rw [found, ← fresh]
    exact trace.sequel.replays.append fun live => .frees live _

/-- Whatever is read, declarations and returns come in turns in it. -/
theorem paired_parseBytes : Paired (parseBytes name source collector).block := by
  have turns := inTurn_parseBytes name source collector
  rcases parseBytes_cases name source collector with
    empty | ⟨opened, statements, closed, opens, trace, found⟩
  · rw [empty]
    exact .empty name
  · have decls : closed.decls.reverse = statements.filterMap Statement.declared? :=
      trace.decls.trans (congrArg (fun names => names.decls.reverse ++ _) opens)
    have freed : closed.freed = (statements.filterMap Statement.freed?).reverse ++ [] :=
      trace.freed.trans (congrArg (fun names => _ ++ names.freed) opens)
    rw [found] at turns ⊢
    refine .of_inTurn turns trace.explicit decls (congrArg (fun frees => statements ++ frees) ?_)
    refine congrArg (List.map _) (List.filter_congr fun declaration _ => ?_)
    change (!closed.freed.contains declaration.name) = _
    simp only [freed, List.append_nil, List.contains_eq_mem, List.mem_reverse, decide_not]

end Blocks

end X64Backend.Block
