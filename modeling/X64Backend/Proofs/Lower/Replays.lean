import X64Backend.Proofs.Lower.Emission

/-!
Inline assembly blocks as moves of the generator.  A block names hardware registers of the pool only
through handles of its own, and it writes only instructions that the program asks for.
-/

namespace X64Backend.Lower

open X64Backend.Tree

variable {since : Handle} {c c' : Config} {α β : Type}

/-- Every register that a block has bound may be named. -/
structure Replay.Usable (since count : Handle) (replay : Replay) : Prop where
  names : ∀ entry ∈ replay.names, (Operand.reg entry.2).Usable since count
  undeclared : ∀ entry ∈ replay.undeclared, (Operand.reg entry.2).Usable since count
  back : ∀ entry ∈ replay.back,
    entry.home.Usable since count ∧ (Operand.reg entry.register).Usable since count

theorem Replay.Usable.kept {replay : Replay} (usable : replay.Usable since c.count)
    (kept : Kept c c') : replay.Usable since c'.count :=
  ⟨fun entry member => kept.usable (usable.names entry member),
    fun entry member => kept.usable (usable.undeclared entry member),
    fun entry member => ⟨kept.usable (usable.back entry member).1,
      kept.usable (usable.back entry member).2⟩⟩

/-- A part of a block that is replayed where everything bound may be named. -/
def Replays (program : TypedProgram) (since : Handle) (c : Config) (action : Replaying α)
    (P : α → Config → Prop) : Prop :=
  ∀ replay : Replay, replay.Usable since c.count →
    Keeps program since c (action replay) fun pair c' =>
      pair.2.Usable since c'.count ∧ P pair.1 c'

namespace Replays

variable {program : TypedProgram} {P : α → Config → Prop} {after : β → Config → Prop}
  {action : Replaying α}

theorem pure {a : α} (promise : P a c) : Replays program since c (Pure.pure a) P :=
  fun _ usable => Keeps.pure ⟨usable, promise⟩

theorem bind {next : α → Replaying β} (first : Replays program since c action P)
    (second : ∀ a c', Kept c c' → P a c' → Replays program since c' (next a) after) :
    Replays program since c (action >>= next) after := by
  intro replay usable
  change Keeps program since c (action replay >>= fun pair => next pair.1 pair.2) _
  exact (first replay usable).bind fun pair c₁ kept promise =>
    second pair.1 c₁ kept promise.2 pair.2 promise.1

theorem lift {action : Gen α} (keeps : Keeps program since c action P) :
    Replays program since c (liftM action) P := by
  intro replay usable
  change Keeps program since c (action >>= fun a => Pure.pure (a, replay)) _
  exact keeps.bind fun a c₁ kept promise => Keeps.pure ⟨usable.kept kept, promise⟩

/-- The registers that are bound may be named. -/
theorem get : Replays program since c (MonadState.get : Replaying Replay) fun replay c' =>
    replay.Usable since c'.count :=
  fun _ usable => Keeps.pure ⟨usable, usable⟩

theorem modify {change : Replay → Replay}
    (usable : ∀ replay : Replay, replay.Usable since c.count →
      (change replay).Usable since c.count) :
    Replays program since c (modify change : Replaying PUnit) Any :=
  fun replay bound => Keeps.pure ⟨usable replay bound, trivial⟩

theorem set {replay : Replay} (usable : replay.Usable since c.count) :
    Replays program since c (MonadStateOf.set replay : Replaying PUnit) Any :=
  fun _ _ => Keeps.pure ⟨usable, trivial⟩

theorem map {f : α → β} (replays : Replays program since c action P)
    (promise : ∀ a c', P a c' → after (f a) c') :
    Replays program since c (f <$> action) after := by
  rw [map_eq_pure_bind]
  exact replays.bind fun a c₁ _ promised => Replays.pure (promise a c₁ promised)

theorem mapM {items : List β} {action : β → Replaying α}
    (stable : ∀ a c₁ c₂, Kept c₁ c₂ → P a c₁ → P a c₂)
    (each : ∀ item ∈ items, ∀ c', Kept c c' → Replays program since c' (action item) P) :
    Replays program since c (items.mapM action) fun results c' => ∀ a ∈ results, P a c' := by
  induction items generalizing c with
  | nil => exact Replays.pure (by simp)
  | cons item rest inductionHypothesis =>
      rw [List.mapM_cons]
      refine (each item (by simp) c (.refl c)).bind fun a c₁ kept promise => ?_
      have others := inductionHypothesis (c := c₁) fun other member c₂ kept' =>
        each other (by simp [member]) c₂ (kept.trans kept')
      refine others.bind fun results c₂ kept' promises => Replays.pure ?_
      intro b member
      rcases List.mem_cons.mp member with rfl | member
      · exact stable b c₁ c₂ kept' promise
      · exact promises b member

theorem foldlM {items : List β} {action : α → β → Replaying α} {a : α} (promise : P a c)
    (each : ∀ item ∈ items, ∀ a c', P a c' → Replays program since c' (action a item) P) :
    Replays program since c (items.foldlM action a) P := by
  induction items generalizing c a with
  | nil => exact Replays.pure promise
  | cons item rest inductionHypothesis =>
      rw [List.foldlM_cons]
      refine (each item (by simp) a c promise).bind fun b c₁ _ promised => ?_
      exact inductionHypothesis promised fun other member => each other (by simp [member])

/-- Computations over a list that do not look at the block. -/
theorem forM {items : List β} {action : β → Gen Unit}
    (each : ∀ item ∈ items, ∀ c', Kept c c' → Keeps program since c' (action item) Any) :
    Replays program since c (items.forM fun item => (liftM (action item) : Replaying Unit))
      Any := by
  induction items generalizing c with
  | nil => exact Replays.pure trivial
  | cons item rest inductionHypothesis =>
      refine (Replays.lift (each item (by simp) c (.refl c))).bind fun _ c₁ kept _ => ?_
      apply inductionHypothesis
      intro other member c₂ kept'
      exact each other (by simp [member]) c₂ (kept.trans kept')

end Replays

namespace Replaying

variable {program : TypedProgram} {site : BlockSite}

theorem replays_bindName {name : String} {register : Register}
    (usable : (Operand.reg register).Usable since c.count) :
    Replays program since c (bindName name register) Any := by
  refine Replays.modify fun replay bound => ⟨?_, bound.undeclared, bound.back⟩
  intro entry member
  rcases List.mem_cons.mp member with rfl | member
  · exact usable
  · exact bound.names entry (List.mem_filter.mp member).1

theorem replays_addTemp (register : Register) :
    Replays program since c (addTemp register) Any :=
  Replays.modify fun _ bound => ⟨bound.names, bound.undeclared, bound.back⟩

theorem replays_addBack {entry : WriteBack} (home : entry.home.Usable since c.count)
    (register : (Operand.reg entry.register).Usable since c.count) :
    Replays program since c (addBack entry) Any := by
  refine Replays.modify fun replay bound => ⟨bound.names, bound.undeclared, ?_⟩
  intro other member
  rcases List.mem_append.mp member with member | member
  · exact bound.back other member
  · rw [List.mem_singleton.mp member]
    exact ⟨home, register⟩

theorem keeps_lockedSlot (slot : Pool.Slot) (size : Size) :
    Keeps program since c (lockedSlot slot size) fun register c' =>
      Yield since (.reg register) c' := by
  refine (keeps_claimSlot slot size).bind fun register c₁ _ fresh => ?_
  exact (keeps_lock _).bind fun _ c₂ kept _ => Keeps.pure (kept.usable fresh)

/-- A hardware register outside of the pool may be named as it is. -/
theorem usable_outside {phys : Option Phys} {size : Size} {count : Handle}
    (outside : phys.bind Pool.slotOfPhys? = none) :
    (Operand.reg ⟨.fixed phys, size⟩).Usable since count := by
  refine Operand.usable_reg.mpr ?_
  rintro slot _ rfl
  rw [Option.bind_some, Pool.slotOfPhys?_slotPhys] at outside
  cases outside

theorem replays_alloc (declaration : Block.Alloc) :
    Replays program since c (alloc site declaration) Any := by
  unfold alloc
  split
  · exact Replays.pure trivial
  · split
    · refine (Replays.lift (keeps_lockedSlot _ _)).bind fun register c₁ _ fresh => ?_
      exact (replays_bindName fresh).bind fun _ _ _ _ => Replays.lift (keeps_log _).any
    · rename_i phys outside
      exact replays_bindName (usable_outside outside)

theorem replays_free (name : String) : Replays program since c (free site name) Any := by
  unfold free
  refine Replays.get.bind fun replay c₁ _ _ => ?_
  split
  · exact Replays.pure trivial
  · have dropped : Replays program since c₁ (modify fun replay : Replay =>
        { replay with names := replay.names.filter fun entry => entry.1 ≠ name }) Any := by
      refine Replays.modify fun replay bound => ⟨?_, bound.undeclared, bound.back⟩
      intro entry member
      exact bound.names entry (List.mem_filter.mp member).1
    refine dropped.bind fun _ c₂ _ _ => ?_
    split
    · exact Replays.lift (keeps_settle _)
    · exact Replays.lift (keeps_freeAnyway _)

theorem usable_of_lookup {κ : Type} [BEq κ] {key : κ} {register : Register} {count : Handle}
    {entries : List (κ × Register)} (found : entries.lookup key = some register)
    (usable : ∀ entry ∈ entries, (Operand.reg entry.2).Usable since count) :
    (Operand.reg register).Usable since count := by
  induction entries with
  | nil => cases found
  | cons first rest inductionHypothesis =>
      rw [List.lookup_cons] at found
      split at found
      · cases found
        exact usable first (by simp)
      · exact inductionHypothesis found fun entry member => usable entry (by simp [member])

theorem replays_namedRegister (name : String) :
    Replays program since c (namedRegister site name) fun register c' =>
      Yield since (.reg register) c' := by
  unfold namedRegister
  refine Replays.get.bind fun replay c₁ _ bound => ?_
  split
  · rename_i register found
    exact Replays.pure (usable_of_lookup found bound.names)
  · refine (Replays.lift (keeps_nextRegister _)).bind fun register c₂ _ fresh => ?_
    refine (Replays.lift (keeps_lock _)).bind fun _ c₃ kept _ => ?_
    refine (replays_bindName (kept.usable fresh)).bind fun _ c₄ kept' _ => ?_
    exact Replays.pure ((kept.trans kept').usable fresh)

theorem replays_hardwareRegister (phys : Option Phys) (size : Size) :
    Replays program since c (hardwareRegister phys size) fun register c' =>
      Yield since (.reg register) c' := by
  unfold hardwareRegister
  split
  · rename_i phys slot found
    refine Replays.get.bind fun replay c₁ _ bound => ?_
    split
    · rename_i register known
      exact Replays.pure ((usable_of_lookup known bound.undeclared).resize _)
    · refine (Replays.lift (keeps_lockedSlot _ _)).bind fun register c₂ _ fresh => ?_
      have noted : Replays program since c₂ (modify fun replay : Replay =>
          { replay with undeclared := (phys, register) :: replay.undeclared }) Any := by
        refine Replays.modify fun replay bound => ⟨bound.names, ?_, bound.back⟩
        intro entry member
        rcases List.mem_cons.mp member with rfl | member
        · exact fresh
        · exact bound.undeclared entry member
      exact noted.bind fun _ c₃ kept _ => Replays.pure ((kept.usable fresh).resize _)
  · rename_i outside
    refine Replays.pure (usable_outside ?_)
    refine Option.eq_none_iff_forall_ne_some.mpr fun slot found => ?_
    obtain ⟨named, same, _⟩ := Option.bind_eq_some_iff.mp found
    exact outside named slot same found

theorem replays_register (ref : Block.RegRef) :
    Replays program since c (register site ref) fun register c' =>
      Yield since (.reg register) c' := by
  unfold register
  split
  · refine (replays_namedRegister ref.name).bind fun bound c₁ _ usable => Replays.pure ?_
    split
    · exact usable
    · exact usable.resize _
  · exact replays_hardwareRegister _ _

section Terms

theorem keeps_variableNamed (ref : Block.VarRef) :
    Keeps site.program since c (variableNamed site ref) fun pair c' => Yield since pair.1 c' := by
  unfold variableNamed
  split
  · exact (keeps_variableOperand _).bind fun _ _ _ usable => Keeps.pure usable
  · exact (keeps_report _).bind fun _ _ _ _ => Keeps.pure (Operand.usable_lit _)

theorem replays_materialize {value : Operand} {v : Option Variable} {written : Bool}
    (usable : value.Usable since c.count) :
    Replays program since c (materialize value v written) (Yield since) := by
  unfold materialize
  refine (Replays.lift (keeps_nextRegister _)).bind fun register c₁ kept₁ fresh => ?_
  have usable₁ := kept₁.usable usable
  refine (Replays.lift (keeps_move fresh usable₁)).bind fun _ c₂ kept₂ _ => ?_
  refine (replays_addTemp register).bind fun _ c₃ kept₃ _ => ?_
  have later := kept₂.trans kept₃
  split
  · have noted : Replays program since c₃
        (addBack ⟨register, value, (v.map fun v => v.type.isSigned).getD false⟩) Any :=
      replays_addBack (later.usable usable₁) (later.usable fresh)
    refine noted.bind fun _ c₄ kept₄ _ => ?_
    exact Replays.pure ((later.trans kept₄).usable fresh)
  · exact Replays.pure (later.usable fresh)

theorem replays_baseRegister (ref : Block.BaseRef) :
    Replays site.program since c (baseRegister site ref) fun register c' =>
      Yield since (.reg register) c' := by
  cases ref with
  | reg ref => exact replays_register ref
  | var ref =>
      refine (Replays.lift (keeps_variableNamed ref)).bind fun pair c₁ _ usable => ?_
      refine (Replays.lift (keeps_base usable)).bind fun found c₂ _ based => ?_
      refine (Replays.lift (keeps_temp _).any).bind fun owned c₃ kept₃ _ => ?_
      split
      · refine (replays_addTemp found).bind fun _ c₄ kept₄ _ => ?_
        exact Replays.pure ((kept₃.trans kept₄).usable based)
      · exact Replays.pure (kept₃.usable based)

theorem replays_term (position : Block.Position) (operand : Block.Term) :
    Replays site.program since c (term site position operand) (Yield since) := by
  cases operand with
  | reg ref => exact (replays_register ref).map fun _ _ usable => usable
  | lit pos value => exact Replays.pure (Operand.usable_lit _)
  | mem pos size ref disp =>
      refine (replays_baseRegister ref).bind fun register c₁ _ usable => Replays.pure ?_
      exact Operand.usable_ofBase.mpr (Operand.usable_reg.mp usable)
  | var ref =>
      refine (Replays.lift (keeps_variableNamed ref)).bind fun pair c₁ _ usable => ?_
      dsimp only
      split
      · exact Replays.pure usable
      · exact replays_materialize usable

theorem usable_sized {size : Size} {operand : Operand} {count : Handle}
    (usable : operand.Usable since count) : (sized size operand).Usable since count := by
  unfold sized
  split
  · split
    · exact Operand.usable_resize.mpr usable
    · exact usable
  · exact usable

theorem usable_asByte {operand : Operand} {count : Handle} (usable : operand.Usable since count) :
    (asByte operand).Usable since count := by
  unfold asByte
  split
  · exact usable.resize _
  · exact Operand.usable_resize.mpr usable
  · exact usable

/-- Fitting the widths changes no register. -/
theorem usable_fitOperands {op : Op} {operands : List Operand} {count : Handle}
    (usable : ∀ operand ∈ operands, operand.Usable since count) :
    ∀ operand ∈ fitOperands op operands, operand.Usable since count := by
  have sizes : ∀ operand ∈ (if op = .lea then operands
      else operands.map (sized (cellSize operands))), operand.Usable since count := by
    intro operand member
    split at member
    · exact usable operand member
    · obtain ⟨original, among, rfl⟩ := List.mem_map.mp member
      exact usable_sized (usable original among)
  intro operand member
  unfold fitOperands at member
  dsimp only at member
  generalize (if op = .lea then operands else operands.map (sized (cellSize operands))) = fitted
    at sizes member
  split at member
  · rename_i first rest _
    rcases List.mem_cons.mp member with rfl | member
    · exact usable_asByte (sizes first (by simp))
    · exact sizes operand (by simp [member])
  · exact sizes operand member

theorem replays_splitCells {operands : List Operand}
    (usable : ∀ operand ∈ operands, operand.Usable since c.count) :
    Replays program since c (splitCells operands) fun results c' =>
      ∀ operand ∈ results, Yield since operand c' := by
  unfold splitCells
  split
  · rename_i dst src
    refine (Replays.lift (keeps_nextRegister _)).bind fun register c₁ kept₁ fresh => ?_
    have ofSrc := kept₁.usable (usable (.mem src) (by simp))
    refine (Replays.lift (keeps_emitBinary fresh ofSrc)).bind fun _ c₂ kept₂ _ => ?_
    refine (replays_addTemp register).bind fun _ c₃ kept₃ _ => Replays.pure ?_
    have later := kept₂.trans kept₃
    intro operand member
    rcases List.mem_cons.mp member with rfl | member
    · exact (kept₁.trans later).usable (usable (.mem dst) (by simp))
    · rw [List.mem_singleton.mp member]
      exact later.usable fresh
  · exact Replays.pure usable

end Terms

/-- An instruction is put together from its operands. -/
theorem keeps_instrOf (instruction : Block.Instruction) (operands : List Operand) :
    Keeps program since c (instrOf instruction operands) fun instr _ =>
      instr.op? = some instruction.spec.op ∧ ∀ operand ∈ instr.operands, operand ∈ operands := by
  unfold instrOf
  split
  · exact Keeps.pure ⟨rfl, by simp [Instr.operands]⟩
  · exact Keeps.pure ⟨rfl, by simp [Instr.operands]⟩
  · exact Keeps.pure ⟨rfl, by simp [Instr.operands]⟩
  · exact Keeps.throw rfl

theorem replays_settleInstr : Replays program since c settleInstr Any := by
  unfold settleInstr
  refine Replays.get.bind fun replay c₁ _ bound => ?_
  have copied : Replays program since c₁ (replay.back.forM fun entry =>
      (liftM (move entry.home (.reg entry.register) entry.signed .lowFirst) : Replaying Unit))
      Any := by
    refine Replays.forM fun entry member c₂ kept => ?_
    exact keeps_move (kept.usable (bound.back entry member).1)
      (kept.usable (bound.back entry member).2)
  refine copied.bind fun _ c₂ kept₂ _ => ?_
  refine (Replays.forM fun register _ c₃ _ => keeps_freeAnyway _).bind fun _ c₃ kept₃ _ => ?_
  have later := bound.kept (kept₂.trans kept₃)
  exact Replays.set ⟨later.names, later.undeclared, by simp⟩

section Statements

variable (contained : site.program.Contains site.block)
include contained

theorem replays_instr {instruction : Block.Instruction}
    (member : .instr instruction ∈ site.block.statements) :
    Replays site.program since c (instr site instruction) fun operands c' =>
      ∀ operand ∈ operands, Yield since operand c' := by
  have terms : Replays site.program since c
      ((instruction.operands.zip instruction.spec.positions).mapM fun item =>
        term site item.2 item.1) fun operands c' => ∀ operand ∈ operands, Yield since operand c' :=
    Replays.mapM (fun _ _ _ kept usable => kept.usable usable) fun item _ c₁ _ => replays_term _ _
  refine terms.bind fun given c₁ _ ofGiven => ?_
  refine (replays_splitCells (usable_fitOperands ofGiven)).bind fun operands c₂ _ usable => ?_
  refine (Replays.lift (keeps_instrOf instruction operands)).bind fun made c₃ kept₃ built => ?_
  have emitted : Keeps site.program since c₃ (emit [made]) Any := by
    refine Keeps.modify (.emit built.1 (.inr ⟨site.block, instruction, contained, member, built.1⟩)
      ?_) rfl rfl
    intro operand among
    exact kept₃.usable (usable operand (built.2 operand among))
  refine (Replays.lift emitted).bind fun _ c₄ kept₄ _ => ?_
  refine replays_settleInstr.bind fun _ c₅ kept₅ _ => Replays.pure ?_
  intro operand among
  exact (kept₃.trans (kept₄.trans kept₅)).usable (usable operand among)

theorem replays_statement {value : Operand} {part : Block.Statement}
    (member : part ∈ site.block.statements) (usable : value.Usable since c.count) :
    Replays site.program since c (statement site value part) (Yield since) := by
  cases part with
  | alloc declaration =>
      exact (replays_alloc declaration).bind fun _ c₁ kept _ => Replays.pure (kept.usable usable)
  | free pos name implicit =>
      exact (replays_free name).bind fun _ c₁ kept _ => Replays.pure (kept.usable usable)
  | instr instruction =>
      refine (replays_instr contained member).bind fun operands c₁ kept ofAll => Replays.pure ?_
      split
      · cases operands with
        | nil => exact kept.usable usable
        | cons first rest => exact ofAll first (by simp)
      · exact kept.usable usable
  | value pos operand => exact replays_term _ _

end Statements

theorem keeps_copyValue {value : Operand} {type : TypeRef} (usable : value.Usable since c.count) :
    Keeps program since c (copyValue value type) (Yield since) := by
  unfold copyValue
  split
  · exact Keeps.pure Operand.usable_absent
  · refine (keeps_nextRegister _).bind fun register c₁ kept fresh => ?_
    exact (keeps_move fresh (kept.usable usable)).bind fun _ c₂ kept' _ =>
      Keeps.pure (kept'.usable fresh)

theorem keeps_ownValue {undeclared : List (Phys × Register)} {value : Operand} {type : TypeRef}
    (usable : value.Usable since c.count) :
    Keeps program since c (ownValue undeclared value type) (Yield since) := by
  unfold ownValue
  split
  · exact Keeps.pure usable
  · exact Keeps.pure usable
  · exact keeps_copyValue usable
  · refine (keeps_temp _).bind fun owned c₁ kept _ => ?_
    have usable₁ := kept.usable usable
    split
    · exact Keeps.pure (usable₁.resize _)
    · exact keeps_copyValue usable₁

theorem replays_finish {value : Operand} (usable : value.Usable since c.count) :
    Replays program since c (finish site value) (Yield since) := by
  unfold finish
  refine Replays.get.bind fun replay c₁ kept₁ bound => ?_
  refine (Replays.lift (keeps_ownValue (kept₁.usable usable))).bind fun owned c₂ _ ofOwned => ?_
  refine (Replays.forM fun entry _ _ _ => keeps_freeAnyway _).bind fun _ c₃ kept₃ _ => ?_
  refine (Replays.forM fun entry _ _ _ => keeps_freeAnyway _).bind fun _ c₄ kept₄ _ => ?_
  split
  · exact (Replays.lift (keeps_release _)).bind fun _ _ _ _ => Replays.pure Operand.usable_absent
  · split
    · exact (Replays.lift (keeps_report _)).bind fun _ _ _ _ => Replays.pure (Operand.usable_lit _)
    · exact Replays.pure ((kept₃.trans kept₄).usable ofOwned)

end Replaying

theorem keeps_asmBlock {site : BlockSite} (contained : site.program.Contains site.block) :
    Keeps site.program since c (asmBlock site) (Yield since) := by
  have replayed : Replays site.program since c (do
      let value ← site.block.statements.foldlM (Replaying.statement site) .absent
      Replaying.finish site value) (Yield since) := by
    refine (Replays.foldlM (P := Yield since) Operand.usable_absent ?_).bind
      fun value c₁ _ usable => Replaying.replays_finish usable
    intro part member value c₁ usable
    exact Replaying.replays_statement contained member usable
  have start : Replay.start.Usable since c.count :=
    ⟨by simp [Replay.start], by simp [Replay.start], by simp [Replay.start]⟩
  exact (replayed .start start).bind fun pair c₁ _ promise => Keeps.pure promise.2

end X64Backend.Lower
