import Mathlib.Data.List.Forall2
import X64Backend.Proofs.Block.Pairing
import X64Backend.Proofs.Lower.Steady

/-!
The widths of named registers.

A name that is declared for a hardware register is bound there and then, at the width of its
declaration.  A name without one is bound to a register of the pool at its first use, and its width
is then looked up by name: it is that of the first declaration of the name in the block, whichever
one is in force.
-/

namespace X64Backend

namespace Block

/-- The width that a name has under one of its declarations. -/
def widthOf (block : Block) (declaration : Alloc) : Size :=
  if declaration.phys.isSome then declaration.size
  else ((block.decl? declaration.name).map Alloc.size).getD .s64

end Block

namespace Lower

open X64Backend.Tree

open Block (Open)

section Lookup

variable (names : List (String × Register)) (name other : String) (register : Register)

theorem lookup_drop : (names.filter fun entry => entry.1 ≠ name).lookup other =
    if other = name then none else names.lookup other := by
  induction names with
  | nil => simp
  | cons entry rest inductionHypothesis =>
      obtain ⟨key, bound⟩ := entry
      rw [List.filter_cons]
      by_cases dropped : key = name
      · subst dropped
        by_cases same : other = key
        · simpa [same] using inductionHypothesis
        · simpa [same, List.lookup_cons, beq_eq_false_iff_ne.mpr same] using inductionHypothesis
      · by_cases same : other = key
        · simp [same, dropped]
        · simpa [dropped, List.lookup_cons, beq_eq_false_iff_ne.mpr same] using inductionHypothesis

theorem lookup_put : ((name, register) :: names.filter fun entry => entry.1 ≠ name).lookup other =
    if other = name then some register else names.lookup other := by
  rw [List.lookup_cons]
  by_cases same : other = name
  · simp [same]
  · simp only [beq_eq_false_iff_ne.mpr same, lookup_drop, if_neg same]

end Lookup

/-- The names that are bound, where some declarations are in force. -/
structure Replay.Bound (block : Block) (live : List Block.Alloc) (replay : Replay) : Prop where
  width : ∀ declaration ∈ live, ∀ register,
    replay.names.lookup declaration.name = some register →
      register.size = block.widthOf declaration
  /-- Only a name without a hardware register waits for its first use. -/
  waiting : ∀ declaration ∈ live, replay.names.lookup declaration.name = none →
    declaration.phys = none
  inForce : ∀ name register, replay.names.lookup name = some register → Open live name

namespace Replay.Bound

variable {block : Block} {live : List Block.Alloc} {replay replay' : Replay} {name : String}
  {register : Register} {declaration : Block.Alloc}

/-- Nothing else of the replay matters. -/
theorem congr (bound : replay.Bound block live)
    (same : ∀ name, replay'.names.lookup name = replay.names.lookup name) :
    replay'.Bound block live where
  width declaration member register found :=
    bound.width declaration member register ((same _).symm.trans found)
  waiting declaration member unknown :=
    bound.waiting declaration member ((same _).symm.trans unknown)
  inForce name register found := bound.inForce name register ((same _).symm.trans found)

/-- A name is bound at its first use. -/
theorem first (bound : replay.Bound block live) (isOpen : Open live name)
    (unknown : replay.names.lookup name = none)
    (size : register.size = ((block.decl? name).map Block.Alloc.size).getD .s64)
    (names : ∀ other, replay'.names.lookup other =
      if other = name then some register else replay.names.lookup other) :
    replay'.Bound block live where
  width declaration member found known := by
    rw [names] at known
    split at known
    · rename_i same
      cases known
      have phys := bound.waiting declaration member (same ▸ unknown)
      rw [size, Block.widthOf, phys, same]
      rfl
    · exact bound.width declaration member found known
  waiting declaration member missing := by
    rw [names] at missing
    split at missing
    · cases missing
    · exact bound.waiting declaration member missing
  inForce other found known := by
    rw [names] at known
    split at known
    · rename_i same
      exact same ▸ isOpen
    · exact bound.inForce other found known

/-- A declaration binds its name to a hardware register. -/
theorem alloc (bound : replay.Bound block live)
    (lawful : ∀ other ∈ live, other.name ≠ declaration.name)
    (phys : declaration.phys.isSome) (size : register.size = declaration.size)
    (names : ∀ other, replay'.names.lookup other =
      if other = declaration.name then some register else replay.names.lookup other) :
    replay'.Bound block (declaration :: live) where
  width other member found known := by
    rw [names] at known
    rcases List.mem_cons.mp member with rfl | member
    · rw [if_pos rfl] at known
      cases known
      rw [size, Block.widthOf, if_pos phys]
    · rw [if_neg (lawful other member)] at known
      exact bound.width other member found known
  waiting other member missing := by
    rw [names] at missing
    split at missing
    · cases missing
    · rename_i different
      rcases List.mem_cons.mp member with rfl | member
      · exact absurd rfl different
      · exact bound.waiting other member missing
  inForce other found known := by
    rw [names] at known
    split at known
    · rename_i same
      exact ⟨declaration, List.mem_cons_self, same.symm⟩
    · obtain ⟨earlier, member, same⟩ := bound.inForce other found known
      exact ⟨earlier, List.mem_cons_of_mem _ member, same⟩

/-- A declaration without a hardware register binds nothing yet. -/
theorem wait (bound : replay.Bound block live)
    (lawful : ∀ other ∈ live, other.name ≠ declaration.name) (phys : declaration.phys = none) :
    replay.Bound block (declaration :: live) where
  width other member found known := by
    rcases List.mem_cons.mp member with rfl | member
    · obtain ⟨earlier, member, same⟩ := bound.inForce _ found known
      exact absurd same (lawful earlier member)
    · exact bound.width other member found known
  waiting other member missing := by
    rcases List.mem_cons.mp member with rfl | member
    · exact phys
    · exact bound.waiting other member missing
  inForce other found known := by
    obtain ⟨earlier, member, same⟩ := bound.inForce other found known
    exact ⟨earlier, List.mem_cons_of_mem _ member, same⟩

/-- A name that is given back is not bound. -/
theorem drop (bound : replay.Bound block live)
    (names : ∀ other, replay'.names.lookup other =
      if other = name then none else replay.names.lookup other) :
    replay'.Bound block (live.filter fun declaration => declaration.name ≠ name) where
  width declaration member found known := by
    obtain ⟨member, different⟩ := List.mem_filter.mp member
    rw [names, if_neg (of_decide_eq_true different)] at known
    exact bound.width declaration member found known
  waiting declaration member missing := by
    obtain ⟨member, different⟩ := List.mem_filter.mp member
    rw [names, if_neg (of_decide_eq_true different)] at missing
    exact bound.waiting declaration member missing
  inForce other found known := by
    rw [names] at known
    split at known
    · cases known
    · rename_i different
      obtain ⟨declaration, member, rfl⟩ := bound.inForce other found known
      exact ⟨declaration, List.mem_filter.mpr ⟨member, decide_eq_true different⟩, rfl⟩

end Replay.Bound

/-- A part of a block that is replayed between two points, with what is in force at each. -/
def Binds {α : Type} (block : Block) (live live' : List Block.Alloc) (action : Replaying α)
    (P : α → Prop) : Prop :=
  ∀ replay s result s', replay.Bound block live → action replay s = .ok result s' →
    result.2.Bound block live' ∧ P result.1

namespace Binds

variable {α β : Type} {block : Block} {live live' live'' : List Block.Alloc} {P : α → Prop}
  {Q : β → Prop}

theorem pure {a : α} (promise : P a) : Binds block live live (Pure.pure a) P := by
  intro replay s result s' bound run
  obtain ⟨rfl, -⟩ := Success.stateT_pure_ok.mp run
  exact ⟨bound, promise⟩

theorem bind {action : Replaying α} {next : α → Replaying β}
    (first : Binds block live live' action P)
    (rest : ∀ a, P a → Binds block live' live'' (next a) Q) :
    Binds block live live'' (action >>= next) Q := by
  intro replay s result s' bound run
  obtain ⟨a, replay₁, s₁, ran, run⟩ := Success.stateT_bind_ok.mp run
  obtain ⟨bound₁, promise⟩ := first _ _ _ _ bound ran
  exact rest a promise _ _ _ _ bound₁ run

theorem mono {P' : α → Prop} {action : Replaying α} (binds : Binds block live live' action P)
    (weaker : ∀ a, P a → P' a) : Binds block live live' action P' := by
  intro replay s result s' bound run
  obtain ⟨bound', promise⟩ := binds _ _ _ _ bound run
  exact ⟨bound', weaker _ promise⟩

theorem map {f : α → β} {action : Replaying α} (binds : Binds block live live' action P)
    (promise : ∀ a, P a → Q (f a)) : Binds block live live' (f <$> action) Q := by
  rw [map_eq_pure_bind]
  exact binds.bind fun a promised => .pure (promise a promised)

/-- Code that does not look at the block binds no name. -/
theorem lift {action : Gen α} (promise : ∀ s a s', action s = .ok a s' → P a) :
    Binds block live live (liftM action) P := by
  intro replay s result s' bound run
  obtain ⟨ran, same⟩ := Success.lift_ok.mp run
  exact ⟨same ▸ bound, promise _ _ _ ran⟩

theorem modify {change : Replay → Replay}
    (keeps : ∀ replay : Replay, replay.Bound block live → (change replay).Bound block live') :
    Binds block live live' (modify change : Replaying PUnit) fun _ => True := by
  intro replay s result s' bound run
  obtain ⟨rfl, -⟩ := Success.stateT_modify_ok.mp run
  exact ⟨keeps replay bound, trivial⟩

theorem get : Binds block live live (MonadState.get : Replaying Replay) fun _ => True := by
  intro replay s result s' bound run
  obtain ⟨same, -⟩ := Success.stateT_get_ok.mp run
  exact ⟨same ▸ bound, trivial⟩

/-- What is done with the replay as it is. -/
theorem get_bind {next : Replay → Replaying α}
    (rest : ∀ replay : Replay, ∀ s result s', replay.Bound block live →
      next replay replay s = .ok result s' → result.2.Bound block live' ∧ P result.1) :
    Binds block live live' (MonadState.get >>= next) P := by
  intro replay s result s' bound run
  obtain ⟨_, _, _, got, run⟩ := Success.stateT_bind_ok.mp run
  obtain ⟨same, rfl⟩ := Success.stateT_get_ok.mp got
  cases same
  exact rest replay s result s' bound run

theorem mapM {items : List β} {action : β → Replaying α} {R : β → α → Prop}
    (each : ∀ item ∈ items, Binds block live live (action item) (R item)) :
    Binds block live live (items.mapM action) (List.Forall₂ R items) := by
  induction items with
  | nil => exact .pure .nil
  | cons item rest inductionHypothesis =>
      rw [List.mapM_cons]
      refine (each item List.mem_cons_self).bind fun a promise => ?_
      have others := inductionHypothesis fun other member =>
        each other (List.mem_cons_of_mem _ member)
      exact others.bind fun results promises => .pure (.cons promise promises)

theorem forM {items : List β} {action : β → Gen Unit} :
    Binds block live live (items.forM fun item => (liftM (action item) : Replaying Unit))
      fun _ => True := by
  induction items with
  | nil => exact .pure trivial
  | cons item rest inductionHypothesis =>
      exact (lift fun _ _ _ _ => trivial).bind fun _ _ => inductionHypothesis

end Binds

namespace Replaying

variable {site : BlockSite} {live : List Block.Alloc} {α : Type}

theorem size_nextRegister {size : Size} {s s' : State} {register : Register}
    (run : drafting (Drafting.nextRegister size) s = .ok register s') : register.size = size := by
  obtain ⟨draft, drafted, -⟩ := drafting_ok.mp run
  obtain ⟨_, _, _, rfl, _⟩ := Drafting.nextRegister_ok drafted
  rfl

theorem size_lockedSlot {slot : Pool.Slot} {size : Size} {s s' : State} {register : Register}
    (run : lockedSlot slot size s = .ok register s') : register.size = size := by
  simp only [lockedSlot, Success.bind_ok, Success.pure_ok] at run
  obtain ⟨_, _, claimed, _, _, _, rfl, _⟩ := run
  obtain ⟨draft, drafted, -⟩ := drafting_ok.mp claimed
  obtain ⟨_, _, rfl, _⟩ := Drafting.claimSlot_ok drafted
  rfl

/-- A change of the replay that leaves the names alone. -/
theorem binds_aside {change : Replay → Replay}
    (same : ∀ replay, (change replay).names = replay.names) :
    Binds site.block live live (modify change : Replaying PUnit) fun _ => True :=
  .modify fun replay bound => bound.congr fun name => by rw [same]

theorem binds_addTemp (register : Register) :
    Binds site.block live live (addTemp register) fun _ => True :=
  binds_aside fun _ => rfl

theorem binds_addBack (entry : WriteBack) :
    Binds site.block live live (addBack entry) fun _ => True :=
  binds_aside fun _ => rfl

/-- The register of a name that is in force. -/
theorem binds_namedRegister {name : String} (isOpen : Open live name) :
    Binds site.block live live (namedRegister site name) fun register =>
      ∀ declaration ∈ live, declaration.name = name →
        register.size = site.block.widthOf declaration := by
  refine .get_bind fun replay s result s' bound run => ?_
  cases found : replay.names.lookup name with
  | some register =>
      rw [found] at run
      obtain ⟨rfl, -⟩ := Success.stateT_pure_ok.mp run
      exact ⟨bound, fun declaration member same =>
        bound.width declaration member register (same ▸ found)⟩
  | none =>
      simp only [found, bindName, Success.stateT_bind_ok, Success.lift_ok, Success.stateT_modify_ok,
        Success.stateT_pure_ok] at run
      obtain ⟨register, _, _, ⟨chosen, rfl⟩, _, _, _, ⟨_, rfl⟩, _, _, _, ⟨put, _⟩, rfl, _⟩ := run
      cases put
      have size := size_nextRegister chosen
      refine ⟨bound.first isOpen found size fun other => lookup_put .., ?_⟩
      rintro declaration member rfl
      rw [size, Block.widthOf, bound.waiting declaration member found]
      rfl

theorem binds_hardwareRegister (phys : Option Phys) (size : Size) :
    Binds site.block live live (hardwareRegister phys size) fun _ => True := by
  unfold hardwareRegister
  split
  · rename_i phys slot _
    refine Binds.get.bind fun replay _ => ?_
    split
    · exact .pure trivial
    · refine (Binds.lift fun _ _ _ _ => trivial).bind fun register _ => ?_
      have noted : Binds site.block live live (modify fun replay : Replay =>
          { replay with undeclared := (phys, register) :: replay.undeclared }) fun _ => True :=
        binds_aside fun _ => rfl
      exact noted.bind fun _ _ => .pure trivial
  · exact .pure trivial

/-- The register that a reference to a declared name means has the width of the reference, or else
that of the name. -/
def Resolved (block : Block) (live : List Block.Alloc) (ref : Block.RegRef) (register : Register) :
    Prop :=
  ref.named = true → ∀ declaration ∈ live, declaration.name = ref.name →
    register.size = if ref.size = .unsized then block.widthOf declaration else ref.size

theorem binds_register {ref : Block.RegRef} (known : Block.Parser.Known live ref) :
    Binds site.block live live (register site ref) (Resolved site.block live ref) := by
  unfold register
  cases named : ref.named with
  | true =>
      rw [if_pos rfl]
      refine (binds_namedRegister (known named)).bind fun bound width => .pure fun _ => ?_
      intro declaration member same
      split
      · exact width declaration member same
      · rfl
  | false =>
      rw [if_neg Bool.false_ne_true]
      refine (binds_hardwareRegister _ _).mono fun register _ isNamed => ?_
      exact absurd (named.symm.trans isNamed) Bool.false_ne_true

theorem binds_materialize (value : Operand) (v : Option Variable) (written : Bool) :
    Binds site.block live live (materialize value v written) fun _ => True := by
  unfold materialize
  refine (Binds.lift fun _ _ _ _ => trivial).bind fun register _ => ?_
  refine (Binds.lift fun _ _ _ _ => trivial).bind fun _ _ => ?_
  refine (binds_addTemp register).bind fun _ _ => ?_
  dsimp only
  split
  · exact (binds_addBack _).bind fun _ _ => .pure trivial
  · exact .pure trivial

theorem binds_baseRegister {ref : Block.BaseRef}
    (known : ∀ register, ref = .reg register → Block.Parser.Known live register) :
    Binds site.block live live (baseRegister site ref) fun _ => True := by
  cases ref with
  | reg register => exact (binds_register (known register rfl)).mono fun _ _ => trivial
  | var ref =>
      refine (Binds.lift fun _ _ _ _ => trivial).bind fun pair _ => ?_
      refine (Binds.lift fun _ _ _ _ => trivial).bind fun found _ => ?_
      refine (Binds.lift fun _ _ _ _ => trivial).bind fun temporary _ => ?_
      split
      · exact (binds_addTemp found).bind fun _ _ => .pure trivial
      · exact .pure trivial

/-- What an operand comes to.  Only references to declared names are followed. -/
def Rendered (block : Block) (live : List Block.Alloc) (term : Block.Term) (operand : Operand) :
    Prop :=
  ∀ ref, term = .reg ref → ∃ register, operand = .reg register ∧ Resolved block live ref register

theorem binds_term {position : Block.Position} {operand : Block.Term}
    (grounded : Block.Parser.Grounded live operand) :
    Binds site.block live live (term site position operand) (Rendered site.block live operand) := by
  cases operand with
  | reg ref =>
      refine (binds_register (grounded.named ref rfl)).map fun register resolved => ?_
      rintro _ ⟨⟩
      exact ⟨register, rfl, resolved⟩
  | lit pos value => exact .pure fun _ same => by cases same
  | mem pos size ref disp =>
      refine (binds_baseRegister ?_).bind fun register _ => .pure fun _ same => by cases same
      rintro register rfl
      exact grounded.named register rfl
  | var ref =>
      refine (Binds.lift fun _ _ _ _ => trivial).bind fun pair _ => ?_
      dsimp only
      split
      · exact .pure fun _ same => by cases same
      · exact (binds_materialize _ _ _).mono fun _ _ _ same => by cases same

theorem binds_terms {terms : List (Block.Term × Block.Position)}
    (grounded : ∀ item ∈ terms, Block.Parser.Grounded live item.1) :
    Binds site.block live live (terms.mapM fun (operand, position) => term site position operand)
      (List.Forall₂ (fun item => Rendered site.block live item.1) terms) :=
  .mapM fun item member => binds_term (grounded item member)

theorem binds_splitCells (operands : List Operand) :
    Binds site.block live live (splitCells operands) fun _ => True := by
  unfold splitCells
  split
  · refine (Binds.lift fun _ _ _ _ => trivial).bind fun register _ => ?_
    refine (Binds.lift fun _ _ _ _ => trivial).bind fun _ _ => ?_
    exact (binds_addTemp register).bind fun _ _ => .pure trivial
  · exact .pure trivial

theorem binds_settleInstr : Binds site.block live live settleInstr fun _ => True := by
  refine .get_bind fun replay s result s' bound run => ?_
  have settled : Binds site.block live live (do
      replay.back.forM fun entry =>
        (liftM (move entry.home (.reg entry.register) entry.signed .lowFirst) : Replaying Unit)
      replay.temps.forM fun register => (liftM (freeAnyway (.reg register)) : Replaying Unit)
      set { replay with temps := [], back := [] } : Replaying PUnit) fun _ => True := by
    refine Binds.forM.bind fun _ _ => Binds.forM.bind fun _ _ => ?_
    exact .modify fun _ _ => bound.congr fun _ => rfl
  exact settled replay s result s' bound run

theorem binds_instr {instruction : Block.Instruction}
    (grounded : ∀ term ∈ instruction.operands, Block.Parser.Grounded live term) :
    Binds site.block live live (instr site instruction) fun _ => True := by
  refine (binds_terms fun item member => grounded item.1 (List.of_mem_zip member).1).bind
    fun operands _ => ?_
  refine (binds_splitCells _).bind fun operands _ => ?_
  refine (Binds.lift fun _ _ _ _ => trivial).bind fun made _ => ?_
  refine (Binds.lift fun _ _ _ _ => trivial).bind fun _ _ => ?_
  exact binds_settleInstr.bind fun _ _ => .pure trivial

theorem binds_alloc {declaration : Block.Alloc}
    (lawful : ∀ other ∈ live, other.name ≠ declaration.name) :
    Binds site.block live (declaration :: live) (alloc site declaration) fun _ => True := by
  -- bound to a hardware register at the width of the declaration
  have put : ∀ register : Register, declaration.phys.isSome → register.size = declaration.size →
      Binds site.block live (declaration :: live) (bindName declaration.name register)
        fun _ => True := fun register phys size =>
    .modify fun replay bound => bound.alloc lawful phys size fun _ => lookup_put ..
  unfold alloc
  cases phys : declaration.phys with
  | none =>
      intro replay s result s' bound run
      obtain ⟨rfl, -⟩ := Success.stateT_pure_ok.mp run
      exact ⟨bound.wait lawful phys, trivial⟩
  | some named =>
      dsimp only
      split
      · refine (Binds.lift fun _ _ _ => size_lockedSlot).bind fun register size => ?_
        refine (put register (by simp [phys]) size).bind fun _ _ => ?_
        exact .lift fun _ _ _ _ => trivial
      · exact put _ (by simp [phys]) rfl

theorem binds_free (name : String) :
    Binds site.block live (live.filter fun declaration => declaration.name ≠ name)
      (free site name) fun _ => True := by
  refine .get_bind fun replay s result s' bound run => ?_
  cases found : replay.names.lookup name with
  | none =>
      rw [found] at run
      obtain ⟨rfl, -⟩ := Success.stateT_pure_ok.mp run
      refine ⟨bound.drop fun other => ?_, trivial⟩
      split
      · rename_i same
        exact same ▸ found
      · rfl
  | some register =>
      rw [found] at run
      have dropped : Binds site.block live (live.filter fun declaration => declaration.name ≠ name)
          (do
            modify fun replay : Replay =>
              { replay with names := replay.names.filter fun entry => entry.1 ≠ name }
            if site.block.returnedName? = some name then drafting (Drafting.settle register)
            else freeAnyway (.reg register) : Replaying Unit) fun _ => True := by
        refine Binds.bind (P := fun _ => True)
          (.modify fun replay bound => bound.drop fun other => lookup_drop ..) fun _ _ => ?_
        split
        · exact .lift fun _ _ _ _ => trivial
        · exact .lift fun _ _ _ _ => trivial
      exact dropped replay s result s' bound run

/-- A statement binds the names that are in force behind it. -/
theorem binds_statement {value : Operand} {part : Block.Statement} (lawful : part.Lawful live)
    (grounded : ∀ term ∈ part.terms, Block.Parser.Grounded live term) :
    Binds site.block live (part.liveAfter live) (statement site value part) fun _ => True := by
  cases part with
  | alloc declaration => exact (binds_alloc lawful).bind fun _ _ => .pure trivial
  | free pos name implicit => exact (binds_free name).bind fun _ _ => .pure trivial
  | instr instruction => exact (binds_instr grounded).bind fun _ _ => .pure trivial
  | value pos operand =>
      exact (binds_term (grounded operand List.mem_cons_self)).mono fun _ _ => trivial

theorem binds_statements {statements : List Block.Statement} {value : Operand}
    (turns : Block.InTurn live statements) (replays : Block.Parser.Replays live statements) :
    Binds site.block live (Block.liveBehind live statements)
      (statements.foldlM (statement site) value) fun _ => True := by
  induction turns generalizing value with
  | nil => exact .pure trivial
  | cons lawful _ inductionHypothesis =>
      cases replays with
      | cons grounded _ replays =>
          rw [List.foldlM_cons]
          exact (binds_statement lawful grounded).bind fun _ _ => inductionHypothesis replays

/-- In the replay of a block that was read, a reference to a declared name without a width of its
own comes to a register of the width that the name has under the declaration in force. -/
theorem reference_width {name : String} {source : List UInt8} {collector : Collector}
    (read : site.block = (Block.parseBytes name source collector).block)
    {first last after : List Block.Statement} {declaration : Block.Alloc}
    {instruction : Block.Instruction}
    (place : site.block.statements =
      (first ++ .alloc declaration :: last) ++ .instr instruction :: after)
    (inForce : ∀ pos implicit, .free pos declaration.name implicit ∉ last)
    {s s₁ s₂ : State} {replay replay' : Replay} {value : Operand} {operands : List Operand}
    (before : (first ++ .alloc declaration :: last).foldlM (statement site) .absent .start s =
      .ok (value, replay) s₁)
    (here : ((instruction.operands.zip instruction.spec.positions).mapM fun (operand, position) =>
      term site position operand) replay s₁ = .ok (operands, replay') s₂)
    {index : Nat} {ref : Block.RegRef} (used : instruction.operands[index]? = some (.reg ref))
    (named : ref.named = true) (same : declaration.name = ref.name)
    (unsized : ref.size = .unsized) :
    ∃ register, operands[index]? = some (.reg register) ∧
      register.size = site.block.widthOf declaration := by
  have turns := Block.inTurn_parseBytes name source collector
  have replays := Block.replays_parseBytes name source collector
  rw [← read, place] at turns replays
  obtain ⟨turns, -⟩ := turns.behind
  obtain ⟨front, back⟩ := Block.replays_behind replays
  have start : Replay.start.Bound site.block [] := ⟨nofun, nofun, nofun⟩
  obtain ⟨bound, -⟩ := binds_statements turns front _ _ _ _ start before
  have member : declaration ∈ Block.liveBehind [] (first ++ .alloc declaration :: last) := by
    unfold Block.liveBehind
    rw [List.foldl_append, List.foldl_cons]
    exact Block.mem_liveBehind List.mem_cons_self inForce
  cases back with
  | cons grounded sound _ =>
      have items : ∀ item ∈ instruction.operands.zip instruction.spec.positions,
          Block.Parser.Grounded _ item.1 := fun item member =>
        grounded item.1 (List.of_mem_zip member).1
      obtain ⟨-, rendered⟩ := binds_terms items _ _ _ _ bound here
      have arity : instruction.operands.length = instruction.spec.positions.length :=
        (sound instruction rfl).arity
      obtain ⟨inRange, written⟩ := List.getElem?_eq_some_iff.mp used
      have paired : index < (instruction.operands.zip instruction.spec.positions).length := by
        rw [List.length_zip]
        omega
      have replayed : index < operands.length := rendered.length_eq ▸ paired
      have meant := rendered.get paired replayed
      simp only [List.get_eq_getElem, List.getElem_zip] at meant
      obtain ⟨register, found, resolved⟩ := meant ref written
      refine ⟨register, List.getElem?_eq_some_iff.mpr ⟨replayed, found⟩, ?_⟩
      rw [resolved named declaration member same, if_pos unsized]

end Replaying

end Lower

end X64Backend
