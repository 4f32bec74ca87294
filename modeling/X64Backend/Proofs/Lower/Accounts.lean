import X64Backend.Proofs.Block.Returned
import X64Backend.Proofs.Lower.Leftovers

/-!
What a block leaves in the register pool.

A block frees the registers that it has taken, up to the value that it hands over, and keeps every
lock.  Two things escape its account.  The address of a by-reference variable is loaded into a
register that nobody notes, and so is the base of a cell that a statement of its own returns.  And
of a returned name only the declaration that is in force at the return is the value of the block.
-/

namespace X64Backend.Lower

open X64Backend.Tree

open Block (Open)

variable {old : Handle → Bool → Prop} {calls : List Activation} {replay replay' : Replay}
  {s s' : State} {u : Unit} {name : String}

/-- A value that the block found, or the one it returns once it has been given back. -/
def Accounted (start : State) (value : Operand) (handle : Handle) (locked : Bool) : Prop :=
  start.draft.Carries handle locked ∨ ∃ register, value = .reg register ∧
    (Operand.reg register).handle? = some handle ∧ locked = false

/-- A block of which every register is accounted for. -/
structure BlockSite.Tracked (site : BlockSite) (calls : List Activation) : Prop where
  sound : site.block.Sound
  turns : Block.InTurn [] site.block.statements
  replays : Block.Parser.Replays [] site.block.statements
  decls : site.block.decls = site.block.statements.filterMap Block.Statement.declared?
  direct : ∀ name ∈ site.block.readVariables, site.Direct calls name
  /-- No cell whose base is a variable is returned by a statement of its own. -/
  cells : ∀ pos cell size reference disp,
    .value pos (.mem cell size (.var reference) disp) ∉ site.block.statements
  once : ∀ name, site.block.returnedName? = some name → site.block.DeclaredOnce name

/-- Behind some statements of a block, what the pool carries is accounted for. -/
structure Accounts (site : BlockSite) (start : State) (before : List Block.Statement)
    (value : Operand) (s : State) (replay : Replay) : Prop where
  covers : replay.Covers (Accounted start value) start.activations s
  bound : replay.Bound site.block (Block.liveBehind [] before)
  temps : replay.temps = []
  pending : ¬ Block.Answered before → value = .absent
  /-- As long as the returned name is in force, the value of the block is its register. -/
  returned : ∀ name, site.block.returnedName? = some name → Block.Answered before →
    Open (Block.liveBehind [] before) name → ∃ bound register,
      replay.names.lookup name = some bound ∧ value = .reg register ∧
        (Operand.reg register).handle? = (Operand.reg bound).handle?

namespace Replaying

variable {site : BlockSite} {start : State} {before after : List Block.Statement}
  {value result : Operand} {part : Block.Statement}

theorem mentioned_of_mem {term : Block.Term}
    (place : site.block.statements = before ++ part :: after)
    (member : term ∈ part.terms) (mentioned : term.mentioned? = some name) :
    name ∈ site.block.readVariables := by
  refine List.mem_eraseDups.mpr (List.mem_flatMap.mpr ⟨part, by simp [place], ?_⟩)
  cases part with
  | alloc declaration => contradiction
  | free pos name implicit => contradiction
  | instr instruction => exact List.mem_filterMap.mpr ⟨term, member, mentioned⟩
  | value pos operand =>
      obtain rfl := List.mem_singleton.mp member
      exact Option.mem_toList.mpr mentioned

section Statements

variable (tracked : site.Tracked start.activations)
  (place : site.block.statements = before ++ part :: after)
  (accounts : Accounts site start before value s replay)
  (bound : replay'.Bound site.block (Block.liveBehind [] (before ++ [part])))
include accounts bound

/-- A statement that does not return and does not concern the returned name, once it is. -/
theorem accounts_silent (silent : part.returns = false)
    (covers : replay'.Covers (Accounted start value) start.activations s')
    (temps : replay'.temps = [])
    (kept : ∀ name, site.block.returnedName? = some name → Block.Answered before →
      Open (Block.liveBehind [] (before ++ [part])) name →
        Open (Block.liveBehind [] before) name ∧ ∀ bound,
          replay.names.lookup name = some bound → replay'.names.lookup name = some bound) :
    Accounts site start (before ++ [part]) value s' replay' := by
  have answered : Block.Answered (before ++ [part]) ↔ Block.Answered before := by
    simp [Block.Answered.append_iff, silent]
  refine ⟨covers, bound, temps, fun unanswered => accounts.pending (mt answered.mpr unanswered),
    fun name returns answers isOpen => ?_⟩
  obtain ⟨isOpen, keeps⟩ := kept name returns (answered.mp answers) isOpen
  obtain ⟨register, rest, found, known⟩ :=
    accounts.returned name returns (answered.mp answers) isOpen
  exact ⟨register, rest, keeps _ found, known⟩

include tracked place

/-- The statement that returns finds no value yet. -/
theorem accounts_answer (returns : part.returns = true)
    (covers : replay'.Covers (Accounted start value) start.activations s')
    (temps : replay'.temps = [])
    (refers : ∀ ref, part.result? = some (.reg ref) → ref.named = true →
      replay'.Refers (.reg ref) result) :
    Accounts site start (before ++ [part]) result s' replay' := by
  have none : value = .absent := accounts.pending (tracked.sound.unanswered place returns).1
  subst none
  have answered : Block.Answered (before ++ [part]) := Block.Answered.append_iff.mpr (.inr returns)
  refine ⟨⟨covers.tidy, covers.activations, fun carries => ?_, covers.unique⟩, bound, temps,
    fun unanswered => absurd answered unanswered, fun name returned _ _ => ?_⟩
  · refine (covers.carried carries).imp_left ?_
    rintro (known | ⟨_, same, -⟩)
    · exact .inl known
    · contradiction
  · obtain ⟨ref, written, named, rfl⟩ := tracked.sound.result_of_returns place returns returned
    exact refers ref written named ref rfl named

theorem accounts_alloc {declaration : Block.Alloc} (isAlloc : part = .alloc declaration)
    (lawful : ∀ earlier ∈ Block.liveBehind [] before, earlier.name ≠ declaration.name)
    (run : alloc site declaration replay s = .ok (u, replay') s') :
    Accounts site start (before ++ [part]) value s' replay' := by
  subst isAlloc
  have unbound : replay.names.lookup declaration.name = none := by
    by_contra found
    obtain ⟨register, found⟩ := Option.ne_none_iff_exists'.mp found
    obtain ⟨earlier, member, same⟩ := accounts.bound.inForce _ _ found
    exact lawful earlier member same
  obtain ⟨covers, keeps, temps⟩ := covers_alloc accounts.covers unbound run
  refine accounts_silent accounts bound rfl covers (temps.trans accounts.temps) ?_
  intro name returned answered isOpen
  have different : (Block.Statement.alloc declaration).subject? ≠ some name := fun same =>
    tracked.sound.not_answered_of_alloc tracked.decls (tracked.once name returned) returned place
      (Option.some.inj same) answered
  rw [Block.liveBehind_append, Block.open_liveAfter different] at isOpen
  exact ⟨isOpen, keeps name⟩

/-- The register that a returned name gives back is the value of the block. -/
theorem accounts_free {pos : Block.Pos} {implicit : Bool} (isFree : part = .free pos name implicit)
    (lawful : Open (Block.liveBehind [] before) name)
    (run : free site name replay s = .ok (u, replay') s') :
    Accounts site start (before ++ [part]) value s' replay' := by
  subst isFree
  obtain ⟨temps, others, covers⟩ := covers_free accounts.covers run
  refine accounts_silent accounts bound rfl ?_ (temps.trans accounts.temps) ?_
  · refine ⟨covers.tidy, covers.activations, fun carries => ?_, covers.unique⟩
    refine (covers.carried carries).imp_left ?_
    rintro (known | ⟨returned, register, found, behind, unlocked⟩)
    · exact known
    · have answered := tracked.sound.answered_of_free tracked.decls (tracked.once name returned)
        returned tracked.turns place
      obtain ⟨bound, given, looked, rfl, same⟩ := accounts.returned name returned answered lawful
      cases found.symm.trans looked
      exact .inr ⟨given, rfl, same.trans behind, unlocked⟩
  · intro other returned answered isOpen
    have different : other ≠ name := by
      rintro rfl
      rw [Block.liveBehind_append] at isOpen
      obtain ⟨declaration, member, same⟩ := isOpen
      exact of_decide_eq_true (List.mem_filter.mp member).2 same
    have apart : (Block.Statement.free pos name implicit).subject? ≠ some other :=
      fun same => different (Option.some.inj same).symm
    rw [Block.liveBehind_append, Block.open_liveAfter apart] at isOpen
    refine ⟨isOpen, fun bound found => ?_⟩
    rw [others other different]
    exact found

variable (direct : ∀ term ∈ part.terms, ∀ name, term.mentioned? = some name →
  site.Direct start.activations name)
include direct

theorem accounts_instr {instruction : Block.Instruction} {operands : List Operand}
    (isInstr : part = .instr instruction) (arity : instruction.Sound)
    (run : instr site instruction replay s = .ok (operands, replay') s') :
    Accounts site start (before ++ [part])
      (if instruction.returned then operands.head?.getD value else value) s' replay' := by
  subst isInstr
  obtain ⟨covers, keeps, temps, refers⟩ := covers_instr accounts.covers arity.arity direct run
  cases returns : instruction.returned with
  | false =>
      refine accounts_silent accounts bound returns covers temps fun name _ _ isOpen => ?_
      rw [Block.liveBehind_append] at isOpen
      exact ⟨isOpen, keeps name⟩
  | true =>
      refine accounts_answer tracked place accounts bound returns covers temps ?_
      intro ref written named
      simp only [Block.Statement.result?, returns, if_true] at written
      obtain ⟨operand, found, meant⟩ := refers ref written named
      simpa [found] using meant

theorem accounts_value {pos : Block.Pos} {operand : Block.Term}
    (isValue : part = .value pos operand)
    (run : term site anyPosition operand replay s = .ok (result, replay') s') :
    Accounts site start (before ++ [part]) result s' replay' := by
  subst isValue
  obtain ⟨covers, -, refers, temps⟩ :=
    covers_term accounts.covers (direct operand (List.mem_singleton_self _)) run
  refine accounts_answer tracked place accounts bound rfl covers ((temps rfl ?_).trans
    accounts.temps) ?_
  · rintro cell size reference disp rfl
    exact tracked.cells pos cell size reference disp (by simp [place])
  · rintro ref ⟨⟩ _
    exact refers

end Statements

/-- A statement keeps the account. -/
theorem accounts_statement (tracked : site.Tracked start.activations)
    (place : site.block.statements = before ++ part :: after)
    (accounts : Accounts site start before value s replay)
    (run : statement site value part replay s = .ok (result, replay') s') :
    Accounts site start (before ++ [part]) result s' replay' := by
  have turns := tracked.turns
  have replays := tracked.replays
  rw [place] at turns replays
  obtain ⟨-, turns⟩ := turns.behind
  obtain ⟨-, replays⟩ := Block.replays_behind replays
  cases turns with
  | cons lawful _ =>
      cases replays with
      | cons grounded sound _ =>
          have bound := (binds_statement lawful grounded _ _ _ _ accounts.bound run).1
          rw [← Block.liveBehind_append] at bound
          have direct : ∀ term ∈ part.terms, ∀ name, term.mentioned? = some name →
              site.Direct start.activations name := fun term member name mentioned =>
            tracked.direct name (mentioned_of_mem place member mentioned)
          cases part with
          | alloc declaration =>
              simp only [statement, Success.stateT_bind_ok, Success.stateT_pure_ok] at run
              obtain ⟨_, _, s₁, allocated, same, rfl⟩ := run
              cases same
              exact accounts_alloc tracked place accounts bound rfl lawful allocated
          | free pos name implicit =>
              simp only [statement, Success.stateT_bind_ok, Success.stateT_pure_ok] at run
              obtain ⟨_, _, s₁, freed, same, rfl⟩ := run
              cases same
              exact accounts_free tracked place accounts bound rfl lawful freed
          | instr instruction =>
              simp only [statement, Success.stateT_bind_ok, Success.stateT_pure_ok] at run
              obtain ⟨operands, _, s₁, ran, same, rfl⟩ := run
              cases same
              exact accounts_instr tracked place accounts bound direct rfl (sound _ rfl) ran
          | value pos operand =>
              exact accounts_value tracked place accounts bound direct rfl run

theorem accounts_statements (tracked : site.Tracked start.activations)
    (place : site.block.statements = before ++ after)
    (accounts : Accounts site start before value s replay)
    (run : after.foldlM (statement site) value replay s = .ok (result, replay') s') :
    Accounts site start site.block.statements result s' replay' := by
  induction after generalizing s replay value before with
  | nil =>
      obtain ⟨same, rfl⟩ := Success.stateT_pure_ok.mp run
      cases same
      rw [place, List.append_nil]
      exact accounts
  | cons part rest inductionHypothesis =>
      simp only [List.foldlM_cons, Success.stateT_bind_ok] at run
      obtain ⟨middle, _, s₁, ran, run⟩ := run
      have first := accounts_statement tracked place accounts ran
      exact inductionHypothesis (by rw [place, List.append_assoc]; rfl) first run

/-- One storage has one handle. -/
theorem handle?_of_same {first second : Register} (same : first.same second = true) :
    (Operand.reg first).handle? = (Operand.reg second).handle? := by
  obtain ⟨place, size⟩ := first
  obtain ⟨other, width⟩ := second
  obtain rfl : place = other := of_decide_eq_true same
  cases place with
  | slot handle => rfl
  | fixed phys => rfl

/-- The value that a block hands over is the only new one.  An unlocked value behind the register
that the block returns is handed over, unless the block used the register undeclared. -/
theorem leaving_ownValue {undeclared : List (Phys × Register)} {type : TypeRef}
    (tidy : s.draft.Tidy) (run : ownValue undeclared value type s = .ok result s') :
    Leaving (Behind result) s s' ∧
      (∀ register handle, value = .reg register → (Operand.reg register).handle? = some handle →
        s.draft.Carries handle false → result.handle? = some handle ∨
          ∃ entry ∈ undeclared, (Operand.reg entry.2).handle? = some handle) ∧
      (type.operandSize = .unsized → ∀ {handle locked}, result.handle? = some handle →
        s'.draft.Carries handle locked → locked = false) := by
  have copies : copyValue value type s = .ok result s' → Leaving (Behind result) s s' ∧
      (type.operandSize = .unsized → result = .absent) := by
    intro run
    simp only [copyValue, Success.ite_apply] at run
    split at run
    · obtain ⟨rfl, rfl⟩ := Success.pure_ok.mp run
      exact ⟨.refl tidy, fun _ => rfl⟩
    · rename_i sized
      simp only [Success.bind_ok, Success.pure_ok] at run
      obtain ⟨register, s₁, allocated, _, s₂, moved, rfl, rfl⟩ := run
      have first := (leaving_nextRegister tidy allocated).mono (M := Behind (.reg register))
        fun _ _ behind => behind.1
      exact ⟨first.trans (leaving_move first.tidy moved), fun unsized => absurd unsized sized⟩
  cases value with
  | absent =>
      obtain ⟨rfl, rfl⟩ := Success.pure_ok.mp run
      refine ⟨.refl tidy, ?_, ?_⟩
      · rintro _ _ ⟨⟩
      · rintro _ _ _ ⟨⟩
  | lit literal =>
      obtain ⟨rfl, rfl⟩ := Success.pure_ok.mp run
      refine ⟨.refl tidy, ?_, ?_⟩
      · rintro _ _ ⟨⟩
      · rintro _ _ _ ⟨⟩
  | mem pointer =>
      obtain ⟨leaving, unsized⟩ := copies run
      refine ⟨leaving, ?_, fun isUnsized _ _ behind => ?_⟩
      · rintro _ _ ⟨⟩
      · cases unsized isUnsized
        contradiction
  | reg register =>
      simp only [ownValue, Success.bind_ok, temp_ok, Success.ite_apply] at run
      obtain ⟨temporary, _, ⟨known, rfl⟩, run⟩ := run
      split at run
      · rename_i owns
        simp only [Bool.and_eq_true] at owns
        obtain ⟨rfl, rfl⟩ := Success.pure_ok.mp run
        refine ⟨.refl tidy, ?_, fun _ _ _ behind carries => ?_⟩
        · rintro _ handle ⟨⟩ behind _
          exact .inl ((Operand.handle?_resize register _).trans behind)
        · exact unlocked_of_isTemp tidy (known.trans owns.1)
            ((Operand.handle?_resize register _).symm.trans behind) carries
      · rename_i foreign
        obtain ⟨leaving, unsized⟩ := copies run
        refine ⟨leaving, ?_, fun isUnsized _ _ behind => ?_⟩
        · rintro _ handle ⟨⟩ behind carries
          have owned : temporary = true := known.symm.trans (isTemp_of_carries tidy behind carries)
          have claimed : (undeclared.any fun entry => entry.2.same register) = true := by
            simpa [owned] using foreign
          obtain ⟨entry, member, same⟩ := List.any_eq_true.mp claimed
          refine .inr ⟨entry, member, ?_⟩
          exact (handle?_of_same same).trans behind
        · cases unsized isUnsized
          contradiction

/-- At its end a block frees what it has taken, up to the value that it hands over. -/
theorem leaves_finish (covers : replay.Covers (Accounted start value) start.activations s)
    (temps : replay.temps = [])
    (run : finish site value replay s = .ok (result, replay') s') {handle : Handle} {locked : Bool}
    (carries : s'.draft.Carries handle locked) :
    start.draft.Carries handle locked ∨ result.handle? = some handle := by
  simp only [finish, Success.stateT_bind_ok, Success.stateT_get_ok, Success.lift_ok,
    Success.stateT_ite_apply, Success.ite_apply] at run
  obtain ⟨_, _, _, ⟨same, rfl⟩, own, _, s₁, ⟨ran, rfl⟩, _, _, s₂, freed, _, _, s₃, freed',
    run⟩ := run
  cases same
  obtain ⟨first, owns, unlocked⟩ := leaving_ownValue covers.tidy ran
  obtain ⟨dropped, rfl⟩ := Success.forM_of_lifted freed
  obtain ⟨dropped', rfl⟩ := Success.forM_of_lifted freed'
  obtain ⟨second, none⟩ := leaving_freeAll (N := fun _ _ => False) first.tidy dropped
  obtain ⟨third, none'⟩ := leaving_freeAll (N := fun _ _ => False) second.tidy dropped'
  have undropped : ∀ {handle locked}, s₃.draft.Carries handle locked →
      s₂.draft.Carries handle locked := fun carries =>
    (third.draft.carried carries).resolve_right id
  have handed : ∀ {handle locked}, s₃.draft.Carries handle locked →
      s₁.draft.Carries handle locked := fun carries =>
    (second.draft.carried (undropped carries)).resolve_right id
  -- behind the frees there is only what was found, and the value
  have left : ∀ {handle locked}, s₃.draft.Carries handle locked →
      start.draft.Carries handle locked ∨ own.handle? = some handle := by
    intro handle locked carries
    rcases first.draft.carried (handed carries) with earlier | behind
    · rcases covers.carried earlier with (known | ⟨register, isRegister, behind, rfl⟩) | has
      · exact .inl known
      · rcases owns register handle isRegister behind earlier with given | ⟨entry, member, claimed⟩
        · exact .inr given
        · exact absurd (undropped carries) (none entry member claimed)
      · rcases Replay.has_iff.mp has with ⟨entry, member, behind⟩ | ⟨entry, member, behind⟩ |
          ⟨register, member, _⟩
        · exact absurd carries (none' entry member behind)
        · exact absurd (undropped carries) (none entry member behind)
        · rw [temps] at member
          contradiction
    · exact .inr behind
  split at run
  · rename_i unsized
    simp only [Success.stateT_bind_ok, Success.lift_ok, Success.stateT_pure_ok] at run
    obtain ⟨_, _, s₄, ⟨released, rfl⟩, same, rfl⟩ := run
    cases same
    obtain ⟨fourth, isLocked⟩ := leaving_release (N := fun _ _ => False) third.tidy released
    have there := (fourth.draft.carried carries).resolve_right id
    rcases left there with known | behind
    · exact .inl known
    · cases (unlocked unsized behind (handed there)).symm.trans (isLocked behind carries)
  · split at run
    · rename_i isAbsent
      simp only [Success.stateT_bind_ok, Success.lift_ok, Success.stateT_pure_ok] at run
      obtain ⟨_, _, s₄, ⟨reported, rfl⟩, same, rfl⟩ := run
      cases same
      have fourth := (plain_report _).leaving (N := fun _ _ => False) third.tidy reported
      rcases left ((fourth.draft.carried carries).resolve_right id) with known | behind
      · exact .inl known
      · rw [isAbsent] at behind
        contradiction
    · obtain ⟨same, rfl⟩ := Success.stateT_pure_ok.mp run
      cases same
      exact left carries

end Replaying

/-- A block that was read accounts for every register, if no variable is reached through its address
and the returned name is declared once. -/
theorem BlockSite.tracked_of_read {site : BlockSite} {name : String} {source : List UInt8}
    {collector : Collector}
    (read : site.block = (Block.parseBytes name source collector).block)
    (direct : ∀ name ∈ site.block.readVariables, site.Direct calls name)
    (cells : ∀ pos cell size reference disp,
      .value pos (.mem cell size (.var reference) disp) ∉ site.block.statements)
    (once : ∀ name, site.block.returnedName? = some name → site.block.DeclaredOnce name) :
    site.Tracked calls where
  sound := read ▸ Block.sound_parseBytes name source collector
  turns := read ▸ Block.inTurn_parseBytes name source collector
  replays := read ▸ Block.replays_parseBytes name source collector
  decls := read ▸ (Block.paired_parseBytes name source collector).decls
  direct := direct
  cells := cells
  once := once

/-- A block that accounts for its registers leaves the pool as it found it, up to the value that it
hands over. -/
theorem asmBlock_leaves_pool {site : BlockSite} {result : Operand} (prepared : Prepared s)
    (tracked : site.Tracked s.activations) (run : asmBlock site s = .ok result s') :
    (∀ handle locked, s.draft.Carries handle locked → s'.draft.Carries handle locked) ∧
      ∀ handle locked, s'.draft.Carries handle locked →
        s.draft.Carries handle locked ∨ result.handle? = some handle := by
  constructor
  · intro handle locked carries
    obtain ⟨slot, here⟩ := Draft.live_of_carries carries
    obtain ⟨steady, -⟩ := steady_asmBlock (C := fun _ => True) prepared (fun _ _ => trivial) run
    exact steady.guards.kept (prepared.tidy.lt_count_of_holds here) carries
  · intro handle locked carries
    unfold asmBlock at run
    obtain ⟨⟨value, replay⟩, s₁, replayed, run⟩ := Success.bind_ok.mp run
    obtain ⟨rfl, rfl⟩ := Success.pure_ok.mp run
    obtain ⟨last, _, s₂, ran, finished⟩ := Success.stateT_bind_ok.mp replayed
    have begun : Accounts site s [] .absent s .start :=
      { covers := ⟨prepared.tidy, rfl, fun carries => .inl (.inl carries), by simp [Replay.start]⟩
        bound := ⟨nofun, nofun, nofun⟩
        temps := rfl
        pending := fun _ => rfl
        returned := by simp [Block.Answered] }
    have accounts := Replaying.accounts_statements tracked rfl begun ran
    exact Replaying.leaves_finish accounts.covers accounts.temps finished carries

section Addresses

variable {site : BlockSite} {ref : Block.VarRef} {id : VarId} {guarded : Handle → Prop}
  {C : Pool.Slot → Prop} {instruction : Block.Instruction} {others : List Block.Term}

/-- One more value under guard. -/
def Besides (guarded : Handle → Prop) (extra : Handle) (handle : Handle) : Prop :=
  guarded handle ∨ handle = extra

theorem Ready.besides (ready : Ready guarded s) {extra : Handle}
    (issued : extra < s.draft.timeline.count) : Ready (Besides guarded extra) s := by
  refine ⟨ready.tidy, ?_, fun activation member operand among handle behind => ?_⟩
  · rintro handle (guards | rfl)
    · exact ready.issued handle guards
    · exact issued
  · obtain ⟨guards, held⟩ := ready.settled activation member operand among handle behind
    exact ⟨.inl guards, held⟩

theorem Fresh.besides {operand : Operand} {extra : Handle} (fresh : Fresh guarded s operand)
    (other : operand.handle? ≠ some extra) : Fresh (Besides guarded extra) s operand := by
  intro handle behind
  obtain ⟨issued, unguarded⟩ := fresh handle behind
  refine ⟨issued, ?_⟩
  rintro (guards | rfl)
  · exact unguarded guards
  · exact other behind

/-- What was bound earlier is not the newest value. -/
theorem Fresh.older {operand : Operand} (fresh : Fresh guarded s operand) :
    operand.handle? ≠ some s.draft.timeline.count := fun behind =>
  Nat.lt_irrefl _ (fresh _ behind).1

theorem Owned.besides {operand : Operand} {extra : Handle} (owned : Owned guarded s operand)
    (other : operand.handle? ≠ some extra) : Owned (Besides guarded extra) s operand := by
  intro handle behind
  obtain ⟨issued, held⟩ := owned handle behind
  refine ⟨issued, ?_⟩
  rintro (guards | rfl)
  · exact held guards
  · exact absurd behind other

theorem Replay.Fresh.besides (fresh : replay.Fresh guarded s) (steady : Steady guarded C s s') :
    replay.Fresh (Besides guarded s.draft.timeline.count) s' :=
  ⟨fun entry member => ((fresh.names entry member).steady steady).besides
      (fresh.names entry member).older,
    fun entry member => ((fresh.undeclared entry member).steady steady).besides
      (fresh.undeclared entry member).older,
    fun register member => ((fresh.temps register member).steady steady).besides
      (fresh.temps register member).older⟩

namespace Replaying

variable (known : site.vars.lookup ref.name = some id)
  (byRef : (site.program.var id).byRef = true)
  (unbound : ∀ operand, (s.activations.findSome? fun activation => activation.binding? id) ≠
    some (.operand operand))
include known byRef unbound

/-- The address of a by-reference variable is loaded into a new register that is not locked. -/
theorem carries_address {result : Operand × Option Variable}
    (run : variableNamed site ref s = .ok result s') :
    s.draft.timeline.count < s'.draft.timeline.count ∧
      s'.draft.Carries s.draft.timeline.count false := by
  have loads : ∀ {offset operand s₁},
      variableOperand.cell (site.program.var id) offset s = .ok operand s₁ →
      s.draft.timeline.count < s₁.draft.timeline.count ∧
        s₁.draft.Carries s.draft.timeline.count false := by
    intro offset operand s₁ run
    simp only [variableOperand.cell, byRef, if_true, Success.bind_ok, Success.pure_ok] at run
    obtain ⟨pointer, s₂, allocated, _, s₃, emitted, -, rfl⟩ := run
    obtain ⟨draft, drafted, rfl⟩ := drafting_ok.mp allocated
    obtain ⟨slot, _, _, -, rfl⟩ := Drafting.nextRegister_ok drafted
    have quiet := plain_emit _ _ _ _ emitted
    rw [quiet.timeline]
    refine ⟨by simp, slot, ⟨s.draft.timeline.count, .used, false, false⟩, ?_, rfl, rfl⟩
    rw [quiet.pool, Draft.occupant?_issue, if_pos rfl]
    rfl
  unfold variableNamed at run
  rw [known] at run
  obtain ⟨operand, s₁, looked, run⟩ := Success.bind_ok.mp run
  obtain ⟨_, rfl⟩ := Success.pure_ok.mp run
  unfold variableOperand at looked
  obtain ⟨_, _, got, looked⟩ := Success.bind_ok.mp looked
  obtain ⟨rfl, rfl⟩ := Success.get_ok.mp got
  cases binding : s.activations.findSome? fun activation => activation.binding? id with
  | none =>
      rw [binding] at looked
      exact loads looked
  | some bound =>
      rw [binding] at looked
      cases bound with
      | operand operand => exact absurd binding (unbound operand)
      | offset offset => exact loads looked

/-- An instruction keeps the register that it loaded the address of its first operand into. -/
theorem steady_addressed {operands : List Operand} (ready : Ready guarded s)
    (fresh : replay.Fresh guarded s) (every : ∀ slot, C slot) (sound : instruction.Sound)
    (written : instruction.operands = .var ref :: others)
    (run : instr site instruction replay s = .ok (operands, replay') s') :
    Ready (Besides guarded s.draft.timeline.count) s' ∧
      replay'.Fresh (Besides guarded s.draft.timeline.count) s' ∧
      s'.draft.Carries s.draft.timeline.count false := by
  simp only [instr, Success.stateT_bind_ok, Success.lift_ok, Success.stateT_pure_ok] at run
  obtain ⟨given, replay₁, s₁, evaluated, results, replay₂, s₂, split, instr, _, s₃, ⟨built, rfl⟩,
    _, _, s₄, ⟨emitted, rfl⟩, _, _, s₅, settled, same, rfl⟩ := run
  cases same
  have arity := sound.arity
  rw [written] at evaluated arity
  cases positions : instruction.spec.positions with
  | nil => simp [Block.Spec.arity, positions] at arity
  | cons position rest =>
      rw [positions, List.zip_cons_cons] at evaluated
      simp only [List.mapM_cons, Success.stateT_bind_ok, Success.stateT_pure_ok] at evaluated
      obtain ⟨first, replay₃, s₆, ran, later, _, _, evaluated, same, rfl⟩ := evaluated
      cases same
      simp only [term, Success.stateT_bind_ok, Success.lift_ok, Success.stateT_ite_apply,
        Success.ite_apply] at ran
      obtain ⟨⟨value, v⟩, _, s₇, ⟨named, rfl⟩, ran⟩ := ran
      obtain ⟨issued, carries⟩ := carries_address known byRef unbound named
      obtain ⟨loaded, -⟩ := steady_variableNamed (C := C) ready named
      have ready₁ := (loaded.ready ready).besides issued
      have fresh₁ := fresh.besides loaded
      obtain ⟨second, fresh₂⟩ : Steady (Besides guarded s.draft.timeline.count) C s₇ s₆ ∧
          replay₃.Fresh (Besides guarded s.draft.timeline.count) s₆ := by
        split at ran
        · obtain ⟨same, rfl⟩ := Success.stateT_pure_ok.mp ran
          cases same
          exact ⟨.refl ready₁, fresh₁⟩
        · obtain ⟨step, fresh', -⟩ := steady_materialize (C := C) ready₁ fresh₁ ran
          exact ⟨step, fresh'⟩
      obtain ⟨third, fresh₃, -⟩ := steady_terms (second.ready ready₁) fresh₂
        (fun _ _ slot _ => every slot) evaluated
      have three := second.trans third
      obtain ⟨fourth, fresh₄, -⟩ := steady_splitCells (C := C) (three.ready ready₁) fresh₃ split
      have four := three.trans fourth
      have fifth := four.trans
        ((plain_instrOf instruction operands).steady (four.ready ready₁) built)
      have sixth := (plain_emit _).steady (C := C) (fifth.ready ready₁) emitted
      have six := fifth.trans sixth
      obtain ⟨seventh, fresh₅⟩ := steady_settleInstr (C := C) (six.ready ready₁)
        (fresh₄.steady (Steady.trans ((plain_instrOf instruction operands).steady
          (four.ready ready₁) built) sixth)) settled
      have seven := six.trans seventh
      exact ⟨seven.ready ready₁, fresh₅, seven.guards.kept (.inr rfl) carries⟩

end Replaying

end Addresses

/-- A block does not free the register that it loads the address of a by-reference variable into:
behind the block that register is occupied, and not by the value of the block. -/
theorem asmBlock_keeps_address {site : BlockSite} {result : Operand} {ref : Block.VarRef}
    {id : VarId} {instruction : Block.Instruction} {others : List Block.Term}
    {before after : List Block.Statement} (prepared : Prepared s)
    (place : site.block.statements = before ++ .instr instruction :: after)
    (sound : instruction.Sound) (written : instruction.operands = .var ref :: others)
    (silent : instruction.returned = false) (known : site.vars.lookup ref.name = some id)
    (byRef : (site.program.var id).byRef = true)
    (unbound : ∀ operand, (s.activations.findSome? fun activation => activation.binding? id) ≠
      some (.operand operand))
    (run : asmBlock site s = .ok result s') :
    ∃ handle, ¬ Issued s handle ∧ s'.draft.Carries handle false ∧ result.handle? ≠ some handle := by
  unfold asmBlock at run
  obtain ⟨⟨value, replay⟩, s₁, replayed, run⟩ := Success.bind_ok.mp run
  obtain ⟨rfl, rfl⟩ := Success.pure_ok.mp run
  obtain ⟨last, _, s₂, ran, finished⟩ := Success.stateT_bind_ok.mp replayed
  rw [place, List.foldlM_append] at ran
  simp only [List.foldlM_cons, Success.stateT_bind_ok, Replaying.statement,
    Success.stateT_pure_ok] at ran
  obtain ⟨early, replay₁, s₃, front, _, _, s₄, ⟨operands, _, _, here, same, rfl⟩, back⟩ := ran
  cases same
  rw [silent] at back
  have start : Replay.start.Fresh (Issued s) s := ⟨by simp [Replay.start], by simp [Replay.start],
    by simp [Replay.start]⟩
  obtain ⟨first, fresh, owned⟩ := Replaying.steady_statements (C := fun _ => True) prepared start
    (Fresh.of_none rfl).owned (fun _ _ _ _ => trivial) front
  have unbound₃ : ∀ operand, (s₃.activations.findSome? fun activation =>
      activation.binding? id) ≠ some (.operand operand) := by
    rw [first.activations]
    exact unbound
  have ready := first.ready prepared
  obtain ⟨second, -, -⟩ := Replaying.steady_instr (C := fun _ => True) ready fresh
    (fun _ _ => trivial) here
  obtain ⟨ready₁, fresh₁, carries⟩ := Replaying.steady_addressed known byRef unbound₃ ready fresh
    (C := fun _ => True) (fun _ => trivial) sound written here
  have older : early.handle? ≠ some s₃.draft.timeline.count := fun behind =>
    Nat.lt_irrefl _ (owned _ behind).1
  obtain ⟨third, fresh₂, owned₂⟩ := Replaying.steady_statements (C := fun _ => True) ready₁ fresh₁
    ((owned.steady second).besides older) (fun _ _ _ _ => trivial) back
  obtain ⟨fourth, owned₃⟩ := Replaying.steady_finish (C := fun _ => True) (third.ready ready₁)
    fresh₂ owned₂ finished
  have kept := (third.trans fourth).guards.kept (.inr rfl) carries
  refine ⟨s₃.draft.timeline.count, Nat.not_lt_of_le first.guards.count, kept, fun behind => ?_⟩
  exact Bool.false_ne_true ((owned₃ _ behind).2 (.inr rfl) _ kept)

end X64Backend.Lower
