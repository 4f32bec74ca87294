import X64Backend.Proofs.Block.Pairing

/-!
The returned name of a block.

A name that is declared once is given back behind the statement that returns it: it is in force
there, and it does not come into force again.
-/

namespace X64Backend.Block

/-- One of some statements has given the block its value. -/
def Answered (statements : List Statement) : Prop :=
  ∃ statement ∈ statements, statement.returns = true

/-- A name is declared at most once in a block. -/
def DeclaredOnce (block : Block) (name : String) : Prop :=
  (block.decls.map Alloc.name).count name ≤ 1

theorem Answered.append_iff {before : List Statement} {statement : Statement} :
    Answered (before ++ [statement]) ↔ Answered before ∨ statement.returns = true := by
  simp [Answered, or_and_right, exists_or]

theorem Statement.returns_of_result? {statement : Statement} {term : Term}
    (result : statement.result? = some term) : statement.returns = true := by
  cases statement with
  | alloc declaration => cases result
  | free pos name implicit => cases result
  | instr instruction =>
      by_contra unreturned
      simp only [Statement.result?] at result
      rw [if_neg (by simpa [Statement.returns] using unreturned)] at result
      contradiction
  | value pos operand => rfl

/-- A declaration that is in force was made by one of the statements. -/
theorem alloc_of_mem_liveBehind {statements : List Statement} {live : List Alloc}
    {declaration : Alloc} (member : declaration ∈ liveBehind live statements) :
    declaration ∈ live ∨ .alloc declaration ∈ statements := by
  induction statements generalizing live with
  | nil => exact .inl member
  | cons statement rest inductionHypothesis =>
      rcases inductionHypothesis member with earlier | later
      · cases statement with
        | alloc other =>
            rcases List.mem_cons.mp earlier with rfl | earlier
            · exact .inr List.mem_cons_self
            · exact .inl earlier
        | free pos name implicit => exact .inl (List.mem_filter.mp earlier).1
        | instr instruction => exact .inl earlier
        | value pos operand => exact .inl earlier
      · exact .inr (List.mem_cons_of_mem _ later)

theorem alloc_of_open {statements : List Statement} {name : String}
    (isOpen : Open (liveBehind [] statements) name) :
    ∃ declaration, .alloc declaration ∈ statements ∧ declaration.name = name := by
  obtain ⟨declaration, member, same⟩ := isOpen
  rcases alloc_of_mem_liveBehind member with none | among
  · contradiction
  · exact ⟨declaration, among, same⟩

theorem liveBehind_append {live : List Alloc} {before : List Statement} {statement : Statement} :
    liveBehind live (before ++ [statement]) = statement.liveAfter (liveBehind live before) := by
  simp [liveBehind]

section Blocks

variable {block : Block} {name : String} {before after : List Statement} {statement : Statement}

/-- What is declared once is not declared before. -/
theorem DeclaredOnce.first {declaration earlier : Alloc}
    (once : DeclaredOnce block declaration.name)
    (decls : block.decls = block.statements.filterMap Statement.declared?)
    (place : block.statements = before ++ .alloc declaration :: after)
    (member : .alloc earlier ∈ before) : earlier.name ≠ declaration.name := by
  intro same
  have declared : earlier.name ∈ (before.filterMap Statement.declared?).map Alloc.name :=
    List.mem_map_of_mem (List.mem_filterMap.mpr ⟨_, member, rfl⟩)
  have here : 0 < ((before.filterMap Statement.declared?).map Alloc.name).count
      declaration.name := List.count_pos_iff.mpr (same ▸ declared)
  unfold DeclaredOnce at once
  have split : block.decls = before.filterMap Statement.declared? ++
      declaration :: after.filterMap Statement.declared? := by
    rw [decls, place, List.filterMap_append]
    rfl
  rw [split, List.map_append, List.map_cons, List.count_append, List.count_cons_self] at once
  omega

variable (sound : Sound block)
include sound

theorem Sound.unanswered (place : block.statements = before ++ statement :: after)
    (returns : statement.returns = true) : ¬ Answered before ∧ ¬ Answered after := by
  have once := sound.returns
  rw [place, List.countP_append, List.countP_cons_of_pos returns] at once
  constructor
  · rintro ⟨other, member, returned⟩
    have : 0 < before.countP Statement.returns := List.countP_pos_iff.mpr ⟨other, member, returned⟩
    omega
  · rintro ⟨other, member, returned⟩
    have : 0 < after.countP Statement.returns := List.countP_pos_iff.mpr ⟨other, member, returned⟩
    omega

/-- The returned name is what the returning statement refers to. -/
theorem Sound.result_of_returns (place : block.statements = before ++ statement :: after)
    (returns : statement.returns = true) (returned : block.returnedName? = some name) :
    ∃ ref, statement.result? = some (.reg ref) ∧ ref.named = true ∧ ref.name = name := by
  obtain ⟨first, last⟩ := sound.unanswered place returns
  have silent : ∀ {statements : List Statement}, ¬ Answered statements →
      statements.findSome? Statement.result? = none := by
    intro statements unanswered
    refine List.findSome?_eq_none_iff.mpr fun other member => ?_
    by_contra some
    obtain ⟨term, result⟩ := Option.ne_none_iff_exists'.mp some
    exact unanswered ⟨other, member, Statement.returns_of_result? result⟩
  have result : block.result? = statement.result? := by
    rw [result?, place, List.findSome?_append, silent first, Option.none_or, List.findSome?_cons]
    cases found : statement.result? with
    | none => exact silent last
    | some term => rfl
  unfold returnedName? at returned
  rw [result] at returned
  split at returned
  · rename_i ref found
    split at returned
    · rename_i named
      exact ⟨ref, found, named, Option.some.inj returned⟩
    · contradiction
  · contradiction

/-- The returned name is in force where it is returned. -/
theorem Sound.inForce_of_returns (place : block.statements = before ++ statement :: after)
    (returns : statement.returns = true) (returned : block.returnedName? = some name) :
    InForce before name := by
  obtain ⟨ref, result, named, rfl⟩ := sound.result_of_returns place returns returned
  refine sound.named before statement after place (.reg ref) ?_ ref rfl named
  cases statement with
  | alloc declaration => cases result
  | free pos name implicit => cases result
  | instr instruction =>
      simp only [Statement.result?] at result
      split at result
      · exact List.mem_of_mem_head? result
      · contradiction
  | value pos operand =>
      cases result
      exact List.mem_singleton_self _

omit sound in
/-- A block that returns a name has a statement that does so. -/
theorem exists_returning (returned : block.returnedName? = some name) :
    ∃ before statement after, block.statements = before ++ statement :: after ∧
      statement.returns = true := by
  have found : ∃ term, block.result? = some term := by
    unfold returnedName? at returned
    split at returned
    · exact ⟨_, ‹_›⟩
    · contradiction
  obtain ⟨term, found⟩ := found
  obtain ⟨before, statement, after, place, result, -⟩ := List.findSome?_eq_some_iff.mp found
  exact ⟨before, statement, after, place, Statement.returns_of_result? result⟩

variable (decls : block.decls = block.statements.filterMap Statement.declared?)
  (once : DeclaredOnce block name) (returned : block.returnedName? = some name)
include decls once returned

/-- Behind the statement that returns it, the name is not declared. -/
theorem Sound.not_answered_of_alloc {declaration : Alloc}
    (place : block.statements = before ++ .alloc declaration :: after)
    (same : declaration.name = name) : ¬ Answered before := by
  subst same
  rintro ⟨statement, member, returns⟩
  obtain ⟨first, last, rfl⟩ := List.append_of_mem member
  have place' : block.statements = first ++ statement :: (last ++ .alloc declaration :: after) := by
    rw [place, List.append_assoc, List.cons_append]
  obtain ⟨front, other, _, rfl, same, -⟩ := sound.inForce_of_returns place' returns returned
  exact once.first decls place (by simp) same

/-- A name is given back behind the statement that returns it. -/
theorem Sound.answered_of_free {pos : Pos} {implicit : Bool}
    (turns : InTurn [] block.statements)
    (place : block.statements = before ++ .free pos name implicit :: after) : Answered before := by
  have isOpen : Open (liveBehind [] before) name := by
    rw [place] at turns
    cases turns.behind.2 with
    | cons lawful _ => exact lawful
  obtain ⟨earlier, member, rfl⟩ := alloc_of_open isOpen
  obtain ⟨before', statement, after', place', returns⟩ := exists_returning returned
  rcases List.append_eq_append_iff.mp (place.symm.trans place') with
    ⟨between, rfl, split⟩ | ⟨between, rfl, split⟩
  · -- the name would have to be declared again in between
    obtain ⟨first, declaration, last, force, same, kept⟩ :=
      sound.inForce_of_returns place' returns returned
    cases between with
    | nil =>
        cases split
        cases returns
    | cons head rest =>
        cases split
        rcases List.append_eq_append_iff.mp force with
          ⟨front, rfl, behind⟩ | ⟨back, rfl, behind⟩
        · have again : block.statements =
              (before ++ front) ++ .alloc declaration :: (last ++ statement :: after') := by
            rw [place', force]
            simp
          have once' : block.DeclaredOnce declaration.name := same ▸ once
          exact absurd same.symm (once'.first decls again (by simp [member]))
        · cases back with
          | nil => cases behind
          | cons second others =>
              cases behind
              exact absurd (by simp) (kept pos implicit)
  · cases between with
    | nil =>
        cases split
        cases returns
    | cons head rest =>
        cases split
        exact ⟨statement, by simp, returns⟩

end Blocks

end X64Backend.Block
