import X64Backend.Proofs.Lower.Fit

/-!
Code with branches moves no value on one path only, apart from blocks that name its register.  The
sides of a logical operator and the body of an expansion begin with a clear accumulator, so no call
and no division inside has to drive a value out of it.  The other slots are cleared by nothing but a
claim for their own register.
-/

namespace X64Backend

open Pool

/-- A change that keeps every value of a draft with a clear accumulator moves none, except out of
the slots that may be claimed. -/
theorem Draft.Guards.stays {guarded : Handle → Prop} {C : Slot → Prop} {draft draft' : Draft}
    {slot : Slot} {handle : Handle} (guards : Draft.Guards guarded C draft draft')
    (clear : draft.Clear) (every : ∀ other, draft.Live other → guarded other)
    (here : draft.Holds slot handle) (unclaimed : ¬ C slot) :
    draft'.Holds slot handle ∧
      draft'.timeline.history? handle = draft.timeline.history? handle := by
  rcases clear with free | full
  · have saved : slot ≠ accumulator := by
      rintro rfl
      simp [Draft.Holds, free] at here
    exact guards.still (every handle ⟨slot, here⟩) saved unclaimed here
  · refine guards.full ?_ here
    intro other
    obtain ⟨occupant, occupied⟩ := Option.ne_none_iff_exists'.mp (full other)
    have holds : draft.Holds other occupant.handle := by
      simp [Draft.Holds, occupied]
    exact ⟨occupant.handle, every _ ⟨other, holds⟩, holds⟩

namespace Lower

open X64Backend.Tree

/-- Code with branches: the sides of a logical operator, or the body of an expansion. -/
inductive Region where
  | logical (op : LogicalOp) (left right : Expr) (dst : Operand) (no done : String)
  | expansion (callee : FnId) (opening : Opening)

namespace Region

/-- Generates the code up to the label at its end. -/
def generate (env : Env) : Region → Gen Unit
  | logical op left right dst no done =>
      logicalSides op (lower env left) (lower env right) dst no done
  | expansion callee opening => do
      let _ ← expansionBody env callee opening

/-- A block in the code names the register of a slot. -/
def Claims (program : TypedProgram) (slot : Slot) : Region → Prop
  | logical op left right _ _ _ => Expr.Claims program slot (.logical op left right)
  | expansion callee _ =>
      Stmt.Claims program slot (.block ((program.function callee).body.getD []))

end Region

/-- Code with branches that the generation of a program comes to, in the state at its start. -/
inductive Reaches (program : TypedProgram) (options : Options) : Nat → Region → State → Prop where
  | logical {d : Nat} {op : LogicalOp} {left right : Expr} {dst : Operand} {no done : String}
      {s s' : State} : Visits program options d (.item (.value (.logical op left right))) s →
      (lower (envAt program options d) left).literal? = none →
      logicalStart s = .ok (dst, no, done) s' →
      Reaches program options d (.logical op left right dst no done) s'
  | expansion {d : Nat} {callee : FnId} {arguments : List Operand} {opening : Opening}
      {s s' : State} : Visits program options (d + 1) (.expansion callee arguments) s →
      openExpansion (envAt program options d) callee arguments s = .ok opening s' →
      Reaches program options d (.expansion callee opening) s'

variable {program : TypedProgram} {options : Options} {d : Nat} {region : Region} {s s' : State}
  {slot : Slot} {handle : Handle} {u : Unit}

theorem stays_logical {op : LogicalOp} {left right : Expr} {dst : Operand} {no done : String}
    (prepared : Prepared s) (start : logicalStart s = .ok (dst, no, done) s')
    {s'' : State} (run : Region.generate (envAt program options d)
      (.logical op left right dst no done) s' = .ok u s'')
    (here : s'.draft.Holds slot handle)
    (unclaimed : ¬ Expr.Claims program slot (.logical op left right)) :
    s''.draft.Holds slot handle ∧
      s''.draft.timeline.history? handle = s'.draft.timeline.history? handle := by
  have prepared' := (steady_logicalStart (C := fun _ => True) prepared start).1.prepared prepared
  have sound : ∀ part ∈ [left, right], (lower (envAt program options d) part).Sound (Issued s')
      fun slot => Expr.Claims program slot (.logical op left right) := by
    intro part member
    refine sound_lower (expanding_expandAt program options d _ _) part ?_
    exact claimed_part (e := .logical op left right) (fun _ claimed => claimed) member
  have steady := steady_logicalSides (sound left (by simp)) (sound right (by simp)) prepared' run
  refine steady.guards.stays (clear_logicalStart prepared start) ?_ here unclaimed
  rintro other ⟨place, holds⟩
  exact prepared'.tidy.lt_count_of_holds holds

theorem stays_expansion {guarded : Handle → Prop} {callee : FnId} {arguments : List Operand}
    {opening : Opening} (ready : Ready guarded s)
    (owned : ∀ argument ∈ arguments, Owned guarded s argument)
    (start : openExpansion (envAt program options d) callee arguments s = .ok opening s')
    {s'' : State} (run : Region.generate (envAt program options d) (.expansion callee opening) s' =
      .ok u s'') (here : s'.draft.Holds slot handle)
    (unclaimed : ¬ Stmt.Claims program slot (.block ((program.function callee).body.getD []))) :
    s''.draft.Holds slot handle ∧
      s''.draft.timeline.history? handle = s'.draft.timeline.history? handle := by
  obtain ⟨_, _, opened⟩ := openExpansion_ok (C := fun _ => True) ready owned start
  have executes : Executes
      (fun slot => Stmt.Claims program slot (.block ((program.function callee).body.getD [])))
      (block (envAt program options d) ((program.function callee).body.getD [])) := by
    refine executes_statements (fun guarded => expanding_expandAt program options d guarded _) _ ?_
    intro stmt member place C
    exact .part member C
  obtain ⟨final, _, generated, ended⟩ := Success.bind_ok.mp run
  obtain ⟨_, rfl⟩ := Success.pure_ok.mp ended
  obtain ⟨guards, _, _⟩ := expansionBody_ok opened.prepared opened.allLocked opened.entries executes
    generated
  refine guards.stays opened.clear ?_ here unclaimed
  rintro other ⟨place, holds⟩
  obtain ⟨occupant, occupied, same⟩ := Option.map_eq_some_iff.mp holds
  exact ⟨place, occupant, occupied, same, opened.allLocked place occupant occupied⟩

/-- A value in the pool where code with branches begins is in the same slot behind it, and has not
been moved on any path through it, unless a block in that code names the register of the slot. -/
theorem Reaches.stays (reaches : Reaches program options d region s)
    (run : region.generate (envAt program options d) s = .ok u s')
    (here : s.draft.Holds slot handle) (unclaimed : ¬ region.Claims program slot) :
    s'.draft.Holds slot handle ∧
      s'.draft.timeline.history? handle = s.draft.timeline.history? handle := by
  cases reaches with
  | logical visits _ start => exact stays_logical visits.fit start run here unclaimed
  | expansion visits start =>
      obtain ⟨guarded, ready, owned⟩ := visits.fit
      exact stays_expansion ready owned start run here unclaimed

end Lower

end X64Backend
