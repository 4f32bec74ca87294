import X64Backend.Block.Parser
import X64Backend.Proofs.Lower.Sections

/-!
A procedure saves every register of the pool that its body names.  The allocator marks a slot when a
value comes to it, whether it is issued there, moved there or renamed to it, and never takes a mark
back; the prologue and the epilogue are made from the marks once the body is done.
-/

namespace X64Backend

open Pool

namespace History

/-- A move of a handle changes where it is to the new register, or not at all. -/
theorem placeAt_relocate (history : History) (phys : Option Phys) (now tick : Nat) :
    (history.relocate phys now).placeAt tick = phys ∨
      (history.relocate phys now).placeAt tick = history.placeAt tick := by
  unfold relocate
  split
  · rename_i none
    split
    · simp [placeAt, none]
    · by_cases later : now ≤ tick
      · simp [placeAt, later]
      · simp [placeAt, later, none]
  · rename_i place rest some
    split
    · by_cases later : now ≤ tick
      · simp [placeAt, later]
      · rename_i same
        simp [placeAt, same, later, some]
    · by_cases later : now ≤ tick
      · simp [placeAt, later]
      · simp [placeAt, later, some]

end History

namespace Draft

/-- The handles issued since a procedure began have only lived in slots that the procedure may use,
the earlier ones are as they were, and the values in the pool are in such slots. -/
structure Sheltered (earlier : Timeline) (draft : Draft) : Prop where
  begun : earlier.count ≤ draft.timeline.count
  older : ∀ handle, handle < earlier.count →
    draft.timeline.history? handle = earlier.history? handle
  homes : ∀ handle tick, earlier.count ≤ handle → handle < draft.timeline.count →
    ∃ slot, draft.pool.Covers slot ∧ draft.timeline.placeAt handle tick = some (slotPhys slot)
  occupants : ∀ slot occupant, draft.pool.occupant? slot = some occupant →
    earlier.count ≤ occupant.handle ∧ occupant.handle < draft.timeline.count ∧
      draft.pool.Covers slot

variable {earlier : Timeline} {draft draft' : Draft} {slot : Slot}

/-- A value that is moved or renamed keeps to the slots that the procedure may use. -/
theorem Sheltered.rehouse {handle : Handle} {change : History → History} {free : Slot}
    (sheltered : Sheltered earlier draft)
    (same : draft'.timeline = draft.timeline.update handle change)
    (changed : ∀ history tick, (change history).placeAt tick = some (slotPhys free) ∨
      (change history).placeAt tick = history.placeAt tick)
    (late : earlier.count ≤ handle) (issued : handle < draft.timeline.count)
    (covered : draft'.pool.Covers free)
    (covers : ∀ slot, draft.pool.Covers slot → draft'.pool.Covers slot)
    (occupants : ∀ slot occupant, draft'.pool.occupant? slot = some occupant →
      (slot = free ∧ occupant.handle = handle) ∨ draft.pool.occupant? slot = some occupant) :
    Sheltered earlier draft' := by
  have count : draft'.timeline.count = draft.timeline.count := by
    rw [same]
    exact Timeline.count_update _ _ _
  have histories : ∀ other, draft'.timeline.history? other =
      if other = handle then (draft.timeline.history? handle).map change
      else draft.timeline.history? other := by
    intro other
    rw [same]
    exact Timeline.history?_update _ _ _ _
  refine ⟨Nat.le_trans sheltered.begun (Nat.le_of_eq count.symm), ?_, ?_, ?_⟩
  · intro other early
    rw [histories, if_neg (Nat.ne_of_lt (Nat.lt_of_lt_of_le early late))]
    exact sheltered.older other early
  · intro other tick since issued
    obtain ⟨slot, ofSlot, place⟩ := sheltered.homes other tick since (count ▸ issued)
    unfold Timeline.placeAt at place ⊢
    rw [histories]
    split
    · rename_i equal
      subst equal
      obtain ⟨history, known, at_⟩ := Option.bind_eq_some_iff.mp place
      rw [known]
      rcases changed history tick with moved | stayed
      · exact ⟨free, covered, moved⟩
      · exact ⟨slot, covers slot ofSlot, stayed.trans at_⟩
    · exact ⟨slot, covers slot ofSlot, place⟩
  · intro slot occupant occupied
    rw [count]
    rcases occupants slot occupant occupied with ⟨rfl, rfl⟩ | before
    · exact ⟨late, issued, covered⟩
    · obtain ⟨since, known, ofSlot⟩ := sheltered.occupants slot occupant before
      exact ⟨since, known, covers slot ofSlot⟩

/-- A change of the pool that only loses values or marks them. -/
theorem Sheltered.repool (sheltered : Sheltered earlier draft)
    (same : draft'.timeline = draft.timeline)
    (covers : ∀ slot, draft.pool.Covers slot → draft'.pool.Covers slot)
    (occupants : ∀ slot occupant, draft'.pool.occupant? slot = some occupant →
      ∃ before, draft.pool.occupant? slot = some before ∧ before.handle = occupant.handle) :
    Sheltered earlier draft' := by
  refine ⟨by rw [same]; exact sheltered.begun, by rw [same]; exact sheltered.older, ?_, ?_⟩
  · intro handle tick since issued
    rw [same] at issued ⊢
    obtain ⟨slot, ofSlot, place⟩ := sheltered.homes handle tick since issued
    exact ⟨slot, covers slot ofSlot, place⟩
  · intro slot occupant occupied
    obtain ⟨before, known, handle⟩ := occupants slot occupant occupied
    obtain ⟨since, issued, ofSlot⟩ := sheltered.occupants slot before known
    rw [← handle, same]
    exact ⟨since, issued, covers slot ofSlot⟩

theorem Sheltered.issue (sheltered : Sheltered earlier draft) (slot : Slot) (claim : Claim)
    (covers : ∀ other, draft.pool.Covers other → (draft.issue slot claim).pool.Covers other) :
    Sheltered earlier (draft.issue slot claim) := by
  have covered : (draft.issue slot claim).pool.Covers slot :=
    Pool.covers_touch_self _ slot
  refine ⟨?_, ?_, ?_, ?_⟩
  · rw [count_issue]
    exact Nat.le_succ_of_le sheltered.begun
  · intro handle early
    rw [history?_issue, if_neg (Nat.ne_of_lt (Nat.lt_of_lt_of_le early sheltered.begun))]
    exact sheltered.older handle early
  · intro handle tick since issued
    rw [count_issue] at issued
    unfold Timeline.placeAt
    rw [history?_issue]
    split
    · exact ⟨slot, covered, rfl⟩
    · rename_i other
      have before : handle < draft.timeline.count := by omega
      obtain ⟨home, ofHome, place⟩ := sheltered.homes handle tick since before
      exact ⟨home, covers home ofHome, place⟩
  · intro other occupant occupied
    rw [count_issue]
    rw [occupant?_issue] at occupied
    split at occupied
    · rename_i same
      cases occupied
      exact ⟨sheltered.begun, Nat.lt_succ_self _, same ▸ covered⟩
    · obtain ⟨since, known, ofOther⟩ := sheltered.occupants other occupant occupied
      exact ⟨since, Nat.lt_succ_of_lt known, covers other ofOther⟩

theorem Step.sheltered (step : Step draft draft') (sheltered : Sheltered earlier draft) :
    Sheltered earlier draft' := by
  have covers : ∀ slot, draft.pool.Covers slot → draft'.pool.Covers slot := fun _ => step.covers
  cases step with
  | @issue slot claim => exact sheltered.issue slot claim covers
  | @shift slot free occupant occupied _ _ _ =>
      obtain ⟨late, issued, _⟩ := sheltered.occupants slot occupant occupied
      refine sheltered.rehouse rfl (fun history tick => history.placeAt_relocate _ _ tick) late issued
        (Pool.covers_touch_self _ free) covers ?_
      intro other now present
      rw [occupant?_shift] at present
      split at present
      · contradiction
      · split at present
        · rename_i same
          cases present
          exact .inl ⟨same, rfl⟩
        · exact .inr present
  | @rename free occupant occupied _ _ _ _ =>
      obtain ⟨late, issued, _⟩ := sheltered.occupants accumulator occupant occupied
      refine sheltered.rehouse rfl (fun history tick => .inl (history.placeAt_rebind _ tick)) late
        issued (Pool.covers_touch_self _ free) covers ?_
      intro other now present
      rw [occupant?_renamed] at present
      split at present
      · contradiction
      · split at present
        · rename_i same
          cases present
          exact .inl ⟨same, rfl⟩
        · exact .inr present
  | @mark slot occupant marked occupied handle _ =>
      refine sheltered.repool rfl covers ?_
      intro other now present
      rw [occupant?_refill] at present
      split at present
      · rename_i same
        cases present
        exact ⟨occupant, same ▸ occupied, handle.symm⟩
      · exact ⟨now, present, rfl⟩
  | drop slot =>
      refine sheltered.repool rfl covers ?_
      intro other now present
      rw [occupant?_refill] at present
      split at present
      · contradiction
      · exact ⟨now, present, rfl⟩
  | trace message => exact sheltered.repool rfl covers fun other now present => ⟨now, present, rfl⟩

end Draft

/-- A register that an instruction of the body may name: one behind a handle issued since the
procedure began, or one of no slot but those that the procedure may use. -/
def Register.Covered (since : Handle) (draft : Draft) (register : Register) : Prop :=
  match register.place with
  | .slot handle => since ≤ handle ∧ handle < draft.timeline.count
  | .fixed phys => ∀ slot, phys = some (slotPhys slot) → draft.pool.Covers slot

/-- An instruction of the body, which names only such registers, begins no procedure and is no item
of data. -/
structure Instr.Covered (since : Handle) (draft : Draft) (instr : Instr) : Prop where
  named : ∀ operand ∈ instr.operands, ∀ register, operand.base? = some register →
    register.Covered since draft
  inner : ∀ name, instr ≠ .label name true
  coded : ∀ item, instr ≠ .data item

section Instructions

variable {since : Handle} {draft draft' : Draft} {instr : Instr}

theorem Register.Usable.covered {register : Register}
    (usable : register.Usable since draft.timeline.count) : register.Covered since draft := by
  obtain ⟨place, size⟩ := register
  cases place with
  | slot handle => exact usable
  | fixed phys =>
      intro slot same
      exact .inl (Classical.byContradiction fun saved => usable slot saved same)

theorem Operand.Usable.covered {operand : Operand} {register : Register}
    (usable : operand.Usable since draft.timeline.count) (base : operand.base? = some register) :
    register.Covered since draft :=
  (usable register base).covered

theorem Register.Covered.later {register : Register} (covered : register.Covered since draft)
    (count : draft.timeline.count ≤ draft'.timeline.count)
    (covers : ∀ slot, draft.pool.Covers slot → draft'.pool.Covers slot) :
    register.Covered since draft' := by
  obtain ⟨place, size⟩ := register
  cases place with
  | slot handle => exact ⟨covered.1, Nat.lt_of_lt_of_le covered.2 count⟩
  | fixed phys => exact fun slot same => covers slot (covered slot same)

theorem Instr.Covered.later (covered : instr.Covered since draft)
    (count : draft.timeline.count ≤ draft'.timeline.count)
    (covers : ∀ slot, draft.pool.Covers slot → draft'.pool.Covers slot) :
    instr.Covered since draft' :=
  ⟨fun operand member register base => (covered.named operand member register base).later count covers,
    covered.inner, covered.coded⟩

theorem Instr.Usable.covered {op : Op} (proper : instr.op? = some op)
    (usable : instr.Usable since draft.timeline.count) : instr.Covered since draft := by
  refine ⟨fun operand member register base => (usable operand member).covered base, ?_, ?_⟩
  · rintro name rfl
    cases proper
  · rintro item rfl
    cases proper

theorem Instr.covered_branch (op : Op) (target : String) :
    (Instr.branch op target).Covered since draft := by
  refine ⟨?_, by simp [Instr.branch], by simp [Instr.branch]⟩
  intro operand member register base
  rw [List.mem_singleton.mp member] at base
  cases base

theorem Instr.covered_label (name : String) : (Instr.label name false).Covered since draft :=
  ⟨fun _ member => absurd member (List.not_mem_nil), by simp, by simp⟩

theorem Instr.covered_set {cond : Cond} {dst : Operand}
    (usable : dst.Usable since draft.timeline.count) :
    (Instr.unary (.set cond) dst).Covered since draft := by
  refine ⟨?_, by simp, by simp⟩
  intro operand member register base
  rw [List.mem_singleton.mp member] at base
  exact usable.covered base

/-- The instruction that takes a value out of a slot names its handle and the slot's register. -/
theorem Draft.Sheltered.covered_moveOut {earlier : Timeline} {slot : Slot} {occupant : Occupant}
    (sheltered : Sheltered earlier draft) (occupied : draft.pool.occupant? slot = some occupant) :
    (moveOut occupant.handle slot).Covered earlier.count draft := by
  obtain ⟨since, issued, covers⟩ := sheltered.occupants slot occupant occupied
  refine ⟨?_, by simp [moveOut], by simp [moveOut]⟩
  intro operand member register base
  rcases List.mem_pair.mp member with rfl | rfl
  · cases base
    exact ⟨since, issued⟩
  · cases base
    rintro other same
    rw [← slotPhys_injective (Option.some.inj same)]
    exact covers

end Instructions

namespace Lower

open X64Backend.Tree

variable {program : TypedProgram} {options : Options} {since : Handle} {c c' : Config}
  {base body body' : List Entry} {earlier : Timeline} {draft draft' : Draft}

theorem Closed.mem {label : String} {jumps : Nat} {entry : Entry}
    (closed : Closed label jumps body body') (member : entry ∈ body') :
    entry ∈ body ∨ entry.instr = .label label false := by
  induction closed with
  | unused => exact .inl member
  | defined tick _ =>
      rcases List.mem_append.mp member with member | member
      · exact .inl member
      · rw [List.mem_singleton.mp member]
        exact .inr rfl
  | direct _ _ inductionHypothesis =>
      rcases inductionHypothesis member with member | defined
      · exact .inl (List.mem_append_left _ member)
      · exact .inr defined

/-- In the middle of a body, whose code stands behind a base, the instructions name what they may. -/
structure Covering (earlier : Timeline) (base body : List Entry) (draft : Draft) : Prop where
  sheltered : draft.Sheltered earlier
  code : draft.text.code = base ++ body
  covered : ∀ entry ∈ body, entry.instr.Covered earlier.count draft

/-- A change of the code only. -/
theorem Covering.retext (covering : Covering earlier base body draft)
    (pool : draft'.pool = draft.pool) (timeline : draft'.timeline = draft.timeline)
    (code : draft'.text.code = base ++ body')
    (added : ∀ entry ∈ body', entry ∈ body ∨ entry.instr.Covered earlier.count draft) :
    Covering earlier base body' draft' := by
  obtain ⟨slots, text, others, trace⟩ := draft
  obtain ⟨slots', text', others', trace'⟩ := draft'
  cases pool
  cases timeline
  refine ⟨⟨covering.sheltered.begun, covering.sheltered.older, covering.sheltered.homes,
    covering.sheltered.occupants⟩, code, ?_⟩
  intro entry member
  rcases added entry member with before | covered
  · obtain ⟨named, inner, coded⟩ := covering.covered entry before
    exact ⟨named, inner, coded⟩
  · exact ⟨covered.named, covered.inner, covered.coded⟩

theorem Covering.step (covering : Covering earlier base body draft) (step : Draft.Step draft draft') :
    ∃ body', Covering earlier base body' draft' := by
  have sheltered := step.sheltered covering.sheltered
  have count := Draft.Steps.count_le (.single step)
  have covers : ∀ slot, draft.pool.Covers slot → draft'.pool.Covers slot := fun _ => step.covers
  have covered : ∀ entry ∈ body, entry.instr.Covered earlier.count draft' :=
    fun entry member => (covering.covered entry member).later count covers
  cases step with
  | @shift slot free occupant occupied =>
      have moved := (covering.sheltered.covered_moveOut occupied).later count covers
      refine ⟨body ++ [⟨draft.text.clock, Draft.moveOut occupant.handle slot⟩], sheltered, ?_, ?_⟩
      · rw [← List.append_assoc, ← covering.code]
        exact Stream.code_emit _ _
      · intro entry member
        rcases List.mem_append.mp member with member | member
        · exact covered entry member
        · rw [List.mem_singleton.mp member]
          exact moved
  | _ => exact ⟨body, sheltered, covering.code, covered⟩

theorem Move.covering (move : Move program earlier.count c c') (headed : Headed base)
    (covering : Covering earlier base body c.state.draft) :
    ∃ body', Covering earlier base body' c'.state.draft := by
  have emitted : ∀ instr, instr.Covered earlier.count c.state.draft →
      ∃ body', Covering earlier base body' (c.state.emitted instr).draft := by
    intro instr covered
    refine ⟨body ++ [⟨c.state.draft.text.clock, instr⟩], covering.retext rfl rfl ?_ ?_⟩
    · rw [← List.append_assoc, ← covering.code]
      exact Stream.code_emit _ _
    · intro entry member
      rcases List.mem_append.mp member with member | member
      · exact .inl member
      · rw [List.mem_singleton.mp member]
        exact .inr covered
  have replaced : ∀ {cond location} instr,
      c.state.draft.text.last? = some (.unary (.set cond) location) →
      instr.Covered earlier.count c.state.draft →
      ∃ body', Covering earlier base body'
        (c.state.withText (c.state.draft.text.replaceLast instr)).draft := by
    intro cond location instr last covered
    obtain ⟨older, tick, rfl, same⟩ := headed.behind_set covering.code last
    refine ⟨_, covering.retext rfl rfl (same instr) ?_⟩
    intro entry member
    rcases List.mem_append.mp member with member | member
    · exact .inl (List.mem_append_left _ member)
    · rw [List.mem_singleton.mp member]
      exact .inr covered
  cases move with
  | draft step => exact covering.step step
  | note noted =>
      refine ⟨body, covering.retext noted.pool noted.timeline ?_ fun entry member => .inl member⟩
      exact (congrArg Stream.code noted.text).trans covering.code
  | emit proper _ usable => exact emitted _ (usable.covered proper)
  | transfer => exact emitted _ (Instr.covered_branch _ _)
  | reset last usable => exact replaced _ last (Instr.covered_set usable)
  | fuse last _ => exact replaced _ last (Instr.covered_branch _ _)
  | jump => exact emitted _ (Instr.covered_branch _ _)
  | define => exact emitted _ (Instr.covered_label _)
  | leave => exact emitted _ (Instr.covered_branch _ _)
  | jumpOut => exact emitted _ (Instr.covered_branch _ _)
  | close _ _ =>
      obtain ⟨body', same, closed⟩ := headed.closed _ _ covering.code
      refine ⟨body', covering.retext rfl rfl same ?_⟩
      intro entry member
      rcases closed.mem member with before | label
      · exact .inl before
      · rw [label]
        exact .inr (Instr.covered_label _)
  | push proper _ usable _ => exact emitted _ (usable.covered proper)
  | _ => exact ⟨body, covering⟩

theorem Moves.covering (moves : Moves program earlier.count c c') (headed : Headed base)
    (covering : Covering earlier base body c.state.draft) :
    ∃ body', Covering earlier base body' c'.state.draft := by
  induction moves with
  | refl => exact ⟨body, covering⟩
  | tail _ last inductionHypothesis =>
      obtain ⟨body₁, covering₁⟩ := inductionHypothesis
      exact last.covering headed covering₁

/-- Where the body of a procedure begins, no slot is occupied and no handle has been issued since. -/
theorem covering_begun (s : State) (id : FnId) (fn : Function) :
    Covering s.draft.timeline (Config.begun s id fn).state.draft.text.code []
      (Config.begun s id fn).state.draft := by
  refine ⟨⟨Nat.le_refl _, fun _ _ => rfl, ?_, ?_⟩, (List.append_nil _).symm, by simp⟩
  · intro handle tick since issued
    exact absurd issued (Nat.not_lt.mpr since)
  · intro slot occupant occupied
    have empty : Pool.empty.occupant? slot = some occupant := occupied
    rw [Pool.occupant?_empty] at empty
    contradiction

end Lower

/-- The register that an instruction pushes. -/
def Instr.pushed? : Instr → Option Phys
  | .unary .push (.reg ⟨.fixed phys, _⟩) => phys
  | _ => none

/-- The register that an instruction pops. -/
def Instr.popped? : Instr → Option Phys
  | .unary .pop (.reg ⟨.fixed phys, _⟩) => phys
  | _ => none

namespace Lower

open X64Backend.Tree

namespace Section

variable (sec : Section)

/-- The registers that the prologue pushes, in order. -/
def pushed : List Phys := sec.prologue.filterMap fun entry => entry.instr.pushed?

/-- The registers that the epilogue pops, in order. -/
def popped : List Phys := sec.epilogue.filterMap fun entry => entry.instr.popped?

/-- An instruction of the body names a register, directly or through a handle. -/
def Names (timeline : Timeline) (phys : Phys) : Prop :=
  ∃ entry ∈ sec.body, Stream.entryNames timeline (some phys) entry = true

/-- The section is the code of a function: its label, a prologue and an epilogue that fit together,
and a body between them.  No other procedure begins in it. -/
structure Shaped (program : TypedProgram) : Prop where
  head : sec.head.instr = .label (program.function sec.fn).linkName true
  inner : ∀ entry ∈ sec.inner, ∀ name, entry.instr ≠ .label name true
  framed : ∃ plan : FramePlan, sec.prologue.map Entry.instr = plan.prologue ∧
    sec.epilogue.map Entry.instr = plan.epilogue

/-- A register is pushed once and popped once, and the pops come in the reverse order of the
pushes. -/
structure Saves (phys : Phys) : Prop where
  pushes : sec.pushed.count phys = 1
  pops : sec.popped.count phys = 1
  order : sec.popped = sec.pushed.reverse

end Section

namespace FramePlan

variable (plan : FramePlan)

/-- What the prologue pushes: the frame pointer, if there is a frame, and the registers to save. -/
theorem pushed_prologue : plan.prologue.filterMap Instr.pushed? =
    (if plan.hasFrame then [.rbp] else []) ++ plan.saved := by
  have saved : (plan.saved.map fun phys => Instr.unary .push (word phys)).filterMap Instr.pushed? =
      plan.saved := by
    rw [List.filterMap_map]
    exact List.filterMap_some
  unfold prologue
  rw [List.filterMap_append, List.filterMap_append, saved]
  congr 1
  split
  · split
    · rfl
    · rfl
  · split
    · rfl
    · rfl

theorem popped_epilogue : plan.epilogue.filterMap Instr.popped? =
    plan.saved.reverse ++ (if plan.hasFrame then [.rbp] else []) := by
  have saved : (plan.saved.reverse.map fun phys => Instr.unary .pop (word phys)).filterMap
      Instr.popped? = plan.saved.reverse := by
    rw [List.filterMap_map]
    exact List.filterMap_some
  have first : (if plan.hasFrame && !plan.saved.isEmpty then
      [Instr.binary .lea (.reg rsp) (.mem plan.lastSavedCell)] else []).filterMap Instr.popped? =
        [] := by
    split
    · rfl
    · rfl
  have last : (if plan.hasFrame && (0 < plan.room || !plan.leaf) then
      [Instr.binary .mov (.reg rsp) (.reg rbp)] else []).filterMap Instr.popped? = [] := by
    split
    · rfl
    · rfl
  unfold epilogue
  simp only [List.filterMap_append, saved, first, last, List.nil_append,
    List.append_assoc]
  congr 1
  split
  · rfl
  · rfl

/-- The prologue and the epilogue are instructions proper that stay in line. -/
theorem proper {instr : Instr} (member : instr ∈ plan.prologue ++ plan.epilogue) :
    (∃ op, instr.op? = some op) ∧ instr.target? = none := by
  simp only [prologue, epilogue, List.mem_append, List.mem_ite_nil_right, List.mem_map,
    List.mem_cons, List.not_mem_nil, or_false] at member
  rcases member with ((⟨_, rfl | rfl⟩ | ⟨_, rfl⟩) | ⟨_, _, rfl⟩) |
    (((⟨_, rfl⟩ | ⟨_, _, rfl⟩) | ⟨_, rfl⟩) | ⟨_, rfl⟩) | rfl
  all_goals exact ⟨⟨_, rfl⟩, rfl⟩

end FramePlan

namespace Generated

variable {program : TypedProgram} {options : Options} {s s' : State} {sec : Section} {c : Config}
  {frame : Frame} {unclosed : List Entry}
  (generated : Generated program options s sec s' c frame unclosed)

include generated

/-- Every instruction of the body names what it may. -/
theorem covering : ∃ base, Covering s.draft.timeline base unclosed c.state.draft := by
  have headed := headed_label s.draft.text.code s.draft.text.clock
    (program.function sec.fn).linkName
  have begun := covering_begun s sec.fn (program.function sec.fn)
  rw [code_begun] at begun
  obtain ⟨body, covering⟩ := generated.written.moves.covering headed begun
  have same := covering.code
  rw [generated.body, generated.head] at same
  rw [← List.append_cancel_left same] at covering
  exact ⟨_, covering⟩

theorem shaped : sec.Shaped program := by
  obtain ⟨base, covering⟩ := generated.covering
  refine ⟨by rw [generated.head], ?_, _, generated.prologue, generated.epilogue⟩
  intro entry member name
  have framing : ∀ instr ∈ sec.prologue.map Entry.instr ++ sec.epilogue.map Entry.instr,
      instr ≠ .label name true := by
    intro instr among
    rw [generated.prologue, generated.epilogue] at among
    obtain ⟨⟨op, proper⟩, _⟩ := FramePlan.proper _ among
    rintro rfl
    cases proper
  rcases List.mem_append.mp member with member | member
  · rcases List.mem_append.mp member with member | member
    · exact framing _ (List.mem_append_left _ (List.mem_map_of_mem member))
    · rcases generated.closed.mem member with before | label
      · exact (covering.covered entry before).inner name
      · rw [label]
        simp
  · exact framing _ (List.mem_append_right _ (List.mem_map_of_mem member))

/-- The handles issued before the procedure are as they were, and those it issued stay known. -/
theorem older : s.draft.timeline.count ≤ s'.draft.timeline.count ∧
    ∀ handle, handle < s.draft.timeline.count →
      s'.draft.timeline.history? handle = s.draft.timeline.history? handle := by
  obtain ⟨base, covering⟩ := generated.covering
  rw [generated.finished.timeline]
  exact ⟨covering.sheltered.begun, covering.sheltered.older⟩

/-- A register of the pool that the body names is one that the procedure may use. -/
theorem covers {timeline : Timeline} {slot : Slot}
    (later : ∀ handle, handle < s'.draft.timeline.count →
      timeline.history? handle = s'.draft.timeline.history? handle)
    (names : sec.Names timeline (slotPhys slot)) : c.state.draft.pool.Covers slot := by
  obtain ⟨base, covering⟩ := generated.covering
  obtain ⟨entry, member, named⟩ := names
  obtain ⟨operand, among, resolved⟩ := List.any_eq_true.mp named
  have before : entry ∈ unclosed := by
    refine (generated.closed.mem member).resolve_right fun label => ?_
    rw [label] at among
    exact absurd among List.not_mem_nil
  cases base : operand.base? with
  | none =>
      rw [base] at resolved
      contradiction
  | some register =>
      rw [base] at resolved
      have place : timeline.resolve register entry.tick = some (slotPhys slot) :=
        of_decide_eq_true resolved
      have covered := (covering.covered entry before).named operand among register base
      obtain ⟨spot, size⟩ := register
      cases spot with
      | fixed phys => exact covered slot place
      | slot handle =>
          obtain ⟨since, issued⟩ := covered
          obtain ⟨home, covers, at_⟩ := covering.sheltered.homes handle entry.tick since issued
          have same : timeline.placeAt handle entry.tick =
              c.state.draft.timeline.placeAt handle entry.tick := by
            unfold Timeline.placeAt
            rw [later handle (generated.finished.timeline ▸ issued), generated.finished.timeline]
          rw [← slotPhys_injective (Option.some.inj (at_.symm.trans (same.symm.trans place)))]
          exact covers

theorem saves {timeline : Timeline} {slot : Slot} (saved : slot ≠ accumulator)
    (later : ∀ handle, handle < s'.draft.timeline.count →
      timeline.history? handle = s'.draft.timeline.history? handle)
    (names : sec.Names timeline (slotPhys slot)) : sec.Saves (slotPhys slot) := by
  have member := Pool.mem_usedSaved saved (generated.covers later names)
  let outer : List Phys :=
    if (c.state.plan options (program.function sec.fn) frame).hasFrame then [.rbp] else []
  have pushed : sec.pushed = outer ++ c.state.draft.pool.usedSaved := by
    have spelled := congrArg (List.filterMap Instr.pushed?) generated.prologue
    rw [List.filterMap_map, FramePlan.pushed_prologue] at spelled
    exact spelled
  have popped : sec.popped = c.state.draft.pool.usedSaved.reverse ++ outer := by
    have spelled := congrArg (List.filterMap Instr.popped?) generated.epilogue
    rw [List.filterMap_map, FramePlan.popped_epilogue] at spelled
    exact spelled
  have reversed : outer.reverse = outer := by
    unfold outer
    split
    · rfl
    · rfl
  have order : sec.popped = sec.pushed.reverse := by
    rw [pushed, popped, List.reverse_append, reversed]
  have other : slotPhys slot ∉ outer := by
    unfold outer
    split
    · have apart : ∀ slot : Slot, slotPhys slot ≠ .rbp := by decide
      rw [List.mem_singleton]
      exact apart slot
    · exact List.not_mem_nil
  have once : sec.pushed.count (slotPhys slot) = 1 := by
    rw [pushed, List.count_append, List.count_eq_zero_of_not_mem other, Nat.zero_add]
    exact List.count_eq_one_of_mem (Pool.nodup_usedSaved _) member
  refine ⟨once, ?_, order⟩
  rw [order, List.count_reverse]
  exact once

end Generated

namespace Chain

variable {program : TypedProgram} {options : Options} {s s' : State} {sections : List Section}

/-- The handles issued before some procedures are as they were. -/
theorem older (chain : Chain program options s sections s') :
    s.draft.timeline.count ≤ s'.draft.timeline.count ∧
      ∀ handle, handle < s.draft.timeline.count →
        s'.draft.timeline.history? handle = s.draft.timeline.history? handle := by
  induction chain with
  | nil => exact ⟨Nat.le_refl _, fun _ _ => rfl⟩
  | cons generated _ inductionHypothesis =>
      obtain ⟨count, same⟩ := generated.older
      obtain ⟨count', same'⟩ := inductionHypothesis
      refine ⟨Nat.le_trans count count', fun handle early => ?_⟩
      exact (same' handle (Nat.lt_of_lt_of_le early count)).trans (same handle early)

theorem shaped (chain : Chain program options s sections s') :
    ∀ sec ∈ sections, sec.Shaped program := by
  induction chain with
  | nil => simp
  | cons generated _ inductionHypothesis =>
      intro sec member
      rcases List.mem_cons.mp member with rfl | member
      · exact generated.shaped
      · exact inductionHypothesis sec member

theorem saves (chain : Chain program options s sections s') {slot : Slot}
    (saved : slot ≠ accumulator) : ∀ sec ∈ sections,
      sec.Names s'.draft.timeline (slotPhys slot) → sec.Saves (slotPhys slot) := by
  induction chain with
  | nil => simp
  | cons generated rest inductionHypothesis =>
      intro sec member names
      rcases List.mem_cons.mp member with rfl | member
      · exact generated.saves saved rest.older.2 names
      · exact inductionHypothesis sec member names

end Chain

/-- A program that is generated consists of the code in front of the procedures and the code of each
function.  A register of the pool other than the accumulator that the body of a function names is
pushed once by its prologue and popped once by its epilogue, in the reverse order. -/
theorem generate_saves {options : Options} {program : TypedProgram} {code : Program}
    (run : (generate options program).program? = some code) :
    ∃ (header : List Entry) (sections : List Section),
      code.text.code = header ++ sections.flatMap Section.entries ∧
      sections.map Section.fn = definedAmong program (List.range program.functions.size) ∧
      ∀ sec ∈ sections, sec.Shaped program ∧
        ∀ phys ∈ savedSlots.map slotPhys, sec.Names code.timeline phys → sec.Saves phys := by
  obtain ⟨s, generated, text, timeline, _⟩ := generate_ok run
  obtain ⟨s₀, s₁, sections, _, chain, functions, same, histories, _⟩ :=
    wholeProgram_chain generated
  refine ⟨s₀.draft.text.code, sections, ?_, functions, fun sec member => ⟨?_, ?_⟩⟩
  · rw [text, same]
    exact chain.code
  · exact chain.shaped sec member
  · intro phys among names
    obtain ⟨slot, saved, rfl⟩ := List.mem_map.mp among
    rw [timeline, histories] at names
    exact chain.saves (mem_savedSlots.mp saved) sec member names

/-- A program whose only function names a register of the pool in a block. -/
def sevenInRbx : TypedProgram :=
  let source := "\x7b alloc rbx; mov rbx, 7; return rbx; \x7d"
  .ofParts "Main" #[]
    #[{ (default : Function) with
        name := "Main"
        returnType := .int
        mods := { Mods.none with isStatic := true }
        body := some [.ret (.asm (Block.parse "seven" source .empty).block [] .int)] }]

theorem sevenInRbx_saves : ∃ code, (generate .default sevenInRbx).program? = some code ∧
    (∃ entry ∈ code.text.code, Stream.entryNames code.timeline (some .rbx) entry = true) ∧
    ∃ (header : List Entry) (sections : List Section),
      code.text.code = header ++ sections.flatMap Section.entries ∧
      sections.map Section.fn = [0] ∧
      ∀ sec ∈ sections, sec.Shaped sevenInRbx ∧
        ∀ phys ∈ savedSlots.map slotPhys, sec.Names code.timeline phys → sec.Saves phys := by
  have succeeds : (generate .default sevenInRbx).program?.any (fun code =>
      code.text.code.any (Stream.entryNames code.timeline (some .rbx))) = true := by
    decide +kernel
  obtain ⟨code, run, named⟩ := (Option.any_eq_true _ _).mp succeeds
  obtain ⟨entry, member, names⟩ := List.any_eq_true.mp named
  refine ⟨code, run, ⟨entry, member, names⟩, ?_⟩
  have only : definedAmong sevenInRbx (List.range sevenInRbx.functions.size) = [0] := by
    decide +kernel
  rw [← only]
  exact generate_saves run

end Lower

end X64Backend
