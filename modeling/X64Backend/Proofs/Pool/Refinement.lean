import X64Backend.Proofs.Machine.Mirror
import X64Backend.Proofs.Pool.Commands

/-!
The allocator refines an unbounded set of private registers.  The code of a session, with the
handles where the histories finally have them, does what the instructions of the session do on
private registers, whatever the allocator moved and renamed in between.

A rename does not look at widths.  An instruction that names the upper byte of a handle may find the
handle in a register that has none, and there the code stops (`upperByte_diverges`).

The proof walks along the entries.  The words of the private registers that no slot has held yet are
chosen on the way: they are whatever the slots hold when the registers first appear.
-/

namespace X64Backend

open Pool Machine

namespace Machine

/-- The move of the allocator copies a word. -/
theorem execute_moveOut {image : Image} {tick : Nat} {handle : Handle} {start into : Slot}
    (place : image.timeline.placeAt handle tick = some (slotPhys into)) (checked : Bool)
    (state : State) :
    execute ⟨image, tick⟩ checked (Draft.moveOut handle start) state =
      .ok .following { state with
        registers := state.registers.set (slotPhys into) (state.registers.get (slotPhys start)) } := by
  have whole : ∀ word : UInt64, word &&& 0xFFFFFFFFFFFFFFFF = word := by
    intro word
    have wide : (0xFFFFFFFFFFFFFFFF : UInt64) = -1 := by decide
    simp [wide]
  have read : Scope.read ⟨image, tick⟩ (.reg (.fix (slotPhys start) .s64)) .s64 state =
      .ok (state.registers.get (slotPhys start)) state := by
    change EStateM.Result.ok (state.registers.get (slotPhys start) &&& 0xFFFFFFFFFFFFFFFF) state = _
    rw [whole]
  have write : ∀ word, Scope.write ⟨image, tick⟩ (.reg ⟨.slot handle, .s64⟩) word state =
      .ok () { state with registers := state.registers.set (slotPhys into) word } := by
    intro word
    simp only [Scope.write, Scope.phys, Timeline.resolve, place]
    rfl
  have moved : binary ⟨image, tick⟩ .mov (.reg ⟨.slot handle, .s64⟩)
      (.reg (.fix (slotPhys start) .s64)) state =
      .ok () { state with
        registers := state.registers.set (slotPhys into) (state.registers.get (slotPhys start)) } := by
    have shape : binary ⟨image, tick⟩ .mov (.reg ⟨.slot handle, .s64⟩)
        (.reg (.fix (slotPhys start) .s64)) = (do
          let given ← Scope.read ⟨image, tick⟩ (.reg (.fix (slotPhys start) .s64)) .s64
          Scope.write ⟨image, tick⟩ (.reg ⟨.slot handle, .s64⟩) given) := rfl
    rw [shape]
    simp only [bind, EStateM.bind, read]
    exact write _
  simp only [execute, Draft.moveOut, bind, EStateM.bind, moved]
  rfl

theorem runStraight_of_ok {image : Image} {checked : Bool} {index : Nat} {entry : Entry}
    {rest : List Entry} {state after : State} {finished : Bool}
    (ran : Machine.step image checked index entry state = .ok finished after) :
    runStraight image checked index (entry :: rest) state =
      runStraight image checked (index + 1) rest after := by
  simp only [runStraight, discard, Functor.mapConst, bind, EStateM.bind, EStateM.map,
    Function.comp, ran]

theorem runStraight_of_error {image : Image} {checked : Bool} {index : Nat} {entry : Entry}
    {rest : List Entry} {state after : State} {fault : Fault}
    (ran : Machine.step image checked index entry state = .error fault after) :
    runStraight image checked index (entry :: rest) state = .error fault after := by
  simp only [runStraight, discard, Functor.mapConst, bind, EStateM.bind, EStateM.map,
    Function.comp, ran]

theorem step_moveOut {image : Image} {tick : Nat} {handle : Handle} {start into : Slot}
    (place : image.timeline.placeAt handle tick = some (slotPhys into)) (checked : Bool)
    (index : Nat) (state : State) :
    ∃ after, Machine.step image checked index ⟨tick, Draft.moveOut handle start⟩ state =
        .ok false after ∧
      after = { state with
        recent := (index :: state.recent).take recentCount
        ip := state.ip + 1
        registers := state.registers.set (slotPhys into)
          (state.registers.get (slotPhys start)) } := by
  refine ⟨_, ?_, rfl⟩
  simp only [Machine.step, bind, EStateM.bind, Success.modify_eq, execute_moveOut place]
  rfl

/-- The words of the private registers, with those in slots read from there. -/
def refresh (contents : Slot → Option Cell) (registers : Registers) (words : Cell → UInt64) :
    Cell → UInt64 := fun cell =>
  match allSlots.find? fun slot => contents slot = some cell with
  | some slot => registers.get (slotPhys slot)
  | none => words cell

theorem refresh_of_contents {contents : Slot → Option Cell} {registers : Registers}
    {words : Cell → UInt64}
    (apart : ∀ {slot other cell}, contents slot = some cell → contents other = some cell →
      slot = other) {slot : Slot} {cell : Cell} (holds : contents slot = some cell) :
    refresh contents registers words cell = registers.get (slotPhys slot) := by
  unfold refresh
  cases found : allSlots.find? fun slot => contents slot = some cell with
  | some other =>
      have there : contents other = some cell := by simpa using List.find?_some found
      rw [apart there holds]
  | none =>
      have missing := List.find?_eq_none.mp found slot (mem_allSlots slot)
      simp [holds] at missing

theorem refresh_of_absent {contents : Slot → Option Cell} {registers : Registers}
    {words : Cell → UInt64} {cell : Cell} (absent : ∀ slot, contents slot ≠ some cell) :
    refresh contents registers words cell = words cell := by
  unfold refresh
  have missing : allSlots.find? (fun slot => contents slot = some cell) = none := by
    rw [List.find?_eq_none]
    intro slot _
    simpa using absent slot
  rw [missing]

theorem Seats.seat_congr {seats : Seats} {words words' : Cell → UInt64} (registers : Registers)
    (same : ∀ cell, seats.rax = some cell ∨ seats.rbx = some cell → words cell = words' cell) :
    seats.seat words registers = seats.seat words' registers := by
  unfold seat
  cases first : seats.rax with
  | none =>
      cases second : seats.rbx with
      | none => rfl
      | some cell => simp only [same cell (.inr second)]
  | some cell =>
      cases second : seats.rbx with
      | none => simp only [same cell (.inl first)]
      | some other => simp only [same cell (.inl first), same other (.inr second)]

/-- An instruction reads and writes the private registers that it works on, and no others. -/
theorem Private.step_congr {image : Image} {checked : Bool} {cell : Handle → Cell} {period : Nat}
    {instr : Instr} {words words' : Cell → UInt64} {state : State} {after : Private}
    (same : ∀ target ∈ involved cell period instr, words target = words' target)
    (ran : Private.step image checked cell period instr ⟨words, state⟩ = .ok () after) :
    Private.step image checked cell period instr ⟨words', state⟩ =
      .ok () ⟨fun target => if target ∈ involved cell period instr then after.words target
        else words' target, after.state⟩ := by
  have seated : (seats cell period instr).seat words state.registers =
      (seats cell period instr).seat words' state.registers :=
    Seats.seat_congr state.registers fun target seated =>
      same target (involved_of_seated seated)
  unfold Private.step at ran ⊢
  simp only [← seated]
  dsimp only at ran
  generalize execute ⟨image, 0⟩ checked (instr.mapRegisters ((seats cell period instr).register cell))
    { state with registers := (seats cell period instr).seat words state.registers } = result at ran ⊢
  cases result with
  | error fault left => contradiction
  | ok next left =>
      simp only [EStateM.Result.ok.injEq, true_and] at ran
      subst ran
      simp only [EStateM.Result.ok.injEq, true_and, Private.mk.injEq, and_true]
      funext target
      unfold Seats.unseat
      by_cases uses : target ∈ involved cell period instr
      · rw [if_pos uses]
        rcases seated_of_involved uses with first | ⟨unseated, second⟩
        · simp [first]
        · simp [unseated, second]
      · rw [if_neg uses]
        have unseated : (seats cell period instr).rax ≠ some target := fun seated =>
          uses (involved_of_seated (.inl seated))
        have unseated' : (seats cell period instr).rbx ≠ some target := fun seated =>
          uses (involved_of_seated (.inr seated))
        simp [unseated, unseated']

/-- The private registers that an instruction does not work on may as well be chosen before it. -/
theorem Private.step_choosing {image : Image} {checked : Bool} {cell : Handle → Cell} {period : Nat}
    {instr : Instr} {chosen words : Cell → UInt64} {state : State} {after : Private}
    {fresh : Cell → Prop} [DecidablePred fresh]
    (ran : Private.step image checked cell period instr ⟨chosen, state⟩ = .ok () after)
    (known : ∀ target ∈ involved cell period instr, ¬ fresh target)
    (agree : ∀ target, ¬ fresh target → words target = after.words target) :
    Private.step image checked cell period instr
      ⟨fun target => if fresh target then words target else chosen target, state⟩ =
        .ok () ⟨words, after.state⟩ := by
  have untouched : ∀ target, target ∉ involved cell period instr →
      after.words target = chosen target := by
    intro target unused
    have same := ran.symm.trans (Private.step_congr (fun _ _ => rfl) ran)
    have equal := congrArg Private.words (EStateM.Result.ok.inj same).2
    simpa [unused] using congrFun equal target
  have unseen : ∀ target ∈ involved cell period instr, chosen target =
      (fun target => if fresh target then words target else chosen target) target :=
    fun target uses => (if_neg (known target uses)).symm
  rw [Private.step_congr unseen ran]
  congr 2
  funext target
  by_cases uses : target ∈ involved cell period instr
  · rw [if_pos uses]
    exact (agree target (known target uses)).symm
  · rw [if_neg uses]
    split
    · rfl
    · rename_i old
      rw [← untouched target uses]
      exact (agree target old).symm

end Machine

namespace Draft

/-- An instruction of the code asks for the upper byte of a handle whose register has none. -/
def Lacks (draft : Draft) (phys : Phys) : Prop :=
  ∃ entry ∈ draft.text.entries.toList, Machine.Lacks draft.timeline entry.tick entry.instr phys

/-- The rest of the code does what the rest of the instructions do on private registers, if the
words of those not seen yet are chosen well. -/
def Continues (draft : Draft) (naming : Naming) (table : Table) (image : Image) (checked : Bool)
    (index : Nat) (rest : List (Entry × Option Nat)) (state : State) (other : Private) : Prop :=
  ∃ words, (∀ cell, ¬ table.Fresh (index + 1) cell → words cell = other.words cell) ∧
    Follows draft.Lacks (fun _ _ => True) (Mirrors (draft.contents naming))
      (runStraight image checked index (rest.map Prod.fst) state)
      (Private.run image checked naming.cell
        (rest.filterMap Session.appended?) ⟨words, other.state⟩)

end Draft

namespace Draft.Recorded

variable {draft : Draft} {naming : Naming} {table : Table} {events : List (Option Nat)}
  (recorded : draft.Recorded naming table events)
include recorded

/-- Reading the words of the slots where the table has private registers changes nothing for those
that were in slots before. -/
theorem refresh_of_seen {tick : Nat} (reached : tick + 1 ≤ draft.text.clock) {source : Slot → Slot}
    (carried : table.Carried (tick + 1) source) {before after : Registers} {words : Cell → UInt64}
    (held : ∀ {slot cell}, table tick slot = some cell →
      before.get (slotPhys slot) = words cell)
    (moved : ∀ {slot cell}, table (tick + 1) slot = some cell →
      after.get (slotPhys slot) = before.get (slotPhys (source slot)))
    {cell : Cell} (seen : ¬ table.Fresh (tick + 1) cell) :
    refresh (table (tick + 1)) after words cell = words cell := by
  by_cases absent : ∀ slot, table (tick + 1) slot ≠ some cell
  · exact refresh_of_absent absent
  · obtain ⟨slot, holds⟩ := Classical.not_forall_not.mp absent
    rw [refresh_of_contents (fun first second => recorded.apart reached first second) holds,
      moved holds]
    rcases carried slot cell holds with fresh | old
    · exact absurd fresh seen
    · exact held old

theorem mirrors_refresh {tick : Nat} (reached : tick ≤ draft.text.clock)
    {contents : Slot → Option Cell} {state : State} {other : Private}
    (mirrors : Mirrors contents state other) :
    Mirrors (table tick) state
      { other with words := refresh (table tick) state.registers other.words } :=
  { mirrors with
    cells := fun holds => (refresh_of_contents
      (fun first second => recorded.apart reached first second) holds).symm }

theorem seen {entry : Entry} {period : Nat}
    (written : (entry, some period) ∈ draft.text.entries.toList.zip events) :
    Seen draft.timeline naming.cell period entry.tick (table entry.tick) entry.instr ∧
      table.Carried entry.tick id := by
  cases recorded.accounted written with
  | appended straight named fixed uses carried =>
      refine ⟨⟨straight, ?_, fixed, uses⟩, carried⟩
      intro handle names
      obtain ⟨slot, _, _, place, holds⟩ := named handle names
      exact ⟨slot, place, holds⟩

/-- An entry of the allocator moves the word along with the private register. -/
theorem continues_moved {image : Image} (histories : image.timeline = draft.timeline)
    {checked : Bool} {index : Nat} {entry : Entry} {rest : List (Entry × Option Nat)}
    (written : (entry, none) ∈ draft.text.entries.toList.zip events)
    (tick : entry.tick = index + 1)
    (follow : ∀ {state other}, Mirrors (table (index + 1)) state other →
      draft.Continues naming table image checked (index + 1) rest state other)
    {state : State} {other : Private} (mirrors : Mirrors (table index) state other) :
    draft.Continues naming table image checked index ((entry, none) :: rest) state other := by
  have reached : index + 1 ≤ draft.text.clock := tick ▸ Nat.le_of_lt (recorded.tick_lt written)
  obtain ⟨stamp, instr⟩ := entry
  subst tick
  cases recorded.accounted written with
  | @moved handle start into move found saved carried =>
      subst move
      have place : image.timeline.placeAt handle (index + 1) = some (slotPhys into) := by
        rw [histories]
        exact found.2.2.1
      obtain ⟨after, ran, shape⟩ : ∃ after, Machine.step image checked index
          ⟨index + 1, Draft.moveOut handle start⟩ state = .ok false after ∧ _ :=
        step_moveOut place checked index state
      have moved : ∀ slot, after.registers.get (slotPhys slot) =
          state.registers.get (slotPhys (Timeline.source start into slot)) := by
        intro slot
        simp only [shape, Registers.get_set, slotPhys_inj, Timeline.source]
        split <;> rfl
      have kept : ∀ cell, ¬ table.Fresh (index + 1) cell →
          refresh (table (index + 1)) after.registers other.words cell = other.words cell := by
        intro cell seen
        exact recorded.refresh_of_seen reached carried mirrors.cells (fun _ => moved _) seen
      have mirrors' : Mirrors (table (index + 1)) after
          { other with words := refresh (table (index + 1)) after.registers other.words } := by
        suffices unseated : Mirrors (fun _ => none) after other from
          recorded.mirrors_refresh reached unseated
        have outside : ∀ {phys}, slotOfPhys? phys = none →
            after.registers.get phys = other.state.registers.get phys := by
          intro phys apart
          have different : phys ≠ slotPhys into := Ne.symm (slotPhys_ne_outside apart into)
          simp [shape, different, mirrors.outside apart]
        exact ⟨fun holds => by contradiction, outside, shape ▸ mirrors.memory,
          shape ▸ mirrors.flags, shape ▸ mirrors.heap, shape ▸ mirrors.frames,
          shape ▸ mirrors.exit⟩
      obtain ⟨words, agree, follows⟩ := follow mirrors'
      refine ⟨words, ?_, ?_⟩
      · intro cell seen
        have later : ¬ table.Fresh (index + 1 + 1) cell := fun fresh =>
          seen (fresh.mono (Nat.le_succ _))
        exact (agree cell later).trans (kept cell seen)
      · rw [List.map_cons, runStraight_of_ok ran]
        exact follows

/-- An instruction of the session does the same on private registers. -/
theorem continues_appended {image : Image} (histories : image.timeline = draft.timeline)
    {checked : Bool} {index period : Nat} {entry : Entry} {rest : List (Entry × Option Nat)}
    (written : (entry, some period) ∈ draft.text.entries.toList.zip events)
    (tick : entry.tick = index + 1)
    (follow : ∀ {state other}, Mirrors (table (index + 1)) state other →
      draft.Continues naming table image checked (index + 1) rest state other)
    {state : State} {other : Private} (mirrors : Mirrors (table index) state other) :
    draft.Continues naming table image checked index ((entry, some period) :: rest) state other := by
  classical
  have reached : index + 1 ≤ draft.text.clock := tick ▸ Nat.le_of_lt (recorded.tick_lt written)
  obtain ⟨seen, carried⟩ := recorded.seen written
  obtain ⟨stamp, instr⟩ := entry
  subst tick
  rw [← histories] at seen
  have kept : ∀ cell, ¬ table.Fresh (index + 1) cell →
      refresh (table (index + 1)) state.registers other.words cell = other.words cell := by
    intro cell old
    exact recorded.refresh_of_seen reached carried mirrors.cells (fun _ => rfl) old
  have stepped := seen.step checked index
    (fun first second => recorded.apart reached first second)
    (recorded.mirrors_refresh reached mirrors)
  generalize refresh (table (index + 1)) state.registers other.words = chosen at kept stepped
  change ∃ words, (∀ cell, ¬ table.Fresh (index + 1) cell → words cell = other.words cell) ∧
    Follows _ _ _ (runStraight image checked index (⟨index + 1, instr⟩ :: rest.map Prod.fst) state)
      (Private.run image checked naming.cell
        ((instr, period) :: rest.filterMap Session.appended?) ⟨words, other.state⟩)
  cases ran : Machine.step image checked index ⟨index + 1, instr⟩ state with
  | error fault after =>
      rw [ran] at stepped
      refine ⟨chosen, kept, ?_⟩
      rw [runStraight_of_error ran]
      rcases stepped with ⟨phys, lacks, missing⟩ | ⟨after', ran'⟩
      · exact .inl ⟨phys, ⟨_, (List.of_mem_zip written).1, histories ▸ lacks⟩, missing⟩
      · refine .inr ⟨after', ?_⟩
        simp only [Private.run, bind, EStateM.bind, ran']
  | ok finished after =>
      rw [ran] at stepped
      obtain ⟨_, after', ran', _, mirrors'⟩ := stepped
      obtain ⟨words, agree, follows⟩ := follow mirrors'
      -- The registers seen by now are fixed; the choice of the others is left to what follows.
      have known : ∀ target ∈ involved naming.cell period instr,
          ¬ table.Fresh (index + 1 + 1) target := by
        intro target uses fresh
        obtain ⟨slot, holds⟩ := seen.contents_of_involved uses
        exact fresh (index + 1) (Nat.lt_succ_self _) slot holds
      have stepped' := Private.step_choosing ran' known agree
      refine ⟨fun cell => if table.Fresh (index + 1 + 1) cell then words cell else chosen cell,
        ?_, ?_⟩
      · intro cell old
        have later : ¬ table.Fresh (index + 1 + 1) cell := fun fresh =>
          old (fresh.mono (Nat.le_succ _))
        exact (if_neg later).trans (kept cell old)
      · rw [runStraight_of_ok ran]
        simp only [Private.run, bind, EStateM.bind, stepped']
        exact follows

/-- From any tick on, the code does what the instructions do on private registers. -/
theorem continues {image : Image} (histories : image.timeline = draft.timeline) (checked : Bool)
    (rest : List (Entry × Option Nat)) {done : List (Entry × Option Nat)}
    (split : draft.text.entries.toList.zip events = done ++ rest) {state : State} {other : Private}
    (mirrors : Mirrors (table done.length) state other) :
    draft.Continues naming table image checked done.length rest state other := by
  induction rest generalizing done state other with
  | nil =>
      have last : done.length + 1 = draft.text.clock := by
        rw [recorded.clock_eq, ← Nat.min_self (draft.text.entries.toList.length)]
        conv => rhs; arg 1; arg 2; rw [← recorded.aligned]
        rw [← List.length_zip, split, List.append_nil]
      refine ⟨refresh (table (done.length + 1)) state.registers other.words, ?_, ?_⟩
      · intro cell seen
        have carried : table.Carried (done.length + 1) id := by
          rw [last]
          exact recorded.arrives
        exact recorded.refresh_of_seen (Nat.le_of_eq last) carried mirrors.cells (fun _ => rfl) seen
      · have present := recorded.mirrors_refresh (Nat.le_of_eq last) mirrors
        have contents : table (done.length + 1) = draft.contents naming := by
          rw [last]
          exact recorded.present
        rw [contents] at present ⊢
        exact ⟨(), _, rfl, trivial, present⟩
  | cons pair rest inductionHypothesis =>
      obtain ⟨entry, event⟩ := pair
      have written : (entry, event) ∈ draft.text.entries.toList.zip events := by
        rw [split]
        simp
      have tick : entry.tick = done.length + 1 := by
        have found : (draft.text.entries.toList.zip events)[done.length]? = some (entry, event) := by
          rw [split, List.getElem?_append_right (Nat.le_refl _)]
          simp
        exact recorded.stamped (List.getElem?_zip_eq_some.mp found).1
      have follow : ∀ {state other}, Mirrors (table (done.length + 1)) state other →
          draft.Continues naming table image checked (done.length + 1) rest state other := by
        intro state other mirrors'
        have longer : (done ++ [(entry, event)]).length = done.length + 1 := by simp
        have resplit : draft.text.entries.toList.zip events =
            (done ++ [(entry, event)]) ++ rest := by
          rw [split]
          simp
        rw [← longer] at mirrors' ⊢
        exact inductionHypothesis resplit mirrors'
      cases event with
      | none => exact recorded.continues_moved histories written tick follow mirrors
      | some period => exact recorded.continues_appended histories written tick follow mirrors

end Draft.Recorded

namespace Session

/-- A machine that has run the code of a session, beside one that has run its instructions on private
registers. -/
structure Shows (session : Session) (state : State) (other : Private) : Prop where
  /-- Every live handle has its word in the register where it is now. -/
  live : ∀ {handle}, session.draft.Live handle →
    ∃ phys, session.draft.timeline.current handle = some phys ∧
      state.registers.get phys = other.words (session.naming.cell handle)
  outside : ∀ {phys}, slotOfPhys? phys = none →
    state.registers.get phys = other.state.registers.get phys
  memory : state.memory = other.state.memory
  flags : state.flags = other.state.flags
  heap : state.heap = other.state.heap
  exit : state.exit = other.state.exit

/-- The allocator refines private registers.  For every session, the handles have private registers
of their own, and for some initial words in them the instructions of the session do on them what the
code of the session does on the hardware, with every handle where the histories finally have it at
the tick of the instruction.  The one way out is an instruction that names the upper byte of a handle
whose register has none: the code stops there. -/
theorem refines_private_registers {session : Session} {actions : List Action}
    (performed : run actions = some session) (image : Image)
    (histories : image.timeline = session.draft.timeline) (checked : Bool) (state : State) :
    Function.Injective session.naming.cell ∧
    ∃ words, Follows session.draft.Lacks (fun _ _ => True) session.Shows
      (runStraight image checked 0 session.draft.text.entries.toList state)
      (Private.run image checked session.naming.cell session.program ⟨words, state⟩) := by
  obtain ⟨table, recorded⟩ := sound_of_run performed
  refine ⟨recorded.injective, ?_⟩
  have mirrors : Mirrors (table 0) state ⟨fun _ => 0, state⟩ :=
    ⟨fun holds => by simp [recorded.blank] at holds, fun _ => rfl, rfl, rfl, rfl, rfl, rfl⟩
  obtain ⟨words, _, follows⟩ := recorded.continues histories checked _
    (List.nil_append _).symm mirrors
  refine ⟨words, ?_⟩
  have entries : (session.draft.text.entries.toList.zip session.events).map Prod.fst =
      session.draft.text.entries.toList :=
    List.map_fst_zip (Nat.le_of_eq recorded.aligned.symm)
  rw [entries] at follows
  have shows : ∀ {state other}, Mirrors (session.draft.contents session.naming) state other →
      session.Shows state other := by
    intro state other mirrors
    refine ⟨?_, mirrors.outside, mirrors.memory, mirrors.flags, mirrors.heap, mirrors.exit⟩
    rintro handle ⟨slot, holds⟩
    refine ⟨slotPhys slot, recorded.current_of_holds holds, mirrors.cells ?_⟩
    obtain ⟨occupant, occupied, rfl⟩ := Option.map_eq_some_iff.mp holds
    simp [Draft.contents, occupied]
  exact follows.mono (fun _ => id) shows

/-- A session in which a value is renamed, one is produced by the hardware and one is moved. -/
def renameAndMove : List Action :=
  let register (handle : Handle) : Operand := .reg ⟨.slot handle, .s64⟩
  List.replicate 6 (.allocate (.nextRegister .s64)) ++
    [.append (.binary .mov (register 6) (.lit (.ofInt 7))),
      .append (.binary .mov (register 1) (register 6)),
      .allocate (.free (register 2) false), .allocate .reserve,
      .append (.binary .mov (.reg (.fix .rax .s64)) (.lit (.ofInt 5))),
      .allocate (.callAlloc .s64),
      .append (.binary .add (register 6) (register 7)),
      .allocate (.free (register 3) false), .allocate (.claim 1 .s64),
      .append (.binary .mov (register 8) (register 1))]

theorem renameAndMove_refines : ∃ session, run renameAndMove = some session ∧
    ∃ image : Image, image.timeline = session.draft.timeline ∧
      ∃ words, Follows session.draft.Lacks (fun _ _ => True) session.Shows
        (runStraight image true 0 session.draft.text.entries.toList (.initial image))
        (Private.run image true session.naming.cell session.program ⟨words, .initial image⟩) := by
  have succeeds : (run renameAndMove).isSome = true := by decide +kernel
  obtain ⟨session, performed⟩ := Option.isSome_iff_exists.mp succeeds
  refine ⟨session, performed, ⟨session.draft.timeline, #[], ∅, ∅, .empty⟩, rfl, ?_⟩
  exact (refines_private_registers performed _ rfl true _).2

/-- A session that names the upper byte of a value in the accumulator, which is then renamed. -/
def renameUpperByte : List Action :=
  List.replicate 6 (.allocate (.nextRegister .s64)) ++
    [.append (.binary .mov (.reg ⟨.slot 6, .high8⟩) (.lit (.ofInt 5))),
      .allocate (.free (.reg ⟨.slot 2, .s64⟩) false), .allocate .reserve]

/-- The value ends up in a register without an upper byte.  The code stops where it names that byte,
and on private registers the instructions go through, so nothing matches the outcome. -/
theorem upperByte_diverges : ∃ session, run renameUpperByte = some session ∧
    ∃ image : Image, image.timeline = session.draft.timeline ∧
      ¬ ∃ words, Follows (fun _ => False) (fun _ _ => True) session.Shows
        (runStraight image true 0 session.draft.text.entries.toList (.initial image))
        (Private.run image true session.naming.cell session.program ⟨words, .initial image⟩) := by
  let instr : Instr := .binary .mov (.reg ⟨.slot 6, .high8⟩) (.lit (.ofInt 5))
  have written : (run renameUpperByte).map (fun session =>
      (session.draft.text.entries.toList, session.program, session.draft.timeline.placeAt 6 1,
        session.naming.cell 6)) =
      some ([⟨1, instr⟩], [(instr, 0)], some .r12, .own 6) := by decide +kernel
  obtain ⟨session, performed, shape⟩ := Option.map_eq_some_iff.mp written
  simp only [Prod.mk.injEq] at shape
  obtain ⟨code, program, place, cell⟩ := shape
  let image : Image := ⟨session.draft.timeline, #[], ∅, ∅, .empty⟩
  refine ⟨session, performed, image, rfl, ?_⟩
  rintro ⟨words, follows⟩
  have stops : ∃ state, Machine.step image true 0 ⟨1, instr⟩ (.initial image) =
      .error (.noHigh8 .r12) state := by
    have missing : execute ⟨image, 1⟩ true instr = throw (.noHigh8 .r12) := by
      have shape : execute ⟨image, 1⟩ true instr = (do
          Scope.write ⟨image, 1⟩ (.reg ⟨.slot 6, .high8⟩) 5
          return .following) := rfl
      rw [shape]
      simp only [Scope.write, Scope.phys, Timeline.resolve, image, place]
      rfl
    simp only [Machine.step, missing, bind, EStateM.bind, Success.modify_eq]
    exact ⟨_, rfl⟩
  have passes : ∃ other, Private.run image true session.naming.cell [(instr, 0)]
      ⟨words, .initial image⟩ = .ok () other := by
    have involves : involved session.naming.cell 0 instr = [.own 6] := by
      rw [← cell]
      rfl
    have seated : seats session.naming.cell 0 instr = ⟨some (.own 6), none⟩ := by
      simp [seats, involves]
    have fixed : instr.mapRegisters (Seats.register ⟨some (.own 6), none⟩ session.naming.cell) =
        .binary .mov (.reg (.fix .rax .high8)) (.lit (.ofInt 5)) := by
      simp [instr, Instr.mapRegisters, Operand.mapRegister, Seats.register, Register.fix, cell]
    unfold Private.run Private.step
    simp only [bind, EStateM.bind, seated, fixed]
    exact ⟨_, rfl⟩
  obtain ⟨state, stopped⟩ := stops
  obtain ⟨other, passed⟩ := passes
  rw [code, program, runStraight_of_error stopped, passed] at follows
  rcases follows with ⟨_, nothing, _⟩ | ⟨_, equal⟩
  · exact nothing
  · cases equal

end Session

end X64Backend
