import Mathlib.Algebra.GroupWithZero.Nat
import X64Backend.Proofs.Pool.Tables

/-!
The stamps of a stream.  However a stream is put together, its stamps never go back and are never
ahead of its clock, so the search for a register may end at the first entry that is too old.
-/

namespace X64Backend

/-- An operand of an instruction that has two operands, or one. -/
inductive Instr.Operates : Instr → Operand → Prop where
  | dst {op : Op} {dst src : Operand} : Operates (.binary op dst src) dst
  | src {op : Op} {dst src : Operand} : Operates (.binary op dst src) src
  | sole {op : Op} {operand : Operand} : Operates (.unary op operand) operand

/-- The register that an operand is, or that is the base of its memory cell. -/
inductive Operand.DependsOn : Operand → Register → Prop where
  | reg {register : Register} : DependsOn (.reg register) register
  | base {pointer : Pointer} : DependsOn (.mem pointer) pointer.base

/-- An operand of an entry comes to a hardware register, as the registers stand at the tick of the
entry. -/
def Entry.Uses (timeline : Timeline) (phys : Option Phys) (entry : Entry) : Prop :=
  ∃ operand register, entry.instr.Operates operand ∧ operand.DependsOn register ∧
    timeline.resolve register entry.tick = phys

theorem Instr.mem_operands_iff {instr : Instr} {operand : Operand} :
    operand ∈ instr.operands ↔ instr.Operates operand := by
  constructor
  · intro member
    cases instr with
    | binary op dst src =>
      rcases List.mem_pair.mp member with rfl | rfl
      · exact .dst
      · exact .src
    | unary op only =>
      obtain rfl := List.mem_singleton.mp member
      exact .sole
    | _ => cases member
  · rintro (_ | _ | _) <;> simp [operands]

theorem Operand.base?_eq_some_iff {operand : Operand} {register : Register} :
    operand.base? = some register ↔ operand.DependsOn register := by
  constructor
  · intro base
    cases operand <;> cases base
    · exact .reg
    · exact .base
  · rintro (_ | _) <;> rfl

namespace Stream

theorem entryNames_iff {timeline : Timeline} {phys : Option Phys} {entry : Entry} :
    entryNames timeline phys entry = true ↔ entry.Uses timeline phys := by
  unfold entryNames Entry.Uses
  rw [List.any_eq_true]
  refine exists_congr fun operand => ?_
  rw [Instr.mem_operands_iff]
  cases base : operand.base? with
  | none =>
    have independent : ∀ register, ¬ operand.DependsOn register := fun register depends => by
      rw [← Operand.base?_eq_some_iff, base] at depends
      cases depends
    simp [independent]
  | some register =>
    have only : ∀ other, operand.DependsOn other ↔ other = register := fun other => by
      rw [← Operand.base?_eq_some_iff, base, Option.some_inj, eq_comm]
    simp [only]

/-- One change of a stream. -/
inductive Edit where
  | append (instrs : List Instr)
  | emit (instr : Instr)
  | insert (index : Int) (instrs : List Instr)
  | replaceLast (instr : Instr)
  | removeLast

namespace Edit

/-- The stream behind a change. -/
def perform (stream : Stream) : Edit → Stream
  | append instrs => stream.append instrs
  | emit instr => stream.emit instr
  | insert index instrs => stream.insert index instrs
  | replaceLast instr => stream.replaceLast instr
  | removeLast => stream.removeLast

/-- How many instructions a change adds at the end. -/
def appended : Edit → Nat
  | append instrs => instrs.length
  | emit _ => 1
  | _ => 0

end Edit

/-- The stream behind some changes, one after the other. -/
def edited (stream : Stream) (edits : List Edit) : Stream :=
  edits.foldl Edit.perform stream

/-- Stamps never go back and are never ahead of the clock. -/
structure Stamped (stream : Stream) : Prop where
  ordered : stream.entries.toList.Pairwise fun older newer => older.tick ≤ newer.tick
  reached : ∀ entry ∈ stream.entries.toList, entry.tick ≤ stream.clock

section Operations

variable {stream : Stream}

theorem stamped_empty : Stamped empty := by
  constructor <;> simp [empty]

theorem Stamped.emit (stamped : Stamped stream) (instr : Instr) : Stamped (stream.emit instr) := by
  constructor
  · rw [entries_emit, List.pairwise_append]
    refine ⟨stamped.ordered, List.pairwise_singleton _ _, ?_⟩
    intro older member newest last
    obtain rfl := List.mem_singleton.mp last
    exact stamped.reached older member
  · intro entry member
    rw [entries_emit, List.mem_append, List.mem_singleton] at member
    rw [clock_emit]
    rcases member with older | rfl
    · exact Nat.le_succ_of_le (stamped.reached entry older)
    · exact Nat.le_succ _

theorem Stamped.append (stamped : Stamped stream) (instrs : List Instr) :
    Stamped (stream.append instrs) := by
  induction instrs generalizing stream with
  | nil => exact stamped
  | cons instr rest inductionHypothesis => exact inductionHypothesis (stamped.emit instr)

/-- The stamp that instructions get in front of some entries: that of the first one, or the clock's
where there is none. -/
def stampBefore (stream : Stream) (back : List Entry) : Nat :=
  (back.head?.map Entry.tick).getD stream.clock

/-- Inserted instructions stand between the entries in front of a place and those behind it. -/
theorem entries_insert (stream : Stream) (index : Int) (instrs : List Instr) :
    ∃ front back, stream.entries.toList = front ++ back ∧
      (stream.insert index instrs).entries.toList =
        front ++ instrs.map (Entry.mk (stream.stampBefore back)) ++ back := by
  obtain ⟨⟨entries⟩, clock⟩ := stream
  generalize found : min index.toNat entries.length = position
  have inside : position ≤ entries.length := found ▸ Nat.min_le_right _ _
  refine ⟨entries.take position, entries.drop position, (List.take_append_drop _ _).symm, ?_⟩
  have stamp : stampBefore ⟨⟨entries⟩, clock⟩ (entries.drop position) =
      (entries[position]?.map Entry.tick).getD clock := by
    rw [stampBefore, List.head?_drop]
  cases next : entries[position]? <;>
    simp [insert, found, stamp, next, List.take_of_length_le]

/-- The stamp of inserted instructions lies between the stamps around them, and is not ahead of the
clock. -/
theorem Stamped.stampBefore {front back : List Entry} (stamped : Stamped stream)
    (split : stream.entries.toList = front ++ back) :
    (∀ older ∈ front, older.tick ≤ stream.stampBefore back) ∧
      (∀ newer ∈ back, stream.stampBefore back ≤ newer.tick) ∧
      stream.stampBefore back ≤ stream.clock := by
  have ordered := stamped.ordered
  have reached := stamped.reached
  rw [split] at ordered reached
  cases back with
  | nil => exact ⟨fun older member => reached older (by simpa using member), by simp, Nat.le_refl _⟩
  | cons next back =>
    obtain ⟨-, behind, across⟩ := List.pairwise_append.mp ordered
    refine ⟨fun older member => across older member next List.mem_cons_self, ?_,
      reached next (by simp)⟩
    intro newer member
    rcases List.mem_cons.mp member with rfl | later
    · exact Nat.le_refl _
    · exact List.rel_of_pairwise_cons behind later

theorem Stamped.insert (stamped : Stamped stream) (index : Int) (instrs : List Instr) :
    Stamped (stream.insert index instrs) := by
  obtain ⟨front, back, split, inserted⟩ := entries_insert stream index instrs
  obtain ⟨older, newer, reached⟩ := stamped.stampBefore split
  obtain ⟨ordered, ordered', across⟩ :=
    List.pairwise_append.mp (split ▸ stamped.ordered)
  constructor
  · -- the new entries share one stamp, so only the pairs across the two seams are at issue
    rw [inserted]
    simp only [List.pairwise_append, List.pairwise_map, List.mem_append, List.mem_map]
    refine ⟨⟨ordered, List.pairwise_of_forall fun _ _ => Nat.le_refl _, ?_⟩, ordered', ?_⟩
    · rintro first member _ ⟨instr, -, rfl⟩
      exact older first member
    · rintro first (member | ⟨instr, -, rfl⟩) second behind
      · exact across first member second behind
      · exact newer second behind
  · intro entry member
    rw [inserted] at member
    simp only [List.mem_append, List.mem_map] at member
    rcases member with (front | ⟨instr, -, rfl⟩) | back
    · exact stamped.reached entry (split ▸ List.mem_append_left _ front)
    · exact reached
    · exact stamped.reached entry (split ▸ List.mem_append_right _ back)

theorem ticks_replaceLast (stream : Stream) (instr : Instr) :
    (stream.replaceLast instr).entries.toList.map Entry.tick =
      stream.entries.toList.map Entry.tick := by
  apply List.ext_getElem?
  intro index
  simp only [Stream.replaceLast, Array.toList_modify, List.getElem?_map, List.getElem?_modify]
  cases stream.entries.toList[index]? with
  | none => rfl
  | some entry => by_cases last : stream.entries.size - 1 = index <;> simp [last]

theorem Stamped.replaceLast (stamped : Stamped stream) (instr : Instr) :
    Stamped (stream.replaceLast instr) := by
  have ticks := ticks_replaceLast stream instr
  constructor
  · have ordered := List.pairwise_map.mpr stamped.ordered
    rw [← ticks] at ordered
    exact List.pairwise_map.mp ordered
  · intro entry member
    have known := List.mem_map_of_mem (f := Entry.tick) member
    rw [ticks] at known
    obtain ⟨older, member', same⟩ := List.mem_map.mp known
    exact same ▸ stamped.reached older member'

/-- Fewer entries stay stamped: the clock is not set back with them. -/
theorem Stamped.removeLast (stamped : Stamped stream) : Stamped stream.removeLast := by
  have dropped : stream.removeLast.entries.toList.Sublist stream.entries.toList := by
    simpa [Stream.removeLast] using List.dropLast_sublist _
  exact ⟨stamped.ordered.sublist dropped,
    fun entry member => stamped.reached entry (dropped.subset member)⟩

end Operations

section Edits

variable {stream : Stream}

/-- One change keeps the stamps in order. -/
theorem Stamped.perform (stamped : Stamped stream) (edit : Edit) :
    Stamped (edit.perform stream) := by
  cases edit with
  | append instrs => exact stamped.append instrs
  | emit instr => exact stamped.emit instr
  | insert index instrs => exact stamped.insert index instrs
  | replaceLast instr => exact stamped.replaceLast instr
  | removeLast => exact stamped.removeLast

theorem Stamped.edited (stamped : Stamped stream) (edits : List Edit) :
    Stamped (stream.edited edits) := by
  induction edits generalizing stream with
  | nil => exact stamped
  | cons edit rest inductionHypothesis => exact inductionHypothesis (stamped.perform edit)

theorem clock_append_length (stream : Stream) (instrs : List Instr) :
    (stream.append instrs).clock = stream.clock + instrs.length := by
  induction instrs generalizing stream with
  | nil => rfl
  | cons instr rest inductionHypothesis =>
    refine (inductionHypothesis (stream.emit instr)).trans ?_
    rw [clock_emit, List.length_cons]
    omega

theorem clock_perform (stream : Stream) (edit : Edit) :
    (edit.perform stream).clock = stream.clock + edit.appended := by
  cases edit with
  | append instrs => exact clock_append_length stream instrs
  | _ => rfl

/-- The clock counts the instructions that were added at the end, whether they are still there or
not. -/
theorem clock_edited (stream : Stream) (edits : List Edit) :
    (stream.edited edits).clock = stream.clock + (edits.map Edit.appended).sum := by
  induction edits generalizing stream with
  | nil => rfl
  | cons edit rest inductionHypothesis =>
    refine (inductionHypothesis (edit.perform stream)).trans ?_
    rw [clock_perform, List.map_cons, List.sum_cons, Nat.add_assoc]

/-- The search ends at an entry that names the register and is not too old. -/
theorem exists_of_namedSince {timeline : Timeline} {phys : Option Phys} {since : Nat}
    {newestFirst : List Entry} (named : namedSince timeline phys since newestFirst = true) :
    ∃ entry ∈ newestFirst, since ≤ entry.tick ∧ entryNames timeline phys entry = true := by
  induction newestFirst with
  | nil => cases named
  | cons newest older inductionHypothesis =>
    simp only [namedSince, Bool.and_eq_true, Bool.or_eq_true, decide_eq_true_eq] at named
    obtain ⟨recent, here | before⟩ := named
    · exact ⟨newest, List.mem_cons_self, recent, here⟩
    · obtain ⟨entry, member, found⟩ := inductionHypothesis before
      exact ⟨entry, List.mem_cons_of_mem _ member, found⟩

/-- The search for a register, newest entry first, finds one of the entries since the tick wherever
there is one that uses the register: where stamps never go back, the entries behind the first one
that is too old are too old as well. -/
theorem Stamped.references_iff (stamped : Stamped stream) (timeline : Timeline)
    (phys : Option Phys) (since : Nat) :
    stream.references timeline phys since = true ↔
      ∃ entry ∈ stream.entries.toList, since ≤ entry.tick ∧ entry.Uses timeline phys := by
  constructor
  · intro named
    obtain ⟨entry, member, recent, found⟩ := exists_of_namedSince named
    exact ⟨entry, by simpa using member, recent, entryNames_iff.mp found⟩
  · rintro ⟨entry, member, recent, uses⟩
    by_contra unnamed
    rw [Bool.not_eq_true] at unnamed
    have clear := not_named_of_references stamped.ordered unnamed entry member recent
    rw [← entryNames_iff, clear] at uses
    cases uses

/-- A stream that was put together from nothing by any changes has stamps that never go back and
are never ahead of the clock, and the search for a register, which ends at the first entry that is
too old, is as good as one that goes through all entries.  The clock has only counted the
instructions added at the end. -/
theorem edited_stamped_scanned (edits : List Edit) :
    let stream := empty.edited edits
    (stream.entries.toList.Pairwise fun older newer => older.tick ≤ newer.tick) ∧
      (∀ entry ∈ stream.entries.toList, entry.tick ≤ stream.clock) ∧
      stream.clock = 1 + (edits.map Edit.appended).sum ∧
      ∀ timeline phys since, stream.references timeline phys since = true ↔
        ∃ entry ∈ stream.entries.toList, since ≤ entry.tick ∧ entry.Uses timeline phys := by
  have stamped := stamped_empty.edited edits
  exact ⟨stamped.ordered, stamped.reached, clock_edited empty edits, stamped.references_iff⟩

end Edits

end Stream

end X64Backend
