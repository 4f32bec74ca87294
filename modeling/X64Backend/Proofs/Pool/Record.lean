import X64Backend.Proofs.Pool.Placement
import X64Backend.Proofs.Pool.Session

/-!
Where the private registers of a session are while its code runs.

The pool says which private register each slot holds now.  For the code that is already written, a
table tells for each tick what the slots hold after the entry of that tick.  The table accounts for
the code: an instruction of the session finds the registers it names where the final histories of the
handles say they are, and a register that is in a slot after an entry was there before, was carried
there by the entry, or has not been seen yet.

Renaming is the one step that reaches back.  It takes a value to a register that no instruction has
named since the value was born, so what the table has there since then is not needed and is struck
off.
-/

namespace X64Backend

open Pool

/-- What the slots hold after the entry of each tick. -/
abbrev Table := Nat → Slot → Option Cell

namespace Table

/-- A private register is in no slot before a tick. -/
def Fresh (table : Table) (tick : Nat) (cell : Cell) : Prop :=
  ∀ earlier, earlier < tick → ∀ slot, table earlier slot ≠ some cell

/-- What is in the slots after a tick was in their sources before, or is new. -/
def Carried (table : Table) (tick : Nat) (source : Slot → Slot) : Prop :=
  ∀ slot cell, table tick slot = some cell →
    table.Fresh tick cell ∨ table (tick - 1) (source slot) = some cell

/-- The table with new contents from a tick on. -/
def since (table : Table) (tick : Nat) (contents : Slot → Option Cell) : Table :=
  fun other => if other < tick then table other else contents

theorem since_of_lt (table : Table) {tick earlier : Nat} (contents : Slot → Option Cell)
    (before : earlier < tick) : table.since tick contents earlier = table earlier := by
  simp [Table.since, before]

theorem since_of_le (table : Table) {tick later : Nat} (contents : Slot → Option Cell)
    (reached : tick ≤ later) : table.since tick contents later = contents := by
  simp [Table.since, Nat.not_lt.mpr reached]

theorem Fresh.mono {table : Table} {earlier tick : Nat} {cell : Cell}
    (fresh : table.Fresh tick cell) (reached : earlier ≤ tick) : table.Fresh earlier cell :=
  fun past before => fresh past (Nat.lt_of_lt_of_le before reached)

theorem Fresh.since {table : Table} {tick start : Nat} {cell : Cell} (fresh : table.Fresh tick cell)
    (contents : Slot → Option Cell) (before : tick ≤ start) :
    (table.since start contents).Fresh tick cell := by
  intro earlier smaller slot
  rw [since_of_lt table contents (Nat.lt_of_lt_of_le smaller before)]
  exact fresh earlier smaller slot

theorem Carried.since {table : Table} {tick start : Nat} {source : Slot → Slot}
    (carried : table.Carried tick source) (contents : Slot → Option Cell) (before : tick < start) :
    (table.since start contents).Carried tick source := by
  intro slot cell found
  rw [since_of_lt table contents before] at found
  rw [since_of_lt table contents (Nat.lt_of_le_of_lt (Nat.sub_le tick 1) before)]
  exact (carried slot cell found).imp_left fun fresh => fresh.since contents (Nat.le_of_lt before)

end Table

/-- The names once a fresh handle stands for a register. -/
def Naming.issued (naming : Naming) (handle : Handle) (cell : Cell) : Naming :=
  ⟨Function.update naming.cell handle cell, naming.period⟩

namespace Timeline

/-- The private register of a handle is in a slot at a tick, where the histories say it is. -/
def Found (timeline : Timeline) (naming : Naming) (table : Table) (tick : Nat) (handle : Handle)
    (slot : Slot) : Prop :=
  handle < timeline.count ∧ timeline.born handle ≤ tick ∧
    timeline.placeAt handle tick = some (slotPhys slot) ∧
    table tick slot = some (naming.cell handle)

/-- The slot that an entry takes the contents of a slot from. -/
def source (start into : Slot) (slot : Slot) : Slot :=
  if slot = into then start else slot

/-- The table accounts for an entry. -/
inductive Accounted (timeline : Timeline) (naming : Naming) (table : Table) : Entry → Option Nat → Prop
    where
  | appended {entry : Entry} {period : Nat} :
      entry.instr.isStraight = true →
      (∀ handle, entry.instr.Names handle →
        ∃ slot, timeline.Found naming table entry.tick handle slot) →
      (∀ register ∈ entry.instr.registers, ∀ slot,
        register.place = .fixed (some (slotPhys slot)) → slot = accumulator) →
      (entry.instr.usesAccumulator = true → table entry.tick accumulator = some (.raw period)) →
      table.Carried entry.tick id →
      Accounted timeline naming table entry (some period)
  | moved {entry : Entry} {handle : Handle} {start into : Slot} :
      entry.instr = Draft.moveOut handle start →
      timeline.Found naming table entry.tick handle into →
      into ≠ accumulator →
      table.Carried entry.tick (source start into) →
      Accounted timeline naming table entry none

end Timeline

namespace Draft

open Timeline (source)

/-- What the slots hold now. -/
def contents (draft : Draft) (naming : Naming) (slot : Slot) : Option Cell :=
  match draft.pool.occupant? slot with
  | some occupant => some (naming.cell occupant.handle)
  | none => if slot = accumulator then some (.raw naming.period) else none

/-- A private register that may be in a slot at a tick. -/
def Known (draft : Draft) (naming : Naming) (tick : Nat) : Cell → Prop
  | .own handle => handle < draft.timeline.count ∧ draft.timeline.born handle ≤ tick
  | .raw period => period ≤ naming.period

/-- The table accounts for everything written so far. -/
structure Recorded (draft : Draft) (naming : Naming) (table : Table) (events : List (Option Nat)) :
    Prop extends Tidy draft where
  faithful : ∀ handle, naming.cell handle = .own handle ∨
    handle < draft.timeline.count ∧ ∃ period, period ≤ naming.period ∧
      naming.cell handle = .raw period
  /-- What the hardware produced stands for the register of the period. -/
  standing : ∀ {occupant}, draft.pool.occupant? accumulator = some occupant →
    naming.cell occupant.handle =
      if occupant.implicit then .raw naming.period else .own occupant.handle
  /-- Different handles stand for different registers. -/
  injective : Function.Injective naming.cell
  /-- Only the value in the accumulator stands for the register of the period. -/
  held : ∀ {handle}, naming.cell handle = .raw naming.period → draft.Holds accumulator handle
  stamped : ∀ {index entry}, draft.text.entries.toList[index]? = some entry →
    entry.tick = index + 1
  clock_eq : draft.text.clock = draft.text.entries.toList.length + 1
  aligned : events.length = draft.text.entries.toList.length
  present : table draft.text.clock = draft.contents naming
  blank : ∀ slot, table 0 slot = none
  apart : ∀ {tick slot other cell}, tick ≤ draft.text.clock → table tick slot = some cell →
    table tick other = some cell → slot = other
  known : ∀ {tick slot cell}, tick ≤ draft.text.clock → table tick slot = some cell →
    draft.Known naming tick cell
  resident : ∀ {occupant}, draft.pool.occupant? accumulator = some occupant →
    occupant.implicit = false → ∀ {tick}, draft.timeline.born occupant.handle ≤ tick →
    tick ≤ draft.text.clock → table tick accumulator = some (.own occupant.handle)
  arrives : table.Carried draft.text.clock id
  accounted : ∀ {entry event}, (entry, event) ∈ draft.text.entries.toList.zip events →
    draft.timeline.Accounted naming table entry event

namespace Recorded

variable {draft : Draft} {naming : Naming} {table : Table} {events : List (Option Nat)}
  (recorded : draft.Recorded naming table events)
include recorded

theorem clock_pos : 0 < draft.text.clock := by
  rw [recorded.clock_eq]
  exact Nat.succ_pos _

/-- No handle stands for the register of a period to come. -/
theorem cell_ne_raw {period : Nat} (later : naming.period < period) (handle : Handle) :
    naming.cell handle ≠ .raw period := by
  intro raw
  rcases recorded.faithful handle with own | ⟨_, old, bound, same⟩
  · rw [own] at raw
    contradiction
  · rw [same] at raw
    cases raw
    omega

theorem tick_lt {entry : Entry} {event : Option Nat}
    (written : (entry, event) ∈ draft.text.entries.toList.zip events) :
    entry.tick < draft.text.clock := by
  obtain ⟨index, found⟩ := List.mem_iff_getElem?.mp (List.of_mem_zip written).1
  have inside := (List.getElem?_eq_some_iff.mp found).1
  rw [recorded.stamped found, recorded.clock_eq]
  exact Nat.succ_lt_succ inside

end Recorded

/-- A change that leaves the written code alone.  The contents of the slots come from their sources
or are new. -/
structure Change (draft : Draft) (naming : Naming) (draft' : Draft) (naming' : Naming)
    (source : Slot → Slot) : Prop where
  tidy : draft'.Tidy
  count : draft.timeline.count ≤ draft'.timeline.count
  born : ∀ handle, handle < draft.timeline.count →
    draft'.timeline.born handle = draft.timeline.born handle
  places : ∀ handle, handle < draft.timeline.count → ∀ tick, draft.timeline.born handle ≤ tick →
    tick < draft.text.clock → draft'.timeline.placeAt handle tick = draft.timeline.placeAt handle tick
  cells : ∀ handle, handle < draft.timeline.count → naming'.cell handle = naming.cell handle
  period : naming.period ≤ naming'.period
  faithful : ∀ handle, naming'.cell handle = .own handle ∨
    handle < draft'.timeline.count ∧ ∃ period, period ≤ naming'.period ∧
      naming'.cell handle = .raw period
  standing : ∀ {occupant}, draft'.pool.occupant? accumulator = some occupant →
    naming'.cell occupant.handle =
      if occupant.implicit then .raw naming'.period else .own occupant.handle
  injective : Function.Injective naming'.cell
  held : ∀ {handle}, naming'.cell handle = .raw naming'.period → draft'.Holds accumulator handle
  contents : ∀ slot cell, draft'.contents naming' slot = some cell →
    draft.contents naming (source slot) = some cell ∨
      ¬ draft.Known naming draft.text.clock cell ∧ draft'.Known naming' draft.text.clock cell
  apart : ∀ {slot other cell}, draft'.contents naming' slot = some cell →
    draft'.contents naming' other = some cell → slot = other
  resident : ∀ {occupant}, draft'.pool.occupant? accumulator = some occupant →
    occupant.implicit = false → draft'.timeline.born occupant.handle = draft.text.clock ∨
      ∃ before, draft.pool.occupant? accumulator = some before ∧
        before.handle = occupant.handle ∧ before.implicit = false

theorem Known.mono {draft : Draft} {naming : Naming} {tick later : Nat} {cell : Cell}
    (known : draft.Known naming tick cell) (reached : tick ≤ later) :
    draft.Known naming later cell := by
  cases cell with
  | own handle => exact ⟨known.1, Nat.le_trans known.2 reached⟩
  | raw period => exact known

namespace Change

variable {draft draft' : Draft} {naming naming' : Naming} {table : Table}
  {events : List (Option Nat)} {source : Slot → Slot}
  (change : Change draft naming draft' naming' source)
  (recorded : draft.Recorded naming table events)
include change

theorem known {tick : Nat} {cell : Cell} (known : draft.Known naming tick cell) :
    draft'.Known naming' tick cell := by
  cases cell with
  | own handle =>
      refine ⟨Nat.lt_of_lt_of_le known.1 change.count, ?_⟩
      rw [change.born handle known.1]
      exact known.2
  | raw period => exact Nat.le_trans known change.period

theorem found {tick : Nat} {handle : Handle} {slot : Slot} (contents : Slot → Option Cell)
    (earlier : tick < draft.text.clock) (found : draft.timeline.Found naming table tick handle slot) :
    draft'.timeline.Found naming' (table.since draft.text.clock contents) tick handle slot := by
  obtain ⟨issued, born, place, holds⟩ := found
  refine ⟨Nat.lt_of_lt_of_le issued change.count, ?_, ?_, ?_⟩
  · rwa [change.born handle issued]
  · rwa [change.places handle issued tick born earlier]
  · rwa [Table.since_of_lt table contents earlier, change.cells handle issued]

theorem accounted {entry : Entry} {event : Option Nat} (contents : Slot → Option Cell)
    (earlier : entry.tick < draft.text.clock)
    (accounted : draft.timeline.Accounted naming table entry event) :
    draft'.timeline.Accounted naming' (table.since draft.text.clock contents) entry event := by
  cases accounted with
  | appended straight named fixed uses carried =>
      refine .appended straight ?_ fixed ?_ (carried.since contents earlier)
      · intro handle names
        obtain ⟨slot, found⟩ := named handle names
        exact ⟨slot, change.found contents earlier found⟩
      · intro used
        rw [Table.since_of_lt table contents earlier]
        exact uses used
  | moved instr found saved carried =>
      exact .moved instr (change.found contents earlier found) saved
        (carried.since contents earlier)

include recorded

/-- What is in the slots after the change was in their sources at the tick before, or is new. -/
theorem carried :
    (table.since draft.text.clock (draft'.contents naming')).Carried draft.text.clock source := by
  have positive : draft.text.clock - 1 < draft.text.clock := by
    have clock := recorded.clock_eq
    omega
  intro slot cell holds
  rw [Table.since_of_le table _ (Nat.le_refl _)] at holds
  rw [Table.since_of_lt table _ positive]
  rcases change.contents slot cell holds with before | ⟨unknown, _⟩
  · rw [← recorded.present] at before
    exact (recorded.arrives (source slot) cell before).imp_left fun fresh =>
      fresh.since _ (Nat.le_refl _)
  · left
    intro earlier smaller other found
    rw [Table.since_of_lt table _ smaller] at found
    exact unknown ((recorded.known (Nat.le_of_lt smaller) found).mono (Nat.le_of_lt smaller))

theorem apart_since {tick : Nat} {slot other : Slot} {cell : Cell}
    (first : table.since draft.text.clock (draft'.contents naming') tick slot = some cell)
    (second : table.since draft.text.clock (draft'.contents naming') tick other = some cell) :
    slot = other := by
  by_cases earlier : tick < draft.text.clock
  · rw [Table.since_of_lt table _ earlier] at first second
    exact recorded.apart (Nat.le_of_lt earlier) first second
  · rw [Table.since_of_le table _ (Nat.not_lt.mp earlier)] at first second
    exact change.apart first second

theorem known_since {tick : Nat} {slot : Slot} {cell : Cell}
    (found : table.since draft.text.clock (draft'.contents naming') tick slot = some cell) :
    draft'.Known naming' tick cell := by
  by_cases earlier : tick < draft.text.clock
  · rw [Table.since_of_lt table _ earlier] at found
    exact change.known (recorded.known (Nat.le_of_lt earlier) found)
  · have reached := Nat.not_lt.mp earlier
    rw [Table.since_of_le table _ reached] at found
    rcases change.contents slot cell found with before | ⟨_, known⟩
    · rw [← recorded.present] at before
      exact (change.known (recorded.known (Nat.le_refl _) before)).mono reached
    · exact known.mono reached

theorem resident_since {occupant : Occupant}
    (occupied : draft'.pool.occupant? accumulator = some occupant)
    (ordinary : occupant.implicit = false) {tick : Nat}
    (born : draft'.timeline.born occupant.handle ≤ tick) :
    table.since draft.text.clock (draft'.contents naming') tick accumulator =
      some (.own occupant.handle) := by
  have standing := change.standing occupied
  simp only [ordinary, Bool.false_eq_true, if_false] at standing
  by_cases earlier : tick < draft.text.clock
  · rw [Table.since_of_lt table _ earlier]
    rcases change.resident occupied ordinary with now | ⟨before, occupied', same, ordinary'⟩
    · omega
    · have issued := recorded.lt_count_of_occupied occupied'
      rw [← same, change.born _ issued] at born
      rw [← same]
      exact recorded.resident occupied' ordinary' born (Nat.le_of_lt earlier)
  · rw [Table.since_of_le table _ (Nat.not_lt.mp earlier)]
    simp [Draft.contents, occupied, standing]

end Change

namespace Recorded

variable {draft draft' : Draft} {naming naming' : Naming} {table : Table}
  {events : List (Option Nat)} (recorded : draft.Recorded naming table events)
include recorded

/-- A change without a new entry. -/
theorem quiet (change : Change draft naming draft' naming' id) (text : draft'.text = draft.text) :
    draft'.Recorded naming' (table.since draft.text.clock (draft'.contents naming')) events := by
  refine { change.tidy with
    faithful := change.faithful, standing := change.standing, injective := change.injective,
    held := change.held, stamped := ?_, clock_eq := ?_, aligned := ?_, present := ?_, blank := ?_, apart := ?_, known := ?_, resident := ?_,
    arrives := ?_, accounted := ?_ }
  · rw [text]
    exact recorded.stamped
  · rw [text]
    exact recorded.clock_eq
  · rw [text]
    exact recorded.aligned
  · rw [text]
    exact Table.since_of_le table _ (Nat.le_refl _)
  · intro slot
    rw [Table.since_of_lt table _ recorded.clock_pos]
    exact recorded.blank slot
  · intro tick slot other cell _
    exact change.apart_since recorded
  · intro tick slot cell _
    exact change.known_since recorded
  · intro occupant occupied ordinary tick born _
    exact change.resident_since recorded occupied ordinary born
  · rw [text]
    exact change.carried recorded
  · intro entry event written
    rw [text] at written
    exact change.accounted _ (recorded.tick_lt written) (recorded.accounted written)

/-- A change with a new entry. -/
theorem written {source : Slot → Slot} {instr : Instr} {event : Option Nat}
    (change : Change draft naming draft' naming' source)
    (text : draft'.text = draft.text.emit instr)
    (account : draft'.timeline.Accounted naming' (table.since draft.text.clock (draft'.contents naming'))
      ⟨draft.text.clock, instr⟩ event) :
    draft'.Recorded naming' (table.since draft.text.clock (draft'.contents naming'))
      (events ++ [event]) := by
  have entries : draft'.text.entries.toList =
      draft.text.entries.toList ++ [⟨draft.text.clock, instr⟩] := by
    rw [text, Stream.entries_emit]
  have clock : draft'.text.clock = draft.text.clock + 1 := by
    rw [text, Stream.clock_emit]
  refine { change.tidy with
    faithful := change.faithful, standing := change.standing, injective := change.injective,
    held := change.held, stamped := ?_, clock_eq := ?_, aligned := ?_, present := ?_, blank := ?_, apart := ?_, known := ?_, resident := ?_,
    arrives := ?_, accounted := ?_ }
  · intro index entry found
    rw [entries, List.getElem?_append] at found
    split at found
    · exact recorded.stamped found
    · rename_i behind
      rw [List.getElem?_singleton] at found
      split at found
      · have last := recorded.clock_eq
        cases found
        simp only
        omega
      · contradiction
  · rw [clock, entries, recorded.clock_eq]
    simp
  · rw [entries]
    simp [recorded.aligned]
  · rw [clock]
    exact Table.since_of_le table _ (Nat.le_succ _)
  · intro slot
    rw [Table.since_of_lt table _ recorded.clock_pos]
    exact recorded.blank slot
  · intro tick slot other cell _
    exact change.apart_since recorded
  · intro tick slot cell _
    exact change.known_since recorded
  · intro occupant occupied ordinary tick born _
    exact change.resident_since recorded occupied ordinary born
  · intro slot cell holds
    right
    rw [clock] at holds ⊢
    rw [Table.since_of_le table _ (Nat.le_succ _)] at holds
    rwa [Nat.add_sub_cancel, Table.since_of_le table _ (Nat.le_refl _)]
  · intro entry event' membership
    rw [entries, List.zip_append recorded.aligned.symm] at membership
    rcases List.mem_append.mp membership with older | newest
    · exact change.accounted _ (recorded.tick_lt older) (recorded.accounted older)
    · simp only [List.zip_cons_cons, List.zip_nil_right, List.mem_singleton, Prod.mk.injEq]
        at newest
      rw [newest.1, newest.2]
      exact account

end Recorded

namespace Change

variable {draft draft' : Draft} {naming : Naming} {table : Table} {events : List (Option Nat)}
  (recorded : draft.Recorded naming table events)
include recorded

/-- A change of the pool alone: slots are given up, and a new period may begin. -/
theorem of_pool {period : Nat} (tidy : draft'.Tidy) (timeline : draft'.timeline = draft.timeline)
    (later : naming.period ≤ period)
    (standing : ∀ {occupant}, draft'.pool.occupant? accumulator = some occupant →
      naming.cell occupant.handle =
        if occupant.implicit then .raw period else .own occupant.handle)
    (contents : ∀ slot cell, draft'.contents ⟨naming.cell, period⟩ slot = some cell →
      draft.contents naming slot = some cell ∨
        slot = accumulator ∧ cell = .raw period ∧ naming.period < period)
    (resident : ∀ {occupant}, draft'.pool.occupant? accumulator = some occupant →
      ∃ before, draft.pool.occupant? accumulator = some before ∧
        before.handle = occupant.handle ∧ before.implicit = occupant.implicit)
    (held : naming.period = period → ∀ {handle}, draft.Holds accumulator handle →
      draft'.Holds accumulator handle) :
    Change draft naming draft' ⟨naming.cell, period⟩ id where
  tidy := tidy
  count := Nat.le_of_eq (by rw [timeline])
  born := by simp [timeline]
  places := by simp [timeline]
  cells := by simp
  period := later
  faithful := by
    intro handle
    rw [timeline]
    rcases recorded.faithful handle with own | ⟨issued, old, bound, raw⟩
    · exact .inl own
    · exact .inr ⟨issued, old, Nat.le_trans bound later, raw⟩
  standing := standing
  injective := recorded.injective
  held := by
    intro handle raw
    rcases Nat.eq_or_lt_of_le later with same | after
    · subst same
      exact held rfl (recorded.held raw)
    · exact absurd raw (recorded.cell_ne_raw after handle)
  contents := by
    intro slot cell holds
    refine (contents slot cell holds).imp_right ?_
    rintro ⟨_, rfl, after⟩
    exact ⟨fun known : period ≤ naming.period => by omega, Nat.le_refl period⟩
  apart := by
    intro slot other cell first second
    have unseen : ∀ slot, naming.period < period →
        draft.contents naming slot = some (.raw period) → False := by
      intro slot after holds
      rw [← recorded.present] at holds
      have known : period ≤ naming.period := recorded.known (Nat.le_refl _) holds
      omega
    rcases contents slot cell first with old | ⟨here, rfl, after⟩
    · rcases contents other cell second with old' | ⟨_, rfl, after⟩
      · rw [← recorded.present] at old old'
        exact recorded.apart (Nat.le_refl _) old old'
      · exact (unseen slot after old).elim
    · rcases contents other _ second with old' | ⟨there, _, _⟩
      · exact (unseen other after old').elim
      · rw [here, there]
  resident := by
    intro occupant occupied ordinary
    obtain ⟨before, occupied', handle, implicit⟩ := resident occupied
    exact .inr ⟨before, occupied', handle, implicit.trans ordinary⟩

theorem contents_present {slot : Slot} {cell : Cell} (holds : draft.contents naming slot = some cell) :
    draft.Known naming draft.text.clock cell := by
  rw [← recorded.present] at holds
  exact recorded.known (Nat.le_refl _) holds

theorem contents_apart {slot other : Slot} {cell : Cell}
    (first : draft.contents naming slot = some cell)
    (second : draft.contents naming other = some cell) : slot = other := by
  rw [← recorded.present] at first second
  exact recorded.apart (Nat.le_refl _) first second

section Issue

variable {slot : Slot} {claim : Claim} {cell : Cell}

theorem cell_issued_of_occupied {other : Slot} {occupant : Occupant}
    (occupied : draft.pool.occupant? other = some occupant) :
    (naming.issued draft.timeline.count cell).cell occupant.handle = naming.cell occupant.handle :=
  Function.update_of_ne (Nat.ne_of_lt (recorded.lt_count_of_occupied occupied)) _ _

theorem contents_issue (other : Slot) :
    (draft.issue slot claim).contents (naming.issued draft.timeline.count cell) other =
      if other = slot then some cell else draft.contents naming other := by
  unfold Draft.contents
  rw [occupant?_issue]
  by_cases same : other = slot
  · simp [same, Naming.issued]
  · simp only [same, if_false]
    cases occupied : draft.pool.occupant? other with
    | none => rfl
    | some occupant => simp only [cell_issued_of_occupied recorded occupied]

variable (empty : draft.pool.occupant? slot = none) (produces : claim ≠ .used → slot = accumulator)
  (named : cell = if claim = .used then .own draft.timeline.count else .raw naming.period)

omit recorded in
include empty produces named in
/-- A register of its own is new; that of the period is already in the accumulator. -/
theorem origin_issue : draft.contents naming slot = some cell ∨
    ¬ draft.Known naming draft.text.clock cell ∧
      (draft.issue slot claim).Known (naming.issued draft.timeline.count cell) draft.text.clock
        cell := by
  split at named
  · subst named
    refine .inr ⟨fun known => Nat.lt_irrefl _ known.1, ?_, ?_⟩
    · rw [count_issue]
      exact Nat.lt_succ_self _
    · simp [Timeline.born, history?_issue]
  · rename_i produced
    left
    unfold Draft.contents
    rw [empty]
    simp [produces produced, named]

include empty produces named in
/-- No handle issued before stands for the register. -/
theorem cell_ne_issued {handle : Handle} (older : handle ≠ draft.timeline.count) :
    naming.cell handle ≠ cell := by
  intro same
  rw [named] at same
  split at same
  · rcases recorded.faithful handle with own | ⟨_, _, _, raw⟩
    · rw [own] at same
      exact older (Cell.own.inj same)
    · rw [raw] at same
      contradiction
  · rename_i produced
    have holds := recorded.held same
    rw [Holds, ← produces produced, empty] at holds
    contradiction

include empty produces named in
theorem injective_issued :
    Function.Injective (naming.issued draft.timeline.count cell).cell := by
  intro first second same
  simp only [Naming.issued, Function.update_apply] at same
  split at same <;> split at same
  · rename_i newest newest'
    rw [newest, newest']
  · rename_i older
    exact absurd same.symm (cell_ne_issued recorded empty produces named older)
  · rename_i older _
    exact absurd same (cell_ne_issued recorded empty produces named older)
  · exact recorded.injective same

include named in
theorem faithful_issued (handle : Handle) :
    (naming.issued draft.timeline.count cell).cell handle = .own handle ∨
      handle < draft.timeline.count + 1 ∧ ∃ period, period ≤ naming.period ∧
        (naming.issued draft.timeline.count cell).cell handle = .raw period := by
  by_cases newest : handle = draft.timeline.count
  · subst newest
    simp only [Naming.issued, Function.update_self]
    split at named
    · exact .inl named
    · exact .inr ⟨Nat.lt_succ_self _, naming.period, Nat.le_refl _, named⟩
  · simp only [Naming.issued, Function.update_of_ne newest]
    exact (recorded.faithful handle).imp_right fun named =>
      ⟨Nat.lt_succ_of_lt named.1, named.2⟩

include empty produces named in
theorem held_issue {handle : Handle}
    (raw : (naming.issued draft.timeline.count cell).cell handle = .raw naming.period) :
    (draft.issue slot claim).Holds accumulator handle := by
  simp only [Naming.issued, Function.update_apply] at raw
  split at raw
  · rename_i newest
    split at named
    · rw [named] at raw
      contradiction
    · rename_i produced
      simp [Holds, occupant?_issue, produces produced, newest]
  · obtain ⟨occupant, occupied, same⟩ := Option.map_eq_some_iff.mp (recorded.held raw)
    have apart : accumulator ≠ slot := by
      intro first
      rw [first, empty] at occupied
      contradiction
    simp [Holds, occupant?_issue, apart, occupied, same]

include empty produces named in
theorem apart_issue {first second : Slot} {target : Cell}
    (here : (draft.issue slot claim).contents (naming.issued draft.timeline.count cell) first =
      some target)
    (there : (draft.issue slot claim).contents (naming.issued draft.timeline.count cell) second =
      some target) : first = second := by
  have alone : ∀ other, other ≠ slot → draft.contents naming other ≠ some cell := by
    intro other apart holds
    rcases origin_issue empty produces named with here | ⟨unknown, _⟩
    · exact apart (contents_apart recorded holds here)
    · exact unknown (contents_present recorded holds)
  rw [contents_issue recorded] at here there
  by_cases same : first = slot <;> by_cases same' : second = slot
  · rw [same, same']
  · simp only [same, if_true, Option.some.injEq, same', if_false] at here there
    subst here
    exact absurd there (alone second same')
  · simp only [same, if_false, Option.some.injEq, same', if_true] at here there
    subst there
    exact absurd here (alone first same)
  · simp only [same, same', if_false] at here there
    exact contents_apart recorded here there

include empty produces named in
/-- A fresh handle has a register of its own, or that of the period if the hardware produced it. -/
theorem of_issue : Change draft naming (draft.issue slot claim)
    (naming.issued draft.timeline.count cell) id where
  tidy := recorded.toTidy.issue produces
  count := by
    rw [count_issue]
    exact Nat.le_succ _
  born := by
    intro handle issued
    simp [Timeline.born, history?_issue, Nat.ne_of_lt issued]
  places := by
    intro handle issued tick _ _
    simp [Timeline.placeAt, history?_issue, Nat.ne_of_lt issued]
  cells := fun handle issued => Function.update_of_ne (Nat.ne_of_lt issued) _ _
  period := Nat.le_refl _
  faithful := by
    rw [count_issue]
    exact faithful_issued recorded named
  standing := by
    intro occupant occupied
    rw [occupant?_issue] at occupied
    split at occupied
    · cases occupied
      by_cases used : claim = .used <;> simp [Naming.issued, used, named]
    · exact (cell_issued_of_occupied recorded occupied).trans (recorded.standing occupied)
  injective := injective_issued recorded empty produces named
  held := held_issue recorded empty produces named
  contents := by
    intro other target holds
    rw [contents_issue recorded] at holds
    split at holds
    · rename_i same
      cases holds
      rw [same]
      exact origin_issue empty produces named
    · exact .inl holds
  apart := apart_issue recorded empty produces named
  resident := by
    intro occupant occupied ordinary
    rw [occupant?_issue] at occupied
    split at occupied
    · cases occupied
      left
      simp [Timeline.born, history?_issue]
    · exact .inr ⟨occupant, occupied, rfl, ordinary⟩

end Issue

section Shift

variable {slot free : Slot} {occupant : Occupant} {period : Nat}
  (occupied : draft.pool.occupant? slot = some occupant) (apart : free ≠ slot)
  (saved : free ≠ accumulator)
  (turned : period = if slot = accumulator then naming.period + 1 else naming.period)

omit recorded in
include turned in
theorem period_le_shift : naming.period ≤ period := by
  split at turned <;> omega

omit recorded in
include apart turned in
theorem contents_shift (other : Slot) :
    (draft.shift slot free occupant).contents ⟨naming.cell, period⟩ other =
      if other = slot then (if slot = accumulator then some (.raw period) else none)
      else if other = free then some (naming.cell occupant.handle)
      else draft.contents naming other := by
  unfold Draft.contents
  rw [occupant?_shift]
  by_cases same : other = slot
  · simp [same]
  · by_cases same' : other = free
    · simp [same', apart]
    · simp only [same, same', if_false]
      split
      · rfl
      · by_cases first : other = accumulator
        · have elsewhere : slot ≠ accumulator := fun here => same (first.trans here.symm)
          simp [turned, elsewhere]
        · simp [first]

omit recorded in
include occupied apart turned in
/-- What a slot holds was there before or in the slot that was moved, or it is the register of a new
period. -/
theorem origin_shift {other : Slot} {cell : Cell}
    (holds : (draft.shift slot free occupant).contents ⟨naming.cell, period⟩ other = some cell) :
    other ≠ slot ∧ draft.contents naming (source slot free other) = some cell ∨
      other = slot ∧ cell = .raw period ∧ naming.period < period := by
  rw [contents_shift apart turned] at holds
  by_cases same : other = slot
  · right
    rw [if_pos same] at holds
    split at holds
    · rename_i first
      rw [if_pos first] at turned
      exact ⟨same, (Option.some.inj holds).symm, by omega⟩
    · contradiction
  · left
    refine ⟨same, ?_⟩
    rw [if_neg same] at holds
    unfold source
    split at holds
    · rename_i same'
      rw [if_pos same']
      simpa [Draft.contents, occupied] using holds
    · rename_i different
      rwa [if_neg different]

/-- The register of a period to come is in no slot. -/
theorem contents_ne_raw (after : naming.period < period) (other : Slot) :
    draft.contents naming other ≠ some (.raw period) := by
  intro holds
  have known : period ≤ naming.period := contents_present recorded holds
  omega

include saved turned in
theorem held_shift {handle : Handle} (raw : naming.cell handle = .raw period) :
    (draft.shift slot free occupant).Holds accumulator handle := by
  split at turned
  · have after : naming.period < period := by omega
    exact absurd raw (recorded.cell_ne_raw after handle)
  · rename_i elsewhere
    rw [turned] at raw
    have holds := recorded.held raw
    simpa [Holds, occupant?_shift, Ne.symm elsewhere, saved.symm] using holds

include occupied apart turned in
theorem apart_shift {first second : Slot} {cell : Cell}
    (here : (draft.shift slot free occupant).contents ⟨naming.cell, period⟩ first = some cell)
    (there : (draft.shift slot free occupant).contents ⟨naming.cell, period⟩ second = some cell) :
    first = second := by
  rcases origin_shift occupied apart turned here with ⟨left, old⟩ | ⟨same, rfl, after⟩
  · rcases origin_shift occupied apart turned there with ⟨left', old'⟩ | ⟨_, rfl, after⟩
    · have sources := contents_apart recorded old old'
      unfold source at sources
      split at sources <;> split at sources
      · rename_i same same'
        rw [same, same']
      · exact absurd sources.symm left'
      · exact absurd sources left
      · exact sources
    · exact absurd old (contents_ne_raw recorded after _)
  · rcases origin_shift occupied apart turned there with ⟨_, old'⟩ | ⟨same', _, _⟩
    · exact absurd old' (contents_ne_raw recorded after _)
    · rw [same, same']

include occupied apart saved turned in
/-- A value that is moved by an instruction takes its register along. -/
theorem of_shift : Change draft naming (draft.shift slot free occupant) ⟨naming.cell, period⟩
    (source slot free) where
  tidy := recorded.toTidy.shift occupied saved
  count := Nat.le_of_eq (count_shift draft slot free occupant).symm
  born := fun handle _ => born_shift draft slot free occupant handle
  places := fun handle _ tick born earlier => placeAt_shift draft slot free occupant born earlier
  cells := fun _ _ => rfl
  period := period_le_shift turned
  faithful := by
    intro handle
    rw [count_shift]
    rcases recorded.faithful handle with own | ⟨issued, old, bound, raw⟩
    · exact .inl own
    · exact .inr ⟨issued, old, Nat.le_trans bound (period_le_shift turned), raw⟩
  standing := by
    intro second found
    rw [occupant?_shift, if_neg saved.symm] at found
    split at found
    · contradiction
    · rename_i elsewhere
      rw [if_neg (Ne.symm elsewhere)] at turned
      rw [turned]
      exact recorded.standing found
  injective := recorded.injective
  held := held_shift recorded saved turned
  contents := by
    intro other cell holds
    rcases origin_shift occupied apart turned holds with ⟨_, old⟩ | ⟨_, rfl, after⟩
    · exact .inl old
    · exact .inr ⟨fun known : period ≤ naming.period => by omega, Nat.le_refl period⟩
  apart := apart_shift recorded occupied apart turned
  resident := by
    intro second found ordinary
    rw [occupant?_shift, if_neg saved.symm] at found
    split at found
    · contradiction
    · exact .inr ⟨second, found, rfl, ordinary⟩

end Shift

end Change

end Draft

end X64Backend
