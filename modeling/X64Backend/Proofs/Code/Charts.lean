import Mathlib.Logic.Function.Basic
import X64Backend.Proofs.Pool.Tables

/-!
Where handles are, tick by tick.  A chart gives every handle a register at every tick, and a change
of the table of handles redraws it from a tick on, or as a whole.  The table keeps short histories
instead of a chart, and yet every lookup gives what the chart says.
-/

namespace X64Backend

/-- Which registers handles live in, at which ticks. -/
structure Chart where
  /-- How many handles were issued. -/
  issued : Nat
  /-- The tick at which a handle was issued. -/
  birth : Handle → Nat
  place : Handle → Nat → Option Phys

namespace Timeline

/-- One change of the table of handles. -/
inductive Edit where
  | bind (phys : Option Phys) (now : Nat)
  | relocate (handle : Handle) (phys : Option Phys) (now : Nat)
  | rebind (handle : Handle) (phys : Option Phys)

namespace Edit

/-- The tick at which a change is made, where it matters. -/
def clock? : Edit → Option Nat
  | bind _ now | relocate _ _ now => some now
  | rebind _ _ => none

/-- The table behind a change. -/
def perform (timeline : Timeline) : Edit → Timeline
  | bind phys now => (timeline.bind phys now).2
  | relocate handle phys now => timeline.relocate handle phys now
  | rebind handle phys => timeline.rebind handle phys

/-- The handle that a change issues. -/
def issue? (timeline : Timeline) : Edit → Option Handle
  | bind phys now => some (timeline.bind phys now).1
  | _ => none

/-- The chart behind a change.  A new handle is in its register at all ticks, a relocated one from a
tick on, and a rebound one at all ticks again; the others stay where they are. -/
def draw (chart : Chart) : Edit → Chart
  | bind phys now =>
      { issued := chart.issued + 1
        birth := Function.update chart.birth (chart.issued + 1) now
        place := Function.update chart.place (chart.issued + 1) fun _ => phys }
  | relocate handle phys now =>
      { chart with
        place := Function.update chart.place handle fun tick =>
          if now ≤ tick then phys else chart.place handle tick }
  | rebind handle phys =>
      { chart with place := Function.update chart.place handle fun _ => phys }

end Edit

/-- The table behind some changes, one after the other. -/
def edited (timeline : Timeline) (edits : List Edit) : Timeline :=
  edits.foldl Edit.perform timeline

/-- The handles that some changes issue, in their order. -/
def issues : Timeline → List Edit → List Handle
  | _, [] => []
  | timeline, edit :: rest => (edit.issue? timeline).toList ++ issues (edit.perform timeline) rest

/-- The ticks at which some changes are made. -/
def clocks (edits : List Edit) : List Nat :=
  edits.filterMap Edit.clock?

end Timeline

namespace Chart

/-- No handle was issued. -/
def empty : Chart := ⟨0, fun _ => 0, fun _ _ => none⟩

/-- The chart behind some changes, one after the other. -/
def edited (chart : Chart) (edits : List Timeline.Edit) : Chart :=
  edits.foldl Timeline.Edit.draw chart

end Chart

namespace History

variable {history : History} {phys : Option Phys} {place : Nat → Option Phys} {now tick : Nat}

/-- From birth on, a history gives what is drawn. -/
def Follows (history : History) (place : Nat → Option Phys) : Prop :=
  ∀ tick, history.born ≤ tick → history.placeAt tick = place tick

/-- Nothing in a history lies behind a tick. -/
structure EndsBy (history : History) (tick : Nat) : Prop where
  born : history.born ≤ tick
  moves : ∀ move ∈ history.moves, move.1 ≤ tick

/-- From its last move on, a handle is where it is now. -/
theorem EndsBy.placeAt (ends : history.EndsBy tick) : history.placeAt tick = history.current := by
  unfold History.placeAt current
  cases moves : history.moves with
  | nil => rfl
  | cons move earlier =>
    have reached := ends.moves move (moves ▸ List.mem_cons_self)
    simp [reached]

/-- From the tick of a move on, the handle is where it was moved to, also where an earlier move at
the same tick was replaced, or the register at birth was. -/
theorem placeAt_relocate_of_le (history : History) (phys : Option Phys) (reached : now ≤ tick) :
    (history.relocate phys now).placeAt tick = phys := by
  unfold relocate
  split
  · rename_i unmoved
    split <;> simp [placeAt, unmoved, reached]
  · split <;> simp [placeAt, reached]

theorem Follows.relocate (follows : history.Follows place) :
    (history.relocate phys now).Follows fun tick => if now ≤ tick then phys else place tick := by
  intro tick living
  rw [born_relocate] at living
  dsimp only
  by_cases reached : now ≤ tick
  · rw [if_pos reached, placeAt_relocate_of_le history phys reached]
  · have before : tick < now := Nat.lt_of_not_le reached
    rw [if_neg reached, placeAt_relocate_of_lt history phys (Nat.lt_of_le_of_lt living before) before]
    exact follows tick living

theorem EndsBy.relocate (ends : history.EndsBy tick) (reached : now ≤ tick) :
    (history.relocate phys now).EndsBy tick := by
  refine ⟨by simpa using ends.born, fun move member => ?_⟩
  rcases mem_moves_relocate member with rfl | older
  · exact reached
  · exact ends.moves move older

end History

namespace Timeline

variable {timeline : Timeline} {chart : Chart} {edit : Edit} {edits : List Edit} {tick : Nat}

/-- A table gives what a chart says, at every tick from a handle's birth on. -/
structure Follows (timeline : Timeline) (chart : Chart) : Prop where
  count : timeline.count = chart.issued + 1
  handles : ∀ {handle history}, timeline.history? handle = some history →
    history.born = chart.birth handle ∧ history.Follows (chart.place handle)

/-- Nothing in a table lies behind a tick. -/
def EndsBy (timeline : Timeline) (tick : Nat) : Prop :=
  ∀ handle history, timeline.history? handle = some history → history.EndsBy tick

theorem follows_empty : Follows empty Chart.empty :=
  ⟨rfl, fun issued => by simp [history?, empty] at issued⟩

theorem endsBy_empty : EndsBy empty tick :=
  fun _ _ issued => by simp [history?, empty] at issued

/-- The history of a handle behind a change of one history. -/
theorem history?_update_eq_some {handle other : Handle} {change : History → History}
    {changed : History} (issued : (timeline.update handle change).history? other = some changed) :
    (other = handle ∧ ∃ history, timeline.history? handle = some history ∧
      changed = change history) ∨
    other ≠ handle ∧ timeline.history? other = some changed := by
  rw [history?_update] at issued
  split at issued
  · rename_i same
    obtain ⟨history, found, rfl⟩ := Option.map_eq_some_iff.mp issued
    exact .inl ⟨same, history, found, rfl⟩
  · rename_i different
    exact .inr ⟨different, issued⟩

/-- A changed history is drawn anew, and the other handles stay where they are. -/
theorem Follows.update (follows : timeline.Follows chart) {handle : Handle}
    {change : History → History} {place : Nat → Option Phys}
    (born : ∀ history, (change history).born = history.born)
    (drawn : ∀ history, history.Follows (chart.place handle) → (change history).Follows place) :
    (timeline.update handle change).Follows
      { chart with place := Function.update chart.place handle place } := by
  refine ⟨(count_update ..).trans follows.count, fun {other changed} issued => ?_⟩
  rcases history?_update_eq_some issued with ⟨rfl, history, found, rfl⟩ | ⟨different, found⟩
  · obtain ⟨birth, before⟩ := follows.handles found
    dsimp only
    rw [Function.update_self]
    exact ⟨(born history).trans birth, drawn history before⟩
  · dsimp only
    rw [Function.update_of_ne different]
    exact follows.handles found

/-- One change is drawn on the chart as it is made in the table. -/
theorem Follows.perform (follows : timeline.Follows chart) (edit : Edit) :
    (edit.perform timeline).Follows (edit.draw chart) := by
  cases edit with
  | bind phys now =>
    refine ⟨by simp [Edit.perform, Edit.draw, follows.count], fun {handle history} issued => ?_⟩
    rw [Edit.perform, history?_bind, follows.count] at issued
    simp only [Edit.draw]
    split at issued
    · rename_i newest
      cases issued
      rw [newest, Function.update_self, Function.update_self]
      exact ⟨rfl, fun _ _ => rfl⟩
    · rename_i older
      rw [Function.update_of_ne older, Function.update_of_ne older]
      exact follows.handles issued
  | relocate handle phys now =>
    exact follows.update (fun _ => History.born_relocate ..) fun _ drawn => drawn.relocate
  | rebind handle phys => exact follows.update (fun _ => rfl) fun _ _ _ _ => rfl

theorem Follows.edited (follows : timeline.Follows chart) (edits : List Edit) :
    (timeline.edited edits).Follows (chart.edited edits) := by
  induction edits generalizing timeline chart with
  | nil => exact follows
  | cons edit rest inductionHypothesis => exact inductionHypothesis (follows.perform edit)

theorem EndsBy.update (ends : timeline.EndsBy tick) {handle : Handle}
    {change : History → History}
    (kept : ∀ history, history.EndsBy tick → (change history).EndsBy tick) :
    (timeline.update handle change).EndsBy tick := by
  intro other changed issued
  rcases history?_update_eq_some issued with ⟨rfl, history, found, rfl⟩ | ⟨-, found⟩
  · exact kept history (ends _ _ found)
  · exact ends _ _ found

theorem EndsBy.perform (ends : timeline.EndsBy tick)
    (reached : ∀ now ∈ edit.clock?, now ≤ tick) : (edit.perform timeline).EndsBy tick := by
  cases edit with
  | bind phys now =>
    intro handle history issued
    rw [Edit.perform, history?_bind] at issued
    split at issued
    · cases issued
      exact ⟨reached now rfl, by simp⟩
    · exact ends _ _ issued
  | relocate handle phys now =>
    exact ends.update fun _ settled => settled.relocate (reached now rfl)
  | rebind handle phys =>
    exact ends.update fun _ settled => ⟨settled.born, by simp [History.rebind]⟩

theorem EndsBy.edited (ends : timeline.EndsBy tick) (reached : ∀ now ∈ clocks edits, now ≤ tick) :
    (timeline.edited edits).EndsBy tick := by
  induction edits generalizing timeline with
  | nil => exact ends
  | cons edit rest inductionHypothesis =>
    have first : ∀ now ∈ edit.clock?, now ≤ tick := fun now known =>
      reached now (List.mem_filterMap.mpr ⟨edit, List.mem_cons_self, known⟩)
    refine inductionHypothesis (ends.perform first) fun now known => ?_
    obtain ⟨later, member, same⟩ := List.mem_filterMap.mp known
    exact reached now (List.mem_filterMap.mpr ⟨later, List.mem_cons_of_mem _ member, same⟩)

/-- Handles are numbered in the order in which they are issued. -/
theorem Follows.issues (follows : timeline.Follows chart) (edits : List Edit) :
    ∃ count, (chart.edited edits).issued = chart.issued + count ∧
      timeline.issues edits = List.range' (chart.issued + 1) count := by
  -- a table that follows a chart issues the number behind the chart's count next
  induction edits generalizing timeline chart with
  | nil => exact ⟨0, rfl, rfl⟩
  | cons edit rest inductionHypothesis =>
    obtain ⟨count, total, handles⟩ := inductionHypothesis (follows.perform edit)
    cases edit with
    | bind phys now =>
      refine ⟨count + 1, total.trans (by simp only [Edit.draw]; omega), ?_⟩
      simp [Timeline.issues, handles, Edit.issue?, Edit.draw, follows.count, List.range'_succ]
    | relocate | rebind => exact ⟨count, total, handles⟩

/-- The last of some ticks that never decrease is the greatest. -/
theorem le_of_ordered {ticks : List Nat} (ordered : ticks.Pairwise (· ≤ ·)) {last : Nat}
    (ends : ticks.getLast? = some last) : ∀ now ∈ ticks, now ≤ last := by
  obtain ⟨front, rfl⟩ := List.getLast?_eq_some_iff.mp ends
  intro now member
  rcases List.mem_append.mp member with earlier | same
  · exact (List.pairwise_append.mp ordered).2.2 now earlier last (List.mem_singleton_self last)
  · exact Nat.le_of_eq (List.mem_singleton.mp same)

/-- Every number up to the count of the handles is a handle. -/
theorem exists_history {handle : Nat} (positive : 0 < handle) (issued : handle < timeline.count) :
    ∃ history, timeline.history? handle = some history := by
  unfold count at issued
  have within : handle - 1 < timeline.histories.size := by omega
  exact ⟨timeline.histories[handle - 1], by
    simp [history?, Nat.ne_of_gt positive, within]⟩

/-- Changes of the table of handles, drawn on a chart one after the other.  From its birth on, the
table has every handle at every tick where the chart has it, whatever the ticks of the changes are;
where these never decrease, a handle is now where the chart has it from the last of them on.  The
handles issued are one, two, three and so on, so none of them is issued again. -/
theorem edited_charted (edits : List Edit) :
    let timeline := empty.edited edits
    let chart := Chart.empty.edited edits
    (∀ handle, 0 < handle → handle ≤ chart.issued →
      timeline.born handle = chart.birth handle ∧
      (∀ tick, chart.birth handle ≤ tick →
        timeline.placeAt handle tick = chart.place handle tick) ∧
      ((clocks edits).Pairwise (· ≤ ·) → ∀ last ∈ (clocks edits).getLast?, ∀ tick, last ≤ tick →
        timeline.current handle = chart.place handle tick)) ∧
      empty.issues edits = List.range' 1 chart.issued := by
  intro timeline chart
  have follows : timeline.Follows chart := follows_empty.edited edits
  refine ⟨fun handle positive issued => ?_, ?_⟩
  · obtain ⟨history, found⟩ := exists_history positive
      (show handle < timeline.count by rw [follows.count]; exact Nat.lt_succ_of_le issued)
    obtain ⟨born, drawn⟩ := follows.handles found
    refine ⟨by simpa [Timeline.born, found] using born, fun tick living => ?_, ?_⟩
    · simpa [placeAt, found] using drawn tick (born ▸ living)
    · intro ordered last ends tick behind
      have reached : ∀ now ∈ clocks edits, now ≤ tick := fun now member =>
        Nat.le_trans (le_of_ordered ordered ends now member) behind
      have settled : history.EndsBy tick := endsBy_empty.edited reached handle history found
      have here := drawn tick settled.born
      rw [settled.placeAt] at here
      simpa [current, found] using here
  · obtain ⟨count, total, handles⟩ := follows_empty.issues edits
    rw [handles, show chart.issued = count from total.trans (Nat.zero_add count)]
    rfl

/-- A handle that is moved at the tick of its birth and twice at another, and one that is renamed
behind the present tick and moved again. -/
theorem edited_charted_moves :
    let edits : List Edit :=
      [.bind (some .rax) 1, .relocate 1 (some .rbx) 1, .bind (some .rcx) 3,
        .relocate 1 (some .r12) 3, .relocate 1 (some .r13) 3, .rebind 2 (some .r14),
        .relocate 2 (some .rax) 5]
    let timeline := empty.edited edits
    let chart := Chart.empty.edited edits
    (clocks edits).Pairwise (· ≤ ·) ∧ chart.issued = 2 ∧
      (timeline.placeAt 1 2 = some .rbx ∧ timeline.placeAt 1 2 = chart.place 1 2) ∧
      (timeline.placeAt 1 3 = some .r13 ∧ timeline.placeAt 1 3 = chart.place 1 3) ∧
      (timeline.placeAt 2 4 = some .r14 ∧ timeline.placeAt 2 4 = chart.place 2 4) ∧
      timeline.current 2 = some .rax ∧ timeline.current 2 = chart.place 2 9 := by
  intro edits timeline chart
  have ordered : (clocks edits).Pairwise (· ≤ ·) := by decide
  have charted := (edited_charted edits).1
  obtain ⟨-, first, -⟩ := charted 1 (by decide) (by decide)
  obtain ⟨-, second, now⟩ := charted 2 (by decide) (by decide)
  exact ⟨ordered, rfl, ⟨rfl, first 2 (by decide)⟩, ⟨rfl, first 3 (by decide)⟩,
    ⟨rfl, second 4 (by decide)⟩, rfl, now ordered 5 rfl 9 (by decide)⟩

end Timeline

end X64Backend
