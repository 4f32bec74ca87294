import X64Backend.Proofs.Lower.Sites
import X64Backend.Proofs.Tree.Stretches

/-!
What a body takes of its frame.  Its own variables come first; every expansion takes the locals of
its callee below all that was taken before, and so does every value that needs a cell.  So as long as
the offsets fit a displacement, no two of them overlap.
-/

namespace X64Backend.Lower

open X64Backend.Tree

variable {program : TypedProgram} {options : Options} {since : Handle} {c c' : Config} {d : Nat}
  {s : State} {frame : Frame}

section Runs

/-- A cell for a value is below all that was taken before. -/
theorem stackTemp_run (found : s.frame = some frame) (size : Size) :
    stackTemp size s =
      .ok (.mem (frameCell (-(frame.stackSize + 8)) size)) (s.taking program .cell) := by
  cases s
  cases found
  rfl

/-- The locals of an expansion are below all that was taken before. -/
theorem takeLocals_run (found : s.frame = some frame) (callee : FnId) :
    takeLocals callee (program.function callee) s =
      .ok (relocatedLocals callee (program.function callee) frame.stackSize)
        (s.taking program (.locals callee)) := by
  cases s
  cases found
  rfl

end Runs

namespace Extent

/-- The ranges that are taken below a depth. -/
def stretches (program : TypedProgram) (depth : Int64) : Extent → List Stretch
  | .cell => [⟨-(depth + 8), 8⟩]
  | .locals callee => (program.function callee).locals.map fun v => v.stretch.below depth

/-- The ranges of an expansion are at the offsets that its locals get. -/
theorem stretches_locals (program : TypedProgram) (depth : Int64) (callee : FnId) :
    (Extent.locals callee).stretches program depth =
      ((relocatedLocals callee (program.function callee) depth).zip
        (program.function callee).locals).map fun (entry, v) => ⟨entry.2, v.storage⟩ := by
  refine List.ext_getElem (by simp [stretches, relocatedLocals]) fun index _ _ => ?_
  simp [stretches, relocatedLocals, Stretch.below, Variable.stretch]

variable {depth : Int64}

theorem bytes_nonneg (parted : ∀ id, (program.function id).Parted) (extent : Extent) :
    0 ≤ (extent.bytes program).toInt := by
  cases extent with
  | cell => exact (by decide : (0 : Int) ≤ 8)
  | locals callee => exact (parted callee).least

theorem dvd_bytes (parted : ∀ id, (program.function id).Parted) (extent : Extent) :
    8 ∣ (extent.bytes program).toInt := by
  cases extent with
  | cell => exact Int.dvd_refl 8
  | locals callee => exact (parted callee).whole

theorem toInt_add_bytes (parted : ∀ id, (program.function id).Parted) (extent : Extent)
    (least : 0 ≤ depth.toInt) (bounded : depth.toInt + (extent.bytes program).toInt < 2 ^ 62) :
    (depth + extent.bytes program).toInt = depth.toInt + (extent.bytes program).toInt := by
  have positive := extent.bytes_nonneg parted
  rw [Int64.toInt_add]
  exact Int.bmod_eq_of_le (by omega) (by omega)

theorem spread_stretches (parted : ∀ id, (program.function id).Parted) (extent : Extent)
    (least : 0 ≤ depth.toInt) (bounded : depth.toInt + (extent.bytes program).toInt < 2 ^ 62) :
    Spread depth.toInt (depth.toInt + (extent.bytes program).toInt)
      (extent.stretches program depth) := by
  cases extent with
  | cell =>
      have word : ((Extent.cell).bytes program).toInt = 8 := rfl
      have sum := toInt_add_bytes parted .cell least bounded
      have negated : (-(depth + 8)).toInt = -(depth.toInt + 8) := by
        change (depth + 8).toInt = _ at sum
        rw [Int64.toInt_neg, sum, word]
        exact Int.bmod_eq_of_le (by omega) (by omega)
      refine .singleton (by change (0 : Int) < 8; decide) ?_ ?_
      · rw [negated, word]
      · change (-(depth + 8)).toInt + 8 ≤ _
        omega
  | locals callee =>
      have lays := parted callee
      have own : Spread 0 (program.function callee).frameSize.toInt
          ((program.function callee).locals.map Variable.stretch) := by
        refine lays.spread.sublist ?_
        rw [Function.framed, List.map_append]
        exact List.sublist_append_right _ _
      have moved := own.below least bounded
      rw [List.map_map] at moved
      exact moved

end Extent

section Histories

/-- The depth behind what is taken, one extent after the other. -/
def depthAfter (program : TypedProgram) (depth : Int64) (extents : List Extent) : Int64 :=
  extents.foldl (fun depth extent => depth + extent.bytes program) depth

/-- The ranges that are taken below a depth, one extent after the other. -/
def ranges (program : TypedProgram) : (depth : Int64) → List Extent → List Stretch
  | _, [] => []
  | depth, extent :: rest =>
      extent.stretches program depth ++ ranges program (depth + extent.bytes program) rest

/-- The bytes that are taken in all. -/
def totalBytes (program : TypedProgram) : List Extent → Int
  | [] => 0
  | extent :: rest => (extent.bytes program).toInt + totalBytes program rest

theorem totalBytes_nonneg (parted : ∀ id, (program.function id).Parted) (extents : List Extent) :
    0 ≤ totalBytes program extents := by
  induction extents with
  | nil => exact Int.le_refl 0
  | cons extent rest inductionHypothesis =>
      exact Int.add_nonneg (extent.bytes_nonneg parted) inductionHypothesis

theorem dvd_totalBytes (parted : ∀ id, (program.function id).Parted) (extents : List Extent) :
    8 ∣ totalBytes program extents := by
  induction extents with
  | nil => exact Int.dvd_zero 8
  | cons extent rest inductionHypothesis =>
      exact Int.dvd_add (extent.dvd_bytes parted) inductionHypothesis

/-- What is taken later is below what was taken before. -/
theorem spread_ranges (parted : ∀ id, (program.function id).Parted) {depth : Int64}
    {extents : List Extent} (least : 0 ≤ depth.toInt)
    (bounded : depth.toInt + totalBytes program extents < 2 ^ 62) :
    Spread depth.toInt (depth.toInt + totalBytes program extents) (ranges program depth extents) ∧
      (depthAfter program depth extents).toInt = depth.toInt + totalBytes program extents := by
  induction extents generalizing depth with
  | nil => exact ⟨.nil, by simp [depthAfter, totalBytes]⟩
  | cons extent rest inductionHypothesis =>
      have positive := extent.bytes_nonneg parted
      have others := totalBytes_nonneg parted rest
      rw [totalBytes] at bounded ⊢
      have sum := extent.toInt_add_bytes parted least (by omega)
      obtain ⟨below, last⟩ :=
        @inductionHypothesis (depth + extent.bytes program) (by omega) (by omega)
      rw [sum, Int.add_assoc] at below last
      refine ⟨?_, last⟩
      exact (extent.spread_stretches parted least (by omega)).append below (by omega) (by omega)

/-- The moves of the generator with what they take of the frame, one extent after the other. -/
inductive Grows (program : TypedProgram) (since : Handle) (c : Config) :
    List Extent → Config → Prop where
  | none : Grows program since c [] c
  | move {extents c' c''} : Grows program since c extents c' → Move program since c' c'' →
      c''.state.frame.map Frame.stackSize = c'.state.frame.map Frame.stackSize →
      Grows program since c extents c''
  | take {extents c'} (extent : Extent) : Grows program since c extents c' →
      Grows program since c (extents ++ [extent]) (c'.turn (c'.state.taking program extent))

/-- A move takes an extent of the frame, or the frame has the size that it had. -/
theorem Move.takes (move : Move program since c c') :
    (∃ extent, c' = c.turn (c.state.taking program extent)) ∨
      c'.state.frame.map Frame.stackSize = c.state.frame.map Frame.stackSize := by
  have mapped : ∀ {change : Frame → Frame},
      (∀ frame, (change frame).stackSize = frame.stackSize) →
      (c.state.frame.map change).map Frame.stackSize = c.state.frame.map Frame.stackSize := by
    intro change same
    rw [Option.map_map]
    exact Option.map_congr fun frame _ => same frame
  cases move with
  | grow extent => exact .inl ⟨extent, rfl⟩
  | note noted => exact .inr (congrArg (Option.map Frame.stackSize) noted.frame)
  | leave found =>
      refine .inr ?_
      rw [found]
      rfl
  | called _ => exact .inr (mapped fun _ => rfl)
  | reclaim _ _ _ => exact .inr (mapped fun _ => rfl)
  | leak _ _ => exact .inr (mapped fun _ => rfl)
  | _ => exact .inr rfl

theorem Moves.grows (moves : Moves program since c c') :
    ∃ extents, Grows program since c extents c' := by
  induction moves with
  | refl => exact ⟨[], .none⟩
  | tail _ move inductionHypothesis =>
      obtain ⟨extents, grows⟩ := inductionHypothesis
      obtain ⟨extent, rfl⟩ | same := move.takes
      · exact ⟨_, grows.take extent⟩
      · exact ⟨extents, grows.move move same⟩

/-- The frame is as large as all that was taken of it. -/
theorem Grows.stackSize {extents : List Extent} (grows : Grows program since c extents c') :
    c'.state.frame.map Frame.stackSize =
      c.state.frame.map fun frame => depthAfter program frame.stackSize extents := by
  induction grows with
  | none => rfl
  | move _ _ same inductionHypothesis => exact same.trans inductionHypothesis
  | @take extents c' extent _ inductionHypothesis =>
      have appended : ∀ depth, depthAfter program depth (extents ++ [extent]) =
          depthAfter program depth extents + extent.bytes program :=
        fun depth => List.foldl_concat ..
      have grown : (c'.state.taking program extent).frame.map Frame.stackSize =
          (c'.state.frame.map Frame.stackSize).map (· + extent.bytes program) := by
        rw [State.taking, Option.map_map, Option.map_map]
        rfl
      change (c'.state.taking program extent).frame.map Frame.stackSize = _
      rw [grown, inductionHypothesis, Option.map_map]
      simp only [appended]
      rfl

end Histories

/-- The ranges of a function's own variables and of what was taken for it. -/
def slots (program : TypedProgram) (id : FnId) (extents : List Extent) : List Stretch :=
  (program.function id).framed.map Variable.stretch ++
    ranges program (program.function id).frameSize extents

/-- Own variables, the locals of every expansion and the cells of values do not overlap as long as
the frame ends where a displacement reaches. -/
theorem spread_slots (parted : ∀ id, (program.function id).Parted) {id : FnId}
    {extents : List Extent}
    (reaches : (program.function id).frameSize.toInt + totalBytes program extents ≤ 2 ^ 31) :
    Spread 0 (depthAfter program (program.function id).frameSize extents).toInt
        (slots program id extents) ∧
      8 ∣ (depthAfter program (program.function id).frameSize extents).toInt ∧
      ∀ stretch ∈ slots program id extents,
        stretch.offset.toInt32.toInt = stretch.offset.toInt := by
  have lays := parted id
  have others := totalBytes_nonneg parted extents
  obtain ⟨below, last⟩ := spread_ranges parted lays.least (Int.lt_of_le_of_lt reaches (by decide))
  have spread := lays.spread.append below lays.least (by omega)
  rw [last]
  exact ⟨spread, Int.dvd_add lays.whole (dvd_totalBytes parted extents),
    fun stretch member => spread.displaced reaches member⟩

/-- Wherever the generation of a body has come to, the frame is what was taken of it: first the own
variables, then one extent after the other.  None of them overlap as long as the frame ends where a
displacement reaches. -/
theorem Visits.slots_apart (parted : ∀ id, (program.function id).Parted) {task : Task}
    (visits : Visits program options d task s) :
    ∃ id frame extents, s.frame = some frame ∧ frame.fn = id ∧
      (∃ s₀ c, c.state = s ∧
        Grows program s₀.draft.timeline.count (.begun s₀ id (program.function id)) extents c) ∧
      ((program.function id).frameSize.toInt + totalBytes program extents ≤ 2 ^ 31 →
        Spread 0 frame.stackSize.toInt (slots program id extents) ∧ 8 ∣ frame.stackSize.toInt ∧
          ∀ stretch ∈ slots program id extents,
            stretch.offset.toInt32.toInt = stretch.offset.toInt) := by
  obtain ⟨id, s₀, _, c, rfl, moves, _, _⟩ := visits.arrives
  obtain ⟨extents, grows⟩ := moves.grows
  have size := grows.stackSize
  have identity := moves.identity
  cases found : c.state.frame with
  | none =>
      rw [found] at size
      cases size
  | some frame =>
      rw [found] at size identity
      have size : frame.stackSize = depthAfter program (program.function id).frameSize extents :=
        Option.some.inj size
      refine ⟨id, frame, extents, rfl, ?_, ⟨s₀, c, rfl, grows⟩, fun reaches => ?_⟩
      · exact congrArg (fun identity => identity.2.1) (Option.some.inj identity)
      · rw [size]
        exact spread_slots parted reaches

end X64Backend.Lower
