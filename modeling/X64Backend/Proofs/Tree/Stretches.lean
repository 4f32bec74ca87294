import X64Backend.Proofs.Tree.Classes
import X64Backend.Proofs.Tree.Names

/-!
The layout of a frame, whatever the sizes of its variables.  As long as offsets do not wrap around,
the variables of a function do not overlap, and each is aligned to its own size.
-/

namespace X64Backend.Tree

/-- A range of bytes in a frame, seen from the frame pointer. -/
structure Stretch where
  offset : Int64
  bytes : Int64

namespace Stretch

/-- One of two ranges ends where the other one has not begun. -/
def Apart (stretch other : Stretch) : Prop :=
  stretch.offset.toInt + stretch.bytes.toInt ≤ other.offset.toInt ∨
    other.offset.toInt + other.bytes.toInt ≤ stretch.offset.toInt

/-- The same range further down. -/
def below (stretch : Stretch) (depth : Int64) : Stretch :=
  { stretch with offset := stretch.offset - depth }

end Stretch

/-- Ranges between two depths of a frame, of one byte at least, that do not overlap. -/
structure Spread (upper lower : Int) (stretches : List Stretch) : Prop where
  apart : stretches.Pairwise Stretch.Apart
  sized : ∀ stretch ∈ stretches, 0 < stretch.bytes.toInt
  inside : ∀ stretch ∈ stretches, -lower ≤ stretch.offset.toInt ∧
    stretch.offset.toInt + stretch.bytes.toInt ≤ -upper

namespace Spread

variable {upper middle lower : Int} {stretches others : List Stretch}

theorem nil : Spread upper lower [] :=
  ⟨.nil, by simp, by simp⟩

theorem singleton {stretch : Stretch} (sized : 0 < stretch.bytes.toInt)
    (lowest : -lower ≤ stretch.offset.toInt)
    (highest : stretch.offset.toInt + stretch.bytes.toInt ≤ -upper) :
    Spread upper lower [stretch] :=
  ⟨List.pairwise_singleton _ _, by simpa using sized, by simpa using ⟨lowest, highest⟩⟩

theorem sublist (spread : Spread upper lower stretches) (fewer : others.Sublist stretches) :
    Spread upper lower others :=
  ⟨spread.apart.sublist fewer, fun stretch member => spread.sized stretch (fewer.subset member),
    fun stretch member => spread.inside stretch (fewer.subset member)⟩

/-- What lies below a depth does not overlap with what lies above it. -/
theorem append (above : Spread upper middle stretches) (below : Spread middle lower others)
    (first : upper ≤ middle) (second : middle ≤ lower) :
    Spread upper lower (stretches ++ others) := by
  refine ⟨List.pairwise_append.mpr ⟨above.apart, below.apart, fun stretch here other there => ?_⟩,
    List.forall_mem_append.mpr ⟨above.sized, below.sized⟩,
    List.forall_mem_append.mpr ⟨fun stretch here => ?_, fun stretch there => ?_⟩⟩
  · have lowest := (above.inside stretch here).1
    have highest := (below.inside other there).2
    exact .inr (by omega)
  · obtain ⟨lowest, highest⟩ := above.inside stretch here
    exact ⟨by omega, highest⟩
  · obtain ⟨lowest, highest⟩ := below.inside stretch there
    exact ⟨lowest, by omega⟩

/-- Ranges that move down together stay apart. -/
theorem below {depth : Int64} (spread : Spread 0 lower stretches) (least : 0 ≤ depth.toInt)
    (bounded : depth.toInt + lower < 2 ^ 62) :
    Spread depth.toInt (depth.toInt + lower) (stretches.map (Stretch.below · depth)) := by
  have moved : ∀ stretch ∈ stretches,
      (stretch.below depth).offset.toInt = stretch.offset.toInt - depth.toInt := by
    intro stretch member
    obtain ⟨lowest, highest⟩ := spread.inside stretch member
    have sized := spread.sized stretch member
    rw [Stretch.below, Int64.toInt_sub]
    exact Int.bmod_eq_of_le (by omega) (by omega)
  refine ⟨List.pairwise_map.mpr (spread.apart.imp_of_mem fun {stretch other} here there apart => ?_),
    List.forall_mem_map.mpr spread.sized, List.forall_mem_map.mpr fun stretch here => ?_⟩
  · rw [Stretch.Apart, moved stretch here, moved other there]
    change _ + stretch.bytes.toInt ≤ _ ∨ _ + other.bytes.toInt ≤ _
    unfold Stretch.Apart at apart
    omega
  · obtain ⟨lowest, highest⟩ := spread.inside stretch here
    rw [moved stretch here]
    change _ ∧ _ + stretch.bytes.toInt ≤ _
    omega

/-- Ranges that end where a displacement reaches are where their displacement says. -/
theorem displaced (spread : Spread 0 lower stretches) (reaches : lower ≤ 2 ^ 31) {stretch : Stretch}
    (member : stretch ∈ stretches) : stretch.offset.toInt32.toInt = stretch.offset.toInt := by
  obtain ⟨lowest, highest⟩ := spread.inside stretch member
  have sized := spread.sized stretch member
  rw [Int64.toInt_toInt32]
  exact Int.bmod_eq_of_le (by omega) (by omega)

end Spread

theorem Variable.storage_pos (v : Variable) : 0 < v.storage.toInt := by
  unfold storage
  split
  · decide
  · exact v.type.storage_pos

/-- The bytes of a variable in its frame. -/
def Variable.stretch (v : Variable) : Stretch := ⟨v.offset, v.storage⟩

namespace Function

/-- The room that variables take at most: each is moved down by less than its own size. -/
def room : List Variable → Int
  | [] => 0
  | v :: rest => 2 * v.storage.toInt + room rest

theorem room_nonneg (vars : List Variable) : 0 ≤ room vars := by
  induction vars with
  | nil => exact Int.le_refl 0
  | cons v rest inductionHypothesis =>
      have positive := v.storage_pos
      rw [room]
      omega

/-- Each variable is below the ones before, at a multiple of its own size. -/
structure Stacked (upper lower : Int) (vars : List Variable) : Prop where
  spread : Spread upper lower (vars.map Variable.stretch)
  aligned : ∀ v ∈ vars, v.storage.toInt ∣ v.offset.toInt

theorem stacked_placeBelow {depth : Int64} {vars : List Variable} (least : 0 ≤ depth.toInt)
    (bounded : depth.toInt + room vars < 2 ^ 62) :
    Stacked depth.toInt (placeBelow depth vars).2.toInt (placeBelow depth vars).1 ∧
      depth.toInt ≤ (placeBelow depth vars).2.toInt ∧
      (placeBelow depth vars).2.toInt ≤ depth.toInt + room vars := by
  induction vars generalizing depth with
  | nil => exact ⟨⟨.nil, by simp [placeBelow]⟩, Int.le_refl _, by simp [placeBelow, room]⟩
  | cons v rest inductionHypothesis =>
      have positive := v.storage_pos
      have others := room_nonneg rest
      rw [room] at bounded ⊢
      obtain ⟨deeper, near, aligned, negated⟩ :=
        @toInt_placed depth v.storage least positive (by omega)
      obtain ⟨stacked, above, below⟩ :=
        @inductionHypothesis (alignUp (depth + v.storage) v.storage) (by omega) (by omega)
      have here : Spread depth.toInt (alignUp (depth + v.storage) v.storage).toInt
          [⟨-alignUp (depth + v.storage) v.storage, v.storage⟩] :=
        .singleton positive (Int.le_of_eq negated.symm)
          (by change (-alignUp (depth + v.storage) v.storage).toInt + v.storage.toInt ≤ _; omega)
      refine ⟨⟨here.append stacked.spread (by omega) above, ?_⟩, ?_, ?_⟩
      · refine List.forall_mem_cons.mpr ⟨?_, stacked.aligned⟩
        change v.storage.toInt ∣ (-alignUp (depth + v.storage) v.storage).toInt
        rw [negated]
        exact Int.dvd_neg.mpr aligned
      · change _ ≤ (placeBelow (alignUp (depth + v.storage) v.storage) rest).2.toInt
        omega
      · change (placeBelow (alignUp (depth + v.storage) v.storage) rest).2.toInt ≤ _
        omega

/-- The variables of a function that are below its frame pointer. -/
def framed (fn : Function) : List Variable := fn.args.take registerArgs ++ fn.locals

/-- How the frame of a function is laid out. -/
structure Parted (fn : Function) : Prop where
  /-- Variables do not overlap, and each is inside of the frame. -/
  spread : Spread 0 fn.frameSize.toInt (fn.framed.map Variable.stretch)
  /-- Each variable is aligned to its own size. -/
  aligned : ∀ v ∈ fn.framed, v.storage.toInt ∣ v.offset.toInt
  /-- The arguments on the stack are eight bytes apart behind the return address. -/
  above : ∀ {index v}, fn.args[registerArgs + index]? = some v → v.offset.toInt = 16 + 8 * index
  whole : 8 ∣ fn.frameSize.toInt
  least : 0 ≤ fn.frameSize.toInt

theorem framed_layoutFrame (fn : Function) : fn.layoutFrame.framed =
    (placeBelow 0 (fn.arriving.take registerArgs)).1 ++
      (placeBelow (placeBelow 0 (fn.arriving.take registerArgs)).2 fn.locals).1 := by
  rw [framed, take_args_layoutFrame]
  rfl

theorem frameSize_layoutFrame (fn : Function) : fn.layoutFrame.frameSize =
    alignUp (placeBelow (placeBelow 0 (fn.arriving.take registerArgs)).2 fn.locals).2 8 := rfl

theorem room_arriving (fn : Function) :
    room (fn.arriving.take registerArgs) = room (fn.args.take registerArgs) := by
  rw [arriving, ← List.map_take]
  induction fn.args.take registerArgs with
  | nil => rfl
  | cons v rest inductionHypothesis =>
      rw [List.map_cons, room, room, inductionHypothesis]
      rfl

/-- The layout of a function parts its variables, as long as they leave room for offsets that do not
wrap around. -/
theorem parted_layoutFrame {fn : Function}
    (bounded : room (fn.args.take registerArgs) + room fn.locals < 2 ^ 62 - 8)
    (few : fn.args.length ≤ 2 ^ 27) : fn.layoutFrame.Parted := by
  have arguments := room_nonneg (fn.args.take registerArgs)
  have own := room_nonneg fn.locals
  have zero : (0 : Int64).toInt = 0 := rfl
  obtain ⟨inRegisters, first, reached⟩ := @stacked_placeBelow 0 (fn.arriving.take registerArgs)
    (by omega) (by rw [room_arriving]; omega)
  rw [room_arriving] at reached
  rw [zero] at inRegisters first reached
  obtain ⟨locals, second, last⟩ :=
    @stacked_placeBelow (placeBelow 0 (fn.arriving.take registerArgs)).2 fn.locals
      first (by omega)
  have spread := inRegisters.spread.append locals.spread first second
  obtain ⟨above, near⟩ := @toInt_alignUp
    (placeBelow (placeBelow 0 (fn.arriving.take registerArgs)).2 fn.locals).2 8
    (by omega) (by decide) (by change _ + 8 < _; omega)
  have whole := @dvd_alignUp
    (placeBelow (placeBelow 0 (fn.arriving.take registerArgs)).2 fn.locals).2 8
    (by omega) (by decide) (by change _ + 8 < _; omega)
  refine ⟨?_, ?_, fun found => offset_of_args_layoutFrame few found, whole, ?_⟩
  · rw [framed_layoutFrame, List.map_append, frameSize_layoutFrame]
    refine ⟨spread.apart, spread.sized, fun stretch member => ?_⟩
    obtain ⟨lowest, highest⟩ := spread.inside stretch member
    exact ⟨by omega, highest⟩
  · rw [framed_layoutFrame]
    exact List.forall_mem_append.mpr ⟨inRegisters.aligned, locals.aligned⟩
  · rw [frameSize_layoutFrame]
    omega

theorem parted_default : (default : Function).Parted := by
  have framed : (default : Function).framed = [] := rfl
  have args : (default : Function).args = [] := rfl
  exact ⟨framed ▸ .nil, by simp [framed], by simp [args], Int.dvd_zero 8, Int.le_refl 0⟩

end Function

/-- The functions of a program have their variables apart, as long as each leaves them room. -/
theorem TypedProgram.parted_ofParts {entry : String} {classes : Array Class}
    {functions : Array Function}
    (bounded : ∀ fn ∈ functions,
      Function.room (fn.args.take Function.registerArgs) + Function.room fn.locals < 2 ^ 62 - 8)
    (few : ∀ fn ∈ functions, fn.args.length ≤ 2 ^ 27) (id : FnId) :
    ((ofParts entry classes functions).function id).Parted := by
  by_cases inside : id < functions.size
  · have member := Array.getElem_mem inside
    rw [function_ofParts inside]
    exact Function.parted_layoutFrame (bounded functions[id] member) (few functions[id] member)
  · have outside : (ofParts entry classes functions).functions.size ≤ id := by
      simpa [ofParts, markOverloads] using Nat.le_of_not_lt inside
    rw [function, Array.getD_eq_getD_getElem?, Array.getElem?_eq_none outside]
    exact Function.parted_default

end X64Backend.Tree
