import X64Backend.Proofs.Tree.Layout
import X64Backend.Tree.Class

/-!
The layout of the instances of a class, whatever methods it is given.  As long as offsets do not wrap
around, fields do not overlap, each is aligned to its own size, and none is where an instance has the
address of its method table.
-/

namespace X64Backend.Tree

theorem toInt_max (first second : Int64) :
    (max first second).toInt = max first.toInt second.toInt := by
  change (if first ≤ second then second else first).toInt = _
  split
  · rename_i below
    exact (Int.max_eq_right (Int64.le_iff_toInt_le.mp below)).symm
  · rename_i above
    have above : ¬ first.toInt ≤ second.toInt := fun below => above (Int64.le_iff_toInt_le.mpr below)
    exact (Int.max_eq_left (by omega)).symm

theorem TypeRef.storage_pos (type : TypeRef) : 0 < type.storage.toInt := by
  have least : type.storage.toInt = max type.size.toInt 1 := toInt_max type.size 1
  omega

namespace Class

/-- The room that fields take at most: each is moved up by less than its own size. -/
def room : List Field → Int
  | [] => 0
  | f :: rest => 2 * f.type.storage.toInt + room rest

/-- Fields from an offset on, each behind the one before and at a multiple of its own size.  The last
one ends at another offset. -/
def Ascends : (offset final : Int) → List Field → Prop
  | offset, final, [] => offset = final
  | offset, final, f :: rest =>
      offset ≤ f.offset.toInt ∧ f.type.storage.toInt ∣ f.offset.toInt ∧
        Ascends (f.offset.toInt + f.type.storage.toInt) final rest

theorem room_nonneg (fields : List Field) : 0 ≤ room fields := by
  induction fields with
  | nil => exact Int.le_refl 0
  | cons f rest inductionHypothesis =>
      have positive := f.type.storage_pos
      rw [room]
      omega

theorem room_placeFields (offset : Int64) (fields : List Field) :
    room (placeFields offset fields).1 = room fields := by
  induction fields generalizing offset with
  | nil => rfl
  | cons f rest inductionHypothesis =>
      rw [placeFields, room, room, inductionHypothesis]

theorem ascends_placeFields {offset : Int64} {fields : List Field} (least : 0 ≤ offset.toInt)
    (bounded : offset.toInt + room fields < 2 ^ 62) :
    Ascends offset.toInt (placeFields offset fields).2.toInt (placeFields offset fields).1 ∧
      (placeFields offset fields).2.toInt ≤ offset.toInt + room fields := by
  induction fields generalizing offset with
  | nil => exact ⟨rfl, by simp [placeFields, room]⟩
  | cons f rest inductionHypothesis =>
      have positive := f.type.storage_pos
      have others := room_nonneg rest
      rw [room] at bounded
      obtain ⟨above, near⟩ := toInt_alignUp least positive (by omega)
      have aligned := dvd_alignUp least positive (by omega)
      have sum : (alignUp offset f.type.storage + f.type.storage).toInt =
          (alignUp offset f.type.storage).toInt + f.type.storage.toInt := by
        rw [Int64.toInt_add]
        exact Int.bmod_eq_of_le (by omega) (by omega)
      obtain ⟨ascends, final⟩ :=
        @inductionHypothesis (alignUp offset f.type.storage + f.type.storage) (by omega) (by omega)
      rw [sum] at ascends final
      rw [room]
      refine ⟨⟨above, aligned, ascends⟩, ?_⟩
      change (placeFields (alignUp offset f.type.storage + f.type.storage) rest).2.toInt ≤ _
      omega

namespace Ascends

variable {offset final : Int} {fields : List Field}

theorem inside (ascends : Ascends offset final fields) :
    offset ≤ final ∧ ∀ f ∈ fields,
      offset ≤ f.offset.toInt ∧ f.offset.toInt + f.type.storage.toInt ≤ final ∧
        f.type.storage.toInt ∣ f.offset.toInt := by
  induction fields generalizing offset with
  | nil => exact ⟨Int.le_of_eq ascends, by simp⟩
  | cons f rest inductionHypothesis =>
      obtain ⟨behind, aligned, others⟩ := ascends
      have positive := f.type.storage_pos
      obtain ⟨last, each⟩ := inductionHypothesis others
      refine ⟨by omega, List.forall_mem_cons.mpr ⟨⟨behind, last, aligned⟩, fun g member => ?_⟩⟩
      obtain ⟨start, stop, aligned⟩ := each g member
      exact ⟨by omega, stop, aligned⟩

theorem apart (ascends : Ascends offset final fields) :
    fields.Pairwise fun f g => f.offset.toInt + f.type.storage.toInt ≤ g.offset.toInt := by
  induction fields generalizing offset with
  | nil => exact .nil
  | cons f rest inductionHypothesis =>
      obtain ⟨_, _, others⟩ := ascends
      exact .cons (fun g member => (others.inside.2 g member).1) (inductionHypothesis others)

end Ascends

/-- How the instances of a class are laid out. -/
structure Laid (c : Class) : Prop where
  /-- Fields do not overlap. -/
  apart : c.fields.Pairwise fun f g => f.offset.toInt + f.type.storage.toInt ≤ g.offset.toInt
  /-- Each field is aligned to its own size. -/
  aligned : ∀ f ∈ c.fields, f.type.storage.toInt ∣ f.offset.toInt
  /-- No field is where the address of the method table is. -/
  behind : c.hasVTable = true → ∀ f ∈ c.fields, 8 ≤ f.offset.toInt
  inside : ∀ f ∈ c.fields,
    0 ≤ f.offset.toInt ∧ f.offset.toInt + f.type.storage.toInt ≤ c.size.toInt
  /-- Instances are made of words. -/
  whole : 8 ∣ c.size.toInt
  least : 8 ≤ c.size.toInt

theorem room_layout (c : Class) : room c.layout.fields = room c.fields :=
  room_placeFields _ _

theorem laid_layout {c : Class} (bounded : room c.fields < 2 ^ 62 - 16) : c.layout.Laid := by
  have start : (if c.hasVTable then 8 else 0 : Int64).toInt = if c.hasVTable then 8 else 0 := by
    split <;> rfl
  have small : (0 : Int) ≤ (if c.hasVTable then 8 else 0) ∧
      (if c.hasVTable then 8 else 0 : Int) ≤ 8 := by
    split <;> omega
  obtain ⟨ascends, final⟩ := @ascends_placeFields (if c.hasVTable then 8 else 0) c.fields
    (by rw [start]; omega) (by rw [start]; omega)
  rw [start] at ascends final
  obtain ⟨last, each⟩ := ascends.inside
  have word : (8 : Int64).toInt = 8 := rfl
  obtain ⟨above, near⟩ := @toInt_alignUp
    (placeFields (if c.hasVTable then 8 else 0) c.fields).2 8 (by omega) (by decide) (by omega)
  have aligned := @dvd_alignUp
    (placeFields (if c.hasVTable then 8 else 0) c.fields).2 8 (by omega) (by decide) (by omega)
  have size : c.layout.size.toInt =
      max (alignUp (placeFields (if c.hasVTable then 8 else 0) c.fields).2 8).toInt 8 :=
    toInt_max _ _
  rw [word] at aligned
  refine ⟨ascends.apart, fun f member => (each f member).2.2, fun table f member => ?_,
    fun f member => ?_, ?_, ?_⟩
  · have table : c.hasVTable = true := table
    have lowest := (each f member).1
    rwa [if_pos table] at lowest
  · obtain ⟨lowest, highest, _⟩ := each f member
    rw [size]
    omega
  · rw [size]
    omega
  · rw [size]
    omega

/-- A class with methods added one after the other. -/
def withMethods (c : Class) (methods : List (FnId × Mods)) : Class :=
  methods.foldl (fun c method => c.addMethod method.1 method.2) c

/-- The methods that are called through the table of their class. -/
def dispatched (methods : List (FnId × Mods)) : List FnId :=
  (methods.filter fun method => method.2.isVirtual && !method.2.isStatic).map Prod.fst

theorem virtual_addMethod (c : Class) (fn : FnId) (mods : Mods) :
    (c.addMethod fn mods).virtual = c.virtual ++ dispatched [(fn, mods)] := by
  unfold addMethod dispatched
  split
  · rename_i through
    simp [layout, through]
  · rename_i through
    simp [through]

theorem room_addMethod (c : Class) (fn : FnId) (mods : Mods) :
    room (c.addMethod fn mods).fields = room c.fields := by
  unfold addMethod
  dsimp only
  split
  · exact room_layout _
  · rfl

/-- A method leaves the layout as it is, or it is redone. -/
theorem Laid.addMethod {c : Class} (laid : c.Laid) (bounded : room c.fields < 2 ^ 62 - 16)
    (fn : FnId) (mods : Mods) : (c.addMethod fn mods).Laid := by
  unfold Class.addMethod
  dsimp only
  split
  · exact laid_layout bounded
  · exact ⟨laid.apart, laid.aligned, laid.behind, laid.inside, laid.whole, laid.least⟩

/-- Every virtual method takes the next place in the method table. -/
theorem virtual_withMethods (c : Class) (methods : List (FnId × Mods)) :
    (c.withMethods methods).virtual = c.virtual ++ dispatched methods := by
  induction methods generalizing c with
  | nil => exact (List.append_nil _).symm
  | cons method rest inductionHypothesis =>
      rw [withMethods, List.foldl_cons, ← withMethods, inductionHypothesis, virtual_addMethod,
        List.append_assoc]
      congr 1
      unfold dispatched
      rw [← List.map_append, ← List.filter_append]
      rfl

theorem Laid.withMethods {c : Class} (laid : c.Laid) (bounded : room c.fields < 2 ^ 62 - 16)
    (methods : List (FnId × Mods)) : (c.withMethods methods).Laid := by
  induction methods generalizing c with
  | nil => exact laid
  | cons method rest inductionHypothesis =>
      exact inductionHypothesis (laid.addMethod bounded _ _) (by rwa [room_addMethod])

theorem room_withMethods (c : Class) (methods : List (FnId × Mods)) :
    room (c.withMethods methods).fields = room c.fields := by
  induction methods generalizing c with
  | nil => rfl
  | cons method rest inductionHypothesis =>
      rw [withMethods, List.foldl_cons, ← withMethods, inductionHypothesis, room_addMethod]

/-- A class is laid out well, with whatever fields it is made and whatever methods it is given, as
long as its fields leave room for offsets that do not wrap around. -/
theorem laid_ofFields (name : String) {fields : List Field} (methods : List (FnId × Mods))
    (bounded : room fields < 2 ^ 62 - 16) : ((ofFields name fields).withMethods methods).Laid := by
  refine Laid.withMethods (laid_layout bounded) ?_ methods
  rw [room_layout]
  exact bounded

/-- A byte and a word behind the address of a method table. -/
example : ((ofFields "C" [⟨"b", .byte, 0⟩, ⟨"w", .int, 0⟩]).withMethods
      [(0, { Mods.none with isVirtual := true })]).fields.map Field.offset = [8, 16] := by
  decide

/-- Fields that outgrow a word are where the address of the method table is. -/
example : ((ofFields "C" [⟨"a", { TypeRef.uint with size := 0x4000000000000000 }, 0⟩,
      ⟨"b", .byte, 0⟩]).withMethods [(0, { Mods.none with isVirtual := true })]).fields.map Field.offset =
        [0x4000000000000000, -0x8000000000000000] := by
  decide

end Class

end X64Backend.Tree
