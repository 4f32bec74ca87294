import Mathlib.Data.List.Basic
import X64Backend.Generate
import X64Backend.Proofs.Tree.Classes
import X64Backend.Proofs.Tree.Names
import X64Backend.Tree.Resolve

/-!
Virtual calls.  Methods get their place in the method table of their class when they are added to it,
the table lists their symbols in this order, and a call takes the word at the place of its callee.
-/

namespace X64Backend.Tree

namespace Sketch

section Outcomes

variable {ε α β : Type}

theorem bind_ok {first : Except ε α} {next : α → Except ε β} {b : β} :
    first >>= next = .ok b ↔ ∃ a, first = .ok a ∧ next a = .ok b := by
  cases first with
  | error fault => simp [bind, Except.bind]
  | ok a => simp [bind, Except.bind]

theorem forall₂_of_mapM {f : α → Except ε β} {xs : List α} {ys : List β}
    (run : xs.mapM f = .ok ys) : List.Forall₂ (fun x y => f x = .ok y) xs ys := by
  induction xs generalizing ys with
  | nil =>
      cases run
      exact .nil
  | cons x rest inductionHypothesis =>
      rw [List.mapM_cons] at run
      obtain ⟨y, first, run⟩ := bind_ok.mp run
      obtain ⟨others, rest, run⟩ := bind_ok.mp run
      cases run
      exact .cons first (inductionHypothesis rest)

theorem length_of_mapM {f : α → Except ε β} {xs : List α} {ys : List β}
    (run : xs.mapM f = .ok ys) : ys.length = xs.length :=
  (forall₂_of_mapM run).length_eq.symm

/-- Every result comes from somewhere. -/
theorem exists_of_mapM {f : α → Except ε β} {xs : List α} {ys : List β} (run : xs.mapM f = .ok ys)
    {y : β} (member : y ∈ ys) : ∃ x ∈ xs, f x = .ok y := by
  have each := forall₂_of_mapM run
  clear run
  induction each with
  | nil => cases member
  | @cons x z _ _ here _ inductionHypothesis =>
      rcases List.mem_cons.mp member with rfl | member
      · exact ⟨x, List.mem_cons_self, here⟩
      · obtain ⟨source, among, same⟩ := inductionHypothesis member
        exact ⟨source, List.mem_cons_of_mem _ among, same⟩

end Outcomes

/-- The methods of a class with their numbers. -/
def numbered (first : FnId) (c : Class) : List (FnId × Mods) :=
  (c.methods.mapIdx fun index fn => (first + index, fn)).map fun method =>
    (method.1, Mods.ofNames method.2.mods)

theorem dispatched_numbered (first : FnId) (c : Class) :
    (Tree.Class.dispatched (numbered first c)).Sublist (List.range' first c.methods.length) := by
  have ids : (numbered first c).map Prod.fst = List.range' first c.methods.length := by
    refine List.ext_getElem (by simp [numbered]) fun index _ _ => ?_
    simp [numbered]
  rw [← ids]
  exact List.filter_sublist.map Prod.fst

/-- A class is laid out, and the others are numbered behind it. -/
theorem layoutClasses_cons {types : TypeTable} {first : FnId} {c : Class} {rest : List Class}
    {classes : List Tree.Class} (run : layoutClasses types first (c :: rest) = .ok classes) :
    ∃ fields others, classes = (Tree.Class.ofFields c.name fields).withMethods (numbered first c) ::
        others ∧
      layoutClasses types (first + c.methods.length) rest = .ok others := by
  obtain ⟨fields, _, run⟩ := bind_ok.mp run
  obtain ⟨others, behind, run⟩ := bind_ok.mp run
  cases run
  refine ⟨fields, others, ?_, behind⟩
  rw [numbered, Tree.Class.withMethods, List.foldl_map]

/-- The virtual methods of all classes have different numbers, in the order of their classes. -/
theorem virtual_layoutClasses {types : TypeTable} {first : FnId} {sketches : List Class}
    {classes : List Tree.Class} (run : layoutClasses types first sketches = .ok classes) :
    (classes.flatMap Tree.Class.virtual).Sublist
      (List.range' first (sketches.map fun c => c.methods.length).sum) := by
  induction sketches generalizing first classes with
  | nil =>
      cases run
      exact .slnil
  | cons c rest inductionHypothesis =>
      obtain ⟨fields, others, rfl, behind⟩ := layoutClasses_cons run
      rw [List.flatMap_cons, List.map_cons, List.sum_cons, ← List.range'_append_1,
        Tree.Class.virtual_withMethods]
      exact (dispatched_numbered first c).append (inductionHypothesis behind)

/-- The place of a method is where it is in the table of the one class that lists it. -/
theorem vindexOf_eq {classes : List Tree.Class} (distinct : (classes.flatMap Tree.Class.virtual).Nodup)
    {c : Tree.Class} (member : c ∈ classes) {place : Nat} {id : FnId}
    (found : c.virtual[place]? = some id) : vindexOf classes id = place := by
  have listed := List.mem_of_getElem? found
  unfold vindexOf
  induction classes with
  | nil => cases member
  | cons first rest inductionHypothesis =>
      rw [List.flatMap_cons, List.nodup_append'] at distinct
      obtain ⟨here, there, apart⟩ := distinct
      rcases List.mem_cons.mp member with rfl | member
      · obtain ⟨inside, rfl⟩ := List.getElem?_eq_some_iff.mp found
        have first : c.virtual.idxOf? c.virtual[place] = some place := by
          refine List.findIdx?_eq_some_iff_getElem.mpr ⟨inside, by simp, fun before less => ?_⟩
          simpa [here.getElem_inj_iff] using Nat.ne_of_lt less
        rw [List.findSome?_cons, first]
        rfl
      · have other : id ∉ first.virtual :=
          fun both => apart both (List.mem_flatMap.mpr ⟨c, member, listed⟩)
        rw [List.findSome?_cons, List.idxOf?_eq_none_iff.mpr other]
        exact inductionHypothesis there member

theorem length_methods (program : Program) :
    (methods program).length = (program.classes.map fun c => c.methods.length).sum := by
  rw [methods, List.length_flatten]
  congr 1
  exact List.ext_getElem (by simp) fun _ _ _ => by simp

theorem vindex_layoutFrame (fn : Tree.Function) : fn.layoutFrame.vindex = fn.vindex := rfl

/-- What becomes of the classes and the functions of a program: the classes are laid out, each may be
given a constructor, and the methods come behind the other functions with their places. -/
theorem ofSketch_ok {sketch : Program} {program : TypedProgram}
    (resolved : TypedProgram.ofSketch sketch = .ok program) :
    ∃ classes : List Tree.Class,
      layoutClasses (typeTable sketch) sketch.functions.length sketch.classes = .ok classes ∧
      (∀ c ∈ program.classes, ∃ laid ∈ classes, ∃ ctor, c = { laid with ctor }) ∧
      ∀ index, index < (sketch.classes.map fun c => c.methods.length).sum →
        (program.function (sketch.functions.length + index)).vindex =
          vindexOf classes (sketch.functions.length + index) := by
  obtain ⟨classes, laid, resolved⟩ := bind_ok.mp resolved
  obtain ⟨methodSignatures, ofMethods, resolved⟩ := bind_ok.mp resolved
  obtain ⟨functionSignatures, ofFunctions, resolved⟩ := bind_ok.mp resolved
  obtain ⟨completed, withCtors, resolved⟩ := bind_ok.mp resolved
  obtain ⟨methodBodies, ofMethodBodies, resolved⟩ := bind_ok.mp resolved
  obtain ⟨functionBodies, ofFunctionBodies, resolved⟩ := bind_ok.mp resolved
  cases resolved
  refine ⟨classes, laid, fun c member => ?_, fun index inside => ?_⟩
  · obtain ⟨⟨laid, written⟩, among, given⟩ := exists_of_mapM withCtors (List.mem_toArray.mp member)
    refine ⟨laid, (List.of_mem_zip among).1, ?_⟩
    dsimp only at given
    split at given
    · cases given
      exact ⟨_, rfl⟩
    · obtain ⟨ctor, _, given⟩ := bind_ok.mp given
      cases given
      exact ⟨_, rfl⟩
  · have signatures := length_of_mapM ofMethods
    have plain := length_of_mapM ofFunctions
    have bodies := length_of_mapM ofMethodBodies
    have plainBodies := length_of_mapM ofFunctionBodies
    rw [List.length_mapIdx] at bodies plainBodies
    rw [length_methods] at signatures bodies
    refine (congrArg Function.vindex (TypedProgram.function_ofParts ?_)).trans ?_
    · simp only [List.size_toArray, List.length_map, List.length_zip, List.length_append,
        List.length_mapIdx, signatures, plain, bodies, plainBodies, Nat.min_self]
      exact Nat.add_lt_add_left inside _
    · rw [vindex_layoutFrame]
      simp [TypedProgram.marked, List.getElem_append_right, plain]

/-- Classes of a program are laid out well, as long as their fields leave room for offsets that do not
wrap around. -/
theorem laid_layoutClasses {types : TypeTable} {first : FnId} {sketches : List Class}
    {classes : List Tree.Class} (run : layoutClasses types first sketches = .ok classes)
    {c : Tree.Class} (member : c ∈ classes) (bounded : Tree.Class.room c.fields < 2 ^ 62 - 16) :
    c.Laid := by
  induction sketches generalizing first classes with
  | nil =>
      cases run
      cases member
  | cons sketch rest inductionHypothesis =>
      obtain ⟨fields, others, rfl, behind⟩ := layoutClasses_cons run
      rcases List.mem_cons.mp member with rfl | member
      · refine Tree.Class.laid_ofFields _ _ ?_
        rwa [Tree.Class.room_withMethods, Tree.Class.ofFields, Tree.Class.room_layout] at bounded
      · exact inductionHypothesis behind member

end Sketch

namespace TypedProgram

variable {sketch : Sketch.Program} {program : TypedProgram} {c : Class}

/-- The classes of a resolved program are laid out well. -/
theorem laid_of_ofSketch (resolved : ofSketch sketch = .ok program) (member : c ∈ program.classes)
    (bounded : Class.room c.fields < 2 ^ 62 - 16) : c.Laid := by
  obtain ⟨classes, run, same, _⟩ := Sketch.ofSketch_ok resolved
  obtain ⟨laid, among, ctor, rfl⟩ := same c member
  have lays := Sketch.laid_layoutClasses run among bounded
  exact ⟨lays.apart, lays.aligned, lays.behind, lays.inside, lays.whole, lays.least⟩

/-- A method that a class lists knows its place in the table. -/
theorem vindex_of_ofSketch (resolved : ofSketch sketch = .ok program) (member : c ∈ program.classes)
    {place : Nat} {id : FnId} (found : c.virtual[place]? = some id) :
    (program.function id).vindex = place := by
  obtain ⟨classes, run, same, places⟩ := Sketch.ofSketch_ok resolved
  obtain ⟨laid, among, ctor, rfl⟩ := same c member
  have numbers := Sketch.virtual_layoutClasses run
  have listed : id ∈ classes.flatMap Class.virtual :=
    List.mem_flatMap.mpr ⟨laid, among, List.mem_of_getElem? found⟩
  obtain ⟨index, inside, rfl⟩ := List.mem_range'.mp (numbers.subset listed)
  rw [Nat.one_mul, places index inside]
  rw [Nat.one_mul] at found
  exact Sketch.vindexOf_eq (numbers.nodup List.nodup_range') among found

end TypedProgram

end Tree

namespace Lower

open X64Backend.Tree

/-- A virtual call of a method that a class lists reads the word of the table of the class that names
the symbol of the method. -/
theorem transfer_selects {sketch : Sketch.Program} {program : TypedProgram} {c : Tree.Class}
    {id : FnId} (resolved : TypedProgram.ofSketch sketch = .ok program) (member : c ∈ program.classes)
    (listed : id ∈ c.virtual) (few : c.virtual.length < 2 ^ 28) :
    ∃ (place : Nat) (symbols : List String) (disp : Int32),
      .data ⟨c.vtableLabel, ".quad", symbols⟩ ∈ methodTables program ∧
        symbols[place]? = some (program.function id).linkName ∧
        transfer (program.function id) true =
          [.binary .mov (.reg (.fix .r11 .s64)) (.mem (.ofBase (.fix .rdi .s64) 0 .s64)),
            .unary .call (.mem (.ofBase (.fix .r11 .s64) disp .s64))] ∧
        disp.toInt = 8 * place := by
  obtain ⟨place, inside, here⟩ := List.getElem_of_mem listed
  have found : c.virtual[place]? = some id := List.getElem?_eq_some_iff.mpr ⟨inside, here⟩
  refine ⟨place, c.virtual.map fun id => (program.function id).linkName,
    Int32.ofInt (8 * ((program.function id).vindex : Int)), ?_, ?_, rfl, ?_⟩
  · refine List.mem_map.mpr ⟨c, List.mem_filter.mpr ⟨Array.mem_toList_iff.mpr member, ?_⟩, rfl⟩
    simp [Tree.Class.hasVTable, List.ne_nil_of_mem listed]
  · rw [List.getElem?_map, found]
    rfl
  · rw [TypedProgram.vindex_of_ofSketch resolved member found]
    exact Int32.toInt_ofInt_of_le (by omega) (by omega)

end Lower

end X64Backend
