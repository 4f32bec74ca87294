import Mathlib.Data.List.NodupEquivFin
import X64Backend.Proofs.Numeral.Digits
import X64Backend.Tree.TypedProgram

/-!
The symbols of functions.  An owner is set off by a dot and the hash of an overload by a dollar
sign, so names without these signs are read back from the symbol, and two functions share a symbol
only if they are overloads whose parameters have the same hash.
-/

namespace X64Backend

namespace Hash

theorem readDigits_zeros {rest : List Char} (count : Nat) :
    Numeral.readDigits 16 false (List.replicate count '0' ++ rest) 0 =
      Numeral.readDigits 16 false rest 0 := by
  induction count with
  | zero => rfl
  | succ count inductionHypothesis =>
      rw [List.replicate_succ, List.cons_append]
      exact inductionHypothesis

/-- The suffix of an overload shows the whole hash. -/
theorem identity_of_suffix {ids ids' : List Int64} (same : suffix ids = suffix ids') :
    identity ids = identity ids' := by
  have writes : Numeral.Writes 16 id := by
    unfold Numeral.Writes
    decide
  have read : ∀ ids, Numeral.readDigits 16 false
      ((Text.padZeros 8 (Text.hexLower (identity ids).toNat)).toList) 0 =
        .ok (identity ids).toNat := by
    intro ids
    have bound := (identity ids).toNat_lt
    rw [Text.padZeros, String.toList_append, Text.repeated, String.toList_ofList,
      readDigits_zeros, Text.hexLower, String.toList_ofList]
    have digits : Numeral.readDigits 16 false ((Nat.toDigits 16 (identity ids).toNat).map id) 0 =
        .ok (identity ids).toNat :=
      Numeral.readDigits_toDigits writes (by decide) (Nat.lt_trans bound (by decide))
    rwa [List.map_id] at digits
  have spelled := congrArg String.toList same
  simp only [suffix, String.toList_append] at spelled
  have first := read ids
  rw [List.append_cancel_left spelled, read ids'] at first
  exact UInt32.toNat_inj.mp (Except.ok.inj first).symm

end Hash

namespace Tree

/-- A name that a program may give: neither empty nor with a sign that symbols are put together
with. -/
structure IsName (name : String) : Prop where
  inhabited : name.toList ≠ []
  dotless : '.' ∉ name.toList
  plain : '$' ∉ name.toList

/-- What is in front of the first separator, and what is behind it. -/
theorem append_separator_inj {separator : Char} {front front' back back' : List Char}
    (absent : separator ∉ front) (absent' : separator ∉ front')
    (same : front ++ separator :: back = front' ++ separator :: back') :
    front = front' ∧ back = back' := by
  induction front generalizing front' with
  | nil =>
      cases front' with
      | nil => exact ⟨rfl, (List.cons.inj same).2⟩
      | cons c rest =>
          rw [(List.cons.inj same).1] at absent'
          exact absurd List.mem_cons_self absent'
  | cons c rest inductionHypothesis =>
      cases front' with
      | nil =>
          rw [← (List.cons.inj same).1] at absent
          exact absurd List.mem_cons_self absent
      | cons c' rest' =>
          obtain ⟨first, others⟩ := List.cons.inj same
          obtain ⟨rfl, rfl⟩ := inductionHypothesis
            (fun member => absent (List.mem_cons_of_mem _ member))
            (fun member => absent' (List.mem_cons_of_mem _ member)) others
          exact ⟨by rw [first], rfl⟩

namespace Function

variable {fn other : Function}

/-- A function whose names may be given.  It need not have an owner. -/
structure Named (fn : Function) : Prop where
  name : IsName fn.name
  owner : fn.owner = "" ∨ IsName fn.owner

theorem toList_qualifiedName_owned (owned : fn.owner ≠ "") :
    fn.qualifiedName.toList = fn.owner.toList ++ '.' :: fn.name.toList := by
  rw [qualifiedName, if_neg owned, String.toList_append, String.toList_append, List.append_assoc]
  rfl

theorem toList_qualifiedName_free (free : fn.owner = "") :
    fn.qualifiedName.toList = fn.name.toList := by
  rw [qualifiedName, if_pos free]

theorem Named.not_mem_qualifiedName (named : fn.Named) : '$' ∉ fn.qualifiedName.toList := by
  rcases named.owner with free | owned
  · rw [toList_qualifiedName_free free]
    exact named.name.plain
  · by_cases free : fn.owner = ""
    · rw [toList_qualifiedName_free free]
      exact named.name.plain
    · rw [toList_qualifiedName_owned free]
      simp [owned.plain, named.name.plain]

/-- The owner and the name are read back from the qualified name. -/
theorem Named.qualifiedName_inj (named : fn.Named) (named' : other.Named)
    (same : fn.qualifiedName = other.qualifiedName) :
    fn.owner = other.owner ∧ fn.name = other.name := by
  have spelled := congrArg String.toList same
  have dotless : ∀ {fn : Function}, fn.Named → fn.owner ≠ "" → '.' ∉ fn.owner.toList :=
    fun named owned => (named.owner.resolve_left owned).dotless
  by_cases free : fn.owner = ""
  · by_cases free' : other.owner = ""
    · rw [toList_qualifiedName_free free, toList_qualifiedName_free free'] at spelled
      exact ⟨free.trans free'.symm, String.toList_inj.mp spelled⟩
    · rw [toList_qualifiedName_free free, toList_qualifiedName_owned free'] at spelled
      exact absurd (spelled ▸ List.mem_append_right _ List.mem_cons_self) named.name.dotless
  · by_cases free' : other.owner = ""
    · rw [toList_qualifiedName_owned free, toList_qualifiedName_free free'] at spelled
      exact absurd (spelled ▸ List.mem_append_right _ List.mem_cons_self) named'.name.dotless
    · rw [toList_qualifiedName_owned free, toList_qualifiedName_owned free'] at spelled
      obtain ⟨owner, name⟩ :=
        append_separator_inj (dotless named free) (dotless named' free') spelled
      exact ⟨String.toList_inj.mp owner, String.toList_inj.mp name⟩

/-- What stands behind the qualified name in the symbol. -/
def linkSuffix (fn : Function) : String :=
  if fn.overloaded then Hash.suffix (fn.params.map Variable.identity) else ""

theorem linkName_eq (fn : Function) : fn.linkName = fn.qualifiedName ++ fn.linkSuffix := by
  unfold linkName linkSuffix
  split
  · rfl
  · rw [String.append_empty]

theorem toList_linkSuffix (fn : Function) :
    fn.linkSuffix.toList = [] ∨ ∃ digits, fn.linkSuffix.toList = '$' :: digits := by
  unfold linkSuffix
  split
  · right
    rw [Hash.suffix, String.toList_append]
    exact ⟨_, rfl⟩
  · exact .inl rfl

/-- The parts of a symbol. -/
theorem Named.linkName_inj (named : fn.Named) (named' : other.Named)
    (same : fn.linkName = other.linkName) :
    fn.owner = other.owner ∧ fn.name = other.name ∧ fn.linkSuffix = other.linkSuffix := by
  have spelled := congrArg String.toList same
  rw [linkName_eq, linkName_eq, String.toList_append, String.toList_append] at spelled
  have plain := named.not_mem_qualifiedName
  have plain' := named'.not_mem_qualifiedName
  have parts : fn.qualifiedName = other.qualifiedName ∧ fn.linkSuffix = other.linkSuffix := by
    rcases fn.toList_linkSuffix with none | ⟨digits, some⟩ <;>
      rcases other.toList_linkSuffix with none' | ⟨digits', some'⟩
    · rw [none, none', List.append_nil, List.append_nil] at spelled
      exact ⟨String.toList_inj.mp spelled, String.toList_inj.mp (none.trans none'.symm)⟩
    · rw [none, some', List.append_nil] at spelled
      exact absurd (spelled ▸ List.mem_append_right _ List.mem_cons_self) plain
    · rw [some, none', List.append_nil] at spelled
      exact absurd (spelled ▸ List.mem_append_right _ List.mem_cons_self) plain'
    · rw [some, some'] at spelled
      obtain ⟨front, back⟩ := append_separator_inj plain plain' spelled
      exact ⟨String.toList_inj.mp front, String.toList_inj.mp (by rw [some, some', back])⟩
  obtain ⟨qualified, suffix⟩ := parts
  obtain ⟨owner, name⟩ := named.qualifiedName_inj named' qualified
  exact ⟨owner, name, suffix⟩

/-- Laying out a frame changes no identity. -/
theorem map_identity_placeBelow (depth : Int64) (vars : List Variable) :
    (placeBelow depth vars).1.map Variable.identity = vars.map Variable.identity := by
  induction vars generalizing depth with
  | nil => rfl
  | cons v rest inductionHypothesis =>
      rw [placeBelow, List.map_cons, List.map_cons, inductionHypothesis]
      rfl

theorem map_identity_placeAbove (count : Nat) (vars : List Variable) :
    (placeAbove count vars).map Variable.identity = vars.map Variable.identity := by
  induction vars generalizing count with
  | nil => rfl
  | cons v rest inductionHypothesis =>
      rw [placeAbove, List.map_cons, List.map_cons, inductionHypothesis]
      rfl

theorem map_identity_layoutFrame (fn : Function) :
    fn.layoutFrame.params.map Variable.identity = fn.params.map Variable.identity := by
  have marked : (fn.args.map fun v => { v with param := true }).map Variable.identity =
      fn.args.map Variable.identity := by
    rw [List.map_map]
    exact List.map_congr_left fun v _ => rfl
  have placed : ∀ depth count, ((placeBelow depth
        ((fn.args.map fun v => { v with param := true }).take registerArgs)).1 ++
      placeAbove count ((fn.args.map fun v => { v with param := true }).drop registerArgs)).map
        Variable.identity = fn.args.map Variable.identity := by
    intro depth count
    rw [List.map_append, map_identity_placeBelow, map_identity_placeAbove, ← List.map_append,
      List.take_append_drop, marked]
  have spelled := placed 0 0
  unfold layoutFrame
  dsimp only
  cases receiver : fn.receiver with
  | none =>
      rw [args, receiver] at spelled
      simpa [args, receiver] using spelled
  | some this =>
      rw [args, receiver] at spelled
      simp only [args, receiver]
      split
      · rename_i first rest same
        rw [same] at spelled
        exact (List.cons.inj spelled).2
      · rename_i none
        obtain ⟨first, rest, same, _⟩ := List.map_eq_cons_iff.mp spelled
        exact absurd same (none this first rest rfl)

@[simp]
theorem linkName_layoutFrame (fn : Function) : fn.layoutFrame.linkName = fn.linkName := by
  have params := map_identity_layoutFrame fn
  unfold linkName
  rw [params]
  rfl

/-- Two functions that symbols tell apart: overloads have parameters with different hashes. -/
def Apart (fn other : Function) : Prop :=
  fn.owner = other.owner → fn.name = other.name →
    Hash.identity (fn.params.map Variable.identity) ≠
      Hash.identity (other.params.map Variable.identity)

end Function

namespace TypedProgram

variable {entry : String} {classes : Array Class} {functions : Array Function} {id other : FnId}

/-- What makes functions overloads of each other. -/
def overloadKey (fn : Function) : String := fn.owner ++ "." ++ fn.name

/-- A function with its mark as an overload. -/
def marked (functions : Array Function) (fn : Function) : Function :=
  { fn with overloaded := 1 < (functions.toList.map overloadKey).count (overloadKey fn) }

theorem named_marked {fn : Function} (named : fn.Named) : (marked functions fn).Named :=
  ⟨named.name, named.owner⟩

/-- A function of a program that was put together. -/
theorem function_ofParts (inside : id < functions.size) :
    (ofParts entry classes functions).function id =
      (marked functions functions[id]).layoutFrame := by
  simp only [ofParts, markOverloads, function, Array.getD_eq_getD_getElem?, Array.getElem?_map,
    Array.getElem?_eq_getElem inside, Option.map_some, Option.getD_some]
  rfl

theorem linkName_function_ofParts (inside : id < functions.size) :
    ((ofParts entry classes functions).function id).linkName =
      (marked functions functions[id]).linkName := by
  rw [function_ofParts inside, Function.linkName_layoutFrame]

/-- Two functions in different places have different symbols. -/
theorem linkName_ne_of_lt (named : ∀ fn ∈ functions, fn.Named)
    (apart : functions.toList.Pairwise Function.Apart) (before : id < other)
    (inside : other < functions.size) :
    ((ofParts entry classes functions).function id).linkName ≠
      ((ofParts entry classes functions).function other).linkName := by
  intro same
  have inside' : id < functions.size := Nat.lt_trans before inside
  have first := named functions[id] (Array.getElem_mem inside')
  have second := named functions[other] (Array.getElem_mem inside)
  rw [linkName_function_ofParts inside, linkName_function_ofParts inside'] at same
  obtain ⟨owner, name, suffix⟩ := (named_marked first).linkName_inj (named_marked second) same
  -- the two share their key, so that both are marked and their symbols show their hashes
  have key : overloadKey functions[id] = overloadKey functions[other] :=
    congrArg₂ (fun owner name => owner ++ "." ++ name) owner name
  have twice : 1 < (functions.toList.map overloadKey).count (overloadKey functions[id]) := by
    refine List.duplicate_iff_two_le_count.mp (List.duplicate_iff_exists_distinct_get.mpr ?_)
    refine ⟨⟨id, by simpa using inside'⟩, ⟨other, by simpa using inside⟩, before, ?_, ?_⟩
    · simp
    · simpa using key
  have twice' := key ▸ twice
  simp only [Function.linkSuffix, marked, twice, twice', decide_true, if_true] at suffix
  have different := List.pairwise_iff_getElem.mp apart id other (by simpa using inside')
    (by simpa using inside) before
  exact different owner name (Hash.identity_of_suffix suffix)

/-- The functions of a program have different symbols. -/
theorem linkName_ofParts_inj (named : ∀ fn ∈ functions, fn.Named)
    (apart : functions.toList.Pairwise Function.Apart) (inside : id < functions.size)
    (inside' : other < functions.size)
    (same : ((ofParts entry classes functions).function id).linkName =
      ((ofParts entry classes functions).function other).linkName) : id = other := by
  rcases Nat.lt_trichotomy id other with before | equal | behind
  · exact absurd same (linkName_ne_of_lt named apart before inside')
  · exact equal
  · exact absurd same.symm (linkName_ne_of_lt named apart behind inside)

end TypedProgram

end Tree

end X64Backend
