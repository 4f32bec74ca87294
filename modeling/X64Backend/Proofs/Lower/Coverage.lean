import X64Backend.Proofs.Lower.Arguments
import X64Backend.Proofs.Lower.LiteralStores
import X64Backend.Proofs.Tree.Stretches

/-!
How far memory operands reach.  The width of an operand and the room for its value both come from
the size of a type, but where the machine has no such width the operand has the full one, while the
room is the size as it is.  For one, two and four bytes and from eight bytes on the room is enough:
the cell of a variable or a field covers nothing outside of its range, and a store to one variable
leaves the others as they are.  At any other size the cell reaches into what lies behind.
-/

namespace X64Backend

open X64Backend.Tree

/-- The width of a number of bytes is that number, or eight bytes where the machine has no such
width. -/
theorem Size.bytes_ofBytes (count : Int) : ((ofBytes count).bytes : Int) =
    if count ∈ [1, 2, 4] then count else 8 := by
  by_cases own : count ∈ [1, 2, 4]
  · rw [if_pos own]
    revert count
    decide
  · rw [if_neg own]
    simp only [List.mem_cons, List.not_mem_nil, or_false, not_or] at own
    obtain ⟨one, two, four⟩ := own
    unfold ofBytes ofBytes?
    split
    · contradiction
    · contradiction
    · contradiction
    · rfl
    · rfl

namespace Tree

/-- A type whose operands cover no more than the room for its values. -/
def TypeRef.Roomy (type : TypeRef) : Prop :=
  type.kind = .void ∨ type.size.toInt ∈ [1, 2, 4] ∨ 8 ≤ type.size.toInt

instance (type : TypeRef) : Decidable type.Roomy :=
  inferInstanceAs (Decidable (_ ∨ _))

/-- The width of an operand is within the room for the value exactly for these types. -/
theorem TypeRef.operandSize_le_storage_iff (type : TypeRef) :
    (type.operandSize.bytes : Int) ≤ type.storage.toInt ↔ type.Roomy := by
  have room : type.storage.toInt = max type.size.toInt 1 := toInt_max type.size 1
  rw [room, operandSize, Roomy]
  by_cases nothing : type.kind = .void
  · simp only [nothing, if_true, true_or, iff_true]
    exact Int.le_trans (by decide) (Int.le_max_right _ 1)
  · simp only [nothing, if_false, false_or, Size.bytes_ofBytes]
    by_cases own : type.size.toInt ∈ [1, 2, 4]
    · rw [if_pos own]
      exact iff_of_true (Int.le_max_left _ _) (.inl own)
    · rw [if_neg own]
      constructor
      · intro within
        exact .inr (by omega)
      · intro large
        have large := large.resolve_left own
        omega

-- a value of three bytes is accessed as eight
example : ¬ TypeRef.Roomy { name := "triple", id := 100, kind := .uint, size := 3 } := by
  decide

theorem TypeRef.roomy_of_predefined : ∀ type ∈ predefined, type.Roomy := by
  decide

theorem Class.roomy_reference (name : String) (index : ClassId) : (reference name index).Roomy :=
  .inr (.inr (Int.le_refl 8))

/-- What a variable holds is within its room: an address, or a value of such a type. -/
def Variable.Roomy (v : Variable) : Prop :=
  v.byRef = true ∨ v.type.Roomy

theorem Variable.operandSize_le_storage_iff (v : Variable) :
    (v.operandSize.bytes : Int) ≤ v.storage.toInt ↔ v.Roomy := by
  unfold operandSize storage Roomy
  cases v.byRef with
  | true => exact iff_of_true (Int.le_refl 8) (.inl rfl)
  | false => simpa using v.type.operandSize_le_storage_iff

theorem Spread.apart_of_ne {upper lower : Int} {stretches : List Stretch} {stretch other : Stretch}
    {first second : Nat} (spread : Spread upper lower stretches)
    (found : stretches[first]? = some stretch) (found' : stretches[second]? = some other)
    (different : first ≠ second) : stretch.Apart other := by
  obtain ⟨inside, rfl⟩ := List.getElem?_eq_some_iff.mp found
  obtain ⟨inside', rfl⟩ := List.getElem?_eq_some_iff.mp found'
  have apart := List.pairwise_iff_getElem.mp spread.apart
  rcases Nat.lt_or_gt_of_ne different with before | behind
  · exact apart first second inside inside' before
  · exact (apart second first inside' inside behind).symm

/-- The bytes of a field, seen from the start of an instance. -/
def Field.stretch (member : Field) : Stretch := ⟨member.offset, member.type.storage⟩

/-- A range of bytes that displacements reach all of. -/
structure Stretch.Near (stretch : Stretch) : Prop where
  displaced : stretch.offset.toInt32.toInt = stretch.offset.toInt
  reaches : stretch.offset.toInt + stretch.bytes.toInt < 2 ^ 31

theorem Class.Laid.near {c : Class} {member : Field} (laid : c.Laid) (among : member ∈ c.fields)
    (reaches : c.size.toInt < 2 ^ 31) : member.stretch.Near := by
  obtain ⟨first, last⟩ := laid.inside member among
  have positive := member.type.storage_pos
  refine ⟨?_, Int.lt_of_le_of_lt last reaches⟩
  change member.offset.toInt32.toInt = member.offset.toInt
  rw [Int64.toInt_toInt32]
  exact Int.bmod_eq_of_le (by omega) (by omega)

theorem Spread.near {lower : Int} {stretches : List Stretch} {stretch : Stretch}
    (spread : Spread 0 lower stretches) (reaches : lower ≤ 2 ^ 31)
    (among : stretch ∈ stretches) : stretch.Near :=
  ⟨spread.displaced reaches among, Int.lt_of_le_of_lt (spread.inside stretch among).2 (by decide)⟩

end Tree

namespace Pointer

/-- Some of the bytes of a cell. -/
structure PartOf (part whole : Pointer) : Prop where
  base : part.base = whole.base
  inner : ∃ skipped : Nat, part.disp = whole.disp + .ofNat skipped ∧
    skipped + part.size.bytes ≤ whole.size.bytes

/-- A cell that covers no byte outside of a range behind a register. -/
structure Within (cell : Pointer) (base : Register) (stretch : Stretch) : Prop where
  base : cell.base = base
  first : stretch.offset.toInt ≤ cell.disp.toInt
  last : cell.disp.toInt + cell.size.bytes ≤ stretch.offset.toInt + stretch.bytes.toInt

variable {whole cell : Pointer} {size : Size} {base : Register} {stretch : Stretch}

namespace PartOf

theorem resize (narrow : size.bytes ≤ whole.size.bytes) : (whole.resize size).PartOf whole :=
  ⟨rfl, 0, (Int32.add_zero _).symm, by simpa [Pointer.resize] using narrow⟩

theorem refl (whole : Pointer) : whole.PartOf whole :=
  ⟨rfl, 0, (Int32.add_zero _).symm, Nat.le_of_eq (Nat.zero_add _)⟩

theorem trans {middle : Pointer} (inner : cell.PartOf middle) (outer : middle.PartOf whole) :
    cell.PartOf whole := by
  obtain ⟨same, skipped, further, last⟩ := inner
  obtain ⟨same', skipped', further', last'⟩ := outer
  refine ⟨same.trans same', skipped' + skipped, ?_, by omega⟩
  rw [further, further', Int32.ofNat_add, Int32.add_assoc]

theorem upper (wide : whole.size = .s64) : ((whole.resize .s32).offset 4).PartOf whole :=
  ⟨rfl, 4, rfl, by rw [wide]; exact Nat.le_refl 8⟩

theorem lower (wide : whole.size = .s64) :
    (((whole.resize .s32).offset 4).offset (-4)).PartOf whole := by
  have back : ((whole.resize .s32).offset 4).offset (-4) = whole.resize .s32 := by
    have same : whole.disp + 4 + -4 = whole.disp := by
      rw [Int32.add_assoc]
      exact Int32.add_zero _
    change { whole.resize .s32 with disp := whole.disp + 4 + -4 } = whole.resize .s32
    rw [same]
    rfl
  have narrow : Size.s32.bytes ≤ Size.s64.bytes := by decide
  rw [back]
  exact resize (wide ▸ narrow)

end PartOf

/-- A part of a cell is in the same range, as long as displacements do not wrap around there. -/
theorem Within.part (within : whole.Within base stretch) (part : cell.PartOf whole)
    (reaches : whole.disp.toInt + whole.size.bytes < 2 ^ 31) : cell.Within base stretch := by
  obtain ⟨same, skipped, further, inner⟩ := part
  have least := whole.disp.le_toInt
  have first := within.first
  have last := within.last
  have width : whole.size.bytes ≤ 8 := Lower.bytes_le_word _
  have distance : cell.disp.toInt = whole.disp.toInt + skipped := by
    have number : (Int32.ofNat skipped).toInt = skipped := Int32.toInt_ofNat_of_lt (by omega)
    rw [further, Int32.toInt_add, number]
    exact Int.bmod_eq_of_le (by omega) (by omega)
  refine ⟨same.trans within.base, ?_, ?_⟩
  · omega
  · omega

/-- The cell of a range of a frame or an instance is in it exactly if its width leaves it to be. -/
theorem within_ofBase_iff (displaced : stretch.offset.toInt32.toInt = stretch.offset.toInt) :
    (ofBase base stretch.offset.toInt32 size).Within (base.resize .s64) stretch ↔
      (size.bytes : Int) ≤ stretch.bytes.toInt := by
  constructor
  · intro within
    have last := within.last
    change stretch.offset.toInt32.toInt + size.bytes ≤ _ at last
    omega
  · intro narrow
    refine ⟨rfl, Int.le_of_eq displaced.symm, ?_⟩
    change stretch.offset.toInt32.toInt + size.bytes ≤ _
    omega

end Pointer

namespace Lower

section Frames

open Machine

variable {fn : Function} {v w : Variable}

/-- The cell of a variable covers no other bytes than its own exactly if its type leaves room. -/
theorem frameCell_within_iff (near : v.stretch.Near) :
    (frameCell v.offset v.operandSize).Within rbp v.stretch ↔ v.Roomy :=
  (Pointer.within_ofBase_iff near.displaced).trans v.operandSize_le_storage_iff

/-- The arguments that arrive in registers are stored in their own bytes. -/
theorem spillArguments_within (parted : fn.Parted) (reaches : fn.frameSize.toInt ≤ 2 ^ 31)
    (roomy : ∀ v ∈ fn.args.take Function.registerArgs, v.Roomy) {instr : Instr}
    (member : instr ∈ spillArguments fn) :
    ∃ v ∈ fn.args.take Function.registerArgs, ∃ cell src,
      instr = .binary .mov (.mem cell) (.reg src) ∧ cell.Within rbp v.stretch := by
  obtain ⟨⟨v, phys⟩, paired, rfl⟩ := List.mem_map.mp member
  have arrives : v ∈ fn.args.take Function.registerArgs := by
    obtain ⟨index, found⟩ := List.mem_iff_getElem?.mp paired
    obtain ⟨argument, register⟩ := List.getElem?_zip_eq_some.mp found
    have few : index < Function.registerArgs := (List.getElem?_eq_some_iff.mp register).1
    rw [← List.getElem?_take_of_lt few] at argument
    exact List.mem_of_getElem? argument
  have framed : v ∈ fn.framed := List.mem_append_left _ arrives
  have near := parted.spread.near reaches (List.mem_map_of_mem framed)
  exact ⟨v, arrives, _, _, rfl, (frameCell_within_iff near).mpr (roomy v arrives)⟩

theorem toNat_wordOfInt (value : Int) :
    ((Literal.wordOfInt value).toNat : Int) = value % 2 ^ 64 := by
  have nonnegative : 0 ≤ value % 2 ^ 64 := Int.emod_nonneg _ (by decide)
  have bits : (Literal.wordOfInt value).toNat = (value % 2 ^ 64).toNat :=
    BitVec.toNat_ofInt value
  rw [bits, Int.toNat_of_nonneg nonnegative]

/-- Where two cells do not overlap, no byte is in both. -/
theorem address_apart {view : View} {base : Phys} {first second : Int32} {count more : Nat}
    (few : count ≤ 8) (few' : more ≤ 8)
    (apart : first.toInt + count ≤ second.toInt ∨ second.toInt + more ≤ first.toInt)
    {byte : UInt64} (inside : (byte - Spot.address view base second).toNat < more) :
    count ≤ (byte - Spot.address view base first).toNat := by
  have least := first.le_toInt
  have least' := second.le_toInt
  have most := first.toInt_lt
  have most' := second.toInt_lt
  have distance : Literal.wordOfInt second.toInt - Literal.wordOfInt first.toInt =
      Literal.wordOfInt (second.toInt - first.toInt) := by
    unfold Literal.wordOfInt
    rw [Int64.ofInt_sub]
    rfl
  have moved : byte - Spot.address view base first = byte - Spot.address view base second +
      Literal.wordOfInt (second.toInt - first.toInt) := by
    rw [← distance, Spot.address, Spot.address]
    grind
  have number := toNat_wordOfInt (second.toInt - first.toInt)
  rw [moved, UInt64.toNat_add]
  omega

/-- A store to one variable of a frame leaves every other one as it is. -/
theorem read_write_framed (parted : fn.Parted) (reaches : fn.frameSize.toInt ≤ 2 ^ 31)
    {index other : Nat} (found : fn.framed[index]? = some v) (found' : fn.framed[other]? = some w)
    (different : index ≠ other) (roomy : v.Roomy) (roomy' : w.Roomy) (view : View)
    (word : UInt64) :
    (Spot.cell .rbp w.offset.toInt32).read
        ((Spot.cell .rbp v.offset.toInt32).write view v.operandSize word) w.operandSize =
      (Spot.cell .rbp w.offset.toInt32).read view w.operandSize := by
  have near := parted.spread.near reaches (List.mem_map_of_mem (List.mem_of_getElem? found))
  have near' := parted.spread.near reaches (List.mem_map_of_mem (List.mem_of_getElem? found'))
  have here : v.offset.toInt32.toInt = v.offset.toInt := near.displaced
  have there : w.offset.toInt32.toInt = w.offset.toInt := near'.displaced
  have apart : v.offset.toInt + v.storage.toInt ≤ w.offset.toInt ∨
      w.offset.toInt + w.storage.toInt ≤ v.offset.toInt := by
    have mapped : (fn.framed.map Variable.stretch)[index]? = some v.stretch := by
      rw [List.getElem?_map, found]
      rfl
    have mapped' : (fn.framed.map Variable.stretch)[other]? = some w.stretch := by
      rw [List.getElem?_map, found']
      rfl
    exact parted.spread.apart_of_ne mapped mapped' different
  have narrow := v.operandSize_le_storage_iff.mpr roomy
  have narrow' := w.operandSize_le_storage_iff.mpr roomy'
  apply Memory.load_store_apart (bytes_le_word _)
  intro byte inside
  refine address_apart (bytes_le_word _) (bytes_le_word _) ?_ inside
  rw [here, there]
  omega

end Frames

end Lower

end X64Backend
