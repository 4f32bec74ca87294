import Mathlib.Algebra.GroupWithZero.Nat
import X64Backend.Machine.Image
import X64Backend.Proofs.Machine.Memory
import X64Backend.Proofs.Text.Quoted

/-!
The data of a program in memory.  Items lie behind each other at multiples of eight bytes, so what
is written for one of them is not overwritten by another, and is there when the program starts.
-/

namespace X64Backend.Machine

section Bytes

variable {memory : Memory} {address other word : UInt64} {bytes front back : List UInt8}
  {width : Nat}

theorem Memory.storeBytes_append (memory : Memory) (address : UInt64) (front back : List UInt8) :
    memory.storeBytes address (front ++ back) =
      (memory.storeBytes address front).storeBytes (address + .ofNat front.length) back := by
  induction front generalizing memory address with
  | nil => exact congrArg (memory.storeBytes · back) (UInt64.add_zero address).symm
  | cons byte front inductionHypothesis =>
      have further : address + 1 + UInt64.ofNat front.length =
          address + UInt64.ofNat (front.length + 1) := by
        rw [UInt64.ofNat_add, UInt64.add_assoc, UInt64.add_comm 1]
        rfl
      rw [List.cons_append, storeBytes, storeBytes, inductionHypothesis, List.length_cons, further]

/-- The byte at an address behind bytes were written: one of them, or the one before. -/
theorem Memory.get_storeBytes (memory : Memory) (short : bytes.length ≤ 2 ^ 64) :
    (memory.storeBytes address bytes).get other =
      bytes[(other - address).toNat]?.getD (memory.get other) := by
  induction bytes generalizing memory address with
  | nil => rfl
  | cons byte rest inductionHypothesis =>
      rw [List.length_cons] at short
      rw [storeBytes, inductionHypothesis _ (by omega), get_set]
      by_cases here : other = address
      · subst here
        have behind : (other - (other + 1)).toNat = 2 ^ 64 - 1 := by
          have limit := other.toNat_lt
          simp only [UInt64.toNat_sub, UInt64.toNat_add, UInt64.toNat_one]
          omega
        rw [behind, List.getElem?_eq_none (by omega)]
        simp
      · have before := toNat_sub_pos here
        obtain ⟨index, same⟩ : ∃ index, (other - address).toNat = index + 1 :=
          ⟨_, (Nat.sub_add_cancel before).symm⟩
        rw [if_neg here, toNat_sub_succ here, same, Nat.add_sub_cancel, List.getElem?_cons_succ]

/-- The low bytes of a word, the lowest one first. -/
def wordBytes : (width : Nat) → UInt64 → List UInt8
  | 0, _ => []
  | width + 1, word => word.toUInt8 :: wordBytes width (word >>> 8)

@[simp]
theorem length_wordBytes (width : Nat) (word : UInt64) : (wordBytes width word).length = width := by
  induction width generalizing word with
  | zero => rfl
  | succ width inductionHypothesis => rw [wordBytes, List.length_cons, inductionHypothesis]

theorem Memory.storeBytes_wordBytes (memory : Memory) (address : UInt64) (width : Nat)
    (word : UInt64) :
    memory.storeBytes address (wordBytes width word) = memory.store address width word := by
  induction width generalizing memory address word with
  | zero => rfl
  | succ width inductionHypothesis => exact inductionHypothesis _ _ _

/-- Bytes stand in the memory from an address on. -/
def Memory.Holds (memory : Memory) (address : UInt64) (bytes : List UInt8) : Prop :=
  ∀ index byte, bytes[index]? = some byte → memory.get (address + .ofNat index) = byte

theorem toNat_add_sub {index : Nat} (small : index < 2 ^ 64) :
    (address + UInt64.ofNat index - address).toNat = index := by
  rw [UInt64.add_comm, UInt64.add_sub_cancel, UInt64.toNat_ofNat_of_lt' small]

/-- Bytes that were written stand in the memory. -/
theorem Memory.holds_storeBytes (short : bytes.length ≤ 2 ^ 64) :
    (memory.storeBytes address bytes).Holds address bytes := by
  intro index byte found
  have inside : index < bytes.length := (List.getElem?_eq_some_iff.mp found).1
  rw [get_storeBytes memory short, toNat_add_sub (by omega), found, Option.getD_some]

/-- A word among the bytes that stand in the memory is read from there. -/
theorem Memory.Holds.load (holds : memory.Holds address (front ++ wordBytes width word ++ back))
    (narrow : width ≤ 8) :
    (memory.load (address + .ofNat front.length) width).toNat = word.toNat % 256 ^ width := by
  rw [← toNat_load_store memory (address + .ofNat front.length) word narrow]
  refine congrArg UInt64.toNat (load_congr narrow fun other inside => ?_)
  rw [← storeBytes_wordBytes, get_storeBytes _ (by rw [length_wordBytes]; omega)]
  have located : other = address +
      .ofNat (front.length + (other - (address + .ofNat front.length)).toNat) := by
    rw [UInt64.ofNat_add, ← UInt64.add_assoc, UInt64.ofNat_toNat, UInt64.add_comm,
      UInt64.sub_add_cancel]
  generalize (other - (address + .ofNat front.length)).toNat = index at inside located ⊢
  have small : index < (wordBytes width word).length := by rwa [length_wordBytes]
  have found : (wordBytes width word)[index]? = some (wordBytes width word)[index] :=
    List.getElem?_eq_getElem small
  rw [found, Option.getD_some, located]
  refine holds _ _ ?_
  rw [List.append_assoc, List.getElem?_append_right (Nat.le_add_right _ _), Nat.add_sub_cancel_left,
    List.getElem?_append_left small, found]

end Bytes

section Items

variable {value? : String → Option UInt64} {label : String} {width : Nat} {values : List String}
  {memory memory' : Memory} {address : UInt64} {item : DataItem} {bytes : List UInt8}

/-- The bytes of the values of a numeric directive. -/
def valueBytes? (value? : String → Option UInt64) (width : Nat) : List String → Option (List UInt8)
  | [] => some []
  | value :: rest => do
      let word ← value? value
      return wordBytes width word ++ (← valueBytes? value? width rest)

/-- The bytes that are written for an item. -/
def itemBytes? (value? : String → Option UInt64) (item : DataItem) : Option (List UInt8) :=
  match valueWidth? item.directive with
  | some width => valueBytes? value? width item.values
  | none => if isTextDirective item.directive then textBytes? item.values else some []

/-- The number of bytes that an item takes. -/
def extent (item : DataItem) : Nat :=
  match valueWidth? item.directive with
  | some width => width * item.values.length
  | none =>
      if isTextDirective item.directive then ((textBytes? item.values).getD []).length
      else match item.values with
        | [count] => ((Numeral.readUnsigned .byLead count).toOption.getD 0).toNat
        | _ => 0

theorem length_valueBytes? (found : valueBytes? value? width values = some bytes) :
    bytes.length = width * values.length := by
  induction values generalizing bytes with
  | nil =>
      obtain rfl := Option.some.inj found
      rfl
  | cons value rest inductionHypothesis =>
      simp only [valueBytes?, Option.bind_eq_bind, Option.bind_eq_some_iff, Option.pure_def,
        Option.some.injEq] at found
      obtain ⟨word, _, more, others, rfl⟩ := found
      rw [List.length_append, length_wordBytes, inductionHypothesis others, List.length_cons,
        Nat.mul_succ, Nat.add_comm]

/-- Each value stands at its place among the bytes. -/
theorem valueBytes?_split (found : valueBytes? value? width values = some bytes) {index : Nat}
    {value : String} (among : values[index]? = some value) :
    ∃ word front back, value? value = some word ∧ front.length = width * index ∧
      bytes = front ++ wordBytes width word ++ back := by
  induction values generalizing bytes index with
  | nil => contradiction
  | cons first rest inductionHypothesis =>
      simp only [valueBytes?, Option.bind_eq_bind, Option.bind_eq_some_iff, Option.pure_def,
        Option.some.injEq] at found
      obtain ⟨here, known, more, others, rfl⟩ := found
      cases index with
      | zero =>
          obtain rfl := Option.some.inj among
          exact ⟨here, [], more, known, rfl, rfl⟩
      | succ index =>
          obtain ⟨word, front, back, known', length, rfl⟩ := inductionHypothesis others among
          refine ⟨word, wordBytes width here ++ front, back, known', ?_, ?_⟩
          · rw [List.length_append, length_wordBytes, length, Nat.mul_succ, Nat.add_comm]
          · simp only [List.append_assoc]

theorem fillValues_ok
    (run : fillValues value? label width address values memory = .ok memory') :
    ∃ bytes, valueBytes? value? width values = some bytes ∧
      memory' = memory.storeBytes address bytes := by
  induction values generalizing address memory with
  | nil =>
      cases run
      exact ⟨[], rfl, rfl⟩
  | cons value rest inductionHypothesis =>
      rw [fillValues] at run
      cases known : value? value with
      | none => simp [known] at run
      | some word =>
          rw [known] at run
          obtain ⟨more, others, rfl⟩ := inductionHypothesis run
          refine ⟨wordBytes width word ++ more, ?_, ?_⟩
          · simp [valueBytes?, known, others]
          · rw [Memory.storeBytes_append, length_wordBytes, Memory.storeBytes_wordBytes]

theorem exists_valueBytes? (known : ∀ value ∈ values, ∃ word, value? value = some word) :
    ∃ bytes, valueBytes? value? width values = some bytes := by
  induction values with
  | nil => exact ⟨[], rfl⟩
  | cons value rest inductionHypothesis =>
      obtain ⟨word, here⟩ := known value List.mem_cons_self
      obtain ⟨more, others⟩ := inductionHypothesis fun other member =>
        known other (List.mem_cons_of_mem _ member)
      exact ⟨wordBytes width word ++ more, by simp [valueBytes?, here, others]⟩

theorem exists_fillValues (written : valueBytes? value? width values = some bytes) :
    ∃ memory', fillValues value? label width address values memory = .ok memory' := by
  induction values generalizing address memory bytes with
  | nil => exact ⟨memory, rfl⟩
  | cons value rest inductionHypothesis =>
      simp only [valueBytes?, Option.bind_eq_bind, Option.bind_eq_some_iff] at written
      obtain ⟨word, known, more, others, _⟩ := written
      rw [fillValues, known]
      exact inductionHypothesis others

theorem exists_fillItem (written : itemBytes? value? item = some bytes) :
    ∃ memory', fillItem value? memory (address, item) = .ok memory' := by
  unfold itemBytes? at written
  unfold fillItem
  dsimp only
  cases numeric : valueWidth? item.directive with
  | some width =>
      rw [numeric] at written
      exact exists_fillValues written
  | none =>
      dsimp only
      split
      · exact ⟨_, rfl⟩
      · exact ⟨_, rfl⟩

/-- An item with a size is written as its bytes, which it has room for. -/
theorem fillItem_ok {size : UInt64} (sized : itemSize item = .ok size)
    (run : fillItem value? memory (address, item) = .ok memory') :
    ∃ bytes, itemBytes? value? item = some bytes ∧ bytes.length ≤ extent item ∧
      memory' = memory.storeBytes address bytes := by
  unfold itemSize at sized
  unfold fillItem at run
  unfold itemBytes? extent
  dsimp only at run
  cases numeric : valueWidth? item.directive with
  | some width =>
      rw [numeric] at run
      obtain ⟨bytes, found, written⟩ := fillValues_ok run
      exact ⟨bytes, found, Nat.le_of_eq (length_valueBytes? found), written⟩
  | none =>
      rw [numeric] at run sized
      dsimp only at run sized ⊢
      by_cases text : isTextDirective item.directive = true
      · rw [if_pos text] at run sized ⊢
        rw [if_pos text]
        cases read : textBytes? item.values with
        | none =>
            rw [read] at sized
            contradiction
        | some bytes =>
            rw [read] at run
            cases run
            exact ⟨bytes, rfl, Nat.le_refl _, rfl⟩
      · rw [if_neg text] at run ⊢
        rw [if_neg text]
        cases run
        exact ⟨[], rfl, Nat.zero_le _, rfl⟩

/-- The size of an item is the number of its bytes. -/
theorem toNat_itemSize {size : UInt64} (sized : itemSize item = .ok size)
    (short : extent item < 2 ^ 64) : size.toNat = extent item := by
  unfold itemSize at sized
  unfold extent at short ⊢
  cases numeric : valueWidth? item.directive with
  | some width =>
      rw [numeric] at sized short
      cases sized
      exact UInt64.toNat_ofNat_of_lt' short
  | none =>
      rw [numeric] at sized short
      dsimp only at sized short ⊢
      by_cases text : isTextDirective item.directive = true
      · rw [if_pos text] at sized short ⊢
        cases read : textBytes? item.values with
        | none =>
            rw [read] at sized
            contradiction
        | some bytes =>
            rw [read] at sized short
            cases sized
            exact UInt64.toNat_ofNat_of_lt' short
      · rw [if_neg text] at sized ⊢
        split_ifs at sized
        generalize item.values = values at sized ⊢
        rcases values with _ | ⟨count, _ | ⟨second, others⟩⟩
        · contradiction
        · dsimp only at sized ⊢
          cases read : Numeral.readUnsigned .byLead count with
          | ok amount =>
              rw [read] at sized
              cases sized
              rfl
          | error refusal =>
              rw [read] at sized
              contradiction
        · contradiction

end Items

section Placement

variable {value? : String → Option UInt64} {address byte : UInt64} {items : List DataItem}
  {placed : List (UInt64 × DataItem)} {first second : UInt64 × DataItem} {low high : Nat}
  {memory memory' : Memory}

theorem and_not_seven (n : Nat) (small : n < 2 ^ 64) : n &&& (2 ^ 64 - 8) = n / 8 * 8 := by
  have rounded : n / 8 * 8 = (n >>> 3) <<< 3 := by
    rw [Nat.shiftLeft_eq, Nat.shiftRight_eq_div_pow]
  have upper : 2 ^ 64 - 8 = (2 ^ 61 - 1) <<< 3 := by decide
  rw [rounded, upper]
  refine Nat.eq_of_testBit_eq fun index => ?_
  rw [Nat.testBit_and, Nat.testBit_shiftLeft, Nat.testBit_shiftLeft, Nat.testBit_shiftRight,
    Nat.testBit_two_pow_sub_one]
  by_cases high : 3 ≤ index
  · rw [Nat.add_sub_cancel' high]
    by_cases inside : index - 3 < 61
    · simp [high, inside]
    · have below : 2 ^ 64 ≤ 2 ^ index := Nat.pow_le_pow_right (by decide) (by omega)
      have none : n.testBit index = false :=
        Nat.testBit_lt_two_pow (Nat.lt_of_lt_of_le small below)
      simp [none]
  · simp [high]

theorem toNat_add_of_lt {word other : UInt64} (fits : word.toNat + other.toNat < 2 ^ 64) :
    (word + other).toNat = word.toNat + other.toNat := by
  rw [UInt64.toNat_add, Nat.mod_eq_of_lt fits]

theorem toNat_roundUp {size : UInt64} (fits : size.toNat + 7 < 2 ^ 64) :
    ((size + 7) &&& ~~~ 7).toNat = (size.toNat + 7) / 8 * 8 := by
  have sum : (size + 7).toNat = size.toNat + 7 := toNat_add_of_lt fits
  rw [UInt64.toNat_and, sum]
  exact and_not_seven _ fits

/-- A byte belongs to an item. -/
def Inside (item : UInt64 × DataItem) (byte : UInt64) : Prop :=
  (byte - item.1).toNat < extent item.2

/-- An item lies between two addresses, where a multiple of eight begins. -/
structure Lies (low high : Nat) (item : UInt64 × DataItem) : Prop where
  above : low ≤ item.1.toNat
  below : item.1.toNat + extent item.2 ≤ high
  aligned : item.1.toNat % 8 = 0
  sized : ∃ size, itemSize item.2 = .ok size

/-- An item ends where the other one begins, or before. -/
def Precedes (first second : UInt64 × DataItem) : Prop :=
  first.1.toNat + extent first.2 ≤ second.1.toNat

theorem Precedes.apart (precedes : Precedes first second)
    (bound : second.1.toNat + extent second.2 ≤ 2 ^ 64) (inside : Inside first byte) :
    ¬ Inside second byte := by
  unfold Inside Precedes at *
  have limit := byte.toNat_lt
  have limit₁ := first.1.toNat_lt
  have limit₂ := second.1.toNat_lt
  simp only [UInt64.toNat_sub] at *
  omega

/-- Items are placed one behind the other. -/
theorem placeItems_ok (run : placeItems address items = .ok placed)
    (aligned : address.toNat % 8 = 0)
    (room : address.toNat + 8 * (items.map extent).sum < 2 ^ 64) :
    placed.map Prod.snd = items ∧ placed.Pairwise Precedes ∧
      ∀ item ∈ placed, Lies address.toNat (address.toNat + 8 * (items.map extent).sum) item := by
  induction items generalizing address placed with
  | nil =>
      cases run
      exact ⟨rfl, .nil, by simp⟩
  | cons item rest inductionHypothesis =>
      rw [placeItems] at run
      cases sized : itemSize item with
      | error fault =>
          rw [sized] at run
          contradiction
      | ok size =>
          rw [sized] at run
          cases others : placeItems (address + ((size + 7) &&& ~~~ 7)) rest with
          | error fault =>
              simp [others, bind, Except.bind] at run
          | ok more =>
              simp only [bind, Except.bind, others, pure, Except.pure, Except.ok.injEq] at run
              subst run
              simp only [List.map_cons, List.sum_cons] at room ⊢
              have short := toNat_itemSize sized (by omega)
              have rounded : ((size + 7) &&& ~~~ 7).toNat = (extent item + 7) / 8 * 8 :=
                short ▸ toNat_roundUp (by omega)
              have next : (address + ((size + 7) &&& ~~~ 7)).toNat =
                  address.toNat + (extent item + 7) / 8 * 8 := by
                rw [toNat_add_of_lt (by omega), rounded]
              obtain ⟨same, ordered, lie⟩ := inductionHypothesis others (by omega) (by omega)
              refine ⟨by rw [same], ?_, ?_⟩
              · refine .cons (fun other member => ?_) ordered
                have above := (lie other member).above
                unfold Precedes
                dsimp only
                omega
              · intro other member
                rcases List.mem_cons.mp member with rfl | member
                · exact ⟨Nat.le_refl _, by dsimp only; omega, aligned, size, sized⟩
                · obtain ⟨above, below, start, known⟩ := lie other member
                  exact ⟨by omega, by omega, start, known⟩

theorem exists_placeItems (sized : ∀ item ∈ items, ∃ size, itemSize item = .ok size) :
    ∃ placed, placeItems address items = .ok placed ∧ placed.map Prod.snd = items := by
  induction items generalizing address with
  | nil => exact ⟨[], rfl, rfl⟩
  | cons item rest inductionHypothesis =>
      obtain ⟨size, here⟩ := sized item List.mem_cons_self
      obtain ⟨placed, others, same⟩ := @inductionHypothesis (address + ((size + 7) &&& ~~~ 7))
        fun other member => sized other (List.mem_cons_of_mem _ member)
      refine ⟨(address, item) :: placed, ?_, by rw [List.map_cons, same]⟩
      simp [placeItems, here, others, bind, Except.bind, pure, Except.pure]

theorem exists_fill
    (written : ∀ item ∈ placed, ∃ bytes, itemBytes? value? item.2 = some bytes) :
    ∃ memory', placed.foldlM (fillItem value?) memory = .ok memory' := by
  induction placed generalizing memory with
  | nil => exact ⟨memory, rfl⟩
  | cons item rest inductionHypothesis =>
      obtain ⟨bytes, here⟩ := written item List.mem_cons_self
      obtain ⟨middle, filled⟩ := @exists_fillItem _ memory item.1 _ _ here
      rw [List.foldlM_cons, filled]
      exact inductionHypothesis fun other member => written other (List.mem_cons_of_mem _ member)

/-- What is written for an item is not overwritten by others. -/
theorem fill_ok (run : placed.foldlM (fillItem value?) memory = .ok memory')
    (ordered : placed.Pairwise Precedes)
    (lie : ∀ item ∈ placed, Lies low high item) (bound : high ≤ 2 ^ 64) :
    (∀ byte, (∀ item ∈ placed, ¬ Inside item byte) → memory'.get byte = memory.get byte) ∧
      ∀ item ∈ placed, ∃ bytes, itemBytes? value? item.2 = some bytes ∧
        memory'.Holds item.1 bytes := by
  induction placed generalizing memory with
  | nil =>
      cases run
      exact ⟨fun _ _ => rfl, by simp⟩
  | cons item rest inductionHypothesis =>
      obtain ⟨address, content⟩ := item
      obtain ⟨before, ordered⟩ := List.pairwise_cons.mp ordered
      have here := lie _ List.mem_cons_self
      rw [List.foldlM_cons] at run
      cases filled : fillItem value? memory (address, content) with
      | error fault =>
          rw [filled] at run
          contradiction
      | ok middle =>
          rw [filled] at run
          obtain ⟨outside, held⟩ := inductionHypothesis run ordered
            fun other member => lie other (List.mem_cons_of_mem _ member)
          obtain ⟨size, sized⟩ := here.sized
          obtain ⟨bytes, written, fits, rfl⟩ := fillItem_ok sized filled
          have room := here.below
          dsimp only at room fits
          have short : bytes.length ≤ 2 ^ 64 := by omega
          refine ⟨fun byte apart => ?_, fun other member => ?_⟩
          · have behind : bytes.length ≤ (byte - address).toNat :=
              Nat.le_trans fits (Nat.le_of_not_lt (apart _ List.mem_cons_self))
            rw [outside byte fun other member => apart other (List.mem_cons_of_mem _ member),
              Memory.get_storeBytes memory short, List.getElem?_eq_none behind, Option.getD_none]
          · rcases List.mem_cons.mp member with rfl | member
            · refine ⟨bytes, written, fun index byte found => ?_⟩
              have inside : index < bytes.length := (List.getElem?_eq_some_iff.mp found).1
              have own : Inside (address, content) (address + .ofNat index) := by
                unfold Inside
                rw [toNat_add_sub (by omega)]
                exact Nat.lt_of_lt_of_le inside fits
              have later : ∀ other ∈ rest, ¬ Inside other (address + .ofNat index) := by
                intro other member
                have behind := (lie other (List.mem_cons_of_mem _ member)).below
                exact (before other member).apart (by omega) own
              rw [outside _ later]
              exact Memory.holds_storeBytes short index byte found
            · exact held other member

end Placement

section Labels

variable {entries : List Entry} {labels final : Std.HashMap String Nat} {start index offset : Nat}
  {name : String} {isGlobal : Bool}

/-- A label that was found before stays where it is. -/
theorem indexLabels_keeps (run : indexLabels start entries labels = .ok final)
    (known : labels[name]? = some index) : final[name]? = some index := by
  induction entries generalizing start labels with
  | nil =>
      cases run
      exact known
  | cons entry rest inductionHypothesis =>
      rw [indexLabels] at run
      split at run
      · rename_i other _ _
        split at run
        · contradiction
        · rename_i fresh
          refine inductionHypothesis run ?_
          have apart : ¬ other = name := by
            rintro rfl
            rw [Std.HashMap.contains_eq_isSome_getElem?, known] at fresh
            exact fresh rfl
          rw [Std.HashMap.getElem?_insert, if_neg (by simpa using apart), known]
      · exact inductionHypothesis run known

/-- A label is found where it is defined. -/
theorem indexLabels_finds (run : indexLabels start entries labels = .ok final)
    (defined : entries[offset]?.map Entry.instr = some (.label name isGlobal)) :
    final[name]? = some (start + offset) := by
  induction entries generalizing start offset labels with
  | nil => simp at defined
  | cons entry rest inductionHypothesis =>
      rw [indexLabels] at run
      cases offset with
      | zero =>
          have here : entry.instr = .label name isGlobal := Option.some.inj defined
          rw [here] at run
          dsimp only at run
          split at run
          · contradiction
          · exact indexLabels_keeps run (Std.HashMap.getElem?_insert_self ..)
      | succ offset =>
          have further : start + 1 + offset = start + (offset + 1) := by omega
          rw [← further]
          split at run
          · split at run
            · contradiction
            · exact inductionHypothesis run defined
          · exact inductionHypothesis run defined

end Labels

/-- Whether a symbol would be read as a number. -/
def isNumeral (symbol : String) : Bool :=
  (Numeral.readSigned .byLead symbol).isOk || (Numeral.readUnsigned .byLead symbol).isOk

section Symbols

variable {labels : Std.HashMap String Nat} {data : Std.HashMap String UInt64} {symbol : String}
  {index : Nat}

/-- The label of a procedure is looked for in the code first. -/
theorem symbolValue?_of_label (other : isNumeral symbol = false)
    (found : labels[symbol]? = some index) :
    symbolValue? labels data symbol = some (codeBase + .ofNat index) := by
  unfold isNumeral at other
  unfold symbolValue?
  cases signed : Numeral.readSigned .byLead symbol with
  | ok value => simp [signed, Except.isOk, Except.toBool] at other
  | error _ =>
      cases unsigned : Numeral.readUnsigned .byLead symbol with
      | ok value => simp [unsigned, Except.isOk, Except.toBool] at other
      | error _ =>
          rw [found]

end Symbols

section Addresses

variable {placed : List (UInt64 × DataItem)} {data : Std.HashMap String UInt64} {label : String}

/-- The addresses of items by their labels. -/
def addresses (data : Std.HashMap String UInt64) (placed : List (UInt64 × DataItem)) :
    Std.HashMap String UInt64 :=
  placed.foldl (fun data (address, item) => data.insert item.label address) data

theorem addresses_of_not_mem (other : label ∉ placed.map fun item => item.2.label) :
    (addresses data placed)[label]? = data[label]? := by
  induction placed generalizing data with
  | nil => rfl
  | cons item rest inductionHypothesis =>
      rw [List.map_cons, List.mem_cons, not_or] at other
      obtain ⟨apart, others⟩ := other
      rw [addresses, List.foldl_cons]
      refine (inductionHypothesis others).trans ?_
      rw [Std.HashMap.getElem?_insert, if_neg (by simpa using Ne.symm apart)]

/-- Each label leads to its item, where no label is used twice. -/
theorem addresses_of_mem (unique : (placed.map fun item => item.2.label).Nodup)
    {item : UInt64 × DataItem} (member : item ∈ placed) :
    (addresses data placed)[item.2.label]? = some item.1 := by
  induction placed generalizing data with
  | nil => contradiction
  | cons first rest inductionHypothesis =>
      obtain ⟨new, unique⟩ := List.nodup_cons.mp unique
      rw [addresses, List.foldl_cons]
      rcases List.mem_cons.mp member with rfl | member
      · exact (addresses_of_not_mem new).trans (Std.HashMap.getElem?_insert_self ..)
      · exact inductionHypothesis unique member

end Addresses

/-- The data of a program as it was laid out: where each item is, and what stands there. -/
structure Image.Lays (image : Image) (program : Program) (placed : List (UInt64 × DataItem)) :
    Prop where
  items : placed.map Prod.snd = items program.data.entries.toList
  ordered : placed.Pairwise Precedes
  lies : ∀ item ∈ placed, Lies dataBase.toNat (2 ^ 64) item
  addresses : ∀ item ∈ placed, image.data[item.2.label]? = some item.1
  holds : ∀ item ∈ placed, ∃ bytes,
    itemBytes? (symbolValue? image.labels image.data) item.2 = some bytes ∧
      image.memory.Holds item.1 bytes
  labels : ∀ index name isGlobal,
    program.text.entries.toList[index]?.map Entry.instr = some (.label name isGlobal) →
      image.labels[name]? = some index

/-- The number of bytes that the data of a program takes. -/
def dataSize (program : Program) : Nat :=
  ((items program.data.entries.toList).map extent).sum

theorem Image.ofProgram_ok {program : Program} {image : Image}
    (run : Image.ofProgram program = .ok image) :
    ∃ placed, indexLabels 0 program.text.entries.toList ∅ = .ok image.labels ∧
      placeItems dataBase (Machine.items program.data.entries.toList) = .ok placed ∧
      image.data = Machine.addresses ∅ placed ∧
      placed.foldlM (fillItem (symbolValue? image.labels image.data)) Memory.empty =
        .ok image.memory := by
  simp only [Image.ofProgram, bind, Except.bind] at run
  split at run
  · contradiction
  rename_i labels indexed
  split at run
  · contradiction
  rename_i placed found
  split at run
  · contradiction
  rename_i memory filled
  cases run
  exact ⟨placed, indexed, found, rfl, filled⟩

/-- A program is laid out if its labels can be indexed and each item has a size and values. -/
theorem Image.exists_ofProgram {program : Program} {labels : Std.HashMap String Nat}
    (indexed : indexLabels 0 program.text.entries.toList ∅ = .ok labels)
    (sized : ∀ item ∈ Machine.items program.data.entries.toList,
      ∃ size, itemSize item = .ok size)
    (written : ∀ data, ∀ item ∈ Machine.items program.data.entries.toList,
      ∃ bytes, itemBytes? (symbolValue? labels data) item = some bytes) :
    ∃ image, Image.ofProgram program = .ok image := by
  obtain ⟨placed, found, same⟩ := @exists_placeItems dataBase _ sized
  obtain ⟨memory, filled⟩ := @exists_fill (symbolValue? labels (Machine.addresses ∅ placed)) placed
    Memory.empty fun item member => written _ item.2 (same ▸ List.mem_map_of_mem member)
  refine ⟨⟨program.timeline, program.text.entries, labels, Machine.addresses ∅ placed, memory⟩, ?_⟩
  unfold Machine.addresses at filled ⊢
  simp only [Image.ofProgram, indexed, found, bind, Except.bind]
  rw [filled]
  rfl

/-- The data of a program is laid out, if it has room below the heap. -/
theorem Image.lays_ofProgram {program : Program} {image : Image}
    (unique : ((Machine.items program.data.entries.toList).map DataItem.label).Nodup)
    (room : dataSize program < (heapBase - dataBase).toNat)
    (run : Image.ofProgram program = .ok image) : ∃ placed, image.Lays program placed := by
  obtain ⟨placed, indexed, found, ofData, filled⟩ := Image.ofProgram_ok run
  have gap : dataBase.toNat + 8 * (heapBase - dataBase).toNat < 2 ^ 64 := by decide
  unfold dataSize at room
  obtain ⟨same, ordered, lie⟩ := placeItems_ok found (by decide) (by omega)
  have lies : ∀ item ∈ placed, Lies dataBase.toNat (2 ^ 64) item := by
    intro item member
    obtain ⟨above, below, aligned, sized⟩ := lie item member
    exact ⟨above, by omega, aligned, sized⟩
  have labelled : (placed.map fun item => item.2.label) =
      (Machine.items program.data.entries.toList).map DataItem.label := by
    rw [← same, List.map_map]
    rfl
  refine ⟨placed, same, ordered, lies, ?_, (fill_ok filled ordered lies (Nat.le_refl _)).2, ?_⟩
  · intro item member
    rw [ofData]
    exact addresses_of_mem (labelled ▸ unique) member
  · intro index name isGlobal defined
    rw [indexLabels_finds indexed defined, Nat.zero_add]

namespace Image.Lays

variable {image : Image} {program : Program} {placed : List (UInt64 × DataItem)} {label : String}

/-- No byte belongs to two items. -/
theorem apart (lays : image.Lays program placed) :
    placed.Pairwise fun first second => ∀ byte, Inside first byte → ¬ Inside second byte :=
  lays.ordered.imp_of_mem fun _ member precedes _ inside =>
    precedes.apart (lays.lies _ member).below inside

theorem placed_of_mem (lays : image.Lays program placed) {item : DataItem}
    (member : item ∈ Machine.items program.data.entries.toList) :
    ∃ address bytes, image.data[item.label]? = some address ∧
      itemBytes? (symbolValue? image.labels image.data) item = some bytes ∧
      image.memory.Holds address bytes := by
  rw [← lays.items] at member
  obtain ⟨⟨address, item⟩, among, rfl⟩ := List.mem_map.mp member
  obtain ⟨bytes, written, holds⟩ := lays.holds _ among
  exact ⟨address, bytes, lays.addresses _ among, written, holds⟩

/-- A text stands in the memory, closed by a zero byte. -/
theorem text (lays : image.Lays program placed) {text : String}
    (member : ⟨label, ".asciz", [Text.quote text]⟩ ∈ Machine.items program.data.entries.toList) :
    ∃ address, image.data[label]? = some address ∧
      image.memory.Holds address (Text.bytes text ++ [0]) := by
  obtain ⟨address, bytes, found, written, holds⟩ := lays.placed_of_mem member
  have same : textBytes? [Text.quote text] = some (Text.bytes text ++ [0]) := by
    simp [textBytes?]
  obtain rfl := Option.some.inj (same.symm.trans written)
  exact ⟨address, found, holds⟩

/-- The words of an item stand in the memory one behind the other. -/
theorem word (lays : image.Lays program placed) {symbols : List String} {symbol : String}
    {index entry : Nat}
    (member : ⟨label, ".quad", symbols⟩ ∈ Machine.items program.data.entries.toList)
    (among : symbols[index]? = some symbol) (other : isNumeral symbol = false)
    (defined : image.labels[symbol]? = some entry) :
    ∃ address, image.data[label]? = some address ∧
      image.memory.load (address + .ofNat (8 * index)) 8 = codeBase + .ofNat entry := by
  obtain ⟨address, bytes, found, written, holds⟩ := lays.placed_of_mem member
  obtain ⟨word, front, back, value, length, rfl⟩ := valueBytes?_split written among
  rw [symbolValue?_of_label other defined] at value
  obtain rfl := Option.some.inj value
  have loaded := holds.load (Nat.le_refl 8)
  have small : (codeBase + UInt64.ofNat entry).toNat < 256 ^ 8 := UInt64.toNat_lt _
  rw [length, Nat.mod_eq_of_lt small] at loaded
  exact ⟨address, found, UInt64.toNat_inj.mp loaded⟩

end Image.Lays

end X64Backend.Machine
