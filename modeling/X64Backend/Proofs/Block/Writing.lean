import X64Backend.Code.Listing
import X64Backend.Proofs.Block.Grammar
import X64Backend.Proofs.Numeral.Digits

/-!
Operands as they are written in a listing.  The text of an operand that names no handle spells an
argument of the grammar, and the argument means the operand.
-/

namespace X64Backend.Block

open Grammar

section Names

/-- Every spelling of a register is a name, and stands for that register. -/
theorem name_register : ∀ entry ∈ Phys.table,
    IsName entry.1.toList ∧ Phys.lookup entry.1 = some entry.2 ∧
      entry.1 ≠ "true" ∧ entry.1 ≠ "false" := by
  decide +kernel

theorem name_mnemonic : ∀ spec ∈ specs,
    IsName spec.op.name.toList ∧ lowerCase spec.op.name = spec.op.name ∧
      spec? spec.op.name = some spec ∧ spec.op.isBranch = false := by
  decide +kernel

end Names

section Numerals

variable {n : Nat}

/-- A text of digits is a number without underscores. -/
theorem mem_repr {c : Char} (member : c ∈ n.repr.toList) :
    isDigitByte (byteOf c) = true ∧ isNumberChar c = true ∧ c ≠ '_' ∧ c.toLower ≠ 'x' ∧
      c.toLower ≠ 'b' := by
  rw [Nat.toList_repr, ← List.map_id (Nat.toDigits 10 n)] at member
  obtain ⟨digit, small, rfl⟩ := Numeral.mem_map_toDigits (by decide) member
  have every : ∀ digit < 10, isDigitByte (byteOf (id (Nat.digitChar digit))) = true ∧
      isNumberChar (id (Nat.digitChar digit)) = true ∧ id (Nat.digitChar digit) ≠ '_' ∧
      (id (Nat.digitChar digit)).toLower ≠ 'x' ∧ (id (Nat.digitChar digit)).toLower ≠ 'b' := by
    decide
  exact every digit small

theorem isNumber_repr : IsNumber n.repr.toList where
  starts := by
    obtain ⟨first, rest, same⟩ := List.exists_cons_of_ne_nil (@Numeral.repr_toList_ne_nil n)
    rw [same]
    exact ⟨first, rfl, (mem_repr (same ▸ List.mem_cons_self)).1⟩
  every c member := (mem_repr member).2.1

theorem withoutUnderscores_repr : Parser.withoutUnderscores n.repr = n.repr := by
  have kept : n.repr.toList.filter (· ≠ '_') = n.repr.toList :=
    List.filter_eq_self.mpr fun c member => decide_eq_true (mem_repr member).2.2.1
  rw [Parser.withoutUnderscores, kept, String.ofList_toList]

/-- The lead of a decimal numeral names no other radix. -/
theorem literalOf_repr (negative : Bool) :
    Parser.literalOf negative n.repr = ⟨.int, (if negative then "-" else "") ++ n.repr⟩ := by
  have other : ∀ c, c = 'x' ∨ c = 'b' → c ∉ (lowerCase n.repr).toList := by
    rintro c letter member
    rw [lowerCase, String.toList_ofList] at member
    obtain ⟨d, digit, rfl⟩ := List.mem_map.mp member
    obtain ⟨-, -, -, x, b⟩ := mem_repr digit
    exact letter.elim x b
  unfold Parser.literalOf
  split
  · rename_i rest found
    exact absurd (by simp [found]) (other 'x' (.inl rfl))
  · rename_i rest found
    exact absurd (by simp [found]) (other 'b' (.inr rfl))
  · rfl

theorem literalOf_nonnegative {value : Int} (sign : 0 ≤ value) :
    Parser.literalOf false value.toNat.repr = .ofInt value := by
  rw [literalOf_repr, Literal.ofInt, Int.toString_eq_repr, Int.repr_eq_if, if_pos sign]
  rfl

theorem literalOf_negative {value : Int} (sign : ¬ 0 ≤ value) :
    Parser.literalOf true (-value).toNat.repr = .ofInt value := by
  rw [literalOf_repr, Literal.ofInt, Int.toString_eq_repr, Int.repr_eq_if, if_neg sign]
  rfl

section Hexadecimal

variable {word : UInt64}

/-- A hexadecimal numeral is a number without underscores. -/
theorem mem_ofWord {c : Char} (member : c ∈ (Literal.ofWord word).text.toList) :
    isNumberChar c = true ∧ c ≠ '_' := by
  rw [Literal.toList_ofWord, List.mem_cons, List.mem_cons] at member
  rcases member with rfl | rfl | member
  · decide
  · decide
  · obtain ⟨digit, small, rfl⟩ := Numeral.mem_hexUpper member
    have every : ∀ digit < 16, isNumberChar (Nat.digitChar digit).toUpper = true ∧
        (Nat.digitChar digit).toUpper ≠ '_' := by decide
    exact every digit small

theorem isNumber_ofWord : IsNumber (Literal.ofWord word).text.toList where
  starts := by
    rw [Literal.toList_ofWord]
    exact ⟨'0', rfl, by decide⟩
  every c member := (mem_ofWord member).1

theorem literalOf_ofWord : Parser.literalOf false
    (Parser.withoutUnderscores (Literal.ofWord word).text) = .ofWord word := by
  have kept : (Literal.ofWord word).text.toList.filter (· ≠ '_') =
      (Literal.ofWord word).text.toList :=
    List.filter_eq_self.mpr fun c member => decide_eq_true (mem_ofWord member).2
  rw [Parser.withoutUnderscores, kept, String.ofList_toList]
  have lead : (lowerCase (Literal.ofWord word).text).toList =
      '0' :: 'x' :: (Text.hexUpper word.toNat).toList.map Char.toLower := by
    rw [lowerCase, String.toList_ofList, Literal.toList_ofWord]
    rfl
  unfold Parser.literalOf
  rw [lead]
  exact congrArg (Literal.mk .hex) String.empty_append

end Hexadecimal

/-- A displacement is read as it was written, down to the least word of 32 bits. -/
theorem displacement?_repr {negative : Bool} {disp : Int32}
    (signed : disp.toInt = if negative then -(n : Int) else n) :
    Parser.displacement? negative n.repr = some disp := by
  have least := disp.le_toInt
  have greatest := disp.toInt_lt
  have inWord : n < 0x8000000000000000 := by
    cases negative with
    | false => simp at signed; omega
    | true => simp at signed; omega
  unfold Parser.displacement?
  rw [withoutUnderscores_repr, Numeral.readInteger_repr inWord]
  dsimp only
  rw [← signed, if_pos ⟨by omega, by omega⟩, Int32.ofInt_toInt]

end Numerals

section Blanks

/-- A text that neither starts nor ends with a blank. -/
structure Solid (chars : List Char) : Prop where
  first : ∃ c ∈ chars.head?, Text.isBlank c = false
  last : ∃ c ∈ chars.getLast?, Text.isBlank c = false

variable {chars front middle back : List Char}

theorem Solid.append (first : Solid front) (last : Solid back) :
    Solid (front ++ (middle ++ back)) := by
  obtain ⟨c, isFirst, solid⟩ := first.first
  obtain ⟨d, isLast, solid'⟩ := last.last
  refine ⟨⟨c, ?_, solid⟩, d, ?_, solid'⟩
  · rw [List.head?_append, isFirst]
    rfl
  · rw [List.getLast?_append, List.getLast?_append, isLast]
    rfl

/-- A name or a number has no blanks. -/
theorem isBlank_isNameChar {c : Char} (known : isNameChar c = true) : Text.isBlank c = false := by
  have small := isNameChar_ascii known
  have every : ∀ n < 128, isNameChar (Char.ofNat n) = true →
      Text.isBlank (Char.ofNat n) = false := by decide
  have same : Char.ofNat c.toNat = c := Char.ofNat_toNat c
  have plain := every c.toNat small
  rw [same] at plain
  exact plain known

theorem isNameChar_of_number {c : Char} (known : isNumberChar c = true) : isNameChar c = true := by
  rw [isNameChar, isIdentByte_of_number (isNumberChar_byte known),
    decide_eq_true (isNumberChar_ascii known)]
  rfl

theorem solid_of_nameChars (some : chars ≠ []) (every : ∀ c ∈ chars, isNameChar c = true) :
    Solid chars := by
  refine ⟨⟨chars.head some, List.head?_eq_some_head some, ?_⟩, chars.getLast some,
    List.getLast?_eq_some_getLast some, ?_⟩
  · exact isBlank_isNameChar (every _ (List.head_mem some))
  · exact isBlank_isNameChar (every _ (List.getLast_mem some))

theorem IsName.solid (name : IsName chars) : Solid chars := by
  refine solid_of_nameChars ?_ name.every
  rintro rfl
  obtain ⟨c, member, -⟩ := name.starts
  cases member

theorem IsNumber.solid (number : IsNumber chars) : Solid chars := by
  refine solid_of_nameChars ?_ fun c member => isNameChar_of_number (number.every c member)
  rintro rfl
  obtain ⟨c, member, -⟩ := number.starts
  cases member

/-- The blanks around a text are dropped, and nothing else. -/
theorem trimBlank_solid {text : String} (solid : Solid text.toList) :
    Text.trimBlank ("\t" ++ text ++ "\n") = text := by
  have kept : ∀ {chars : List Char}, (∃ c ∈ chars.head?, Text.isBlank c = false) →
      chars.dropWhile Text.isBlank = chars := by
    rintro chars ⟨c, isFirst, plain⟩
    obtain ⟨rest, rfl⟩ := List.head?_eq_some_iff.mp isFirst
    exact List.dropWhile_cons_of_neg (by simp [plain])
  have split : ("\t" ++ text ++ "\n").toList = '\t' :: (text.toList ++ ['\n']) := by
    simp [String.toList_append]
  have tab : Text.isBlank '\t' = true := by decide
  have newline : Text.isBlank '\n' = true := by decide
  have starts : ∃ c ∈ (text.toList ++ ['\n']).head?, Text.isBlank c = false := by
    obtain ⟨c, isFirst, plain⟩ := solid.first
    exact ⟨c, by rw [List.head?_append, isFirst]; rfl, plain⟩
  have ends : ∃ c ∈ text.toList.reverse.head?, Text.isBlank c = false := by
    rw [List.head?_reverse]
    exact solid.last
  rw [Text.trimBlank, Text.trimBlankChars, split, List.dropWhile_cons_of_pos tab, kept starts,
    List.reverse_append, List.reverse_singleton, List.singleton_append,
    List.dropWhile_cons_of_pos newline, kept ends, List.reverse_reverse, String.ofList_toList]

end Blanks

/-- An operand that a block can write: a fixed register with a spelling, a memory cell at a
displacement from a fixed register, or a literal made from a signed word, a word or a truth
value. -/
inductive Writable : Operand → Prop where
  | reg {phys : Phys} {size : Size} : (phys.name? size).isSome = true →
      Writable (.reg (.fix phys size))
  | mem (base : Phys) (width : Size) (disp : Int32) {size : Size} : size ≠ .high8 →
      Writable (.mem (.ofBase (.fix base width) disp size))
  | int (value : Int64) : Writable (.lit (.ofInt value.toInt))
  | word (value : UInt64) : Writable (.lit (.ofWord value))
  | bool (value : Bool) : Writable (.lit (.ofBool value))

/-- A term of a block is an operand: the same hardware register at the same width, the same memory
cell, or a literal with the same bits. -/
inductive Denotes : Operand → Term → Prop where
  | reg {phys : Phys} {size : Size} {pos : Pos} {name : String} :
      Denotes (.reg (.fix phys size)) (.reg ⟨pos, name, false, some phys, "", size⟩)
  | mem {base : Phys} {disp : Int32} {size : Size} {pos pos' : Pos} {name : String} :
      Denotes (.mem ⟨.fix base .s64, disp, size⟩)
        (.mem pos size (.reg ⟨pos', name, false, some base, "", .s64⟩) disp)
  | lit {literal value : Literal} {pos : Pos} {word : UInt64} : literal.bits = .ok word →
      value.bits = .ok word → Denotes (.lit literal) (.lit pos value)

/-- The text of an operand, and the term that is read from it. -/
structure Written (operand : Operand) (text : String) (argument : Argument) (term : Term) :
    Prop where
  shown : ∀ timeline tick, Listing.operand timeline tick false operand = .ok text
  solid : Solid text.toList
  spells : ∀ {rest : List Char} {words : List Word}, Breaks rest → Spells rest words →
    Spells (text.toList ++ rest) (argument.words ++ words)
  means : argument.term? [] = some term
  denotes : Denotes operand term

section Operands

/-- A name ends in front of a character that may not stand in it. -/
theorem breaks_cons {c : Char} {rest : List Char} (other : isIdentByte (byteOf c) = false) :
    Breaks (c :: rest) := by
  simpa [Breaks] using other

theorem mem_table {phys : Phys} {size : Size} {name : String}
    (known : phys.name? size = some name) : (name, phys, size) ∈ Phys.table := by
  have every : ∀ phys, phys ∈ Phys.all := by
    intro phys
    cases phys <;> decide
  have sizes : ∀ size, size ∈ Size.all := by
    intro size
    cases size <;> decide
  exact List.mem_flatMap.mpr ⟨phys, every phys,
    List.mem_filterMap.mpr ⟨size, sizes size, by rw [known]; rfl⟩⟩

theorem ref?_register {phys : Phys} {size : Size} {name : String}
    (known : phys.name? size = some name) :
    Name.ref? [] ⟨name, .none⟩ = some ⟨.nowhere, name, false, some phys, "", size⟩ := by
  obtain ⟨-, stands, -⟩ := name_register _ (mem_table known)
  simp only [Name.ref?, Name.bare?, List.find?_nil, stands]
  rfl

theorem written_reg {phys : Phys} {size : Size} {name : String}
    (known : phys.name? size = some name) :
    Written (.reg (.fix phys size)) name (.register ⟨name, .none⟩)
      (.reg ⟨.nowhere, name, false, some phys, "", size⟩) where
  shown timeline tick := by
    simp only [Listing.operand, Listing.register, Timeline.resolve, Register.fix, known]
  solid := (name_register _ (mem_table known)).1.solid
  spells breaks spells := by
    have read := Spells.name (name_register _ (mem_table known)).1 breaks spells
    rwa [String.ofList_toList] at read
  means := by
    obtain ⟨-, -, untrue, unfalse⟩ := name_register _ (mem_table known)
    have means := ref?_register known
    simp only [Argument.term?, means]
    rw [if_neg (by simp [untrue, unfalse])]
    rfl
  denotes := .reg

/-- A literal that is written as a number, perhaps behind a minus sign. -/
theorem written_lit {literal value : Literal} {word : UInt64} (negative : Bool) (digits : String)
    (shown : literal.render false = (if negative then "-" else "") ++ digits)
    (number : IsNumber digits.toList)
    (reads : Parser.literalOf negative (Parser.withoutUnderscores digits) = value)
    (bits : literal.bits = .ok word) (bits' : value.bits = .ok word) :
    Written (.lit literal) ((if negative then "-" else "") ++ digits) (.number negative digits)
      (.lit .nowhere value) where
  shown timeline tick := congrArg Except.ok shown
  solid := by
    cases negative with
    | false => simpa using number.solid
    | true =>
        have minus : Solid ['-'] := ⟨⟨'-', rfl, by decide⟩, '-', rfl, by decide⟩
        have signed : Solid (['-'] ++ ([] ++ digits.toList)) := minus.append number.solid
        simpa [String.toList_append] using signed
  spells breaks spells := by
    have read := Spells.number number breaks spells
    rw [String.ofList_toList] at read
    cases negative with
    | false => simpa [Argument.words] using read
    | true =>
        have minus : '-' ∈ marks := by decide
        have signed := Spells.mark minus read
        simpa [Argument.words, String.toList_append] using signed
  means := by
    simp only [Argument.term?, reads, bits']
    rfl
  denotes := .lit bits bits'

theorem written_int (value : Int64) : ∃ text argument term,
    Written (.lit (.ofInt value.toInt)) text argument term := by
  have bits := Literal.bits_ofInt value.le_toInt value.toInt_lt
  by_cases sign : 0 ≤ value.toInt
  · refine ⟨_, _, _, written_lit false value.toInt.toNat.repr ?_ isNumber_repr ?_ bits bits⟩
    · rw [Literal.render, Literal.ofInt, Int.toString_eq_repr, Int.repr_eq_if, if_pos sign]
      rfl
    · rw [withoutUnderscores_repr, literalOf_nonnegative sign]
  · refine ⟨_, _, _, written_lit true (-value.toInt).toNat.repr ?_ isNumber_repr ?_ bits bits⟩
    · rw [Literal.render, Literal.ofInt, Int.toString_eq_repr, Int.repr_eq_if, if_neg sign]
      rfl
    · rw [withoutUnderscores_repr, literalOf_negative sign]

theorem written_word (value : UInt64) : ∃ text argument term,
    Written (.lit (.ofWord value)) text argument term := by
  have bits := Literal.bits_ofWord value
  refine ⟨_, _, _, written_lit false (Literal.ofWord value).text ?_ isNumber_ofWord
    literalOf_ofWord bits bits⟩
  exact String.empty_append.symm

/-- A truth value is written as a number with the same bits. -/
theorem written_bool (value : Bool) : ∃ text argument term,
    Written (.lit (.ofBool value)) text argument term := by
  have read : ∀ value : Bool, IsNumber (if value then "1" else "0").toList ∧
      Literal.render (.ofBool value) false = "" ++ (if value then "1" else "0") ∧
      (Literal.ofBool value).bits = .ok (if value then 1 else 0) ∧
      (Parser.literalOf false (Parser.withoutUnderscores (if value then "1" else "0"))).bits =
        .ok (if value then 1 else 0) := by
    decide
  obtain ⟨number, shown, bits, bits'⟩ := read value
  exact ⟨_, _, _, written_lit false _ shown number rfl bits bits'⟩

/-- The sign and the digits of a displacement in front of a bracket. -/
theorem spells_displacement (negative : Bool) {rest : List Char} {words : List Word}
    (spells : Spells (']' :: rest) words) (n : Nat) :
    Breaks (((if negative then "-" else "+") ++ n.repr).toList ++ ']' :: rest) ∧
      Spells (((if negative then "-" else "+") ++ n.repr).toList ++ ']' :: rest)
        (Displacement.words ⟨negative, n.repr⟩ ++ words) := by
  have number := Spells.number (@isNumber_repr n) (breaks_cons (by decide)) spells
  rw [String.ofList_toList] at number
  rw [String.toList_append]
  cases negative with
  | false => exact ⟨breaks_cons (by decide), .mark (by decide) number⟩
  | true => exact ⟨breaks_cons (by decide), .mark (by decide) number⟩

/-- What is written of a displacement behind its base. -/
theorem written_displacement (base : String) (disp : Int32) :
    ∃ (text : String) (given : Option Displacement),
      Listing.address base disp.toInt = base ++ text ∧
        given.elim (some 0) (fun given => Parser.displacement? given.negative given.digits) =
          some disp ∧
        ∀ {rest : List Char} {words : List Word}, Spells (']' :: rest) words →
          Breaks (text.toList ++ ']' :: rest) ∧
            Spells (text.toList ++ ']' :: rest) (given.elim [] Displacement.words ++ words) := by
  unfold Listing.address
  rcases Int.lt_trichotomy disp.toInt 0 with below | zero | above
  · have value : Parser.displacement? true (-disp.toInt).toNat.repr = some disp :=
      displacement?_repr (by rw [if_pos rfl]; omega)
    refine ⟨"-" ++ (-disp.toInt).toNat.repr, some ⟨true, (-disp.toInt).toNat.repr⟩, ?_, ?_,
      fun spells => spells_displacement true spells _⟩
    · rw [if_neg (by omega), if_pos below, Int.toString_eq_repr, Int.repr_eq_if,
        if_neg (by omega)]
    · rw [Option.elim_some]
      exact value
  · refine ⟨"", none, ?_, ?_, fun spells => ⟨breaks_cons (by decide), spells⟩⟩
    · rw [if_neg (by omega), if_neg (by omega), String.append_empty]
    · exact congrArg some (Int32.toInt_inj.mp zero.symm)
  · have value : Parser.displacement? false disp.toInt.toNat.repr = some disp :=
      displacement?_repr (by rw [if_neg Bool.false_ne_true]; omega)
    refine ⟨"+" ++ disp.toInt.toNat.repr, some ⟨false, disp.toInt.toNat.repr⟩, ?_, ?_,
      fun spells => spells_displacement false spells _⟩
    · rw [if_pos above, Int.toString_eq_repr, Int.repr_eq_if, if_pos (by omega),
        String.append_assoc]
    · rw [Option.elim_some]
      exact value

/-- An address in brackets. -/
theorem written_address (base : Phys) (disp : Int32) : ∃ given : Option Displacement,
    given.elim (some 0) (fun given => Parser.displacement? given.negative given.digits) =
        some disp ∧
      ∀ {rest : List Char} {words : List Word}, Spells rest words →
        Spells (("[" ++ Listing.address base.text disp.toInt ++ "]").toList ++ rest)
          (.mark '[' :: (Name.words ⟨base.text, .none⟩ ++
            (given.elim [] Displacement.words ++ [.mark ']'])) ++ words) := by
  obtain ⟨text, given, shown, means, spells⟩ := written_displacement base.text disp
  refine ⟨given, means, fun {rest words} later => ?_⟩
  have name : IsName base.text.toList := by
    have known : base.name? .s64 = some base.text := rfl
    exact (name_register _ (mem_table known)).1
  have closed : Spells (']' :: rest) (.mark ']' :: words) := .mark (by decide) later
  obtain ⟨breaks, behind⟩ := spells closed
  have read := Spells.mark (c := '[') (by decide) (Spells.name name breaks behind)
  rw [shown]
  rw [String.ofList_toList] at read
  simpa [String.toList_append, Name.words, Suffix.words, Suffix.none] using read

theorem written_mem (base : Phys) (width : Size) (disp : Int32) {size : Size}
    (general : size ≠ .high8) : ∃ text argument term,
      Written (.mem (.ofBase (.fix base width) disp size)) text argument term := by
  obtain ⟨given, displaced, spells⟩ := written_address base disp
  have known : base.name? .s64 = some base.text := rfl
  have based := ref?_register known
  have keyword : ∀ size : Size, size ≠ .high8 → size ≠ .unsized →
      IsName size.keyword.toList ∧ Parser.sizeKeyword? size.keyword = some size := by
    intro size
    cases size <;> decide
  have solid : Solid ("[" ++ Listing.address base.text disp.toInt ++ "]").toList := by
    have left : Solid ['['] := ⟨⟨'[', rfl, by decide⟩, '[', rfl, by decide⟩
    have right : Solid [']'] := ⟨⟨']', rfl, by decide⟩, ']', rfl, by decide⟩
    have both : Solid (['['] ++ ((Listing.address base.text disp.toInt).toList ++ [']'])) :=
      left.append right
    simpa [String.toList_append] using both
  by_cases unsized : size = .unsized
  · subst unsized
    refine ⟨"[" ++ Listing.address base.text disp.toInt ++ "]",
      .cell none (.register ⟨base.text, .none⟩) given,
      .mem .nowhere .unsized (.reg ⟨.nowhere, base.text, false, some base, "", .s64⟩) disp,
      fun timeline tick => rfl, solid, fun _ later => spells later, ?_, .mem⟩
    simp only [Argument.term?, displaced, Base.ref?, based]
    rfl
  · obtain ⟨name, isWidth⟩ := keyword size general unsized
    have ptr : IsName ['P', 'T', 'R'] := by decide
    refine ⟨size.keyword ++ " PTR " ++ ("[" ++ Listing.address base.text disp.toInt ++ "]"),
      .cell (some ⟨size.keyword, some "PTR"⟩) (.register ⟨base.text, .none⟩) given,
      .mem .nowhere size (.reg ⟨.nowhere, base.text, false, some base, "", .s64⟩) disp,
      fun timeline tick => ?_, ?_, fun _ later => ?_, ?_, .mem⟩
    · exact congrArg Except.ok (if_neg unsized)
    · have both : Solid (size.keyword.toList ++ ([' ', 'P', 'T', 'R', ' '] ++
          ("[" ++ Listing.address base.text disp.toInt ++ "]").toList)) := name.solid.append solid
      simpa [String.toList_append] using both
    · have read := Spells.name name (breaks_cons (by decide))
        (.blank (.name ptr (breaks_cons (by decide)) (.blank (spells later))))
      rw [String.ofList_toList] at read
      simpa [Argument.words, Width.words, Base.words, String.toList_append] using read
    · have isPtr : (some "PTR").all (fun word => lowerCase word = "ptr") = true := by decide
      have known : Width.size? ⟨size.keyword, some "PTR"⟩ = some size :=
        (if_pos isPtr).trans isWidth
      simp only [Argument.term?, displaced, Base.ref?, based, Option.elim_some, known]
      rfl

theorem Writable.written {operand : Operand} (writable : Writable operand) :
    ∃ text argument term, Written operand text argument term := by
  cases writable with
  | reg spelled =>
      obtain ⟨name, known⟩ := Option.isSome_iff_exists.mp spelled
      exact ⟨_, _, _, written_reg known⟩
  | mem base width disp general => exact written_mem base width disp general
  | int value => exact written_int value
  | word value => exact written_word value
  | bool value => exact written_bool value

end Operands

end X64Backend.Block
