import X64Backend.Proofs.Block.Words
import X64Backend.Proofs.Text.Bytes

/-!
The words of a text that was put together from words.  A text spells a list of words if it consists
of them with blanks between, where no name and no number runs on into what follows.
-/

namespace X64Backend

namespace Text

/-- An ASCII text has one byte for every character. -/
theorem bytes_of_ascii {text : String} (ascii : ∀ c ∈ text.toList, c.toNat < 128) :
    bytes text = text.toList.map Block.byteOf := by
  rw [bytes_eq_flatMap]
  generalize text.toList = chars at ascii
  induction chars with
  | nil => rfl
  | cons c rest inductionHypothesis =>
      have one : c.utf8Size = 1 := by
        rw [Char.utf8Size_eq_one_iff, UInt32.le_iff_toNat_le]
        exact Nat.le_of_lt_succ (ascii c List.mem_cons_self)
      rw [List.flatMap_cons, String.utf8EncodeChar_eq_singleton one,
        inductionHypothesis fun d member => ascii d (List.mem_cons_of_mem c member)]
      rfl

end Text

namespace Block

/-- A word without its place in the text. -/
structure Word where
  kind : TokenKind
  text : String
  deriving DecidableEq

namespace Word

/-- The word that stands for the end. -/
def stop : Word := ⟨.eof, ""⟩

/-- A word of one character. -/
def mark (c : Char) : Word := ⟨kindOfByte (byteOf c), String.ofList [c]⟩

/-- A word of letters and digits that starts with a letter. -/
def name (text : String) : Word := ⟨.ident, text⟩

/-- A word that starts with a digit. -/
def number (text : String) : Word := ⟨.number, text⟩

end Word

/-- The word that was read. -/
def Token.word (token : Token) : Word := ⟨token.kind, token.text⟩

/-- The characters that are words of their own. -/
def marks : List Char := ['$', ':', ',', ';', '[', ']', '\x7b', '\x7d', '+', '-']

/-- The characters that may stand in a name. -/
def isNameChar (c : Char) : Bool := c.toNat < 128 && isIdentByte (byteOf c)

/-- The characters that may stand in a number. -/
def isNumberChar (c : Char) : Bool := c.toNat < 128 && isNumberByte (byteOf c)

/-- A property that holds of each character of a list in turn. -/
theorem forall_of_all {p : Char → Prop} [DecidablePred p] {chars : List Char}
    (every : chars.all (fun c => decide (p c)) = true) : ∀ c ∈ chars, p c :=
  fun c member => of_decide_eq_true (List.all_eq_true.mp every c member)

/-- A name in front of a text would not run on into it. -/
def Breaks (text : List Char) : Prop :=
  ∀ c ∈ text.head?, isIdentByte (byteOf c) = false

/-- Characters that are a name. -/
structure IsName (chars : List Char) : Prop where
  starts : ∃ c ∈ chars.head?, isIdentStart (byteOf c) = true
  every : ∀ c ∈ chars, isNameChar c = true

/-- Characters that are a number. -/
structure IsNumber (chars : List Char) : Prop where
  starts : ∃ c ∈ chars.head?, isDigitByte (byteOf c) = true
  every : ∀ c ∈ chars, isNumberChar c = true

instance (chars : List Char) : Decidable (IsName chars) :=
  decidable_of_iff
    (chars.head?.any (fun c => isIdentStart (byteOf c)) = true ∧ chars.all isNameChar = true)
    ⟨fun both => ⟨(Option.any_eq_true _ _).mp both.1, List.all_eq_true.mp both.2⟩,
      fun name => ⟨(Option.any_eq_true _ _).mpr name.starts, List.all_eq_true.mpr name.every⟩⟩

instance (chars : List Char) : Decidable (IsNumber chars) :=
  decidable_of_iff
    (chars.head?.any (fun c => isDigitByte (byteOf c)) = true ∧ chars.all isNumberChar = true)
    ⟨fun both => ⟨(Option.any_eq_true _ _).mp both.1, List.all_eq_true.mp both.2⟩,
      fun number =>
        ⟨(Option.any_eq_true _ _).mpr number.starts, List.all_eq_true.mpr number.every⟩⟩

/-- A text consists of words with blanks between. -/
inductive Spells : List Char → List Word → Prop where
  | nil : Spells [] []
  | blank {text : List Char} {words : List Word} :
      Spells text words → Spells (' ' :: text) words
  | mark {c : Char} {text : List Char} {words : List Word} :
      c ∈ marks → Spells text words → Spells (c :: text) (.mark c :: words)
  | name {chars text : List Char} {words : List Word} :
      IsName chars → Breaks text → Spells text words →
        Spells (chars ++ text) (.name (String.ofList chars) :: words)
  | number {chars text : List Char} {words : List Word} :
      IsNumber chars → Breaks text → Spells text words →
        Spells (chars ++ text) (.number (String.ofList chars) :: words)

section Bytes

variable {byte : UInt8} {c : Char} {chars text : List Char}

theorem isBetween_mono {low high low' high' : Char} (below : byteOf low' ≤ byteOf low)
    (above : byteOf high ≤ byteOf high') (between : isBetween low high byte = true) :
    isBetween low' high' byte = true := by
  simp only [isBetween, Bool.and_eq_true, decide_eq_true_eq] at between ⊢
  exact ⟨UInt8.le_trans below between.1, UInt8.le_trans between.2 above⟩

/-- What may stand in a number may stand in a name. -/
theorem isIdentByte_of_number (number : isNumberByte byte = true) : isIdentByte byte = true := by
  simp only [isNumberByte, Bool.or_eq_true, decide_eq_true_eq] at number
  rcases number with ((((rfl | digit) | lower) | upper) | rfl) | rfl
  · decide
  · simp [isIdentByte, digit]
  · have letter : isBetween 'a' 'z' byte = true := isBetween_mono (by decide) (by decide) lower
    simp [isIdentByte, isIdentStart, letter]
  · have letter : isBetween 'A' 'Z' byte = true := isBetween_mono (by decide) (by decide) upper
    simp [isIdentByte, isIdentStart, letter]
  · decide
  · decide

/-- The character of a byte below 128. -/
theorem ofNat_byteOf (ascii : c.toNat < 128) : Char.ofNat (byteOf c).toNat = c := by
  have small : c.toNat % 256 = c.toNat := Nat.mod_eq_of_lt (by omega)
  simp [byteOf, small]

theorem textOfBytes_map (ascii : ∀ c ∈ chars, c.toNat < 128) :
    textOfBytes (chars.map byteOf) = String.ofList chars := by
  have same : chars.map ((fun byte : UInt8 => Char.ofNat byte.toNat) ∘ byteOf) = chars :=
    (List.map_congr_left fun c member => ofNat_byteOf (ascii c member)).trans (List.map_id chars)
  rw [textOfBytes, List.map_map, same]

theorem isNameChar_ascii (known : isNameChar c = true) : c.toNat < 128 := by
  simp only [isNameChar, Bool.and_eq_true, decide_eq_true_eq] at known
  exact known.1

theorem isNumberChar_ascii (known : isNumberChar c = true) : c.toNat < 128 := by
  simp only [isNumberChar, Bool.and_eq_true, decide_eq_true_eq] at known
  exact known.1

theorem isNumberChar_byte (known : isNumberChar c = true) : isNumberByte (byteOf c) = true := by
  simp only [isNumberChar, Bool.and_eq_true] at known
  exact known.2

theorem isNameChar_byte (known : isNameChar c = true) : isIdentByte (byteOf c) = true := by
  simp only [isNameChar, Bool.and_eq_true] at known
  exact known.2

end Bytes

section Lexing

variable {c : Char} {chars text : List Char} {words : List Word} {cursor : Cursor}

theorem nextToken_blank (rest : List UInt8) (pos : Pos) :
    nextToken ⟨byteOf ' ' :: rest, pos⟩ = nextToken ⟨rest, ⟨pos.line, pos.column + 1⟩⟩ := by
  have skipped : skipBlank false (byteOf ' ' :: rest) pos =
      skipBlank false rest ⟨pos.line, pos.column + 1⟩ := by
    rw [skipBlank, if_neg (by decide), if_pos (by decide)]
  simp only [nextToken, skipped]

/-- Nothing is skipped in front of a word. -/
theorem skipBlank_word {byte : UInt8} (rest : List UInt8) (pos : Pos) (newline : byte ≠ byteOf '\n')
    (space : isSpaceByte byte = false) (comment : startsComment byte rest = false) :
    skipBlank false (byte :: rest) pos = ⟨byte :: rest, pos⟩ := by
  simp [skipBlank, newline, space, comment]

theorem nextToken_mark (known : c ∈ marks) (rest : List UInt8) (pos : Pos) :
    nextToken ⟨byteOf c :: rest, pos⟩ =
      (⟨(Word.mark c).kind, (Word.mark c).text, pos⟩, ⟨rest, ⟨pos.line, pos.column + 1⟩⟩) := by
  have plain : ∀ c ∈ marks, byteOf c ≠ byteOf '\n' ∧ isSpaceByte (byteOf c) = false ∧
      byteOf c ≠ byteOf '#' ∧ byteOf c ≠ byteOf '/' ∧ isIdentStart (byteOf c) = false ∧
      isDigitByte (byteOf c) = false ∧ c.toNat < 128 := forall_of_all (by decide)
  obtain ⟨newline, space, hash, slash, name, digit, ascii⟩ := plain c known
  have skipped := skipBlank_word rest pos newline space (by simp [startsComment, hash, slash])
  have single : ∀ d ∈ [c], d.toNat < 128 := by simpa using ascii
  have shown : textOfBytes [byteOf c] = String.ofList [c] := textOfBytes_map single
  simp only [nextToken, skipped, name, digit, shown, Bool.false_eq_true, if_false]
  rfl

/-- The bytes of a word up to where the text goes on. -/
theorem takeWhile_word {inWord : UInt8 → Bool} (every : ∀ c ∈ chars, inWord (byteOf c) = true)
    (stops : ∀ c ∈ text.head?, inWord (byteOf c) = false) :
    ((chars ++ text).map byteOf).takeWhile inWord = chars.map byteOf := by
  rw [List.map_append, List.takeWhile_append_of_pos (by simpa using every)]
  cases text with
  | nil => simp
  | cons c rest =>
      rw [List.map_cons, List.takeWhile_cons_of_neg (by simpa using stops c rfl), List.append_nil]

theorem takeWord_word (kind : TokenKind) {inWord : UInt8 → Bool} (pos : Pos)
    (ascii : ∀ c ∈ chars, c.toNat < 128) (every : ∀ c ∈ chars, inWord (byteOf c) = true)
    (stops : ∀ c ∈ text.head?, inWord (byteOf c) = false) :
    takeWord kind inWord ⟨(chars ++ text).map byteOf, pos⟩ =
      (⟨kind, String.ofList chars, pos⟩,
        ⟨text.map byteOf, ⟨pos.line, pos.column + chars.length⟩⟩) := by
  simp only [takeWord, takeWhile_word every stops, textOfBytes_map ascii, List.length_map]
  rw [List.map_append, List.drop_left' (by simp)]

theorem isIdentStart_plain {byte : UInt8} (starts : isIdentStart byte = true) :
    byte ≠ byteOf '\n' ∧ isSpaceByte byte = false ∧ ∀ rest, startsComment byte rest = false := by
  have other : ∀ c ∈ ['\n', ' ', '\t', '\r', '#', '/'], byte ≠ byteOf c := by
    intro c member same
    have none : ∀ c ∈ ['\n', ' ', '\t', '\r', '#', '/'], isIdentStart (byteOf c) = false :=
      forall_of_all (by decide)
    rw [same, none c member] at starts
    cases starts
  simp only [List.mem_cons, List.not_mem_nil, or_false, forall_eq_or_imp, forall_eq] at other
  simp [isSpaceByte, startsComment, other]

theorem isDigitByte_plain {byte : UInt8} (digit : isDigitByte byte = true) :
    isIdentStart byte = false ∧ byte ≠ byteOf '\n' ∧ isSpaceByte byte = false ∧
      ∀ rest, startsComment byte rest = false := by
  have other : ∀ c ∈ ['\n', ' ', '\t', '\r', '#', '/', '_', '.'], byte ≠ byteOf c := by
    intro c member same
    have none : ∀ c ∈ ['\n', ' ', '\t', '\r', '#', '/', '_', '.'],
        isDigitByte (byteOf c) = false := forall_of_all (by decide)
    rw [same, none c member] at digit
    cases digit
  simp only [List.mem_cons, List.not_mem_nil, or_false, forall_eq_or_imp, forall_eq] at other
  simp only [isDigitByte, isBetween, Bool.and_eq_true, decide_eq_true_eq] at digit
  have letters : isBetween 'a' 'z' byte = false ∧ isBetween 'A' 'Z' byte = false := by
    have nine : byteOf '9' < byteOf 'a' ∧ byteOf '9' < byteOf 'A' := by decide
    simp only [isBetween, Bool.and_eq_false_iff, decide_eq_false_iff_not, UInt8.not_le]
    exact ⟨.inl (UInt8.lt_of_le_of_lt digit.2 nine.1), .inl (UInt8.lt_of_le_of_lt digit.2 nine.2)⟩
  simp [isIdentStart, isSpaceByte, startsComment, other, letters]

theorem nextToken_name (name : IsName chars) (breaks : Breaks text) (pos : Pos) :
    nextToken ⟨(chars ++ text).map byteOf, pos⟩ =
      (⟨.ident, String.ofList chars, pos⟩,
        ⟨text.map byteOf, ⟨pos.line, pos.column + chars.length⟩⟩) := by
  obtain ⟨first, found, starts⟩ := name.starts
  obtain ⟨rest, rfl⟩ := List.head?_eq_some_iff.mp found
  obtain ⟨newline, space, comment⟩ := isIdentStart_plain starts
  have skipped := skipBlank_word ((rest ++ text).map byteOf) pos newline space (comment _)
  have taken := takeWord_word .ident pos
    (fun c member => isNameChar_ascii (name.every c member))
    (fun c member => isNameChar_byte (name.every c member)) breaks
  rw [List.cons_append, List.map_cons] at taken ⊢
  simp only [nextToken, skipped, starts, if_true]
  exact taken

theorem nextToken_number (number : IsNumber chars) (breaks : Breaks text) (pos : Pos) :
    nextToken ⟨(chars ++ text).map byteOf, pos⟩ =
      (⟨.number, String.ofList chars, pos⟩,
        ⟨text.map byteOf, ⟨pos.line, pos.column + chars.length⟩⟩) := by
  obtain ⟨first, found, digit⟩ := number.starts
  obtain ⟨rest, rfl⟩ := List.head?_eq_some_iff.mp found
  obtain ⟨name, newline, space, comment⟩ := isDigitByte_plain digit
  have skipped := skipBlank_word ((rest ++ text).map byteOf) pos newline space (comment _)
  have stops : ∀ c ∈ text.head?, isNumberByte (byteOf c) = false := fun c member =>
    Bool.eq_false_iff.mpr fun byte => by
      have runsOn := isIdentByte_of_number byte
      rw [breaks c member] at runsOn
      cases runsOn
  have taken := takeWord_word .number pos
    (fun c member => isNumberChar_ascii (number.every c member))
    (fun c member => isNumberChar_byte (number.every c member)) stops
  rw [List.cons_append, List.map_cons] at taken ⊢
  simp only [nextToken, skipped, name, digit, if_true, Bool.false_eq_true, if_false]
  exact taken

end Lexing

namespace Spells

variable {text : List Char} {words : List Word}

theorem ascii (spells : Spells text words) : ∀ c ∈ text, c.toNat < 128 := by
  induction spells with
  | nil => simp
  | blank _ inductionHypothesis => simpa using inductionHypothesis
  | mark known _ inductionHypothesis =>
      have small : ∀ c ∈ marks, c.toNat < 128 := forall_of_all (by decide)
      exact List.forall_mem_cons.mpr ⟨small _ known, inductionHypothesis⟩
  | name name _ _ inductionHypothesis =>
      exact List.forall_mem_append.mpr
        ⟨fun c member => isNameChar_ascii (name.every c member), inductionHypothesis⟩
  | number number _ _ inductionHypothesis =>
      exact List.forall_mem_append.mpr
        ⟨fun c member => isNumberChar_ascii (number.every c member), inductionHypothesis⟩

theorem word_tokensFrom (spells : Spells text words) {steps : Nat} (enough : text.length < steps)
    (pos : Pos) :
    (tokensFrom steps ⟨text.map byteOf, pos⟩).map Token.word = words ++ [.stop] := by
  -- one step takes the first word, and those left are enough for the rest
  induction spells generalizing steps pos with
  | nil =>
      obtain ⟨steps, rfl⟩ := Nat.exists_eq_add_one.mpr enough
      rfl
  | @blank text words _ inductionHypothesis =>
      obtain ⟨steps, rfl⟩ := Nat.exists_eq_add_one.mpr (Nat.zero_lt_of_lt enough)
      have skipped := inductionHypothesis (Nat.lt_of_succ_lt enough) ⟨pos.line, pos.column + 1⟩
      rw [tokensFrom] at skipped ⊢
      rwa [List.map_cons, nextToken_blank]
  | @mark c text words known _ inductionHypothesis =>
      obtain ⟨steps, rfl⟩ := Nat.exists_eq_add_one.mpr (Nat.zero_lt_of_lt enough)
      have other : ∀ c ∈ marks, (Word.mark c).kind ≠ .eof := forall_of_all (by decide)
      rw [tokensFrom, List.map_cons, nextToken_mark known]
      dsimp only
      rw [if_neg (other c known), List.map_cons, inductionHypothesis (by simpa using enough)]
      rfl
  | @name chars text words name breaks _ inductionHypothesis =>
      obtain ⟨steps, rfl⟩ := Nat.exists_eq_add_one.mpr (Nat.zero_lt_of_lt enough)
      obtain ⟨first, found, -⟩ := name.starts
      obtain ⟨rest, rfl⟩ := List.head?_eq_some_iff.mp found
      rw [List.length_append, List.length_cons] at enough
      rw [tokensFrom, nextToken_name name breaks]
      dsimp only
      rw [if_neg (by decide), List.map_cons, inductionHypothesis (by omega)]
      rfl
  | @number chars text words number breaks _ inductionHypothesis =>
      obtain ⟨steps, rfl⟩ := Nat.exists_eq_add_one.mpr (Nat.zero_lt_of_lt enough)
      obtain ⟨first, found, -⟩ := number.starts
      obtain ⟨rest, rfl⟩ := List.head?_eq_some_iff.mp found
      rw [List.length_append, List.length_cons] at enough
      rw [tokensFrom, nextToken_number number breaks]
      dsimp only
      rw [if_neg (by decide), List.map_cons, inductionHypothesis (by omega)]
      rfl

/-- A text that spells some words is read as these words. -/
theorem word_tokens {source : String} (spells : Spells source.toList words) :
    (tokensOfBytes (Text.bytes source)).map Token.word = words ++ [.stop] := by
  rw [Text.bytes_of_ascii spells.ascii]
  exact spells.word_tokensFrom (by simp) ⟨1, 1⟩

end Spells

end Block

end X64Backend
