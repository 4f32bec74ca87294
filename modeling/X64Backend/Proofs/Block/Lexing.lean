import Mathlib.Data.List.TakeWhile
import Mathlib.Logic.Function.Iterate
import X64Backend.Proofs.Block.Spelling

/-!
Reading a text word by word loses nothing.  Every byte of a text is a byte of one word or is skipped
in front of one, and the place of a word can be told from the bytes in front of it alone.
-/

namespace X64Backend.Block

/-- The place behind some bytes: one line further for every newline, and one column further for
every byte behind the last of them. -/
def placeBehind (front : List UInt8) : Pos :=
  ⟨front.count (byteOf '\n') + 1,
    (front.reverse.takeWhile fun byte => byte ≠ byteOf '\n').length + 1⟩

/-- The bytes that are skipped wherever a word may start. -/
def blanks : List UInt8 := [' ', '\t', '\r', '\n'].map byteOf

/-- The bytes that a comment starts with. -/
def commentMarks : List (List UInt8) := [[byteOf '#'], [byteOf '/', byteOf '/']]

/-- A line ends in front of a text. -/
def LineEnds (text : List UInt8) : Prop :=
  ∀ byte ∈ text.head?, byte = byteOf '\n'

/-- Bytes in front of the rest of a text that belong to no word: blanks, and comments up to the end
of their line. -/
inductive Skipped : List UInt8 → List UInt8 → Prop where
  | nil {rest : List UInt8} : Skipped [] rest
  | blank {byte : UInt8} {gap rest : List UInt8} :
      byte ∈ blanks → Skipped gap rest → Skipped (byte :: gap) rest
  | comment {mark body gap rest : List UInt8} :
      mark ∈ commentMarks → byteOf '\n' ∉ body → LineEnds (gap ++ rest) → Skipped gap rest →
        Skipped (mark ++ body ++ gap) rest

/-- Nothing can be skipped in front of a text. -/
def StartsWord (text : List UInt8) : Prop :=
  ∀ byte ∈ text.head?, byte ∉ blanks ∧ ∀ mark ∈ commentMarks, ¬ mark <+: text

/-- The longest word of bytes of a class in front of the rest of a text. -/
structure Longest (starts inWord : UInt8 → Bool) (word rest : List UInt8) : Prop where
  first : ∃ byte ∈ word.head?, starts byte = true
  every : ∀ byte ∈ word, inWord byte = true
  ends : ∀ byte ∈ rest.head?, inWord byte = false

/-- A word, the bytes that it is made of and the rest of the text.  Its text has exactly these bytes,
and that of a byte that starts no word is the character with its number. -/
inductive Spelled : Word → List UInt8 → List UInt8 → Prop where
  | stop : Spelled .stop [] []
  | name {text : String} {rest : List UInt8} :
      Longest isIdentStart isIdentByte (Text.bytes text) rest →
        Spelled (.name text) (Text.bytes text) rest
  | number {text : String} {rest : List UInt8} :
      Longest isDigitByte isNumberByte (Text.bytes text) rest →
        Spelled (.number text) (Text.bytes text) rest
  | mark {c : Char} {rest : List UInt8} :
      c ∈ marks → Spelled (.mark c) (Text.bytes (String.ofList [c])) rest
  | illegal {byte : UInt8} {rest : List UInt8} :
      isIdentStart byte = false → isDigitByte byte = false → (∀ c ∈ marks, byte ≠ byteOf c) →
        Spelled ⟨.illegal, String.ofList [Char.ofNat byte.toNat]⟩ [byte] rest

section Places

variable {front word : List UInt8}

theorem placeBehind_newline (front : List UInt8) :
    placeBehind (front ++ [byteOf '\n']) = ⟨(placeBehind front).line + 1, 1⟩ := by
  simp [placeBehind]

/-- Within a line the column counts the bytes. -/
theorem placeBehind_append (front : List UInt8) (plain : byteOf '\n' ∉ word) :
    placeBehind (front ++ word) =
      ⟨(placeBehind front).line, (placeBehind front).column + word.length⟩ := by
  have other : ∀ byte ∈ word.reverse, decide (byte ≠ byteOf '\n') = true := fun byte member =>
    decide_eq_true fun same => plain (same ▸ List.mem_reverse.mp member)
  simp only [placeBehind, List.count_append, List.count_eq_zero_of_not_mem plain, Nat.add_zero,
    List.reverse_append, List.takeWhile_append_of_pos other, List.length_append, List.length_reverse]
  rw [Nat.add_comm word.length, Nat.add_right_comm]

end Places

section Skipping

variable {bytes front rest : List UInt8} {byte : UInt8}

theorem mem_blanks : byte ∈ blanks ↔ byte = byteOf '\n' ∨ isSpaceByte byte = true := by
  simp only [blanks, isSpaceByte, List.map_cons, List.map_nil, List.mem_cons, List.not_mem_nil,
    or_false, Bool.or_eq_true, decide_eq_true_eq]
  tauto

/-- A comment starts where one of its marks stands. -/
theorem startsComment_iff :
    startsComment byte rest = true ↔ ∃ mark ∈ commentMarks, mark <+: byte :: rest := by
  rw [startsComment, Bool.or_eq_true, Bool.and_eq_true, decide_eq_true_eq, decide_eq_true_eq,
    decide_eq_true_eq, eq_comm, @eq_comm _ byte (byteOf '/')]
  cases rest <;> simp [commentMarks, List.cons_prefix_cons, @eq_comm _ (byteOf '/')]

theorem skipBlank_blank (blank : byte ∈ blanks) (rest front : List UInt8) :
    skipBlank false (byte :: rest) (placeBehind front) =
      skipBlank false rest (placeBehind (front ++ [byte])) := by
  by_cases newline : byte = byteOf '\n'
  · rw [skipBlank, if_pos newline, newline, placeBehind_newline]
  · have space := (mem_blanks.mp blank).resolve_left newline
    rw [skipBlank, if_neg newline, if_pos (by simp [space]),
      placeBehind_append front (by simpa using Ne.symm newline), List.length_singleton]

/-- In a comment everything up to the end of the line is skipped. -/
theorem skipBlank_inComment (bytes : List UInt8) (pos : Pos) :
    skipBlank true bytes pos =
      skipBlank false (bytes.dropWhile fun byte => byte ≠ byteOf '\n')
        ⟨pos.line, pos.column + (bytes.takeWhile fun byte => byte ≠ byteOf '\n').length⟩ := by
  induction bytes generalizing pos with
  | nil => rfl
  | cons byte rest inductionHypothesis =>
    by_cases newline : byte = byteOf '\n'
    · simp [skipBlank, newline]
    · rw [skipBlank, if_neg newline, if_pos (by simp), inductionHypothesis]
      simp [newline, Nat.add_assoc, Nat.add_comm 1]

theorem not_mem_takeWhile (bytes : List UInt8) :
    byteOf '\n' ∉ bytes.takeWhile fun byte => byte ≠ byteOf '\n' := fun member => by
  simpa using List.mem_takeWhile_imp member

theorem skipBlank_comment (other : byte ∉ blanks) (comment : startsComment byte rest = true)
    (front : List UInt8) :
    skipBlank false (byte :: rest) (placeBehind front) =
      skipBlank false (rest.dropWhile fun byte => byte ≠ byteOf '\n')
        (placeBehind (front ++ byte :: rest.takeWhile fun byte => byte ≠ byteOf '\n')) := by
  obtain ⟨newline, space⟩ := not_or.mp (mt mem_blanks.mpr other)
  have plain : byteOf '\n' ∉ byte :: rest.takeWhile fun byte => byte ≠ byteOf '\n' :=
    List.not_mem_cons_of_ne_of_not_mem (Ne.symm newline) (not_mem_takeWhile rest)
  rw [skipBlank, if_neg newline, if_neg (by simpa using space), if_pos comment,
    skipBlank_inComment, placeBehind_append front plain, List.length_cons, Nat.add_assoc,
    Nat.add_comm 1]

/-- The line of a comment is one of its marks and a rest without a newline. -/
theorem comment_line (starts : startsComment byte rest = true) :
    ∃ mark body, mark ∈ commentMarks ∧ byteOf '\n' ∉ body ∧
      byte :: (rest.takeWhile fun byte => byte ≠ byteOf '\n') = mark ++ body := by
  simp only [startsComment, Bool.or_eq_true, Bool.and_eq_true, decide_eq_true_eq] at starts
  rcases starts with rfl | ⟨rfl, second⟩
  · exact ⟨[byteOf '#'], _, by simp [commentMarks], not_mem_takeWhile rest, rfl⟩
  · obtain ⟨rest, rfl⟩ := List.head?_eq_some_iff.mp second
    refine ⟨[byteOf '/', byteOf '/'], _, by simp [commentMarks], not_mem_takeWhile rest, ?_⟩
    rw [List.takeWhile_cons_of_pos (by decide)]
    rfl

theorem lineEnds_dropWhile (bytes : List UInt8) :
    LineEnds (bytes.dropWhile fun byte => byte ≠ byteOf '\n') := by
  intro byte first
  have stopped := List.head?_dropWhile_not (fun byte => decide (byte ≠ byteOf '\n')) bytes
  rw [Option.mem_def] at first
  rw [first] at stopped
  simpa using stopped

/-- Where a word starts, nothing is skipped. -/
theorem startsWord_cons (blank : byte ∉ blanks) (comment : ¬ startsComment byte rest = true) :
    StartsWord (byte :: rest) := by
  rintro _ ⟨⟩
  exact ⟨blank, fun mark known here => comment (startsComment_iff.mpr ⟨mark, known, here⟩)⟩

/-- What is skipped consists of blanks and comments, and nothing more could be skipped. -/
theorem skipBlank_skips (bytes front : List UInt8) :
    ∃ gap rest, bytes = gap ++ rest ∧
      skipBlank false bytes (placeBehind front) = ⟨rest, placeBehind (front ++ gap)⟩ ∧
      Skipped gap rest ∧ StartsWord rest := by
  -- behind a comment the text goes on with the end of its line, not with its next byte
  induction length : bytes.length using Nat.strong_induction_on generalizing bytes front with
  | _ length inductionHypothesis =>
    subst length
    cases bytes with
    | nil => exact ⟨[], [], rfl, by simp [skipBlank], .nil, nofun⟩
    | cons byte bytes =>
      by_cases blank : byte ∈ blanks
      · obtain ⟨gap, rest, rfl, read, skipped, stops⟩ :=
          inductionHypothesis _ (Nat.lt_succ_self _) bytes (front ++ [byte]) rfl
        refine ⟨byte :: gap, rest, rfl, ?_, .blank blank skipped, stops⟩
        rw [skipBlank_blank blank, read, List.append_assoc, List.singleton_append]
      · by_cases comment : startsComment byte bytes = true
        · obtain ⟨mark, body, known, plain, line⟩ := comment_line comment
          have shorter : (bytes.dropWhile fun byte => byte ≠ byteOf '\n').length <
              (byte :: bytes).length := Nat.lt_succ_of_le (List.length_dropWhile_le _ _)
          obtain ⟨gap, rest, split, read, skipped, stops⟩ :=
            inductionHypothesis _ shorter _ (front ++ (mark ++ body)) rfl
          rw [List.append_assoc] at read
          refine ⟨mark ++ body ++ gap, rest, ?_, ?_,
            .comment known plain (split ▸ lineEnds_dropWhile bytes) skipped, stops⟩
          · rw [← line, List.append_assoc, ← split, List.cons_append,
              List.takeWhile_append_dropWhile]
          · rw [skipBlank_comment blank comment, line, read]
        · obtain ⟨newline, space⟩ := not_or.mp (mt mem_blanks.mpr blank)
          refine ⟨[], byte :: bytes, rfl, ?_, .nil, startsWord_cons blank comment⟩
          rw [List.append_nil]
          exact skipBlank_word bytes _ newline (by simpa using space) (by simpa using comment)

end Skipping

section Words

variable {byte : UInt8} {bytes front rest word : List UInt8} {starts inWord : UInt8 → Bool}

/-- A class of bytes for words: they are ASCII, and none is a newline. -/
def Wordy (inWord : UInt8 → Bool) : Prop :=
  ∀ byte, inWord byte = true → byte.toNat < 128 ∧ byte ≠ byteOf '\n'

theorem wordy_ident : Wordy isIdentByte := by
  intro byte inWord
  refine ⟨?_, fun same => absurd (same ▸ inWord) (by decide)⟩
  have below : ∀ {low high : Char}, byteOf high < 128 → isBetween low high byte = true →
      byte.toNat < 128 := fun small between => by
    simp only [isBetween, Bool.and_eq_true, decide_eq_true_eq] at between
    exact UInt8.lt_iff_toNat_lt.mp (UInt8.lt_of_le_of_lt between.2 small)
  simp only [isIdentByte, isIdentStart, isDigitByte, Bool.or_eq_true, decide_eq_true_eq] at inWord
  rcases inWord with (((rfl | rfl) | lower) | upper) | digit
  · decide
  · decide
  · exact below (by decide) lower
  · exact below (by decide) upper
  · exact below (by decide) digit

theorem wordy_number : Wordy isNumberByte :=
  fun byte inWord => wordy_ident byte (isIdentByte_of_number inWord)

/-- ASCII bytes are the bytes of the text that they make. -/
theorem bytes_textOfBytes (ascii : ∀ byte ∈ word, byte.toNat < 128) :
    Text.bytes (textOfBytes word) = word := by
  have number : ∀ byte ∈ word, (Char.ofNat byte.toNat).toNat = byte.toNat := fun byte member => by
    have valid : byte.toNat.isValidChar := .inl (Nat.lt_trans (ascii byte member) (by decide))
    rw [Char.ofNat, dif_pos valid]
    rfl
  rw [textOfBytes, Text.bytes_of_ascii, String.toList_ofList, List.map_map]
  · refine (List.map_congr_left fun byte member => ?_).trans (List.map_id word)
    rw [Function.comp_apply, byteOf, number byte member]
    exact UInt8.ofNat_toNat
  · intro c member
    rw [String.toList_ofList] at member
    obtain ⟨byte, known, rfl⟩ := List.mem_map.mp member
    rw [number byte known]
    exact ascii byte known

theorem Longest.wordy (wordy : Wordy inWord) (longest : Longest starts inWord word rest) :
    Text.bytes (textOfBytes word) = word ∧ byteOf '\n' ∉ word :=
  ⟨bytes_textOfBytes fun byte member => (wordy byte (longest.every byte member)).1,
    fun member => (wordy _ (longest.every _ member)).2 rfl⟩

/-- The longest word of a class is taken where one starts. -/
theorem takeWord_reads {kind : TokenKind} (wordy : Wordy inWord)
    (spells : ∀ {text : String} {rest : List UInt8},
      Longest starts inWord (Text.bytes text) rest → Spelled ⟨kind, text⟩ (Text.bytes text) rest)
    (first : starts byte = true) (within : inWord byte = true) (bytes front : List UInt8) :
    ∃ word rest, byte :: bytes = word ++ rest ∧
      Spelled (takeWord kind inWord ⟨byte :: bytes, placeBehind front⟩).1.word word rest ∧
      (takeWord kind inWord ⟨byte :: bytes, placeBehind front⟩).1.pos = placeBehind front ∧
      (takeWord kind inWord ⟨byte :: bytes, placeBehind front⟩).2 =
        ⟨rest, placeBehind (front ++ word)⟩ := by
  have split := List.takeWhile_append_dropWhile (p := inWord) (l := byte :: bytes)
  have longest : Longest starts inWord ((byte :: bytes).takeWhile inWord)
      ((byte :: bytes).dropWhile inWord) := by
    refine ⟨⟨byte, by rw [List.takeWhile_cons_of_pos within]; rfl, first⟩,
      fun _ member => List.mem_takeWhile_imp member, fun next found => ?_⟩
    have stopped := List.head?_dropWhile_not inWord (byte :: bytes)
    rw [Option.mem_def.mp found] at stopped
    simpa using stopped
  obtain ⟨known, plain⟩ := longest.wordy wordy
  have spelled := spells (known.symm ▸ longest)
  rw [known] at spelled
  have dropped := (congrArg (List.drop _) split.symm).trans List.drop_left
  refine ⟨_, _, split.symm, spelled, rfl, ?_⟩
  rw [placeBehind_append front plain, takeWord, dropped]

/-- A byte that is no mark is a word of its own that means nothing. -/
theorem kindOfByte_illegal (other : ∀ c ∈ marks, byte ≠ byteOf c) : kindOfByte byte = .illegal := by
  simp only [marks, List.forall_mem_cons] at other
  simp [kindOfByte, other]

/-- A byte that starts neither a name nor a number is a word of its own. -/
theorem spelled_single (name : isIdentStart byte = false) (digit : isDigitByte byte = false)
    (rest : List UInt8) :
    Spelled ⟨kindOfByte byte, textOfBytes [byte]⟩ [byte] rest := by
  by_cases mark : ∃ c ∈ marks, byte = byteOf c
  · obtain ⟨c, known, rfl⟩ := mark
    have ascii : ∀ c ∈ marks, c.toNat < 128 := forall_of_all (by decide)
    have single : ∀ d ∈ [c], d.toNat < 128 := by simpa using ascii c known
    have shown : textOfBytes [byteOf c] = String.ofList [c] := textOfBytes_map single
    have bytes : Text.bytes (String.ofList [c]) = [byteOf c] := by
      rw [Text.bytes_of_ascii (by simpa using single)]
      simp
    rw [shown, ← bytes]
    exact .mark known
  · have other : ∀ c ∈ marks, byte ≠ byteOf c := fun c known same => mark ⟨c, known, same⟩
    rw [kindOfByte_illegal other]
    exact .illegal name digit other

/-- The next word of a text, with what is skipped in front of it and where the reader is behind
it. -/
theorem nextToken_reads (bytes front : List UInt8) :
    ∃ gap word rest, bytes = gap ++ word ++ rest ∧ Skipped gap (word ++ rest) ∧
      StartsWord (word ++ rest) ∧
      Spelled (nextToken ⟨bytes, placeBehind front⟩).1.word word rest ∧
      (nextToken ⟨bytes, placeBehind front⟩).1.pos = placeBehind (front ++ gap) ∧
      (nextToken ⟨bytes, placeBehind front⟩).2 = ⟨rest, placeBehind (front ++ gap ++ word)⟩ := by
  obtain ⟨gap, text, rfl, read, skipped, stops⟩ := skipBlank_skips bytes front
  simp only [nextToken, read]
  cases text with
  | nil => exact ⟨gap, [], [], by simp, skipped, stops, .stop, rfl, by simp⟩
  | cons byte bytes =>
    by_cases name : isIdentStart byte = true
    · obtain ⟨word, rest, split, reads⟩ :=
        takeWord_reads wordy_ident .name name (isIdentByte_of_start name) bytes (front ++ gap)
      rw [split] at skipped stops
      refine ⟨gap, word, rest, by rw [split, List.append_assoc], skipped, stops, ?_⟩
      simpa only [name, if_true] using reads
    · rw [Bool.not_eq_true] at name
      by_cases digit : isDigitByte byte = true
      · obtain ⟨word, rest, split, reads⟩ := takeWord_reads wordy_number .number digit
          (isNumberByte_of_digit digit) bytes (front ++ gap)
        rw [split] at skipped stops
        refine ⟨gap, word, rest, by rw [split, List.append_assoc], skipped, stops, ?_⟩
        simpa only [name, digit, Bool.false_eq_true, if_false, if_true] using reads
      · rw [Bool.not_eq_true] at digit
        have plain : byteOf '\n' ∉ [byte] := fun member =>
          (stops byte rfl).1 (mem_blanks.mpr (.inl (List.mem_singleton.mp member).symm))
        refine ⟨gap, [byte], bytes, by simp, skipped, stops, ?_⟩
        simp only [name, digit, Bool.false_eq_true, if_false, placeBehind_append _ plain,
          List.length_singleton]
        exact ⟨spelled_single name digit bytes, trivial, trivial⟩

end Words

/-- Where the reader is after some calls. -/
def readerAt (source : List UInt8) (calls : Nat) : Cursor :=
  (fun cursor => (nextToken cursor).2)^[calls] ⟨source, ⟨1, 1⟩⟩

/-- The word that a call gives, counted from zero. -/
def tokenAt (source : List UInt8) (call : Nat) : Token :=
  (nextToken (readerAt source call)).1

/-- How many bytes were read after some calls. -/
def offsetAt (source : List UInt8) (calls : Nat) : Nat :=
  source.length - (readerAt source calls).rest.length

/-- What a call reads: from where the reader is, bytes are skipped up to where the word starts, and
from there to where the reader is then, the bytes are those of the word. -/
structure ReadsAt (source : List UInt8) (call start : Nat) : Prop where
  behind : offsetAt source call ≤ start
  ahead : start ≤ offsetAt source (call + 1)
  within : offsetAt source (call + 1) ≤ source.length
  skipped : Skipped (source.extract (offsetAt source call) start) (source.drop start)
  starts : StartsWord (source.drop start)
  spelled : Spelled (tokenAt source call).word
    (source.extract start (offsetAt source (call + 1))) (source.drop (offsetAt source (call + 1)))
  placed : (tokenAt source call).pos = placeBehind (source.take start)

section Calls

variable {source : List UInt8} {call : Nat}

theorem readerAt_succ (source : List UInt8) (calls : Nat) :
    readerAt source (calls + 1) = (nextToken (readerAt source calls)).2 :=
  Function.iterate_succ_apply' ..

/-- After some calls the reader is behind some bytes of the text, in front of the others. -/
theorem readerAt_eq (source : List UInt8) (calls : Nat) :
    ∃ front rest, source = front ++ rest ∧ readerAt source calls = ⟨rest, placeBehind front⟩ := by
  induction calls with
  | zero => exact ⟨[], source, rfl, rfl⟩
  | succ calls inductionHypothesis =>
    obtain ⟨front, bytes, rfl, reader⟩ := inductionHypothesis
    obtain ⟨gap, word, rest, rfl, -, -, -, -, next⟩ := nextToken_reads bytes front
    exact ⟨front ++ gap ++ word, rest, by simp, by rw [readerAt_succ, reader, next]⟩

/-- The bytes from one place to another are those in between. -/
theorem extract_between (front middle back : List UInt8) :
    (front ++ middle ++ back).extract front.length (front ++ middle).length = middle := by
  simp [List.extract_eq_take_drop]

/-- Every call reads one word behind what it skips. -/
theorem exists_readsAt (source : List UInt8) (call : Nat) : ∃ start, ReadsAt source call start := by
  obtain ⟨front, bytes, split, reader⟩ := readerAt_eq source call
  obtain ⟨gap, word, rest, rfl, skipped, starts, spelled, placed, next⟩ :=
    nextToken_reads bytes front
  rw [← reader] at spelled placed next
  rw [← readerAt_succ] at next
  -- the offsets are lengths of fronts, by which the parts of the text are cut out of it again
  have behindGap : source = front ++ gap ++ (word ++ rest) := by simp [split]
  have behindWord : source = front ++ gap ++ word ++ rest := by simp [split]
  have here : offsetAt source call = front.length := by
    rw [offsetAt, reader, split, List.length_append, Nat.add_sub_cancel]
  have there : offsetAt source (call + 1) = (front ++ gap ++ word).length := by
    rw [offsetAt, next, behindWord, @List.length_append _ _ rest, Nat.add_sub_cancel]
  have gapBytes : source.extract front.length (front ++ gap).length = gap :=
    behindGap ▸ extract_between front gap (word ++ rest)
  have wordBytes : source.extract (front ++ gap).length (front ++ gap ++ word).length = word :=
    behindWord ▸ extract_between (front ++ gap) word rest
  have afterGap : source.drop (front ++ gap).length = word ++ rest := behindGap ▸ List.drop_left
  have afterWord : source.drop (front ++ gap ++ word).length = rest := behindWord ▸ List.drop_left
  have taken : source.take (front ++ gap).length = front ++ gap := behindGap ▸ List.take_left
  exact ⟨(front ++ gap).length,
    { behind := here ▸ (List.prefix_append front gap).length_le
      ahead := there ▸ (List.prefix_append (front ++ gap) word).length_le
      within := there ▸ behindWord ▸ (List.prefix_append (front ++ gap ++ word) rest).length_le
      skipped := by rwa [here, gapBytes, afterGap]
      starts := by rwa [afterGap]
      spelled := by rwa [there, wordBytes, afterWord]
      placed := by rwa [taken] }⟩

theorem length_readerAt_le (source : List UInt8) (calls : Nat) :
    (readerAt source calls).rest.length ≤ source.length := by
  obtain ⟨front, rest, rfl, reader⟩ := readerAt_eq source calls
  rw [reader]
  exact (List.suffix_append front rest).length_le

/-- A call that does not give the word for the end reads at least one byte. -/
theorem offsetAt_lt_succ (other : (tokenAt source call).kind ≠ .eof) :
    offsetAt source call < offsetAt source (call + 1) := by
  have shorter := length_nextToken other
  rw [← readerAt_succ] at shorter
  have within := length_readerAt_le source call
  unfold offsetAt
  omega

/-- From any call on, the words up to the end are those of the calls, and the first of them that is
the word for the end is the last. -/
theorem tokensFrom_readerAt {steps calls : Nat}
    (enough : (readerAt source calls).rest.length < steps) :
    ∃ count ≤ (readerAt source calls).rest.length,
      tokensFrom steps (readerAt source calls) =
        (List.range' calls (count + 1)).map (tokenAt source) ∧
      (tokenAt source (calls + count)).kind = .eof ∧
      ∀ call, calls ≤ call → call < calls + count → (tokenAt source call).kind ≠ .eof := by
  induction steps generalizing calls with
  | zero => exact absurd enough (Nat.not_lt_zero _)
  | succ steps inductionHypothesis =>
    have step : tokensFrom (steps + 1) (readerAt source calls) =
        if (tokenAt source calls).kind = .eof then [tokenAt source calls]
        else tokenAt source calls :: tokensFrom steps (readerAt source (calls + 1)) := by
      rw [readerAt_succ]
      rfl
    by_cases eof : (tokenAt source calls).kind = .eof
    · refine ⟨0, Nat.zero_le _, ?_, eof, fun call from_ before => absurd from_ (by omega)⟩
      rw [step, if_pos eof]
      rfl
    · have shorter := length_nextToken eof
      rw [← readerAt_succ] at shorter
      obtain ⟨count, few, words, last, others⟩ := @inductionHypothesis (calls + 1) (by omega)
      refine ⟨count + 1, by omega, ?_, ?_, fun call behind before => ?_⟩
      · rw [step, if_neg eof, words, List.range'_succ (s := calls), List.map_cons]
      · rwa [← Nat.add_assoc, Nat.add_right_comm]
      · rcases Nat.eq_or_lt_of_le behind with rfl | later
        · exact eof
        · exact others call later (by omega)

/-- Reading a text word by word comes to its end after at most as many words as there are bytes, and
every word before takes some of them.  The bytes of the words come one behind the other, all others
are blanks and comments up to the end of their line, names and numbers are as long as they can be,
and the line and column of a word count the newlines in front of it and the bytes since the last of
them. -/
theorem tokens_cover (source : List UInt8) :
    (∃ count ≤ source.length,
      tokensOfBytes source = (List.range (count + 1)).map (tokenAt source) ∧
      (tokenAt source count).kind = .eof ∧
      ∀ call < count, (tokenAt source call).kind ≠ .eof ∧
        offsetAt source call < offsetAt source (call + 1)) ∧
      ∀ call, ∃ start, ReadsAt source call start := by
  refine ⟨?_, exists_readsAt source⟩
  obtain ⟨count, few, words, last, others⟩ :=
    @tokensFrom_readerAt source _ 0 (Nat.lt_succ_self source.length)
  refine ⟨count, few, ?_, by simpa using last, fun call before => ?_⟩
  · rw [List.range_eq_range']
    exact words
  · have other := others call (Nat.zero_le _) (by simpa using before)
    exact ⟨other, offsetAt_lt_succ other⟩

end Calls

end X64Backend.Block
