import Mathlib.Order.Bounds.Basic
import Mathlib.Order.MinMax
import X64Backend.Suggest

/-!
The distance of two byte strings is the least number of edits between them.  Edits are counted by
alignments, which go through both texts byte by byte; a table of least alignments is filled in from
the texts that are read so far, so its entries are about texts read backwards.
-/

namespace X64Backend.Suggest

variable {first middle second before columns : List UInt8} {byte other : UInt8} {count more : Nat}

/-- One edit: a byte is inserted, deleted or substituted. -/
inductive Edit : List UInt8 → List UInt8 → Prop where
  | insert (front back : List UInt8) (byte : UInt8) :
      Edit (front ++ back) (front ++ byte :: back)
  | delete (front back : List UInt8) (byte : UInt8) :
      Edit (front ++ byte :: back) (front ++ back)
  | substitute (front back : List UInt8) (old new : UInt8) :
      Edit (front ++ old :: back) (front ++ new :: back)

/-- So many edits, one after the other, turn one text into another. -/
inductive Edits : Nat → List UInt8 → List UInt8 → Prop where
  | none {text : List UInt8} : Edits 0 text text
  | step {count : Nat} {first middle second : List UInt8} :
      Edit first middle → Edits count middle second → Edits (count + 1) first second

section Edits

theorem Edit.symm (edit : Edit first second) : Edit second first := by
  cases edit with
  | insert front back byte => exact .delete front back byte
  | delete front back byte => exact .insert front back byte
  | substitute front back old new => exact .substitute front back new old

theorem Edit.cons (edit : Edit first second) (byte : UInt8) :
    Edit (byte :: first) (byte :: second) := by
  cases edit with
  | insert front back added => exact .insert (byte :: front) back added
  | delete front back dropped => exact .delete (byte :: front) back dropped
  | substitute front back old new => exact .substitute (byte :: front) back old new

theorem Edit.reverse (edit : Edit first second) : Edit first.reverse second.reverse := by
  cases edit with
  | insert front back byte => simpa using Edit.insert back.reverse front.reverse byte
  | delete front back byte => simpa using Edit.delete back.reverse front.reverse byte
  | substitute front back old new =>
      simpa using Edit.substitute back.reverse front.reverse old new

theorem Edits.trans (some : Edits count first middle) (others : Edits more middle second) :
    Edits (count + more) first second := by
  induction some with
  | none => rwa [Nat.zero_add]
  | step edit _ inductionHypothesis =>
      rw [Nat.add_right_comm]
      exact .step edit (inductionHypothesis others)

theorem Edits.symm (edits : Edits count first second) : Edits count second first := by
  induction edits with
  | none => exact .none
  | step edit _ inductionHypothesis => exact inductionHypothesis.trans (.step edit.symm .none)

theorem Edits.cons (edits : Edits count first second) (byte : UInt8) :
    Edits count (byte :: first) (byte :: second) := by
  induction edits with
  | none => exact .none
  | step edit _ inductionHypothesis => exact .step (edit.cons byte) inductionHypothesis

theorem Edits.reverse (edits : Edits count first second) :
    Edits count first.reverse second.reverse := by
  induction edits with
  | none => exact .none
  | step edit _ inductionHypothesis => exact .step edit.reverse inductionHypothesis

theorem edits_reverse_iff : Edits count first.reverse second.reverse ↔ Edits count first second :=
  ⟨fun edits => by simpa using edits.reverse, Edits.reverse⟩

theorem edits_zero_iff : Edits 0 first second ↔ first = second := by
  constructor
  · intro edits
    cases edits
    rfl
  · rintro rfl
    exact .none

end Edits

/-- The bytes of two texts, aligned in order, with so many places where they differ. -/
inductive Alignment : Nat → List UInt8 → List UInt8 → Prop where
  | nil : Alignment 0 [] []
  | same (byte : UInt8) {count : Nat} {first second : List UInt8} :
      Alignment count first second → Alignment count (byte :: first) (byte :: second)
  | insert (byte : UInt8) {count : Nat} {first second : List UInt8} :
      Alignment count first second → Alignment (count + 1) first (byte :: second)
  | delete (byte : UInt8) {count : Nat} {first second : List UInt8} :
      Alignment count first second → Alignment (count + 1) (byte :: first) second
  | substitute (old new : UInt8) {count : Nat} {first second : List UInt8} :
      Alignment count first second → Alignment (count + 1) (old :: first) (new :: second)

namespace Alignment

theorem edits (alignment : Alignment count first second) : Edits count first second := by
  induction alignment with
  | nil => exact .none
  | same byte _ inductionHypothesis => exact inductionHypothesis.cons byte
  | insert byte _ inductionHypothesis =>
      exact inductionHypothesis.trans (.step (.insert [] _ byte) .none)
  | delete byte _ inductionHypothesis => exact .step (.delete [] _ byte) inductionHypothesis
  | substitute old new _ inductionHypothesis =>
      exact .step (.substitute [] _ old new) (inductionHypothesis.cons new)

theorem refl (text : List UInt8) : Alignment 0 text text := by
  induction text with
  | nil => exact .nil
  | cons byte _ inductionHypothesis => exact .same byte inductionHypothesis

theorem insertAll (inserted : List UInt8) (alignment : Alignment count first second) :
    Alignment (inserted.length + count) first (inserted ++ second) := by
  induction inserted with
  | nil => simpa using alignment
  | cons byte rest inductionHypothesis =>
      rw [List.length_cons, Nat.add_right_comm]
      exact .insert byte inductionHypothesis

/-- Two bytes next to each other cost nothing if they are the same. -/
theorem cons (alignment : Alignment count first second) (byte other : UInt8) :
    Alignment (count + if byte = other then 0 else 1) (byte :: first) (other :: second) := by
  split
  · rename_i equal
    subst equal
    exact .same byte alignment
  · exact .substitute byte other alignment

/-- What becomes of the first byte: behind some insertions it is deleted, or it is next to a byte of
the other text. -/
theorem head (alignment : Alignment count (byte :: first) second) :
    ∃ inserted rest others, second = inserted ++ rest ∧
      (Alignment others first rest ∧ inserted.length + others + 1 ≤ count ∨
        ∃ other tail, rest = other :: tail ∧ Alignment others first tail ∧
          inserted.length + others + (if byte = other then 0 else 1) ≤ count) := by
  generalize whole : byte :: first = text at alignment
  induction alignment with
  | nil => cases whole
  | @same _ count _ tail alignment _ =>
      cases whole
      refine ⟨[], byte :: tail, count, rfl, .inr ⟨byte, tail, rfl, alignment, ?_⟩⟩
      simp
  | insert added _ inductionHypothesis =>
      obtain ⟨inserted, rest, others, rfl, ends⟩ := inductionHypothesis whole
      refine ⟨added :: inserted, rest, others, rfl, ?_⟩
      rw [List.length_cons]
      rcases ends with ⟨alignment, bound⟩ | ⟨other, tail, same, alignment, bound⟩
      · exact .inl ⟨alignment, by omega⟩
      · exact .inr ⟨other, tail, same, alignment, by omega⟩
  | @delete _ count _ rest alignment _ =>
      cases whole
      exact ⟨[], rest, count, rfl, .inl ⟨alignment, by simp⟩⟩
  | @substitute _ new count _ tail alignment _ =>
      cases whole
      refine ⟨[], new :: tail, count, rfl, .inr ⟨new, tail, rfl, alignment, ?_⟩⟩
      split <;> simp

/-- A first byte that is left out is inserted instead, at worst. -/
theorem drop_head (alignment : Alignment count (byte :: first) second) :
    ∃ fewer ≤ count + 1, Alignment fewer first second := by
  obtain ⟨inserted, rest, others, rfl, ends⟩ := alignment.head
  rcases ends with ⟨alignment, bound⟩ | ⟨other, tail, rfl, alignment, bound⟩
  · exact ⟨_, by omega, alignment.insertAll inserted⟩
  · exact ⟨_, by omega, (alignment.insert other).insertAll inserted⟩

/-- A first byte that is another one is substituted, at worst. -/
theorem replace_head (alignment : Alignment count (byte :: first) second) (old : UInt8) :
    ∃ fewer ≤ count + 1, Alignment fewer (old :: first) second := by
  obtain ⟨inserted, rest, others, rfl, ends⟩ := alignment.head
  rcases ends with ⟨alignment, bound⟩ | ⟨other, tail, rfl, alignment, bound⟩
  · exact ⟨_, by omega, (alignment.delete old).insertAll inserted⟩
  · exact ⟨_, by omega, (alignment.substitute old other).insertAll inserted⟩

/-- What one edit costs behind a first byte, it costs with the byte in front. -/
theorem under_head (behind : ∀ {count second}, Alignment count middle second →
      ∃ fewer ≤ count + 1, Alignment fewer first second)
    (alignment : Alignment count (byte :: middle) second) :
    ∃ fewer ≤ count + 1, Alignment fewer (byte :: first) second := by
  obtain ⟨inserted, rest, others, rfl, ends⟩ := alignment.head
  rcases ends with ⟨alignment, bound⟩ | ⟨other, tail, rfl, alignment, bound⟩
  · obtain ⟨fewer, below, alignment⟩ := behind alignment
    exact ⟨_, by omega, (alignment.delete byte).insertAll inserted⟩
  · obtain ⟨fewer, below, alignment⟩ := behind alignment
    exact ⟨_, by omega, (alignment.cons byte other).insertAll inserted⟩

/-- One more edit in front of an alignment costs one more place at most. -/
theorem edit_left (edit : Edit first middle) (alignment : Alignment count middle second) :
    ∃ fewer ≤ count + 1, Alignment fewer first second := by
  cases edit with
  | insert front back byte =>
      induction front generalizing count second with
      | nil => exact alignment.drop_head
      | cons _ _ inductionHypothesis => exact under_head inductionHypothesis alignment
  | delete front back byte =>
      induction front generalizing count second with
      | nil => exact ⟨count + 1, Nat.le_refl _, alignment.delete byte⟩
      | cons _ _ inductionHypothesis => exact under_head inductionHypothesis alignment
  | substitute front back old new =>
      induction front generalizing count second with
      | nil => exact alignment.replace_head old
      | cons _ _ inductionHypothesis => exact under_head inductionHypothesis alignment

end Alignment

/-- Edits in any order can be made in the order of the bytes. -/
theorem Edits.alignment (edits : Edits count first second) :
    ∃ fewer ≤ count, Alignment fewer first second := by
  induction edits with
  | none => exact ⟨0, Nat.le_refl 0, .refl _⟩
  | step edit _ inductionHypothesis =>
      obtain ⟨fewer, below, alignment⟩ := inductionHypothesis
      obtain ⟨fewest, below', alignment'⟩ := alignment.edit_left edit
      exact ⟨fewest, by omega, alignment'⟩

/-- The least number of places where two texts differ, over all their alignments. -/
def Least (count : Nat) (first second : List UInt8) : Prop :=
  IsLeast {places | Alignment places first second} count

namespace Least

theorem nil_left (text : List UInt8) : Least text.length [] text := by
  induction text with
  | nil => exact ⟨.nil, fun _ _ => Nat.zero_le _⟩
  | cons byte rest inductionHypothesis =>
      refine ⟨inductionHypothesis.1.insert byte, fun places alignment => ?_⟩
      cases alignment with
      | insert _ alignment => exact Nat.succ_le_succ (inductionHypothesis.2 alignment)

theorem nil_right (text : List UInt8) : Least text.length text [] := by
  induction text with
  | nil => exact ⟨.nil, fun _ _ => Nat.zero_le _⟩
  | cons byte rest inductionHypothesis =>
      refine ⟨inductionHypothesis.1.delete byte, fun places alignment => ?_⟩
      cases alignment with
      | delete _ alignment => exact Nat.succ_le_succ (inductionHypothesis.2 alignment)

/-- One entry of the table from the three before it: the first byte of the one text is deleted, or
that of the other is inserted, or the two are next to each other. -/
theorem cons {upper left corner : Nat} (ofUpper : Least upper first (other :: second))
    (ofLeft : Least left (byte :: first) second) (ofCorner : Least corner first second) :
    Least (min (upper + 1) (min (left + 1) (corner + if byte = other then 0 else 1)))
      (byte :: first) (other :: second) := by
  refine ⟨?_, fun places alignment => ?_⟩
  · change Alignment _ _ _
    have deleted := ofUpper.1.delete byte
    have inserted := ofLeft.1.insert other
    have aligned := ofCorner.1.cons byte other
    rcases min_choice (upper + 1) (min (left + 1) (corner + if byte = other then 0 else 1))
      with least | least
    · rwa [least]
    · rw [least]
      rcases min_choice (left + 1) (corner + if byte = other then 0 else 1) with least | least
      · rwa [least]
      · rwa [least]
  · cases alignment with
    | same _ alignment =>
        have bound := ofCorner.2 alignment
        rw [if_pos rfl]
        omega
    | insert _ alignment =>
        have bound := ofLeft.2 alignment
        omega
    | delete _ alignment =>
        have bound := ofUpper.2 alignment
        omega
    | substitute _ _ alignment =>
        have bound := ofCorner.2 alignment
        split <;> omega

end Least

/-- The rest of a row of the table: the distances between a text and the texts that the columns add
up to, one byte after the other, in front of what has been read already. -/
inductive Row (text : List UInt8) : List UInt8 → List UInt8 → List Nat → Prop where
  | done {before : List UInt8} : Row text before [] []
  | next {before columns : List UInt8} {column : UInt8} {entry : Nat} {row : List Nat} :
      Least entry text (column :: before) → Row text (column :: before) columns row →
      Row text before (column :: columns) (entry :: row)

namespace Row

variable {text : List UInt8} {row above : List Nat} {corner left : Nat}

/-- The first row: a text is made out of nothing by insertions. -/
theorem first_row (before columns : List UInt8) :
    Row [] before columns (List.range' (before.length + 1) columns.length) := by
  induction columns generalizing before with
  | nil => exact .done
  | cons column columns inductionHypothesis =>
      exact .next (.nil_left (column :: before)) (inductionHypothesis (column :: before))

/-- The row for one more byte of the text, entry by entry. -/
theorem rowTail (ofCorner : Least corner text before) (row : Row text before columns above)
    (ofLeft : Least left (byte :: text) before) :
    Row (byte :: text) before columns (rowTail byte columns corner above left) := by
  induction row generalizing corner left with
  | done => exact .done
  | next ofUpper _ inductionHypothesis =>
      have entry := Least.cons ofUpper ofLeft ofCorner
      exact .next entry (inductionHypothesis ofUpper entry)

/-- The last entry is about all the columns. -/
theorem last (ofCorner : Least corner text before) (row : Row text before columns above) :
    Least ((corner :: above).getLast?.getD 0) text (columns.reverse ++ before) := by
  induction row generalizing corner with
  | done => exact ofCorner
  | @next before columns column entry row ofEntry _ inductionHypothesis =>
      rw [List.getLast?_cons_cons, List.reverse_cons, List.append_assoc]
      exact inductionHypothesis ofEntry

end Row

/-- A whole row of the table. -/
def WholeRow (text columns : List UInt8) (row : List Nat) : Prop :=
  ∃ above, row = text.length :: above ∧ Row text [] columns above

theorem wholeRow_range (columns : List UInt8) :
    WholeRow [] columns (List.range (columns.length + 1)) := by
  refine ⟨List.range' 1 columns.length, ?_, Row.first_row [] columns⟩
  rw [List.range_eq_range', List.range'_succ]
  rfl

/-- One step: the row below is about one more byte. -/
theorem WholeRow.nextRow {text : List UInt8} {row : List Nat} (whole : WholeRow text columns row)
    (byte : UInt8) : WholeRow (byte :: text) columns (nextRow columns row byte) := by
  obtain ⟨above, rfl, rest⟩ := whole
  exact ⟨_, rfl, rest.rowTail (.nil_right text) (.nil_right (byte :: text))⟩

/-- A run over a text: the last row is about all of it, read backwards. -/
theorem WholeRow.foldl {text : List UInt8} {row : List Nat} (whole : WholeRow text columns row)
    (more : List UInt8) :
    WholeRow (more.reverse ++ text) columns (more.foldl (Suggest.nextRow columns) row) := by
  induction more generalizing text row with
  | nil => exact whole
  | cons byte rest inductionHypothesis =>
      rw [List.foldl_cons, List.reverse_cons, List.append_assoc]
      exact inductionHypothesis (whole.nextRow byte)

theorem least_editDistance (first second : List UInt8) :
    Least (editDistance first second) first.reverse second.reverse := by
  obtain ⟨above, same, rest⟩ := (wholeRow_range second).foldl first
  rw [List.append_nil] at same rest
  unfold editDistance
  rw [same, ← List.append_nil second.reverse]
  exact rest.last (.nil_right first.reverse)

/-- The distance is the least number of edits from the one text to the other. -/
theorem isLeast_editDistance (first second : List UInt8) :
    IsLeast {count | Edits count first second} (editDistance first second) := by
  obtain ⟨reached, least⟩ := least_editDistance first second
  refine ⟨edits_reverse_iff.mp (Alignment.edits reached), fun count edits => ?_⟩
  obtain ⟨fewer, below, alignment⟩ := (Edits.reverse edits).alignment
  exact Nat.le_trans (least alignment) below

/-- The distance is the least number of edits, and so a metric: it is zero between a text and itself
only, it is symmetric, and a detour is never shorter. -/
theorem editDistance_is_metric (first second : List UInt8) :
    IsLeast {count | Edits count first second} (editDistance first second) ∧
      (editDistance first second = 0 ↔ first = second) ∧
      editDistance first second = editDistance second first ∧
      ∀ third, editDistance first third ≤
        editDistance first second + editDistance second third := by
  have least := isLeast_editDistance
  refine ⟨least first second, ⟨fun zero => ?_, fun same => ?_⟩, ?_, fun third => ?_⟩
  · have edits : Edits (editDistance first second) first second := (least first second).1
    rw [zero] at edits
    exact edits_zero_iff.mp edits
  · exact Nat.le_zero.mp ((least first second).2 (edits_zero_iff.mpr same))
  · exact Nat.le_antisymm ((least first second).2 (Edits.symm (least second first).1))
      ((least second first).2 (Edits.symm (least first second).1))
  · exact (least first third).2 (Edits.trans (least first second).1 (least second third).1)

end X64Backend.Suggest
