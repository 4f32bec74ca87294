import X64Backend.Block.Token

/-!
The words of a text end with the word for its end, which stands nowhere else.
-/

namespace X64Backend.Block

/-- The last word, and no other one, is the word for the end. -/
inductive Ends : List Token → Prop where
  | last {token : Token} : token.kind = .eof → Ends [token]
  | more {token : Token} {rest : List Token} : token.kind ≠ .eof → Ends rest → Ends (token :: rest)

namespace Ends

variable {words rest : List Token}

theorem ne_nil (ends : Ends words) : words ≠ [] := by
  cases ends with
  | last => simp
  | more => simp

/-- What is left of the words, if anything, ends in the same way. -/
theorem suffix (ends : Ends words) (suffix : rest <:+ words) (some : rest ≠ []) : Ends rest := by
  induction ends with
  | @last token eof =>
      rcases List.suffix_cons_iff.mp suffix with rfl | suffix
      · exact .last eof
      · exact absurd (List.suffix_nil.mp suffix) some
  | more other ends inductionHypothesis =>
      rcases List.suffix_cons_iff.mp suffix with rfl | suffix
      · exact .more other ends
      · exact inductionHypothesis suffix

end Ends

section Lexing

theorem length_skipBlank (inComment : Bool) (bytes : List UInt8) (pos : Pos) :
    (skipBlank inComment bytes pos).rest.length ≤ bytes.length := by
  induction bytes generalizing inComment pos with
  | nil => exact Nat.le_refl 0
  | cons byte rest inductionHypothesis =>
      have later : ∀ inComment pos,
          (skipBlank inComment rest pos).rest.length ≤ (byte :: rest).length :=
        fun inComment pos => Nat.le_succ_of_le (inductionHypothesis inComment pos)
      unfold skipBlank
      split
      · exact later _ _
      · split
        · exact later _ _
        · split
          · exact later _ _
          · exact Nat.le_refl _

/-- A word that starts with a byte of its class takes at least that byte. -/
theorem length_takeWord {kind : TokenKind} {inWord : UInt8 → Bool} {cursor : Cursor} {byte : UInt8}
    {rest : List UInt8} (found : cursor.rest = byte :: rest) (starts : inWord byte = true) :
    (takeWord kind inWord cursor).2.rest.length < cursor.rest.length := by
  simp only [takeWord, found, List.takeWhile_cons, starts, if_true, List.length_cons,
    List.length_drop]
  omega

theorem isIdentByte_of_start {byte : UInt8} (starts : isIdentStart byte = true) :
    isIdentByte byte = true := by
  simp [isIdentByte, starts]

theorem isNumberByte_of_digit {byte : UInt8} (digit : isDigitByte byte = true) :
    isNumberByte byte = true := by
  simp [isNumberByte, digit]

/-- Every word but the one for the end takes at least one byte. -/
theorem length_nextToken {cursor : Cursor} (other : (nextToken cursor).1.kind ≠ .eof) :
    (nextToken cursor).2.rest.length < cursor.rest.length := by
  refine Nat.lt_of_lt_of_le ?_ (length_skipBlank false cursor.rest cursor.pos)
  unfold nextToken at other ⊢
  generalize skipBlank false cursor.rest cursor.pos = skipped at other ⊢
  obtain ⟨bytes, pos⟩ := skipped
  cases bytes with
  | nil => exact absurd rfl other
  | cons byte rest =>
      dsimp only
      split
      · rename_i starts
        exact length_takeWord rfl (isIdentByte_of_start starts)
      · split
        · rename_i digit
          exact length_takeWord rfl (isNumberByte_of_digit digit)
        · exact Nat.lt_succ_self _

theorem ends_tokensFrom {steps : Nat} {cursor : Cursor} (enough : cursor.rest.length < steps) :
    Ends (tokensFrom steps cursor) := by
  induction steps generalizing cursor with
  | zero => exact absurd enough (Nat.not_lt_zero _)
  | succ steps inductionHypothesis =>
      rw [tokensFrom]
      dsimp only
      split
      · rename_i eof
        exact .last eof
      · rename_i other
        have shorter := length_nextToken other
        exact .more other (inductionHypothesis (by omega))

/-- The words of every text end, whatever its bytes. -/
theorem ends_tokensOfBytes (source : List UInt8) : Ends (tokensOfBytes source) :=
  ends_tokensFrom (Nat.lt_succ_self _)

end Lexing

end X64Backend.Block
