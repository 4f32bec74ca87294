import X64Backend.Proofs.Block.Takes

/-!
The readers of operands accept the grammar: in front of the words of an operand they find what it
means.
-/

namespace X64Backend.Block.Parser

open Grammar

variable {reading : Reading} {words follow : List Word}

/-- A word that is no colon comes next. -/
def NoColon (words : List Word) : Prop :=
  ∃ word, words.head? = some word ∧ word.kind ≠ .colon

section Registers

variable {type : String} {size : Size} {steps : Nat} {P : String × Size → Reading → Prop}

theorem takes_suffix_type {given : String} (untyped : type = "")
    (later : Takes reading (suffix steps given size) words follow P) :
    Takes reading (suffix (steps + 1) type size) (.mark ':' :: .name given :: words) follow P := by
  unfold suffix
  refine .currentKind_bind rfl ?_
  rw [if_neg (by decide)]
  refine .advance_bind (.current_bind rfl fun pos => ?_)
  rw [if_neg (not_not.mpr untyped)]
  exact .advance_bind later

theorem takes_suffix_width {digits : String} {width : Size}
    (known : Suffix.size? digits = some width)
    (later : Takes reading (suffix steps type width) words follow P) :
    Takes reading (suffix (steps + 1) type size) (.mark ':' :: .number digits :: words)
      follow P := by
  unfold suffix
  refine .currentKind_bind rfl ?_
  rw [if_neg (by decide)]
  refine .advance_bind (.current_bind rfl fun pos => ?_)
  dsimp only [Word.number]
  split
  · rename_i given found
    obtain rfl : given = width := Option.some.inj (found.symm.trans known)
    exact .advance_bind later
  · rename_i found
    cases found.symm.trans known

theorem takes_suffix_none (stops : NoColon follow) :
    Takes reading (suffix steps type size) [] follow (Meant reading id (type, size)) := by
  cases steps with
  | zero => exact .pure ⟨rfl, rfl⟩
  | succ steps =>
      obtain ⟨word, isNext, other⟩ := stops
      unfold suffix
      refine .currentKind_bind isNext ?_
      rw [if_pos other]
      exact .pure ⟨rfl, rfl⟩

theorem takes_suffix {given : Suffix} {found : String × Size}
    (means : given.after? type size = some found) (stops : NoColon follow)
    (enough : given.words.length ≤ steps) :
    Takes reading (suffix steps type size) given.words follow (Meant reading id found) := by
  obtain ⟨type?, width?⟩ := given
  simp only [Suffix.after?, Option.bind_eq_bind, Option.bind_eq_some_iff] at means
  obtain ⟨type', typed, size', sized, means⟩ := means
  cases means
  -- the type stands in front of the size
  have width : ∀ {steps : Nat}, (Suffix.words ⟨none, width?⟩).length ≤ steps →
      Takes reading (suffix steps type' size) (Suffix.words ⟨none, width?⟩) follow
        (Meant reading id (type', size')) := by
    intro steps enough
    cases width? with
    | none =>
        cases sized
        exact takes_suffix_none stops
    | some digits =>
        obtain ⟨steps, rfl⟩ := Nat.exists_eq_add_one.mpr (Nat.zero_lt_of_lt enough)
        exact takes_suffix_width sized (takes_suffix_none stops)
  cases type? with
  | none =>
      cases typed
      exact width enough
  | some given =>
      obtain ⟨untyped, same⟩ := Option.ite_none_right_eq_some.mp typed
      cases same
      obtain ⟨steps, rfl⟩ := Nat.exists_eq_add_one.mpr (Nat.zero_lt_of_lt enough)
      refine takes_suffix_type untyped (width ?_)
      exact Nat.le_trans (Nat.le_succ _) (Nat.le_of_succ_le_succ enough)

theorem takes_suffixes {given : Suffix} {found : String × Size}
    (means : given.after? type size = some found) (stops : NoColon follow) :
    Takes reading (suffixes type size) given.words follow (Meant reading id found) := by
  refine .get_bind fun tokens same => takes_suffix means stops ?_
  have length := congrArg List.length same
  simp only [List.length_map, List.length_append] at length
  exact Nat.le.intro length.symm

theorem find?_unplaced (live : List Alloc) (name : String) :
    (live.map Alloc.unplaced).find? (fun declaration => declaration.name = name) =
      (live.find? fun declaration => declaration.name = name).map Alloc.unplaced := by
  rw [List.find?_map]
  rfl

theorem takes_register {name : Name} {ref : RegRef} (pos : Pos)
    (means : name.ref? reading.scope.live = some ref) (stops : NoColon follow) :
    Takes reading (register pos) name.words follow (Meant reading RegRef.unplaced ref) := by
  obtain ⟨text, given⟩ := name
  simp only [Name.ref?, Option.bind_eq_bind, Option.bind_eq_some_iff] at means
  obtain ⟨found, bare, ⟨type, size⟩, suffixed, means⟩ := means
  cases means
  have rest : ∀ read : RegRef, read.unplaced = found → Takes reading (do
      advance
      let suffixed ← suffixes read.type read.size
      return { read with type := suffixed.1, size := suffixed.2 }) (Name.words ⟨text, given⟩) follow
        (Meant reading RegRef.unplaced { found with type, size }) := by
    rintro read rfl
    refine .advance_bind ((takes_suffixes suffixed stops).last fun suffixed after same => ?_)
    obtain ⟨rfl, rfl⟩ := same
    exact .pure ⟨rfl, rfl⟩
  rw [Name.bare?, Reading.scope, find?_unplaced] at bare
  refine .current_bind rfl fun _ => ?_
  dsimp only [Word.name]
  refine .live?_bind ?_
  split
  · rename_i declaration declared
    rw [declared] at bare
    cases bare
    exact rest ⟨pos, text, true, declaration.phys, declaration.type, .unsized⟩ rfl
  · rename_i phys size declared hardware
    rw [declared, hardware] at bare
    cases bare
    exact rest ⟨pos, text, false, some phys, "", size⟩ rfl
  · rename_i declared hardware
    rw [declared, hardware] at bare
    cases bare

theorem takes_varRef {name : String} (pos : Pos) :
    Takes reading (varRef pos) [.mark '$', .name name] follow
      (Meant reading VarRef.unplaced ⟨.nowhere, name⟩) := by
  refine .advance_bind (.current_bind rfl fun _ => ?_)
  rw [if_neg (by simp [Word.name])]
  exact .advance_bind (.pure ⟨rfl, rfl⟩)

end Registers

section Operands

/-- The word of a sign shows whether it is a minus sign. -/
theorem kind_sign (negative : Bool) :
    let kind := (Word.mark (if negative then '-' else '+')).kind
    decide (kind = .minus) = negative ∧ ¬ (kind ≠ .plus && kind ≠ .minus) = true := by
  cases negative with
  | false => decide
  | true => decide

theorem takes_displacement {disp : Option Displacement} {value : Int32}
    (means : disp.elim (some 0) (fun disp => displacement? disp.negative disp.digits) =
      some value) :
    Takes reading displacement (disp.elim [] Displacement.words) (.mark ']' :: follow)
      (Meant reading id value) := by
  cases disp with
  | none =>
      cases means
      refine .currentKind_bind rfl ?_
      rw [if_pos (by decide)]
      exact .pure ⟨rfl, rfl⟩
  | some disp =>
      obtain ⟨negative, digits⟩ := disp
      obtain ⟨minus, sign⟩ := kind_sign negative
      refine .currentKind_bind rfl ?_
      rw [if_neg sign]
      refine .advance_bind (.current_bind rfl fun _ => ?_)
      rw [if_neg (by simp [Word.number])]
      dsimp only [Word.number]
      rw [minus]
      dsimp only [Option.elim] at means
      rw [means]
      exact .advance_bind (.pure ⟨rfl, rfl⟩)

theorem takes_memory {base : Base} {ref : BaseRef} {disp : Option Displacement} {value : Int32}
    (based : base.ref? reading.scope.live = some ref)
    (displaced : disp.elim (some 0) (fun disp => displacement? disp.negative disp.digits) =
      some value) (pos : Pos) (size : Size) :
    Takes reading (memory pos size)
      (.mark '[' :: (base.words ++ (disp.elim [] Displacement.words ++ [.mark ']']))) follow
      (Meant reading Term.unplaced (.mem .nowhere size ref value)) := by
  refine .expect_bind rfl ?_
  have rest : ∀ read : BaseRef, read.unplaced = ref → Takes reading (do
      let disp ← displacement
      expect .rightBracket
      return Term.mem pos size read disp) (disp.elim [] Displacement.words ++ [.mark ']']) follow
        (Meant reading Term.unplaced (.mem .nowhere size ref value)) := by
    rintro read rfl
    refine (takes_displacement displaced).bind fun found after same => ?_
    obtain ⟨rfl, rfl⟩ := same
    exact .expect_bind rfl (.pure ⟨rfl, rfl⟩)
  cases base with
  | register name =>
      obtain ⟨register, means, rfl⟩ := Option.map_eq_some_iff.mp based
      have stops : NoColon (disp.elim [] Displacement.words ++ [.mark ']'] ++ follow) := by
        cases disp with
        | none => exact ⟨_, rfl, by decide⟩
        | some disp =>
            refine ⟨_, rfl, ?_⟩
            cases disp.negative with
            | false => decide
            | true => decide
      refine .current_bind rfl fun pos => ?_
      dsimp only [Word.name]
      have read : Takes reading (BaseRef.reg <$> Parser.register pos) name.words
          (disp.elim [] Displacement.words ++ [.mark ']'] ++ follow)
          (Meant reading BaseRef.unplaced (.reg register)) :=
        (takes_register pos means stops).map fun _ _ same => ⟨congrArg BaseRef.reg same.1, same.2⟩
      exact read.bind fun found after same => same.2 ▸ rest found same.1
  | var name =>
      cases based
      refine .current_bind rfl fun pos => ?_
      dsimp only [Word.mark]
      have read : Takes reading (BaseRef.var <$> varRef pos) (Base.var name).words
          (disp.elim [] Displacement.words ++ [.mark ']'] ++ follow)
          (Meant reading BaseRef.unplaced (.var ⟨.nowhere, name⟩)) :=
        (takes_varRef pos).map fun _ _ same => ⟨congrArg BaseRef.var same.1, same.2⟩
      exact read.bind fun found after same => same.2 ▸ rest found same.1

theorem takes_digits {negative : Bool} {text : String} (pos : Pos)
    (valued : (literalOf negative (withoutUnderscores text)).bits.isOk = true) :
    Takes reading (digits pos negative) [.number text] follow
      (Meant reading Term.unplaced
        (.lit .nowhere (literalOf negative (withoutUnderscores text)))) := by
  refine .current_bind rfl fun _ => ?_
  dsimp only [Word.number]
  cases value : (literalOf negative (withoutUnderscores text)).bits with
  | ok word => exact .advance_bind (.pure ⟨rfl, rfl⟩)
  | error fault =>
      rw [value] at valued
      cases valued

theorem takes_number {negative : Bool} {text : String} (pos : Pos)
    (valued : (literalOf negative (withoutUnderscores text)).bits.isOk = true) :
    Takes reading (number pos) ((if negative then [.mark '-'] else []) ++ [.number text]) follow
      (Meant reading Term.unplaced
        (.lit .nowhere (literalOf negative (withoutUnderscores text)))) := by
  cases negative with
  | false =>
      refine .currentKind_bind rfl ?_
      rw [if_neg (by simp [Word.number])]
      exact takes_digits pos valued
  | true =>
      refine .currentKind_bind rfl ?_
      rw [if_pos (by decide)]
      refine .advance_bind (.current_bind rfl fun _ => ?_)
      rw [if_neg (by simp [Word.number])]
      exact takes_digits pos valued

/-- An operand ends here: at a comma, at the end of its statement or at the end of the block. -/
def Closes (words : List Word) : Prop :=
  ∃ c ∈ [',', ';', '\x7d'], ∃ more, words = .mark c :: more

theorem Closes.noColon (closes : Closes follow) : NoColon follow := by
  obtain ⟨c, known, more, rfl⟩ := closes
  have other : ∀ c ∈ [',', ';', '\x7d'], (Word.mark c).kind ≠ .colon :=
    forall_of_all (by decide)
  exact ⟨.mark c, rfl, other c known⟩

/-- What comes next does not make a width of the word in front of it. -/
theorem Closes.noAddress (closes : Closes follow) (given : Suffix) :
    ∃ word more, given.words ++ follow = word :: more ∧
      (word.kind = .leftBracket || lowerCase word.text = "ptr") = false := by
  obtain ⟨type?, width?⟩ := given
  cases type? with
  | some type => exact ⟨.mark ':', _, rfl, by decide⟩
  | none =>
      cases width? with
      | some digits => exact ⟨.mark ':', _, rfl, by decide⟩
      | none =>
          obtain ⟨c, known, more, rfl⟩ := closes
          have other : ∀ c ∈ [',', ';', '\x7d'], ((Word.mark c).kind = .leftBracket ||
              lowerCase (Word.mark c).text = "ptr") = false := forall_of_all (by decide)
          exact ⟨.mark c, more, rfl, other c known⟩

theorem takes_cell {width : Option Width} {base : Base} {disp : Option Displacement} {term : Term}
    (means : (Argument.cell width base disp).term? reading.scope.live = some term) :
    Takes reading operand (Argument.cell width base disp).words follow
      (Meant reading Term.unplaced term) := by
  simp only [Argument.term?, Option.bind_eq_bind, Option.bind_eq_some_iff] at means
  obtain ⟨size, sized, ref, based, value, displaced, means⟩ := means
  cases means
  cases width with
  | none =>
      cases sized
      refine .current_bind rfl fun pos => ?_
      exact takes_memory based displaced pos .unsized
  | some width =>
      obtain ⟨keyword, ptr⟩ := width
      obtain ⟨isPtr, known⟩ := Option.ite_none_right_eq_some.mp sized
      refine .current_bind rfl fun pos => ?_
      dsimp only [Word.name]
      cases ptr with
      | none =>
          refine .following_bind rfl fun pos' => ?_
          have bracket : lowerCase (Word.mark '[').text ≠ "ptr" := by decide
          rw [known]
          refine .advance_bind ?_
          rw [if_neg (by simpa only [Parser.isPtr, decide_eq_true_eq] using bracket)]
          exact takes_memory based displaced pos size
      | some ptr =>
          refine .following_bind rfl fun pos' => ?_
          have isPtr : Parser.isPtr ⟨(Word.name ptr).kind, (Word.name ptr).text, pos'⟩ = true :=
            isPtr
          rw [known]
          simp only [isPtr, Bool.or_true, if_true]
          exact .advance_bind (.advance_bind (takes_memory based displaced pos size))

theorem takes_operand {argument : Argument} {term : Term}
    (means : argument.term? reading.scope.live = some term) (closes : Closes follow) :
    Takes reading operand argument.words follow (Meant reading Term.unplaced term) := by
  cases argument with
  | var name =>
      cases means
      refine .current_bind rfl fun pos => ?_
      exact (takes_varRef pos).map fun _ _ same => ⟨congrArg Term.var same.1, same.2⟩
  | cell width base disp => exact takes_cell means
  | register name =>
      obtain ⟨untrue, means⟩ := Option.ite_none_left_eq_some.mp means
      obtain ⟨ref, known, rfl⟩ := Option.map_eq_some_iff.mp means
      obtain ⟨word, more, isNext, noAddress⟩ := closes.noAddress name.suffix
      refine .current_bind rfl fun pos => ?_
      dsimp only [Word.name]
      refine .following_bind (congrArg (List.cons _) isNext) fun pos' => ?_
      dsimp only [isPtr]
      rw [noAddress]
      split
      · contradiction
      · rw [if_neg (by simpa using untrue)]
        exact (takes_register pos known closes.noColon).map fun _ _ same =>
          ⟨congrArg Term.reg same.1, same.2⟩
  | truth value =>
      cases means
      obtain ⟨c, known, more, rfl⟩ := closes
      cases value with
      | true =>
          refine .current_bind rfl fun pos => ?_
          dsimp only [Word.name]
          refine .following_bind rfl fun pos' => ?_
          exact .advance_bind (.pure ⟨rfl, rfl⟩)
      | false =>
          refine .current_bind rfl fun pos => ?_
          dsimp only [Word.name]
          refine .following_bind rfl fun pos' => ?_
          exact .advance_bind (.pure ⟨rfl, rfl⟩)
  | number negative digits =>
      simp only [Argument.term?] at means
      split at means
      · rename_i valued
        cases means
        cases negative with
        | false =>
            refine .current_bind rfl fun pos => ?_
            dsimp only [Word.number]
            exact takes_number pos valued
        | true =>
            refine .current_bind rfl fun pos => ?_
            exact takes_number pos valued
      · cases means

end Operands

end X64Backend.Block.Parser
