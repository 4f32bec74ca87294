import X64Backend.Proofs.Lower.LiteralStores
import X64Backend.Proofs.Lower.Room

/-!
Constant folding.  The literal that the folder makes of an operator on literals denotes the word
that the generated code computes for the same operator on variables that hold their values.
-/

namespace X64Backend

namespace Literal

theorem intValue_toString {value : Int} (least : -0x8000000000000000 ≤ value)
    (greatest : value < 0x8000000000000000) : intValue (toString value) = .ok value := by
  simp only [intValue, Numeral.readSigned, Numeral.readInteger_toString least greatest]

end Literal

namespace Lower

open Machine X64Backend.Tree

variable {size : Size} {signed : Bool} {word : UInt64} {literal : Literal}

/-- The number of a word lies in the range of signed words. -/
theorem intOfWord_range (word : UInt64) : -0x8000000000000000 ≤ Literal.intOfWord word ∧
    Literal.intOfWord word < 0x8000000000000000 := by
  have bound := word.toNat_lt
  rcases Nat.lt_or_ge word.toNat (2 ^ 63) with small | great
  · rw [toInt_of_lt small]
    omega
  · rw [toInt_of_le great]
    omega

theorem wordOfInt_intOfWord (word : UInt64) :
    Literal.wordOfInt (Literal.intOfWord word) = word := by
  change (Int64.ofInt word.toInt64.toInt).toUInt64 = word
  rw [Int64.ofInt_toInt]
  rfl

/-- The literal of a word denotes the word. -/
theorem numeric?_literalOf (word : UInt64) (signed : Bool) :
    numeric? (literalOf word signed) = some word := by
  cases signed with
  | true =>
    obtain ⟨least, greatest⟩ := intOfWord_range word
    have bits := Literal.bits_ofInt least greatest
    rw [wordOfInt_intOfWord] at bits
    simp only [numeric?, literalOf, if_true]
    rw [show (Literal.ofInt (Literal.intOfWord word)).kind = .int from rfl]
    simp only [bits]
    rfl
  | false =>
    have bits := Literal.bits_ofNat word.toNat_lt
    rw [show word.toNat.toUInt64 = word from UInt64.ofNat_toNat] at bits
    simp only [numeric?, literalOf, Bool.false_eq_true, if_false]
    rw [show (Literal.ofNat word.toNat).kind = .uint from rfl]
    simp only [bits]
    rfl

/-- The literal of a word that is within a width needs no more bytes than the width has. -/
theorem minSize_literalOf (sized : size ≠ .unsized) (within : extend word size signed = word) :
    ∃ least, (literalOf word signed).minSize = .ok least ∧ least ≤ size.bytes := by
  rw [extend_eq_self_iff sized] at within
  cases signed with
  | true =>
    obtain ⟨least, greatest⟩ := intOfWord_range word
    have value := Literal.intValue_toString least greatest
    refine ⟨Literal.signedSize (Literal.intOfWord word), ?_, ?_⟩
    · change (Literal.intValue (toString _)).map _ = _
      rw [value]
      rfl
    · rw [if_pos rfl] at within
      generalize Literal.intOfWord word = number at within
      unfold Literal.signedSize
      cases size with
      | unsized => contradiction
      | _ =>
        simp only [bits, Size.bytes] at within ⊢
        split_ifs <;> omega
  | false =>
    have bits' := Literal.bits_ofNat word.toNat_lt
    rw [show word.toNat.toUInt64 = word from UInt64.ofNat_toNat] at bits'
    refine ⟨Literal.unsignedSize word, ?_, ?_⟩
    · change (Literal.ofNat word.toNat).bits.map _ = _
      rw [bits']
      rfl
    · rw [if_neg Bool.false_ne_true] at within
      unfold Literal.unsignedSize
      cases size with
      | unsized => contradiction
      | _ =>
        simp only [bits, Size.bytes] at within ⊢
        split_ifs <;> omega

/-- The literal of a truth value denotes its byte. -/
theorem numeric?_ofBool (truth : Bool) : numeric? (.ofBool truth) = some (truthByte truth) := by
  cases truth <;> rfl

theorem minSize_ofBool (truth : Bool) : (Literal.ofBool truth).minSize = .ok 1 := rfl

section Operators

variable {op : BinaryOp} {type : TypeRef} {left right : Literal} {first second value : UInt64}
  {truth : Bool} {s s' : State}

/-- An integer literal that a type can represent, with its word. -/
structure Fits (type : TypeRef) (literal : Literal) (word : UInt64) : Prop where
  value : numeric? literal = some word
  within : extend word type.operandSize type.isSigned = word

/-- A literal denotes a word, and needs no more bytes than a width has. -/
structure Denotes (size : Size) (literal : Literal) (word : UInt64) : Prop where
  value : numeric? literal = some word
  fits : ∃ least, literal.minSize = .ok least ∧ least ≤ size.bytes

/-- In every state the result is a literal, nothing is emitted and nothing reported. -/
def Constant (action : Gen Operand) (literal : Literal) : Prop :=
  ∀ s, ∃ s', action s = .ok (.lit literal) s' ∧ s'.draft.text = s.draft.text ∧
    s'.collector = s.collector

/-- What is folded is one literal. -/
theorem Constant.unique {action : Gen Operand} {other : Literal}
    (folds : Constant action literal) (folds' : Constant action other) : literal = other := by
  obtain ⟨s', run, _⟩ := folds .initial
  obtain ⟨s'', run', _⟩ := folds' .initial
  rw [run] at run'
  cases run'
  rfl

/-- A literal in decimal. -/
theorem fits_ofInt {value : Int} (least : -0x8000000000000000 ≤ value)
    (greatest : value < 0x8000000000000000)
    (within : extend (Literal.wordOfInt value) type.operandSize type.isSigned =
      Literal.wordOfInt value) : Fits type (.ofInt value) (Literal.wordOfInt value) := by
  refine ⟨?_, within⟩
  have bits := Literal.bits_ofInt least greatest
  simp only [numeric?]
  rw [show (Literal.ofInt value).kind = .int from rfl]
  simp only [bits]
  rfl

/-- The value of an operator on operands of two types, of which the left one is that of the
operation. -/
def evaluate (op : BinaryOp) (x y : Operand) (type other : TypeRef) : Gen Operand :=
  if op.isComparison then compare op x y type other else arith op x y type

theorem widerSize_of_le {size other : Size} (narrower : other.bytes ≤ size.bytes) :
    widerSize size other = size :=
  if_neg (Nat.not_lt.mpr narrower)

/-- An operator looks at its literals first. -/
theorem evaluate_eq_fold {x y : Operand} {result : Operand}
    (folds : fold op x y type.operandSize type.isSigned s = .ok (some result) s') :
    evaluate op x y type type s = .ok result s' := by
  unfold evaluate
  split
  · unfold compare
    rw [widerSize_of_le (Nat.le_refl _)]
    exact (Success.bind_of_ok folds).trans rfl
  · unfold arith
    exact (Success.bind_of_ok folds).trans rfl

theorem fold_literals (fits : Fits type left first) (fits' : Fits type right second) :
    fold op (.lit left) (.lit right) type.operandSize type.isSigned =
      match foldWords op first second type.isSigned with
      | .word value => do
          log ("fold: " ++ left.spelling ++ " " ++ op.symbol ++ " " ++ right.spelling)
          return some (.lit (literalOf (wrap value type.operandSize type.isSigned) type.isSigned))
      | .truth value => return some (.lit (.ofBool value))
      | .divisionByZero => do
          report (.ofMessage "division by zero in constant expression")
          return some (.lit (.ofInt 0))
      | .unknown => return none := by
  unfold fold foldLiterals
  simp only [fits.value, fits'.value]
  rewrite [wrap_eq_extend, wrap_eq_extend, fits.within, fits'.within]
  rfl

theorem constant_of_word (fits : Fits type left first) (fits' : Fits type right second)
    (folds : foldWords op first second type.isSigned = .word value) :
    Constant (evaluate op (.lit left) (.lit right) type type)
      (literalOf (extend value type.operandSize type.isSigned) type.isSigned) := by
  intro s
  let traced := s.draft.traced
    ("fold: " ++ left.spelling ++ " " ++ op.symbol ++ " " ++ right.spelling)
  refine ⟨{ s with draft := traced }, evaluate_eq_fold ?_, rfl, rfl⟩
  rw [fold_literals fits fits', folds, ← wrap_eq_extend]
  rfl

theorem constant_of_truth (fits : Fits type left first) (fits' : Fits type right second)
    (folds : foldWords op first second type.isSigned = .truth truth) :
    Constant (evaluate op (.lit left) (.lit right) type type) (.ofBool truth) := by
  intro s
  refine ⟨s, evaluate_eq_fold ?_, rfl, rfl⟩
  rw [fold_literals fits fits', folds]
  rfl

/-- A division by zero is reported. -/
theorem refused_of_zero (fits : Fits type left first) (fits' : Fits type right second)
    (folds : foldWords op first second type.isSigned = .divisionByZero) (s : State) :
    evaluate op (.lit left) (.lit right) type type s = .ok (.lit (.ofInt 0))
      (reported s (.ofMessage "division by zero in constant expression")) := by
  apply evaluate_eq_fold
  rw [fold_literals fits fits', folds]
  rfl

theorem denotes_word (sized : type.operandSize ≠ .unsized) (value : UInt64) :
    Denotes type.operandSize
      (literalOf (extend value type.operandSize type.isSigned) type.isSigned)
      (extend value type.operandSize type.isSigned) :=
  ⟨numeric?_literalOf _ _, minSize_literalOf sized (extend_extend _ _ _ _)⟩

theorem denotes_truth (sized : type.operandSize ≠ .unsized) (truth : Bool) :
    Denotes type.operandSize (.ofBool truth) (truthByte truth) := by
  refine ⟨numeric?_ofBool truth, 1, minSize_ofBool truth, ?_⟩
  generalize type.operandSize = size at sized
  cases size with
  | unsized => contradiction
  | _ => decide

end Operators

section Code

variable {s s₁ s' : State} {x y result : Operand} {type other : TypeRef} {op : BinaryOp}
  {first second value : UInt64}

/-- The code that has been added takes the words that operands have held before it to a word in the
result. -/
def Computes (s s' : State) (held : List (Operand × UInt64)) (result : Operand) (word : UInt64) :
    Prop :=
  ∃ code, s'.draft.text.code = s.draft.text.code ++ code ∧
    ∀ {image : Image} {index : Nat} (checked : Bool) (view : View), Hosts image s s' index code →
      (∀ item ∈ held, Shows (before s s') view item.1 item.2) →
      ∃ view', Runs image checked index view (index + code.length) view' ∧
        Shows s'.draft.timeline.current view' result word

/-- A variable of a type. -/
structure Varies (draft : Draft) (type : TypeRef) (operand : Operand) : Prop where
  rests : Rests draft operand
  width : operand.size = type.operandSize

/-- A cell of the frame is a variable. -/
theorem varies_cell (s : State) (type : TypeRef) (offset : Int64) :
    Varies s.draft type (.mem (frameCell offset type.operandSize)) :=
  ⟨.cell rfl (.inl rfl), rfl⟩

/-- Code behind one that preserves the variables computes from the words that they have held. -/
theorem Preserves.computes {start : View → Prop} {lost : Handle → Prop}
    {held : List (Operand × UInt64)} {clearing : List Entry}
    (preserves : Preserves s s₁ clearing)
    (adds : AddsIf start lost s₁ s' fun _ view' =>
      Shows s'.draft.timeline.current view' result word)
    (rests : ∀ item ∈ held, Rests s.draft item.1 ∧ Regular item.1.size) (tidy : s.draft.Tidy)
    (starts : ∀ view, (∀ item ∈ held, Shows s₁.draft.timeline.current view item.1 item.2) →
      start view) : Computes s s' held result word := by
  obtain ⟨rest, added, leads⟩ := adds
  refine ⟨clearing ++ rest, ?_, ?_⟩
  · rw [added.appended, preserves.appended, List.append_assoc]
  intro image index checked view hosts holds
  have faithful : Faithful image s s' := hosts.agrees
  obtain ⟨view₁, straight, kept⟩ := preserves.leads checked view (faithful.left added)
  have words : ∀ item ∈ held, Shows s₁.draft.timeline.current view₁ item.1 item.2 := by
    intro item member
    obtain ⟨rests', regular⟩ := rests item member
    obtain ⟨spot, sits, read⟩ := holds item member
    refine kept rests' regular ⟨spot, sits.congr ?_, read⟩
    intro handle phys behind placed
    obtain ⟨⟨slot, holds'⟩, _⟩ := rests'.reached behind
    have issued : handle < s₁.draft.timeline.count :=
      preserves.count ▸ tidy.lt_count_of_holds holds'
    rw [← placed]
    exact (added.placeAt_old issued _).symm
  obtain ⟨view', straight', shows'⟩ :=
    leads checked view₁ (starts view₁ words) (faithful.right preserves.clock)
  exact ⟨view', Runs.of_straight hosts.holds (straight.append straight'), shows'⟩

/-- Straight code behind nothing else. -/
theorem Adds.computes {lost : Handle → Prop} {relation : View → View → Prop}
    {held : List (Operand × UInt64)} (adds : Adds lost s s' relation)
    (rests : ∀ item ∈ held, Rests s.draft item.1 ∧ Regular item.1.size) (tidy : s.draft.Tidy)
    (leads : ∀ view view', relation view view' →
      (∀ item ∈ held, Shows s.draft.timeline.current view item.1 item.2) →
      Shows s'.draft.timeline.current view' result word) : Computes s s' held result word := by
  obtain ⟨code, added, runs⟩ := adds
  refine Preserves.computes (.refl tidy) ⟨code, added, ?_⟩ rests tidy fun _ => id
  intro image checked view holds faithful
  obtain ⟨view', straight, related⟩ := runs checked view faithful
  exact ⟨view', straight, leads _ _ related holds⟩

theorem foldWords_division {signed : Bool} (remainder : Bool) (some' : second ≠ 0) :
    foldWords (if remainder then .mod else .div) first second signed =
      .word (if remainder then Machine.remainder first second signed
        else quotient first second signed) := by
  cases remainder with
  | false => exact if_neg some'
  | true => exact if_neg some'

section Variables

variable {instr : Op} {spot : Spot} {place : Handle → Option Phys}

theorem fold_variable (sits : Sits place x spot) (size : Size) (signed : Bool) :
    fold op x y size signed = pure none := by
  cases sits <;> rfl

theorem evaluate_comparison (sits : Sits place x spot) (comparison : op.isComparison = true)
    (narrower : other.operandSize.bytes ≤ type.operandSize.bytes) :
    evaluate op x y type other =
      compareOperands (comparisonCond op type.isSigned) x y type.operandSize type.isSigned := by
  unfold evaluate compare
  dsimp only
  rw [if_pos comparison, widerSize_of_le narrower, fold_variable sits]
  rfl

theorem evaluate_combine (sits : Sits place x spot) (known : arithOp? op = some instr) :
    evaluate op x y type other = combine op instr x y type.operandSize type.isSigned := by
  have folds := @fold_variable x y op spot place sits type.operandSize type.isSigned
  unfold evaluate arith
  dsimp only
  rw [folds]
  cases op with
  | add | sub | mul | and | or | xor =>
    obtain rfl := Option.some.inj known
    rfl
  | _ => contradiction

theorem evaluate_divide (sits : Sits place x spot) (remainder : Bool) :
    evaluate (if remainder then .mod else .div) x y type other =
      divide x y type.operandSize type.isSigned remainder := by
  have folds := @fold_variable x y (if remainder then .mod else .div) spot place sits
    type.operandSize type.isSigned
  unfold evaluate arith
  dsimp only
  rw [folds]
  cases remainder <;> rfl

end Variables

section Operators

variable (left : Varies s.draft type x) (right : Varies s.draft other y)
  (regular : Regular type.operandSize) (regular' : Regular other.operandSize) (tidy : s.draft.Tidy)
include left right regular regular'

theorem held_binary (first second : UInt64) : ∀ item ∈ [(x, first), (y, second)],
    Rests s.draft item.1 ∧ Regular item.1.size := by
  simp only [List.forall_mem_cons, List.not_mem_nil, false_imp_iff, implies_true, and_true]
  exact ⟨⟨left.rests, left.width ▸ regular⟩, right.rests, right.width ▸ regular'⟩

theorem operands_of_varies : Operands s.draft type.operandSize x y :=
  ⟨left.rests, right.rests, regular, left.width ▸ regular, right.width ▸ regular'⟩

variable (within : extend first type.operandSize type.isSigned = first)
include tidy within

/-- A comparison of variables computes the byte of the truth that the folder finds.  The right
variable is extended as the left one is signed. -/
theorem computes_comparison {truth : Bool} (comparison : op.isComparison = true)
    (narrower : other.operandSize.bytes ≤ type.operandSize.bytes)
    (folds : foldWords op first (extend second other.operandSize type.isSigned) type.isSigned =
      .truth truth)
    (run : evaluate op x y type other s = .ok result s') :
    result.size = .s8 ∧ Computes s s' [(x, first), (y, second)] result (truthByte truth) := by
  obtain ⟨spot, sits, _⟩ := left.rests.sits tidy (left.width ▸ regular)
  rw [evaluate_comparison sits comparison narrower] at run
  obtain ⟨byte, adds⟩ := adds_compareOperands comparison tidy
    (operands_of_varies left right regular regular') run
  refine ⟨byte, adds.computes (held_binary left right regular regular' first second) tidy ?_⟩
  intro view view' becomes holds
  obtain ⟨word, ⟨truth', folds', rfl⟩, shows'⟩ := becomes first second
    (holds (x, first) (by simp)) (holds (y, second) (by simp))
  rw [left.width, right.width, extend_extend, within,
    extend_extend_of_le regular'.sized regular.sized narrower, folds] at folds'
  cases folds'
  exact shows'

/-- The code of an operator on variables computes the word that the folder finds.  The right
variable is extended as the type of the operation is signed. -/
theorem computes_arithmetic {instr : Op} (known : arithOp? op = some instr)
    (narrower : other.operandSize.bytes ≤ type.operandSize.bytes)
    (folds : foldWords op first (extend second other.operandSize type.isSigned) type.isSigned =
      .word value)
    (run : evaluate op x y type other s = .ok result s') :
    result.size = type.operandSize ∧ Computes s s' [(x, first), (y, second)] result
      (extend value type.operandSize type.isSigned) := by
  obtain ⟨spot, sits, _⟩ := left.rests.sits tidy (left.width ▸ regular)
  rw [evaluate_combine sits known] at run
  have bytes : type.operandSize = .s8 → y.size = .s8 :=
    fun byte => right.width.trans (regular'.eq_octet (byte ▸ narrower))
  obtain ⟨width, adds⟩ := adds_combine known tidy
    (operands_of_varies left right regular regular') bytes run
  refine ⟨width, adds.computes (held_binary left right regular regular' first second) tidy ?_⟩
  intro view view' becomes holds
  obtain ⟨word, folds', shows'⟩ := becomes first second
    (holds (x, first) (by simp)) (holds (y, second) (by simp))
  rw [left.width, right.width, within, folds] at folds'
  cases folds'
  apply shows'.congr
  rw [width, extend_and_mask]

/-- A division of variables computes the word that the folder finds. -/
theorem computes_division (remainder : Bool)
    (some' : extend second other.operandSize type.isSigned ≠ 0)
    (folds : foldWords (if remainder then .mod else .div) first
      (extend second other.operandSize type.isSigned) type.isSigned = .word value)
    (run : evaluate (if remainder then .mod else .div) x y type other s = .ok result s') :
    result.size = type.operandSize ∧ Computes s s' [(x, first), (y, second)] result
      (extend value type.operandSize type.isSigned) := by
  obtain ⟨spot, sits, _⟩ := left.rests.sits tidy (left.width ▸ regular)
  obtain ⟨spot', sits', _⟩ := right.rests.sits tidy (right.width ▸ regular')
  rw [evaluate_divide sits, divide_eq sits'] at run
  obtain ⟨_, s₁, reserved, divided⟩ := Success.bind_ok.mp run
  obtain ⟨⟨clearing, preserves⟩, empty⟩ := preserves_reserve tidy reserved
  have operands : Operands s₁.draft type.operandSize x y :=
    { operands_of_varies left right regular regular' with
      left := preserves.rests left.rests
      right := preserves.rests right.rests }
  obtain ⟨width, adds⟩ := adds_divideInto preserves.tidy empty operands divided first second
    (by rwa [right.width])
  refine ⟨width, preserves.computes (adds.mono ?_)
    (held_binary left right regular regular' first second) tidy ?_⟩
  · intro view view' _ shows'
    rw [left.width, right.width, within] at shows'
    rw [foldWords_division remainder some'] at folds
    cases folds
    apply shows'.congr
    rw [width, extend_and_mask]
  · intro view holds
    exact ⟨holds (x, first) (by simp), holds (y, second) (by simp)⟩

end Operators

section Unary

variable {literal : Literal}

theorem unary_literal {op : UnaryOp} {folded : Literal}
    (folds : foldUnary? op literal type.operandSize type.isSigned = some folded) :
    Constant (unary op (.lit literal) type) folded := by
  intro s
  have looked : foldedOperand? op (.lit literal) type = some folded := folds
  refine ⟨s, ?_, rfl, rfl⟩
  unfold unary
  rw [looked]
  rfl

/-- A number is no address, and has bits. -/
theorem bits_of_numeric (value : numeric? literal = some word) :
    literal.isLabel = false ∧ literal.kind ≠ .string ∧ literal.bits = .ok word := by
  unfold numeric? at value
  unfold Literal.isLabel
  cases kind : literal.kind with
  | int | uint | hex | binary | bool =>
    rw [kind] at value
    dsimp only at value
    cases bits : literal.bits with
    | error fault => simp [bits, Except.toOption] at value
    | ok found =>
      rw [bits] at value
      exact ⟨by decide, by decide, congrArg _ (Option.some.inj value)⟩
  | _ => simp [kind] at value

/-- A literal with a word is true if the word is not zero. -/
theorem truth_of_numeric (value : numeric? literal = some word) :
    truth literal = !decide (word = 0) := by
  obtain ⟨label, text, bits⟩ := bits_of_numeric value
  simp [truth, label, text, bits, bne, Bool.beq_eq_decide_eq]

variable {spot : Spot} {place : Handle → Option Phys}

theorem unary_variable {op : UnaryOp} (sits : Sits place x spot) :
    unary op x type = match op with
      | .neg => change .neg x type
      | .compl => change .not x type
      | .not => negate x
      | .other symbol => throw (.unknownUnaryOperator symbol) := by
  cases sits <;> rfl

/-- A word within a width is zero if its low part is. -/
theorem low_eq_zero_iff {size : Size} {signed : Bool} (sized : size ≠ .unsized)
    (within : extend word size signed = word) : word &&& mask size = 0 ↔ word = 0 := by
  have zero : extend 0 size signed = 0 := extend_of_lt sized signed (Nat.two_pow_pos _)
  refine ⟨fun low => ?_, fun same => ?_⟩
  · rw [← within, ← zero]
    exact extend_congr (low.trans (UInt64.zero_and).symm) signed
  · rw [same, UInt64.zero_and]

variable (operand : Varies s.draft type x) (regular : Regular type.operandSize)
include operand regular

theorem held_unary (word : UInt64) :
    ∀ item ∈ [(x, word)], Rests s.draft item.1 ∧ Regular item.1.size := by
  simp only [List.forall_mem_cons, List.not_mem_nil, false_imp_iff, implies_true, and_true]
  exact ⟨operand.rests, operand.width ▸ regular⟩

variable (tidy : s.draft.Tidy)
include tidy

theorem computes_change {op : Op} {value : UInt64 → UInt64} (alters : Alters op value)
    (within : extend word type.operandSize type.isSigned = word)
    (run : change op x type s = .ok result s') :
    result.size = type.operandSize ∧ Computes s s' [(x, word)] result
      (extend (value word) type.operandSize type.isSigned) := by
  obtain ⟨width, adds⟩ := adds_change alters tidy operand.rests regular
    (operand.width ▸ regular) run
  refine ⟨width, adds.computes (held_unary operand regular word) tidy ?_⟩
  intro view view' becomes holds
  have shows' := becomes word (holds (x, word) (by simp))
  rw [operand.width, within] at shows'
  apply shows'.congr
  rw [width, extend_and_mask]

theorem computes_negate (within : extend word type.operandSize type.isSigned = word)
    (run : negate x s = .ok result s') :
    result.size = .s8 ∧ Computes s s' [(x, word)] result (truthByte (decide (word = 0))) := by
  obtain ⟨byte, adds⟩ := adds_negate tidy operand.rests (operand.width ▸ regular) run
  refine ⟨byte, adds.computes (held_unary operand regular word) tidy ?_⟩
  intro view view' becomes holds
  have shows' := becomes word (holds (x, word) (by simp))
  rwa [operand.width, decide_eq_decide.mpr (low_eq_zero_iff regular.sized within)] at shows'

end Unary

end Code

section Agreement

variable {type : TypeRef} {op : BinaryOp} {left right literal : Literal}
  {first second word : UInt64} {s : State} {x y : Operand}

/-- The built-in operators other than shifts. -/
def isPlain : BinaryOp → Bool
  | .shl | .shr | .other _ => false
  | _ => true

def divides : BinaryOp → Bool
  | .div | .mod => true
  | _ => false

/-- The width of a truth value, or of a value of a type. -/
def resultSize (truth : Bool) (type : TypeRef) : Size := if truth then .s8 else type.operandSize

/-- The code of an operator ends in a word, whenever it is generated, and it is if there is room. -/
structure Delivers (s : State) (action : Gen Operand) (held : List (Operand × UInt64))
    (size : Size) (word : UInt64) : Prop where
  ends : Roomy s → Ends action s
  computes : ∀ {result s'}, action s = .ok result s' →
    result.size = size ∧ Computes s s' held result word

theorem regular_operandSize (known : type.kind ≠ .void) : Regular type.operandSize := by
  unfold TypeRef.operandSize
  rw [if_neg known]
  unfold Size.ofBytes Size.ofBytes?
  split <;> exact ⟨by decide, by decide⟩

theorem plain_cases (plain : isPlain op = true) : op.isComparison = true ∨
    (∃ instr, arithOp? op = some instr) ∨
      ∃ remainder : Bool, op = if remainder then .mod else .div := by
  cases op with
  | div => exact .inr (.inr ⟨false, rfl⟩)
  | mod => exact .inr (.inr ⟨true, rfl⟩)
  | add | sub | mul | and | or | xor => exact .inr (.inl ⟨_, rfl⟩)
  | eq | ne | lt | le | gt | ge => exact .inl rfl
  | _ => contradiction

theorem foldWords_comparison {signed : Bool} (comparison : op.isComparison = true) :
    ∃ truth, foldWords op first second signed = .truth truth := by
  cases op with
  | eq | ne | lt | le | gt | ge => exact ⟨_, rfl⟩
  | _ => contradiction

theorem foldWords_arithmetic {signed : Bool} {instr : Op} (known : arithOp? op = some instr) :
    ∃ value, foldWords op first second signed = .word value := by
  cases op with
  | add | sub | mul | and | or | xor => exact ⟨_, rfl⟩
  | _ => contradiction

theorem not_comparison_of_arithOp {instr : Op} (known : arithOp? op = some instr) :
    op.isComparison = false := by
  cases op with
  | add | sub | mul | and | or | xor => rfl
  | _ => contradiction

section Delivery

variable (regular : Regular type.operandSize) (fits : Fits type left first)
  (fits' : Fits type right second)
include regular fits fits'

/-- A comparison of literals is folded to the truth that the code computes. -/
theorem delivers_comparison (comparison : op.isComparison = true) : ∃ folded word,
    Constant (evaluate op (.lit left) (.lit right) type type) folded ∧
      Denotes type.operandSize folded word ∧
      ∀ {s x y}, s.draft.Tidy → Varies s.draft type x → Varies s.draft type y →
        Delivers s (evaluate op x y type type) [(x, first), (y, second)] .s8 word := by
  obtain ⟨truth, folds⟩ :=
    @foldWords_comparison op first second type.isSigned comparison
  refine ⟨_, _, constant_of_truth fits fits' folds, denotes_truth regular.sized truth, ?_⟩
  intro s x y tidy left' right'
  refine ⟨fun roomy => ?_, computes_comparison left' right' regular regular tidy fits.within
    comparison (Nat.le_refl _) (by rwa [fits'.within])⟩
  obtain ⟨spot, sits, _⟩ := left'.rests.sits tidy (left'.width ▸ regular)
  rw [evaluate_comparison sits comparison (Nat.le_refl _)]
  exact compareOperands_ends tidy roomy (operands_of_varies left' right' regular regular)
    left'.width _ _

/-- An operator on literals is folded to the word that the code computes. -/
theorem delivers_arithmetic {instr : Op} (known : arithOp? op = some instr) : ∃ folded word,
    Constant (evaluate op (.lit left) (.lit right) type type) folded ∧
      Denotes type.operandSize folded word ∧
      ∀ {s x y}, s.draft.Tidy → Varies s.draft type x → Varies s.draft type y →
        Delivers s (evaluate op x y type type) [(x, first), (y, second)] type.operandSize word := by
  obtain ⟨value, folds⟩ := @foldWords_arithmetic op first second type.isSigned instr known
  refine ⟨_, _, constant_of_word fits fits' folds, denotes_word regular.sized value, ?_⟩
  intro s x y tidy left' right'
  refine ⟨fun roomy => ?_, computes_arithmetic left' right' regular regular tidy fits.within
    known (Nat.le_refl _) (by rwa [fits'.within])⟩
  obtain ⟨spot, sits, _⟩ := left'.rests.sits tidy (left'.width ▸ regular)
  rw [evaluate_combine sits known]
  exact combine_ends tidy roomy (operands_of_varies left' right' regular regular) right'.width _

theorem delivers_division (remainder : Bool) (some' : second ≠ 0) : ∃ folded word,
    Constant (evaluate (if remainder then .mod else .div) (.lit left) (.lit right) type type)
      folded ∧
      Denotes type.operandSize folded word ∧
      ∀ {s x y}, s.draft.Tidy → Varies s.draft type x → Varies s.draft type y →
        Delivers s (evaluate (if remainder then .mod else .div) x y type type)
          [(x, first), (y, second)] type.operandSize word := by
  have folds := @foldWords_division first second type.isSigned remainder some'
  refine ⟨_, _, constant_of_word fits fits' folds, denotes_word regular.sized _, ?_⟩
  intro s x y tidy left' right'
  refine ⟨fun roomy => ?_, computes_division left' right' regular regular tidy fits.within
    remainder (by rwa [fits'.within]) (by rwa [fits'.within])⟩
  obtain ⟨spot, sits, _⟩ := left'.rests.sits tidy (left'.width ▸ regular)
  rw [evaluate_divide sits]
  exact divide_ends tidy roomy (operands_of_varies left' right' regular regular) _ _

end Delivery

section Unary

variable (regular : Regular type.operandSize) (fits : Fits type literal word)
include regular fits

/-- An operator that works in place is folded to the word that the code computes. -/
theorem delivers_change {op : UnaryOp} {instr : Op} {value : UInt64 → UInt64}
    (alters : Alters instr value)
    (folds : foldUnary? op literal type.operandSize type.isSigned =
      some (literalOf (wrap (value word) type.operandSize type.isSigned) type.isSigned))
    (lowers : ∀ {place x spot}, Sits place x spot → unary op x type = change instr x type) :
    ∃ folded value, Constant (unary op (.lit literal) type) folded ∧
      Denotes type.operandSize folded value ∧
      ∀ {s x}, s.draft.Tidy → Varies s.draft type x →
        Delivers s (unary op x type) [(x, word)] type.operandSize value := by
  rw [wrap_eq_extend] at folds
  refine ⟨_, _, unary_literal folds, denotes_word regular.sized _, ?_⟩
  intro s x tidy operand
  obtain ⟨spot, sits, _⟩ := operand.rests.sits tidy (operand.width ▸ regular)
  rw [lowers sits]
  refine ⟨?_, computes_change operand regular tidy alters fits.within⟩
  rintro ⟨slot, _, _, vacant, _⟩
  exact change_ends tidy vacant operand.rests (operand.width ▸ regular) _

/-- A negation is folded to the truth that the code computes. -/
theorem delivers_negate : ∃ folded value, Constant (unary .not (.lit literal) type) folded ∧
    Denotes type.operandSize folded value ∧
    ∀ {s x}, s.draft.Tidy → Varies s.draft type x →
      Delivers s (unary .not x type) [(x, word)] .s8 value := by
  have folds : foldUnary? .not literal type.operandSize type.isSigned =
      some (.ofBool (decide (word = 0))) := by
    rw [foldUnary?, truth_of_numeric fits.value, Bool.not_not]
  refine ⟨_, _, unary_literal folds, denotes_truth regular.sized _, ?_⟩
  intro s x tidy operand
  obtain ⟨spot, sits, _⟩ := operand.rests.sits tidy (operand.width ▸ regular)
  rw [unary_variable sits]
  refine ⟨?_, computes_negate operand regular tidy fits.within⟩
  rintro ⟨slot, _, _, vacant, _⟩
  exact negate_ends tidy vacant operand.rests (operand.width ▸ regular)

end Unary

/-- Folding agrees with the generated code.  An operator on literals that its type can represent is
folded, in every state and without code, to a literal that needs no more bytes than the type has.
The literal denotes the word that the code of the operator computes from variables that hold the
words of the literals.  A division by zero is reported instead. -/
theorem folds_agree {type : TypeRef} (known : type.kind ≠ .void) :
    (∀ {op left right first second}, isPlain op = true → Fits type left first →
      Fits type right second →
      (divides op = true ∧ second = 0 → ∀ s,
        evaluate op (.lit left) (.lit right) type type s = .ok (.lit (.ofInt 0))
          (reported s (.ofMessage "division by zero in constant expression"))) ∧
      (¬ (divides op = true ∧ second = 0) → ∃ folded word,
        Constant (evaluate op (.lit left) (.lit right) type type) folded ∧
          Denotes type.operandSize folded word ∧
          ∀ {s x y}, s.draft.Tidy → Varies s.draft type x → Varies s.draft type y →
            Delivers s (evaluate op x y type type) [(x, first), (y, second)]
              (resultSize op.isComparison type) word)) ∧
    ∀ {op literal word}, op ∈ [UnaryOp.neg, .compl, .not] → Fits type literal word →
      ∃ folded value, Constant (unary op (.lit literal) type) folded ∧
        Denotes type.operandSize folded value ∧
        ∀ {s x}, s.draft.Tidy → Varies s.draft type x →
          Delivers s (unary op x type) [(x, word)] (resultSize (op = .not) type) value := by
  have regular := regular_operandSize known
  refine ⟨?_, ?_⟩
  · intro op left right first second plain fits fits'
    refine ⟨?_, ?_⟩
    · rintro ⟨division, rfl⟩ s
      apply refused_of_zero fits fits'
      cases op with
      | div | mod => rfl
      | _ => contradiction
    · intro some'
      rcases plain_cases plain with comparison | ⟨instr, arithmetic⟩ | ⟨remainder, rfl⟩
      · rw [resultSize, if_pos comparison]
        exact delivers_comparison regular fits fits' comparison
      · rw [resultSize, not_comparison_of_arithOp arithmetic, if_neg Bool.false_ne_true]
        exact delivers_arithmetic regular fits fits' arithmetic
      · have nonzero : second ≠ 0 := by
          rintro rfl
          apply some'
          cases remainder <;> exact ⟨rfl, rfl⟩
        have value : (if remainder then BinaryOp.mod else .div).isComparison = false := by
          cases remainder <;> rfl
        rw [resultSize, value, if_neg Bool.false_ne_true]
        exact delivers_division regular fits fits' remainder nonzero
  · intro op literal word member fits
    have folds := fits.value
    rcases List.mem_cons.mp member with rfl | member
    · exact delivers_change regular fits alters_neg (by simp [foldUnary?, folds])
        fun sits => unary_variable sits
    rcases List.mem_cons.mp member with rfl | member
    · exact delivers_change regular fits alters_not (by simp [foldUnary?, folds])
        fun sits => unary_variable sits
    · obtain rfl := List.mem_singleton.mp member
      exact delivers_negate regular fits

/-- The least number divided by minus one is itself again, and so is its negation. -/
theorem least_divided :
    let least : Literal := .ofInt (-0x8000000000000000)
    let x : Operand := .mem (frameCell (-8) .s64)
    let y : Operand := .mem (frameCell (-16) .s64)
    (Constant (evaluate .div (.lit least) (.lit (.ofInt (-1))) .int .int) least ∧
      ∃ result s', evaluate .div x y .int .int .initial = .ok result s' ∧
        Computes .initial s' [(x, 0x8000000000000000), (y, 0xFFFFFFFFFFFFFFFF)] result
          0x8000000000000000) ∧
    Constant (unary .neg (.lit least) .int) least ∧
      ∃ result s', unary .neg x .int .initial = .ok result s' ∧
        Computes .initial s' [(x, 0x8000000000000000)] result 0x8000000000000000 := by
  intro least x y
  have fits : Fits .int least 0x8000000000000000 := fits_ofInt (by decide) (by decide) (by decide)
  have fits' : Fits .int (.ofInt (-1)) 0xFFFFFFFFFFFFFFFF :=
    fits_ofInt (by decide) (by decide) (by decide)
  obtain ⟨binary, unary'⟩ := @folds_agree .int (by decide)
  refine ⟨?_, ?_⟩
  · obtain ⟨folded, word, constant, denotes, delivers⟩ :=
      (@binary .div _ _ _ _ rfl fits fits').2 (by decide)
    have folds : foldWords .div 0x8000000000000000 0xFFFFFFFFFFFFFFFF TypeRef.int.isSigned =
        .word 0x8000000000000000 := by decide
    have same : folded = least := constant.unique (constant_of_word fits fits' folds)
    subst same
    obtain rfl := Option.some.inj (denotes.value.symm.trans fits.value)
    have delivered := delivers Draft.tidy_empty (varies_cell .initial .int (-8))
      (varies_cell .initial .int (-16))
    obtain ⟨result, s', run⟩ := delivered.ends roomy_initial
    exact ⟨constant, result, s', run, (delivered.computes run).2⟩
  · obtain ⟨folded, word, constant, denotes, delivers⟩ := @unary' .neg _ _ (by simp) fits
    have folds : foldUnary? .neg least .s64 true = some least := by decide
    have same : folded = least := constant.unique (unary_literal folds)
    subst same
    obtain rfl := Option.some.inj (denotes.value.symm.trans fits.value)
    have delivered := delivers Draft.tidy_empty (varies_cell .initial .int (-8))
    obtain ⟨result, s', run⟩ := delivered.ends roomy_initial
    exact ⟨constant, result, s', run, (delivered.computes run).2⟩

end Agreement

end Lower

end X64Backend
