import X64Backend.Proofs.Lower.Folding
import X64Backend.Proofs.Lower.Records
import X64Backend.Proofs.Lower.Widths

/-!
Which literals are checked, and where.  A literal that is moved, loaded or made the source of an
instruction has to fit the width there; an operator on two numeric literals must not divide by zero;
a literal divisor must not be zero and a literal count has to be one.  Operands that are no literals
are never a problem.  A literal argument is checked in a register but not on the stack.
-/

namespace X64Backend

namespace Literal

/-- A literal up to the name of the label that it stands for. -/
def blur (literal : Literal) : Literal :=
  if literal.isLabel then .data "" else literal

/-- A literal needs no more bytes than a width has. -/
def FitsIn (literal : Literal) (size : Size) : Prop :=
  size = .unsized ∨ ∃ need, literal.minSize = .ok need ∧ need ≤ size.bytes

/-- A literal has a value: it stands for an address, or for bits. -/
def Valid (literal : Literal) : Prop :=
  literal.isLabel = true ∨ ∃ word, literal.bits = .ok word

/-- Whether a literal has the value zero. -/
def isZero (literal : Literal) : Bool :=
  match literal.bits with
  | .ok word => word == 0
  | .error _ => false

variable {literal : Literal} {size size' : Size}

theorem blur_of_value (value : literal.isLabel = false) : literal.blur = literal := by
  rw [blur, value]
  rfl

/-- All labels are alike in what does not depend on their names. -/
theorem congr_blur {β : Type} {f : Literal → β}
    (same : ∀ literal, literal.isLabel = true → f literal = f (.data "")) (literal : Literal) :
    f literal.blur = f literal := by
  cases label : literal.isLabel with
  | false => rw [blur_of_value label]
  | true =>
    rw [same literal label, blur, if_pos label]

/-- The kinds that name an address. -/
theorem kind_of_isLabel (label : literal.isLabel = true) :
    literal.kind = .dataLabel ∨ literal.kind = .procLabel := by
  simpa [isLabel] using label

theorem bits_of_isLabel (label : literal.isLabel = true) :
    ∃ fault, literal.bits = .error fault := by
  unfold Literal.bits
  rcases kind_of_isLabel label with kind | kind
  · rw [kind]
    exact ⟨_, rfl⟩
  · rw [kind]
    exact ⟨_, rfl⟩

@[simp]
theorem minSize_blur (literal : Literal) : literal.blur.minSize = literal.minSize := by
  refine congr_blur ?_ literal
  intro literal label
  unfold minSize
  rcases kind_of_isLabel label with kind | kind
  · rw [kind]
    rfl
  · rw [kind]
    rfl

@[simp]
theorem fitsIn_blur : literal.blur.FitsIn size ↔ literal.FitsIn size := by
  rw [FitsIn, FitsIn, minSize_blur]

@[simp]
theorem isZero_blur (literal : Literal) : literal.blur.isZero = literal.isZero := by
  refine congr_blur ?_ literal
  intro literal label
  obtain ⟨fault, bits⟩ := bits_of_isLabel label
  unfold isZero
  rw [bits]
  rfl

@[simp]
theorem isCount_blur (literal : Literal) : Lower.isCount literal.blur = Lower.isCount literal := by
  refine congr_blur ?_ literal
  intro literal label
  obtain ⟨fault, bits⟩ := bits_of_isLabel label
  unfold Lower.isCount
  rw [bits]
  rfl

@[simp]
theorem numeric?_blur (literal : Literal) :
    Lower.numeric? literal.blur = Lower.numeric? literal := by
  refine congr_blur ?_ literal
  intro literal label
  unfold Lower.numeric?
  rcases kind_of_isLabel label with kind | kind
  · rw [kind]
    rfl
  · rw [kind]
    rfl

@[simp]
theorem truth_blur (literal : Literal) : Lower.truth literal.blur = Lower.truth literal := by
  refine congr_blur ?_ literal
  intro literal label
  unfold Lower.truth
  rw [label]
  rfl

@[simp]
theorem valid_blur : literal.blur.Valid ↔ literal.Valid := by
  cases label : literal.isLabel with
  | false => rw [blur_of_value label]
  | true =>
    rw [blur, if_pos label]
    exact ⟨fun _ => .inl label, fun _ => .inl rfl⟩

theorem le_of_map {α : Type} {measure : α → Nat} {result : Except Fault α} {need bound : Nat}
    (within : ∀ a, measure a ≤ bound) (measured : result.map measure = .ok need) :
    need ≤ bound := by
  cases result with
  | ok a =>
    cases measured
    exact within a
  | error fault => cases measured

/-- A literal with a value needs at most eight bytes. -/
theorem minSize_of_valid (valid : literal.Valid) :
    ∃ need, literal.minSize = .ok need ∧ need ≤ 8 := by
  have found : ∃ need, literal.minSize = .ok need := by
    rcases valid with label | ⟨word, bits⟩
    · unfold minSize
      rcases kind_of_isLabel label with kind | kind
      · rw [kind]
        exact ⟨8, rfl⟩
      · rw [kind]
        exact ⟨8, rfl⟩
    · cases integral : literal.kind.isIntegral with
      | true => exact minSize_of_bits integral bits
      | false =>
        unfold minSize
        cases kind : literal.kind with
        | int | uint | hex | binary | bool => simp [kind, Kind.isIntegral] at integral
        | _ => exact ⟨_, rfl⟩
  obtain ⟨need, least⟩ := found
  refine ⟨need, least, ?_⟩
  have signed : ∀ value, signedSize value ≤ 8 := by
    intro value
    unfold signedSize
    split_ifs <;> omega
  have unsigned : ∀ word, unsignedSize word ≤ 8 := by
    intro word
    unfold unsignedSize
    split_ifs <;> omega
  unfold minSize at least
  cases kind : literal.kind with
  | int =>
    rw [kind] at least
    exact le_of_map signed least
  | uint =>
    rw [kind] at least
    exact le_of_map unsigned least
  | binary | hex =>
    rw [kind] at least
    refine le_of_map (fun word => ?_) least
    split
    · exact signed _
    · exact unsigned _
  | bool | string | dataLabel | procLabel =>
    rw [kind] at least
    cases least
    decide
  | float =>
    rw [kind] at least
    cases least
    split <;> decide

theorem Valid.fitsIn (valid : literal.Valid) (wide : 8 ≤ size.bytes) : literal.FitsIn size := by
  obtain ⟨need, least, bound⟩ := minSize_of_valid valid
  exact .inr ⟨need, least, Nat.le_trans bound wide⟩

theorem FitsIn.mono (fits : literal.FitsIn size) (sized : size ≠ .unsized)
    (wider : size.bytes ≤ size'.bytes) : literal.FitsIn size' := by
  rcases fits with unsized | ⟨need, least, room⟩
  · contradiction
  · exact .inr ⟨need, least, Nat.le_trans room wider⟩

end Literal

/-- The literal that an operand is, if it is one, up to the names of labels. -/
def Operand.constant? : Operand → Option Literal
  | .lit literal => some literal.blur
  | _ => none

@[simp]
theorem Operand.constant?_lit (literal : Literal) :
    (Operand.lit literal).constant? = some literal.blur := rfl

@[simp]
theorem Operand.constant?_reg (register : Register) : (Operand.reg register).constant? = none := rfl

@[simp]
theorem Operand.constant?_mem (cell : Pointer) : (Operand.mem cell).constant? = none := rfl

@[simp]
theorem Operand.constant?_absent : Operand.absent.constant? = none := rfl

theorem Operand.constant?_of_isMem {operand : Operand} (isMem : operand.isMem = true) :
    operand.constant? = none := by
  cases operand <;> simp_all [Operand.isMem]

namespace Lower

open X64Backend.Tree Drafting

/-- What is known to be a literal fits a width. -/
def Fit (known : Option Literal) (size : Size) : Prop :=
  ∀ literal ∈ known, literal.FitsIn size

/-- What is known to be a literal has a value. -/
def Sound (known : Option Literal) : Prop :=
  ∀ literal ∈ known, literal.Valid

@[simp]
theorem fit_none (size : Size) : Fit none size := nofun

@[simp]
theorem sound_none : Sound none := nofun

theorem Sound.fit {known : Option Literal} {size : Size} (sound : Sound known)
    (wide : 8 ≤ size.bytes) : Fit known size :=
  fun literal is => (sound literal is).fitsIn wide

/-- What an operator makes of its operands, as far as they are known to be literals. -/
def outcome (op : BinaryOp) (left right : Option Literal) (size : Size) (signed : Bool) : Folded :=
  match left.bind numeric?, right.bind numeric? with
  | some first, some second =>
      foldWords op (wrap first size signed) (wrap second size signed) signed
  | _, _ => .unknown

/-- The literal that a folded operator leaves. -/
def Folded.literal? (size : Size) (signed : Bool) : Folded → Option Literal
  | .word value => some (literalOf (wrap value size signed) signed)
  | .truth value => some (.ofBool value)
  | .divisionByZero | .unknown => none

/-- The literals among the operands of an arithmetic operator are fit for its instructions. -/
def Suits (op : BinaryOp) (left right : Option Literal) (size : Size) : Prop :=
  match op with
  | .div | .mod => right.any Literal.isZero = false ∧ Fit left .s64 ∧ Fit right .s64
  | .shl | .shr => Fit left size ∧ ∀ count ∈ right, isCount count = true
  | _ => Fit left size ∧ Fit right size

section Moves

variable {s : State} {literal : Literal} {operand dst src value : Operand} {size : Size}
  {signed : Bool}

theorem judges_fits : Judges s (fits literal size) (literal.FitsIn size)
    (literal.FitsIn size ∧ literal.Valid) fun fitting => fitting = true := by
  unfold fits
  cases least : literal.minSize with
  | error fault =>
      refine judges_reporting _ (.pure _) ?_
      rintro ⟨_, valid⟩
      obtain ⟨need, least', _⟩ := Literal.minSize_of_valid valid
      rw [least] at least'
      cases least'
  | ok need =>
      dsimp only
      split
      · rename_i wide
        simp only [ne_eq, Bool.and_eq_true, decide_eq_true_eq] at wide
        refine judges_reporting _ (.pure _) ?_
        rintro ⟨unsized | ⟨need', least', room⟩, _⟩
        · exact wide.1 unsized
        · rw [least] at least'
          cases least'
          omega
      · rename_i within
        refine .pure rfl ?_
        simp only [ne_eq, Bool.and_eq_true, decide_eq_true_eq, not_and] at within
        by_cases unsized : size = .unsized
        · exact .inl unsized
        · exact .inr ⟨need, least, Nat.not_lt.mp (within unsized)⟩

theorem judges_storeHalves (cell : Pointer) (order : ChunkOrder) :
    Judges s (storeHalves cell literal order) True (∃ word, literal.bits = .ok word)
      fun _ => True := by
  unfold storeHalves
  cases split : literal.halves with
  | error fault =>
      refine judges_report _ ?_
      rintro ⟨word, bits⟩
      rw [Literal.halves, bits] at split
      cases split
  | ok pair =>
      refine Mute.judges ?_ (fun _ _ _ => trivial) trivial
      refine (mute_log _).bind fun _ => ?_
      cases order with
      | lowFirst => exact mute_emit _
      | highFirst => exact mute_emit _

theorem judges_storeLiteral (order : ChunkOrder) :
    Judges s (storeLiteral dst literal order) (literal.FitsIn dst.size)
      (literal.FitsIn dst.size ∧ literal.Valid) fun _ => True := by
  refine (Judges.bind (fun _ => True) (fun _ => literal.Valid) (fun _ _ => True) judges_fits
    fun fitting s₁ _ => .ite (fun _ => ?_) fun _ => .pure trivial trivial).mono And.left
    (fun adequate => ⟨adequate, fun _ _ => adequate.2⟩) fun _ _ _ => trivial
  split
  · refine .ite (fun _ => (mute_emit _).judges (fun _ _ _ => trivial) trivial) fun wide => ?_
    refine (judges_storeHalves _ _).mono id (fun valid => ?_) fun _ _ => id
    -- a label fits an immediate
    refine valid.resolve_left fun label => wide ?_
    simp [Literal.fitsImm32, label]
  · exact (mute_emit _).judges (fun _ _ _ => trivial) trivial

/-- A literal is checked against the width of its destination. -/
theorem judges_move (order : ChunkOrder) :
    Judges s (move dst src signed order) (Fit src.constant? dst.size)
      (Fit src.constant? dst.size ∧ Sound src.constant?) fun _ => True := by
  cases src with
  | absent => exact .throw _
  | lit literal =>
      refine (judges_storeLiteral order).mono (fun fits => ?_) (fun adequate => ?_) fun _ _ => id
      · rintro _ ⟨⟩
        exact Literal.fitsIn_blur.mpr fits
      · exact ⟨Literal.fitsIn_blur.mp (adequate.1 _ rfl),
          Literal.valid_blur.mp (adequate.2 _ rfl)⟩
  | reg register =>
      refine Mute.judges ?_ (fun _ _ _ => trivial) (fit_none _)
      unfold move
      split
      · contradiction
      · contradiction
      · exact mute_moveRegister _ _ _
      · split
        · exact mute_emit _
        · exact mute_viaTemp _ fun _ => mute_emit _
      · contradiction
      · contradiction
  | mem cell =>
      refine Mute.judges ?_ (fun _ _ _ => trivial) (fit_none _)
      unfold move
      split
      · contradiction
      · contradiction
      · contradiction
      · contradiction
      · exact mute_moveCell _ _ _
      · exact mute_viaTemp _ fun _ => mute_moveCell _ _ _

theorem judges_load : Judges s (load operand size signed) (Fit operand.constant? size)
    (Fit operand.constant? size ∧ Sound operand.constant?) fun _ => True := by
  refine (mute_temp operand).before fun mine s₁ _ _ => ?_
  split
  · refine Mute.judges ?_ (fun _ _ _ => trivial) (fit_none _)
    split
    · exact (mute_emit _).bind fun _ => .pure _
    · exact .pure _
  · refine (mute_nextRegister _).before fun register s₂ allocated _ => ?_
    have width := Replaying.size_nextRegister allocated
    refine ((judges_move .lowFirst).after (fun _ => (mute_release _).bind fun _ => .pure _)
      fun _ _ _ _ _ _ => trivial).mono ?_ ?_ fun _ _ => id
    · rw [← width]
      exact id
    · rw [← width]
      exact id

theorem judges_loaded : Judges s (do return .reg (← load operand size signed) : Gen Operand)
    (Fit operand.constant? size) (Fit operand.constant? size ∧ Sound operand.constant?)
    fun result => result.constant? = none := by
  refine judges_load.after (fun _ => .pure _) fun _ _ _ _ _ run => ?_
  obtain ⟨rfl, _⟩ := Success.pure_ok.mp run
  rfl

/-- The source of an instruction is the literal that was given, or none. -/
theorem judges_operandFor : Judges s (operandFor operand size signed) (Fit operand.constant? size)
    (Fit operand.constant? size ∧ Sound operand.constant?)
    fun result => result.constant? = none ∨ result.constant? = operand.constant? := by
  have loaded : ∀ {s₁}, Judges s₁ (do return .reg (← load operand size signed) : Gen Operand)
      (Fit operand.constant? size) (Fit operand.constant? size ∧ Sound operand.constant?)
      fun result => result.constant? = none ∨ result.constant? = operand.constant? :=
    judges_loaded.mono id id fun _ _ => .inl
  cases operand with
  | absent => exact loaded
  | lit literal =>
      refine (Judges.bind (fun _ => True)
        (fun fitting => fitting = true → literal.FitsIn size ∧ literal.Valid)
        (fun fitting result => fitting = true →
          result.constant? = none ∨ result.constant? = some literal.blur)
        judges_fits fun fitting s₁ _ => ?_).mono ?_ ?_ ?_
      · cases fitting with
        | false => exact .pure nofun trivial
        | true =>
            refine .ite (fun unfit => absurd unfit (by decide)) fun _ => ?_
            refine .ite (fun _ => ?_) fun _ => .pure (fun _ => .inr rfl) trivial
            refine loaded.mono (fun _ => trivial) (fun adequate => ?_) fun _ _ result _ => result
            obtain ⟨fits, valid⟩ := adequate rfl
            refine ⟨?_, ?_⟩
            · rintro _ ⟨⟩
              exact Literal.fitsIn_blur.mpr fits
            · rintro _ ⟨⟩
              exact Literal.valid_blur.mpr valid
      · rintro ⟨fits, _⟩ _ ⟨⟩
        exact Literal.fitsIn_blur.mpr fits
      · rintro ⟨fits, valid⟩
        have both := And.intro (Literal.fitsIn_blur.mp (fits _ rfl))
          (Literal.valid_blur.mp (valid _ rfl))
        exact ⟨both, fun _ _ _ => both⟩
      · rintro result _ ⟨fitting, isFitting, result'⟩
        exact result' isFitting
  | reg register =>
      refine .ite (fun _ => .pure (.inl rfl) (fit_none _)) fun _ => loaded
  | mem cell =>
      refine .ite (fun _ => .pure (.inl rfl) (fit_none _)) fun _ => loaded

theorem constant?_of_isTemp {draft : Draft} (mine : isTemp draft operand = true) :
    operand.constant? = none := by
  cases operand <;> simp_all [isTemp]

/-- Only a register of the current expression is stored by changing the instruction before it. -/
theorem constant?_of_fused {s' : State} (run : fuseStore dst value s = .ok true s') :
    value.constant? = none := by
  simp only [fuseStore, Success.bind_ok, temp_ok, Success.ite_apply] at run
  obtain ⟨mine, _, ⟨same, rfl⟩, run⟩ := run
  split at run
  · rename_i both
    simp only [Bool.and_eq_true] at both
    exact constant?_of_isTemp (same.trans both.2)
  · simp at run

/-- A literal is checked against the width of the variable or field that it is stored in. -/
theorem judges_store (order : ChunkOrder) :
    Judges s (store dst value signed order) (Fit value.constant? dst.size)
      (Fit value.constant? dst.size ∧ Sound value.constant?) fun _ => True := by
  refine (mute_fuseStore dst value).before fun fused s₁ ran _ => ?_
  cases fused with
  | true =>
      rw [constant?_of_fused ran]
      exact .pure trivial (fit_none _)
  | false =>
      exact (judges_move order).after (fun _ => mute_release _) fun _ _ _ _ _ _ => trivial

end Moves

end Lower

end X64Backend
