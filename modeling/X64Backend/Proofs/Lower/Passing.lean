import X64Backend.Lower.Call
import X64Backend.Proofs.Lower.Receiving

/-!
What the instructions that pass arguments do on the machine.  Arguments are pushed from the last one
on, some by way of a register of the pool, and the first ones are then loaded into their registers.
No argument that is still to be passed is destroyed on the way.
-/

namespace X64Backend.Lower

open Machine X64Backend.Tree

/-- Whether an argument is pushed by way of a register. -/
def detours (parameter : Variable) : Operand → Bool
  | .mem pointer => parameter.byRef || pointer.size ≠ .s64
  | .lit literal => !literal.fitsImm32
  | _ => false

/-- The instruction that takes an argument into the register that it is pushed from. -/
def detour (parameter : Variable) (argument : Operand) (register : Register) : Instr :=
  match argument with
  | .mem pointer =>
      if parameter.byRef then .binary .lea (.reg register) (.mem (pointer.resize .unsized))
      else widening register argument parameter.type.isSigned
  | _ => .binary .mov (.reg register) argument

/-- What is pushed for an argument, if need be from a register. -/
def pushed (parameter : Variable) (argument : Operand) (register : Register) : Operand :=
  if detours parameter argument then .reg register
  else
    match argument with
    | .reg given => .reg (given.resize .s64)
    | _ => argument

/-- The instructions that push an argument. -/
def pushCode (parameter : Variable) (argument : Operand) (register : Register) : List Instr :=
  (if detours parameter argument then [detour parameter argument register] else []) ++
    [.unary .push (pushed parameter argument register)]

/-- The instruction that loads an argument into its register. -/
def loadCode (parameter : Variable) (argument : Operand) (phys : Phys) : Instr :=
  match parameter.byRef, argument with
  | true, .mem pointer =>
      .binary .lea (.reg (.fix phys .s64)) (.mem (pointer.resize .unsized))
  | _, _ => .binary .mov (.reg (.fix phys parameter.operandSize)) argument

/-- A literal needs no more bytes than an operand of a width has. -/
def NoWider (literal : Literal) (size : Size) : Prop :=
  ∃ need, literal.minSize = .ok need ∧ need ≤ size.bytes

/-- An operand of the type of a parameter. -/
inductive Fitting (parameter : Variable) : Operand → Prop where
  | reference {pointer} : parameter.byRef = true → Fitting parameter (.mem pointer)
  | literal {literal} : parameter.byRef = false → NoWider literal parameter.operandSize →
      Fitting parameter (.lit literal)
  | register {register} : parameter.byRef = false → register.size = parameter.operandSize →
      Fitting parameter (.reg register)
  | cell {pointer} : parameter.byRef = false → pointer.size = parameter.operandSize →
      Fitting parameter (.mem pointer)

/-- The hardware register of a register, where every handle has one place. -/
def locate (place : Handle → Option Phys) (register : Register) : Option Phys :=
  match register.place with
  | .slot handle => place handle
  | .fixed phys => phys

/-- In a stretch of code every handle is in its place. -/
def Resides (image : Image) (place : Handle → Option Phys) (code : List Entry) : Prop :=
  ∀ entry ∈ code, ∀ {handle phys}, place handle = some phys →
    image.timeline.placeAt handle entry.tick = some phys

/-- The word that a parameter is to get from an operand: the address of its cell for a reference,
else its value.  A cell that is read is not among the words that are pushed. -/
inductive Means (image : Image) (place : Handle → Option Phys) (view : View)
    (stack : UInt64 → Prop) (parameter : Variable) : Operand → UInt64 → Prop where
  | address {pointer : Pointer} {base : Phys} : parameter.byRef = true →
      locate place pointer.base = some base → pointer.base.size ≠ .high8 →
      Means image place view stack parameter (.mem pointer) (Spot.address view base pointer.disp)
  | literal {literal : Literal} {word : UInt64} : parameter.byRef = false →
      Stands image literal word →
      Means image place view stack parameter (.lit literal) (word &&& mask parameter.operandSize)
  | register {register : Register} {phys : Phys} : parameter.byRef = false →
      locate place register = some phys →
      Means image place view stack parameter (.reg register)
        (view.get phys &&& mask parameter.operandSize)
  | cell {pointer : Pointer} {base : Phys} : parameter.byRef = false →
      locate place pointer.base = some base → pointer.base.size ≠ .high8 →
      (∀ address, Within (Spot.address view base pointer.disp)
        (.ofNat parameter.operandSize.bytes) address → ¬ stack address) →
      Means image place view stack parameter (.mem pointer)
        (view.memory.load (Spot.address view base pointer.disp) parameter.operandSize.bytes)

section Words

theorem signExtend_and_mask (word : UInt64) (size : Size) :
    signExtend word size &&& mask size = word &&& mask size := by
  have low : word &&& mask size &&& mask size = word &&& mask size := by
    rw [UInt64.and_assoc, UInt64.and_self]
  unfold signExtend
  dsimp only
  split
  · rw [or_and_distrib, low, UInt64.not_and_self, UInt64.or_zero]
  · exact low

/-- A word that extends from 32 bits is extended to itself. -/
theorem signExtend_of_range {word : UInt64} (least : -0x80000000 ≤ Literal.intOfWord word)
    (greatest : Literal.intOfWord word < 0x80000000) : signExtend word .s32 = word := by
  have bound := word.toNat_lt
  by_cases small : word.toNat < 2 ^ 31
  · exact signExtend_of_small small
  · change -0x80000000 ≤ word.toBitVec.toInt at least
    change word.toBitVec.toInt < 0x80000000 at greatest
    rw [BitVec.toInt_eq_toNat_cond] at least greatest
    change _ ≤ if 2 * word.toNat < 2 ^ 64 then _ else (word.toNat : Int) - _ at least
    change (if 2 * word.toNat < 2 ^ 64 then (word.toNat : Int) else _) < _ at greatest
    have high : 2 ^ 64 - 2 ^ 31 ≤ word.toNat := by
      split at least <;> split at greatest <;> omega
    have low : (word &&& mask .s32).toNat = word.toNat % 2 ^ 32 := toNat_and_mask word (by decide)
    have negative : isNegative (word &&& mask .s32) .s32 = true := by
      have bit : (word &&& mask .s32).toNat.testBit 31 = true := by
        rw [low]
        exact Nat.testBit_of_two_pow_le_and_two_pow_add_one_gt (by omega) (by omega)
      have set : (word &&& mask .s32 &&& signBit .s32).toNat = 2 ^ 31 := by
        rw [UInt64.toNat_and]
        change (word &&& mask .s32).toNat &&& 2 ^ 31 = _
        rw [Nat.and_two_pow, bit]
        rfl
      rw [isNegative, bne_iff_ne]
      intro none
      rw [none] at set
      contradiction
    have cover : ~~~ mask .s32 = 0xFFFFFFFF00000000 := by decide
    unfold signExtend
    dsimp only
    rw [negative, cover]
    apply UInt64.toNat_inj.mp
    change ((word &&& mask .s32) ||| 0xFFFFFFFF00000000).toNat = _
    rw [UInt64.toNat_or, low, Nat.or_comm]
    change 2 ^ 32 * (2 ^ 32 - 1) ||| word.toNat % 2 ^ 32 = _
    rw [← Nat.two_pow_add_eq_or_of_lt (by omega)]
    omega

end Words

variable {image : Image} {checked : Bool} {place : Handle → Option Phys} {view view' : View}
  {stack : UInt64 → Prop} {parameter : Variable} {argument : Operand} {word : UInt64}
  {code entries : List Entry}

/-- An argument keeps its word while its register and the memory outside the stack stay. -/
theorem Means.kept (means : Means image place view stack parameter argument word)
    (scalar : parameter.Scalar)
    (registers : ∀ register phys, argument.base? = some register →
      locate place register = some phys → view'.get phys = view.get phys)
    (memory : ∀ address, ¬ stack address → view'.memory.get address = view.memory.get address) :
    Means image place view' stack parameter argument word := by
  cases means with
  | @address pointer base reference located low =>
    have same : Spot.address view base pointer.disp = Spot.address view' base pointer.disp := by
      rw [Spot.address, Spot.address, registers _ base rfl located]
    rw [same]
    exact .address reference located low
  | literal value stands => exact .literal value stands
  | @register register phys value located =>
    rw [← registers register phys rfl located]
    exact .register value located
  | @cell pointer base value located low outside =>
    have same : Spot.address view base pointer.disp = Spot.address view' base pointer.disp := by
      rw [Spot.address, Spot.address, registers _ base rfl located]
    rw [same] at outside ⊢
    have read : view.memory.load (Spot.address view' base pointer.disp)
          parameter.operandSize.bytes =
        view'.memory.load (Spot.address view' base pointer.disp) parameter.operandSize.bytes := by
      apply Memory.load_congr scalar.bytes.2
      intro address inside
      have width := scalar.bytes.2
      apply Eq.symm
      apply memory
      apply outside
      rw [Within, UInt64.toNat_ofNat']
      omega
    rw [read]
    exact .cell value located low outside

theorem resolve_of_locate {tick : Nat} {register : Register} {phys : Phys}
    (here : ∀ {handle phys}, place handle = some phys →
      image.timeline.placeAt handle tick = some phys)
    (located : locate place register = some phys) :
    image.timeline.resolve register tick = some phys := by
  obtain ⟨spot, size⟩ := register
  cases spot with
  | slot handle => exact here located
  | fixed given => exact located

/-- Extending a narrow cell into a register keeps its bits. -/
theorem does_widening {tick : Nat} {pointer : Pointer} {fresh : Handle} {base phys : Phys}
    (signed : Bool) (out : Finds ⟨image, tick⟩ (.mem pointer) (.cell base pointer.disp))
    (free : image.timeline.placeAt fresh tick = some phys) (sized : pointer.size ≠ .unsized) :
    ∃ word, word &&& mask pointer.size =
        view.memory.load (Spot.address view base pointer.disp) pointer.size.bytes ∧
      Does ⟨image, tick⟩ checked (widening ⟨.slot fresh, .s64⟩ (.mem pointer) signed) view
        (view.set phys word) := by
  let read := (Spot.cell base pointer.disp).read view pointer.size
  have into : ∀ {size}, size ≠ .high8 →
      Finds ⟨image, tick⟩ (.reg ⟨.slot fresh, size⟩) (.register phys) :=
    fun proper => .register free proper
  have loaded : read &&& mask pointer.size = read := by
    change view.memory.load _ _ &&& mask pointer.size = view.memory.load _ _
    rw [← Memory.load_and_mask _ _ sized, UInt64.and_assoc, UInt64.and_self]
  refine ⟨if signed then signExtend read pointer.size else read, ?_, ?_⟩
  · cases signed with
    | true => exact (signExtend_and_mask read pointer.size).trans loaded
    | false => exact loaded
  · have wide : Size.s64 ≠ .unsized ∧ Size.s64 ≠ .high8 := by decide
    cases signed with
    | true =>
      have widens : ∀ op, op = .movsx ∨ op = .movsxd → Does ⟨image, tick⟩ checked
          (.binary op (.reg ⟨.slot fresh, .s64⟩) (.mem pointer)) view
          ((Spot.register phys).write view .s64 (signExtend read pointer.size)) := by
        intro op either
        have does : Does ⟨image, tick⟩ checked
            (.binary op (.reg ⟨.slot fresh, .s64⟩) (.mem pointer)) view _ :=
          Does.movsxSpot either (into wide.2) out wide.1 wide.2 rfl
        exact does
      unfold widening
      split
      · exact widens .movsxd (.inr rfl)
      · exact widens .movsx (.inl rfl)
    | false =>
      unfold widening
      by_cases half : (Operand.mem pointer).size.bytes = 4
      · have half' : Size.s32 ≠ .unsized ∧ Size.s32 ≠ .high8 := by decide
        have size : pointer.size = .s32 := by
          change pointer.size.bytes = 4 at half
          revert half
          cases pointer.size <;> decide
        have copies : Does ⟨image, tick⟩ checked
            (.binary .mov (.reg ⟨.slot fresh, .s32⟩) (.mem pointer)) view _ :=
          Does.movSpot (into half'.2) out half'.1 rfl
        have cut : (Spot.register phys).write view .s32 read = view.set phys read := by
          rw [size] at loaded
          rw [Spot.write]
          exact congrArg (view.set phys) loaded
        rw [if_pos half]
        change Does _ _ _ _ (view.set phys read)
        rw [← cut]
        exact copies
      · have copies : Does ⟨image, tick⟩ checked
            (.binary .movzx (.reg ⟨.slot fresh, .s64⟩) (.mem pointer)) view _ :=
          Does.movzxSpot (into wide.2) out wide.1 wide.2 rfl
        rw [if_neg half]
        exact copies

/-- The register that an argument is pushed from gets its word. -/
theorem does_detour (checked : Bool) {tick : Nat} {fresh : Handle} {phys : Phys}
    (here : ∀ {handle phys}, place handle = some phys →
      image.timeline.placeAt handle tick = some phys)
    (scalar : parameter.Scalar) (fitting : Fitting parameter argument)
    (means : Means image place view stack parameter argument word)
    (takes : detours parameter argument = true) (free : place fresh = some phys) :
    ∃ filled, filled &&& mask parameter.operandSize = word ∧
      Does ⟨image, tick⟩ checked (detour parameter argument ⟨.slot fresh, .s64⟩) view
        (view.set phys filled) := by
  have into : Finds ⟨image, tick⟩ (.reg ⟨.slot fresh, .s64⟩) (.register phys) :=
    .register (here free) (by simp)
  have wide : Size.s64 ≠ .unsized ∧ Size.s64 ≠ .high8 := by decide
  cases means with
  | @address pointer base reference located low =>
    have out : Finds ⟨image, tick⟩ (.mem (pointer.resize .unsized)) (.cell base pointer.disp) :=
      .cell (resolve_of_locate here located) low
    have size : parameter.operandSize = .s64 := by
      rw [Variable.operandSize, if_pos reference]
    have does : Does ⟨image, tick⟩ checked
        (.binary .lea (.reg ⟨.slot fresh, .s64⟩) (.mem (pointer.resize .unsized))) view _ :=
      Does.leaSpot into out rfl rfl
    refine ⟨Spot.address view base pointer.disp, ?_, ?_⟩
    · rw [size, and_mask_word]
    · rw [detour, if_pos reference]
      exact does
  | @literal literal word value stands =>
    have does : Does ⟨image, tick⟩ checked
        (.binary .mov (.reg ⟨.slot fresh, .s64⟩) (.lit literal)) view _ :=
      Does.movStanding into stands wide.1 wide.2
    exact ⟨word, rfl, does⟩
  | register => exact absurd takes (by simp [detours])
  | @cell pointer base value located low outside =>
    have out : Finds ⟨image, tick⟩ (.mem pointer) (.cell base pointer.disp) :=
      .cell (resolve_of_locate here located) low
    have size : pointer.size = parameter.operandSize := by
      cases fitting with
      | reference reference =>
        rw [value] at reference
        contradiction
      | cell _ same => exact same
    rw [← size]
    rw [detour, if_neg (by simp [value])]
    apply does_widening _ out (here free)
    rw [size]
    exact scalar.sized

/-- Words have been pushed, the first of them last. -/
structure Pushed (words : List UInt64) (view view' : View) : Prop where
  level : view'.get .rsp = view.get .rsp - 8 * UInt64.ofNat words.length
  stored : ∀ {index : Nat} {word : UInt64}, words[index]? = some word →
    view'.memory.load (view'.get .rsp + 8 * UInt64.ofNat index) 8 = word
  memory : ∀ address, ¬ Within (view'.get .rsp) (8 * UInt64.ofNat words.length) address →
    view'.memory.get address = view.memory.get address
  frames : view'.frames = view.frames

theorem Pushed.cons {words : List UInt64} {view₁ : View} (first : Pushed words view view₁)
    (last : Pushed [word] view₁ view') (few : words.length < 2 ^ 60) :
    Pushed (word :: words) view view' := by
  have level : view'.get .rsp = view₁.get .rsp - 8 := last.level
  have above : ∀ {address}, 8 ≤ (address - view'.get .rsp).toNat →
      view'.memory.get address = view₁.memory.get address :=
    fun outside => last.memory _ (Nat.not_lt_of_le outside)
  constructor
  · rw [level, first.level, List.length_cons, UInt64.ofNat_add]
    grind
  · intro index other found
    cases index with
    | zero => exact last.stored found
    | succ index =>
      rw [List.getElem?_cons_succ] at found
      have inside : index < words.length := (List.getElem?_eq_some_iff.mp found).1
      have same : view'.get .rsp + 8 * UInt64.ofNat (index + 1) =
          view₁.get .rsp + 8 * UInt64.ofNat index := by
        rw [level, UInt64.ofNat_add]
        grind
      rw [← first.stored found, same]
      apply Memory.load_congr (Nat.le_refl 8)
      intro address near
      have bound := address.toNat_lt
      have bound' := (view₁.get .rsp).toNat_lt
      apply above
      rw [level]
      simp only [UInt64.toNat_sub, UInt64.toNat_add, UInt64.toNat_mul, UInt64.toNat_ofNat',
        UInt64.reduceToNat] at near ⊢
      omega
  · intro address outside
    have bound := address.toNat_lt
    have bound' := (view₁.get .rsp).toNat_lt
    rw [Within, level, List.length_cons] at outside
    rw [above, first.memory]
    · rw [Within]
      simp only [UInt64.toNat_sub, UInt64.toNat_mul, UInt64.toNat_ofNat',
        UInt64.reduceToNat] at outside ⊢
      omega
    · rw [level]
      simp only [UInt64.toNat_sub, UInt64.toNat_mul, UInt64.toNat_ofNat',
        UInt64.reduceToNat] at outside ⊢
      omega
  · exact last.frames.trans first.frames

theorem pushed_push (view : View) (word : UInt64) : Pushed [word] view (view.push word) := by
  have level : (view.push word).get .rsp = view.get .rsp - 8 :=
    (View.get_push word).trans (if_pos rfl)
  constructor
  · exact level
  · intro index other found
    obtain ⟨rfl, rfl⟩ : index = 0 ∧ word = other := by
      cases index with
      | zero => exact ⟨rfl, Option.some.inj found⟩
      | succ index => contradiction
    rw [View.memory_push, level]
    have first : view.get .rsp - 8 + 8 * UInt64.ofNat 0 = view.get .rsp - 8 := by simp
    rw [first]
    exact Memory.load_store_word _ _ _
  · intro address outside
    rw [Within, level] at outside
    rw [View.memory_push]
    exact Memory.get_store_of_le (Nat.le_of_not_lt outside)
  · rfl

/-- A literal that extends from 32 bits is pushed as it is. -/
theorem does_pushLiteral {tick : Nat} {literal : Literal} (stands : Stands image literal word)
    (short : literal.fitsImm32 = true) :
    Does ⟨image, tick⟩ checked (.unary .push (.lit literal)) view (view.push word) := by
  apply Does.unary
  unfold Machine.unary
  dsimp only
  cases stands with
  | number value bits =>
    have range : -0x80000000 ≤ Literal.intOfWord word ∧ Literal.intOfWord word < 0x80000000 := by
      simpa [Literal.fitsImm32, value, bits] using short
    have read : Machine.Yields (Scope.read ⟨image, tick⟩ (.lit literal) .s64) view
        (word &&& mask .s64) view := Yields.readLit value bits .s64
    rw [and_mask_word] at read
    refine read.bind ?_
    rw [value, if_neg (by decide), signExtend_of_range range.1 range.2]
    exact (Yields.push word).bind (.pure none)
  | symbol label known =>
    refine (Yields.readSymbol label known _).bind ?_
    rw [label, if_pos rfl]
    exact (Yields.push word).bind (.pure none)

/-- An argument that takes no register is pushed as a word that covers its own. -/
theorem does_push (checked : Bool) (fresh : Handle) {tick : Nat}
    (here : ∀ {handle phys}, place handle = some phys →
      image.timeline.placeAt handle tick = some phys)
    (means : Means image place view stack parameter argument word)
    (fitting : Fitting parameter argument) (direct : detours parameter argument = false) :
    ∃ filled, filled &&& mask parameter.operandSize = word ∧
      Does ⟨image, tick⟩ checked
        (.unary .push (pushed parameter argument ⟨.slot fresh, .s64⟩)) view (view.push filled) := by
  unfold pushed
  rw [if_neg (by simp [direct])]
  cases means with
  | address reference => exact absurd direct (by simp [detours, reference])
  | @literal literal word value stands =>
    have short : literal.fitsImm32 = true := by simpa [detours] using direct
    exact ⟨word, rfl, does_pushLiteral stands short⟩
  | @register register phys value located =>
    have out : Finds ⟨image, tick⟩ (.reg (register.resize .s64)) (.register phys) := by
      apply Finds.register
      · exact resolve_of_locate here located
      · simp [Register.resize]
    have does : Does ⟨image, tick⟩ checked (.unary .push (.reg (register.resize .s64))) view _ :=
      Does.pushSpot out
    have whole : (Spot.register phys).read view .s64 = view.get phys := readPart_word _
    refine ⟨view.get phys, rfl, ?_⟩
    rw [← whole]
    exact does
  | @cell pointer base value located low outside =>
    have whole : pointer.size = .s64 := by simpa [detours, value] using direct
    have size : pointer.size = parameter.operandSize := by
      cases fitting with
      | reference reference =>
        rw [value] at reference
        contradiction
      | cell _ same => exact same
    have out : Finds ⟨image, tick⟩ (.mem pointer) (.cell base pointer.disp) :=
      .cell (resolve_of_locate here located) low
    have does : Does ⟨image, tick⟩ checked (.unary .push (.mem pointer)) view _ :=
      Does.pushSpot out
    rw [← size, whole]
    refine ⟨_, and_mask_word _, ?_⟩
    rw [show (Operand.mem pointer).size = .s64 from whole] at does
    exact does

/-- The code that pushes one argument changes the register that it goes by way of, and the stack. -/
theorem straight_push {fresh : Handle} (resides : Resides image place entries)
    (spelled : entries.map Entry.instr = pushCode parameter argument ⟨.slot fresh, .s64⟩)
    (scalar : parameter.Scalar) (fitting : Fitting parameter argument)
    (means : Means image place view stack parameter argument word)
    (free : detours parameter argument = true → ∃ phys, place fresh = some phys ∧ phys ≠ .rsp) :
    ∃ filled view', filled &&& mask parameter.operandSize = word ∧
      Straight image checked entries view view' ∧ Pushed [filled] view view' ∧
      ∀ phys, phys ≠ .rsp → (detours parameter argument = true → place fresh ≠ some phys) →
        view'.get phys = view.get phys := by
  unfold pushCode at spelled
  by_cases takes : detours parameter argument = true
  · obtain ⟨phys, found, proper⟩ := free takes
    have through : pushed parameter argument ⟨.slot fresh, .s64⟩ = .reg ⟨.slot fresh, .s64⟩ :=
      if_pos takes
    rw [if_pos takes, through] at spelled
    obtain ⟨fill, rest, rfl, filling, spelled⟩ := List.map_eq_cons_iff.mp spelled
    obtain ⟨push, none, rfl, pushing, empty⟩ := List.map_eq_cons_iff.mp spelled
    obtain rfl := List.map_eq_nil_iff.mp empty
    obtain ⟨filled, covers, fills⟩ := does_detour checked (resides fill List.mem_cons_self) scalar
      fitting means takes found
    have out : Finds ⟨image, push.tick⟩ (.reg ⟨.slot fresh, .s64⟩) (.register phys) :=
      .register (resides push (by simp) found) (by simp)
    have pushes : Does ⟨image, push.tick⟩ checked (.unary .push (.reg ⟨.slot fresh, .s64⟩))
        (view.set phys filled) _ := Does.pushSpot out
    have read : (Spot.register phys).read (view.set phys filled) .s64 = filled := by
      rw [Spot.read, readPart_word]
      exact (View.get_set view phys phys filled).trans (if_pos rfl)
    rw [show (Operand.reg ⟨.slot fresh, .s64⟩).size = .s64 from rfl, read] at pushes
    rw [← filling] at fills
    rw [← pushing] at pushes
    have level : (view.set phys filled).get .rsp = view.get .rsp :=
      (View.get_set view phys .rsp filled).trans (if_neg (Ne.symm proper))
    have stacked := pushed_push (view.set phys filled) filled
    refine ⟨filled, _, covers, ⟨_, fills, _, pushes, rfl⟩, ?_, ?_⟩
    · constructor
      · rw [stacked.level, level]
      · exact stacked.stored
      · exact stacked.memory
      · exact stacked.frames
    · intro other notRsp apart
      have different : other ≠ phys := by
        rintro rfl
        exact apart takes found
      rw [View.get_push, if_neg notRsp]
      exact (View.get_set view phys other filled).trans (if_neg different)
  · rw [if_neg takes, List.nil_append] at spelled
    obtain ⟨push, none, rfl, pushing, empty⟩ := List.map_eq_cons_iff.mp spelled
    obtain rfl := List.map_eq_nil_iff.mp empty
    obtain ⟨filled, covers, pushes⟩ := does_push checked fresh
      (resides push List.mem_cons_self) means fitting (by simpa using takes)
    rw [← pushing] at pushes
    refine ⟨filled, _, covers, ⟨_, pushes, rfl⟩, pushed_push view filled, ?_⟩
    intro other notRsp _
    rw [View.get_push, if_neg notRsp]

/-- The words below an address that some pushes write are among those that more pushes write. -/
theorem within_pushed {top address : UInt64} {count more : Nat} (fewer : count ≤ more)
    (few : more < 2 ^ 60)
    (within : Within (top - 8 * UInt64.ofNat count) (8 * UInt64.ofNat count) address) :
    Within (top - 8 * UInt64.ofNat more) (8 * UInt64.ofNat more) address := by
  have bound := address.toNat_lt
  have bound' := top.toNat_lt
  unfold Within at within ⊢
  simp only [UInt64.toNat_sub, UInt64.toNat_mul, UInt64.toNat_ofNat', UInt64.reduceToNat]
    at within ⊢
  omega

/-- The arguments in a list are pushed from the last one on.  The register that one of them goes by
way of holds none of the operands that are passed later. -/
inductive Pushes (place : Handle → Option Phys) :
    (later list : List (Variable × Operand)) → List Entry → Prop where
  | nil {later} : Pushes place later [] []
  | cons {later rest : List (Variable × Operand)} {parameter : Variable} {argument : Operand}
      {handle : Handle} {front entries : List Entry} :
      Pushes place ((parameter, argument) :: later) rest front →
      entries.map Entry.instr = pushCode parameter argument ⟨.slot handle, .s64⟩ →
      (detours parameter argument = true → ∃ slot, place handle = some (Pool.slotPhys slot) ∧
        ∀ item ∈ later, ∀ register, item.2.base? = some register →
          locate place register ≠ some (Pool.slotPhys slot)) →
      Pushes place later ((parameter, argument) :: rest) (front ++ entries)

/-- Arguments of the types of their parameters. -/
def Suited (items : List (Variable × Operand)) : Prop :=
  ∀ item ∈ items, item.1.Scalar ∧ Fitting item.1 item.2

/-- The words that the parameters are to get from the arguments. -/
def AllMean (image : Image) (place : Handle → Option Phys) (view : View) (stack : UInt64 → Prop) :
    List (Variable × Operand) → List UInt64 → Prop :=
  List.Forall₂ fun item word => Means image place view stack item.1 item.2 word

/-- No argument is in one of some registers or relies on it. -/
def Avoids (place : Handle → Option Phys) (items : List (Variable × Operand))
    (registers : List Phys) : Prop :=
  ∀ item ∈ items, ∀ register phys, item.2.base? = some register →
    locate place register = some phys → phys ∉ registers

/-- Words cover those that the parameters are to get. -/
def Covers (items : List (Variable × Operand)) (words filled : List UInt64) : Prop :=
  ∀ {index : Nat} {item : Variable × Operand} {word : UInt64}, items[index]? = some item →
    words[index]? = some word →
    ∃ full, filled[index]? = some full ∧ full &&& mask item.1.operandSize = word

variable {items later list : List (Variable × Operand)} {words : List UInt64}

theorem Avoids.mono {registers fewer : List Phys} (avoids : Avoids place items registers)
    (among : ∀ item ∈ list, item ∈ items) (subset : ∀ phys ∈ fewer, phys ∈ registers) :
    Avoids place list fewer := by
  intro item member register phys base located within
  exact avoids item (among item member) register phys base located (subset phys within)

/-- Words that are pushed inside a stretch of the stack leave the memory outside of it alone. -/
theorem Pushed.outside {filled : List UInt64} {count : Nat} (pushed : Pushed filled view view')
    (length : filled.length = count)
    (room : ∀ address, Within (view.get .rsp - 8 * UInt64.ofNat count) (8 * UInt64.ofNat count)
      address → stack address) {address : UInt64} (outside : ¬ stack address) :
    view'.memory.get address = view.memory.get address := by
  apply pushed.memory
  intro within
  rw [pushed.level, length] at within
  exact outside (room address within)

theorem AllMean.kept (means : AllMean image place view stack items words) (suited : Suited items)
    (registers : ∀ item ∈ items, ∀ register phys, item.2.base? = some register →
      locate place register = some phys → view'.get phys = view.get phys)
    (memory : ∀ address, ¬ stack address → view'.memory.get address = view.memory.get address) :
    AllMean image place view' stack items words := by
  induction means with
  | nil => exact .nil
  | @cons item word rest words means others inductionHypothesis =>
    apply List.Forall₂.cons
    · exact means.kept (suited item List.mem_cons_self).1 (registers item List.mem_cons_self) memory
    · apply inductionHypothesis
      · exact fun other member => suited other (List.mem_cons_of_mem _ member)
      · exact fun other member => registers other (List.mem_cons_of_mem _ member)

theorem slotPhys_ne_rsp (slot : Pool.Slot) : Pool.slotPhys slot ≠ .rsp := by
  revert slot
  decide

/-- The code that pushes a list of arguments leaves their words on the stack, in the order of the
list from the top down, and the operands that are passed later alone. -/
theorem Pushes.straight (checked : Bool) (pushes : Pushes place later list code)
    (resides : Resides image place code) (suited : Suited list)
    (means : AllMean image place view stack list words) (avoids : Avoids place list [.rsp])
    (room : ∀ address, Within (view.get .rsp - 8 * UInt64.ofNat list.length)
      (8 * UInt64.ofNat list.length) address → stack address) (few : list.length < 2 ^ 60) :
    ∃ filled view', Straight image checked code view view' ∧ Pushed filled view view' ∧
      filled.length = list.length ∧ Covers list words filled ∧
      ∀ item ∈ later, ∀ register phys, item.2.base? = some register →
        locate place register = some phys → phys ≠ .rsp → view'.get phys = view.get phys := by
  induction pushes generalizing words with
  | nil =>
    refine ⟨[], view, rfl, ?_, rfl, ?_, fun _ _ _ _ _ _ _ => rfl⟩
    · constructor
      · simp
      · intro index word found
        contradiction
      · exact fun _ _ => rfl
      · rfl
    · intro index item word found _
      contradiction
  | @cons later rest parameter argument handle front entries pushes spelled free inductionHypothesis =>
    cases means with
    | @cons _ word _ words means others =>
    rw [List.length_cons] at few room
    have inner : ∀ address, Within (view.get .rsp - 8 * UInt64.ofNat rest.length)
        (8 * UInt64.ofNat rest.length) address → stack address :=
      fun address within => room address (within_pushed (Nat.le_succ _) few within)
    obtain ⟨filled, view₁, straight, pushed, length, covers, kept⟩ := inductionHypothesis
      (fun entry member => resides entry (List.mem_append_left _ member))
      (fun item member => suited item (List.mem_cons_of_mem _ member)) others
      (fun item member => avoids item (List.mem_cons_of_mem _ member))
      inner (Nat.lt_of_succ_lt few)
    have own := suited _ List.mem_cons_self
    have means₁ : Means image place view₁ stack parameter argument word := by
      apply means.kept own.1
      · intro register phys base located
        apply kept _ List.mem_cons_self register phys base located
        rintro rfl
        exact avoids _ List.mem_cons_self register _ base located List.mem_cons_self
      · exact fun address outside => pushed.outside length inner outside
    have proper : detours parameter argument = true →
        ∃ phys, place handle = some phys ∧ phys ≠ .rsp := by
      intro takes
      obtain ⟨slot, found, _⟩ := free takes
      exact ⟨_, found, slotPhys_ne_rsp slot⟩
    obtain ⟨full, view₂, covered, straight', pushed', kept'⟩ := straight_push
      (fun entry member => resides entry (List.mem_append_right _ member)) spelled own.1 own.2 means₁
      proper
    refine ⟨full :: filled, view₂, straight.append straight', ?_, ?_, ?_, ?_⟩
    · exact pushed.cons pushed' (by rw [length]; exact Nat.lt_of_succ_lt few)
    · rw [List.length_cons, List.length_cons, length]
    · intro index item word' found given
      cases index with
      | zero =>
        cases found
        cases given
        exact ⟨full, rfl, covered⟩
      | succ index => exact covers found given
    · intro item member register phys base located notRsp
      rw [kept' phys notRsp, kept item (List.mem_cons_of_mem _ member) register phys base located
        notRsp]
      intro takes there
      obtain ⟨slot, found, apart⟩ := free takes
      rw [found] at there
      cases there
      exact apart item member register base located

theorem writePart_and_mask (word value : UInt64) {size : Size} (low : size ≠ .high8) :
    writePart word size value &&& mask size = value &&& mask size := by
  rw [← readPart_and_mask _ low, readPart_writePart _ _ low, UInt64.and_assoc, UInt64.and_self]

/-- An argument register gets the word of its argument. -/
theorem does_load (checked : Bool) (phys : Phys) {tick : Nat}
    (here : ∀ {handle phys}, place handle = some phys →
      image.timeline.placeAt handle tick = some phys)
    (scalar : parameter.Scalar) (fitting : Fitting parameter argument)
    (means : Means image place view stack parameter argument word) :
    ∃ filled, filled &&& mask parameter.operandSize = word ∧
      Does ⟨image, tick⟩ checked (loadCode parameter argument phys) view (view.set phys filled) := by
  have into : ∀ {size}, size ≠ .high8 → Finds ⟨image, tick⟩ (.reg (.fix phys size))
      (.register phys) := Finds.fixed phys
  cases means with
  | @address pointer base reference located low =>
    have out : Finds ⟨image, tick⟩ (.mem (pointer.resize .unsized)) (.cell base pointer.disp) :=
      .cell (resolve_of_locate here located) low
    have size : parameter.operandSize = .s64 := by
      rw [Variable.operandSize, if_pos reference]
    have does : Does ⟨image, tick⟩ checked
        (.binary .lea (.reg (.fix phys .s64)) (.mem (pointer.resize .unsized))) view _ :=
      Does.leaSpot (into (by decide)) out rfl rfl
    refine ⟨Spot.address view base pointer.disp, ?_, ?_⟩
    · rw [size, and_mask_word]
    · unfold loadCode
      rw [reference]
      exact does
  | @literal literal word value stands =>
    have does : Does ⟨image, tick⟩ checked
        (.binary .mov (.reg (.fix phys parameter.operandSize)) (.lit literal)) view _ :=
      Does.movStanding (into scalar.low) stands scalar.sized scalar.low
    refine ⟨_, writePart_and_mask (view.get phys) word scalar.low, ?_⟩
    unfold loadCode
    rw [value]
    exact does
  | @register register given value located =>
    have size : register.size = parameter.operandSize := by
      cases fitting with
      | register _ same => exact same
    have out : Finds ⟨image, tick⟩ (.reg register) (.register given) :=
      .register (resolve_of_locate here located) (by rw [size]; exact scalar.low)
    have does : Does ⟨image, tick⟩ checked
        (.binary .mov (.reg (.fix phys parameter.operandSize)) (.reg register)) view _ :=
      Does.movSpot (into scalar.low) out scalar.sized rfl
    refine ⟨writePart (view.get phys) parameter.operandSize
      (readPart (view.get given) register.size), ?_, ?_⟩
    · rw [size, writePart_and_mask _ _ scalar.low, readPart_and_mask _ scalar.low]
    · unfold loadCode
      rw [value]
      exact does
  | @cell pointer base value located low outside =>
    have size : pointer.size = parameter.operandSize := by
      cases fitting with
      | reference reference =>
        rw [value] at reference
        contradiction
      | cell _ same => exact same
    have out : Finds ⟨image, tick⟩ (.mem pointer) (.cell base pointer.disp) :=
      .cell (resolve_of_locate here located) low
    have does : Does ⟨image, tick⟩ checked
        (.binary .mov (.reg (.fix phys parameter.operandSize)) (.mem pointer)) view _ :=
      Does.movSpot (into scalar.low) out scalar.sized rfl
    refine ⟨writePart (view.get phys) parameter.operandSize
      (view.memory.load (Spot.address view base pointer.disp) pointer.size.bytes), ?_, ?_⟩
    · rw [writePart_and_mask _ _ scalar.low, size, ← Memory.load_and_mask _ _ scalar.sized,
        UInt64.and_assoc, UInt64.and_self]
    · unfold loadCode
      rw [value]
      exact does

/-- The code that loads the argument registers changes nothing else. -/
theorem straight_loads (checked : Bool) {registers : List Phys} (resides : Resides image place code)
    (spelled : code.map Entry.instr =
      (items.zip registers).map fun ((parameter, argument), phys) =>
        loadCode parameter argument phys)
    (suited : Suited items) (means : AllMean image place view stack items words)
    (avoids : Avoids place items registers) (distinct : registers.Nodup) :
    ∃ view', Straight image checked code view view' ∧
      (∀ {index : Nat} {item : Variable × Operand} {word : UInt64} {phys : Phys},
        items[index]? = some item → words[index]? = some word →
        registers[index]? = some phys → view'.get phys &&& mask item.1.operandSize = word) ∧
      (∀ phys ∉ registers, view'.get phys = view.get phys) ∧
      view'.memory = view.memory ∧ view'.frames = view.frames := by
  induction registers generalizing items words code view with
  | nil =>
    rw [List.zip_nil_right] at spelled
    obtain rfl := List.map_eq_nil_iff.mp spelled
    refine ⟨view, rfl, ?_, fun _ _ => rfl, rfl, rfl⟩
    intro index item word phys _ _ impossible
    contradiction
  | cons phys registers inductionHypothesis =>
    cases means with
    | nil =>
      obtain rfl := List.map_eq_nil_iff.mp spelled
      refine ⟨view, rfl, ?_, fun _ _ => rfl, rfl, rfl⟩
      intro index item word phys impossible
      contradiction
    | @cons item word items words means others =>
    obtain ⟨entry, rest, rfl, first, spelled⟩ := List.map_eq_cons_iff.mp spelled
    rw [List.nodup_cons] at distinct
    have own := suited item List.mem_cons_self
    obtain ⟨filled, covers, does⟩ := does_load checked phys (resides entry List.mem_cons_self)
      own.1 own.2 means
    have suited' : Suited items := fun other member => suited other (List.mem_cons_of_mem _ member)
    have apart : ∀ other ≠ phys, (view.set phys filled).get other = view.get other :=
      fun other different => (View.get_set view phys other filled).trans (if_neg different)
    have others' : AllMean image place (view.set phys filled) stack items words := by
      apply AllMean.kept others suited'
      · intro other member register given base located
        apply apart
        rintro rfl
        exact avoids other (List.mem_cons_of_mem _ member) register given base located
          List.mem_cons_self
      · exact fun _ _ => rfl
    obtain ⟨view', straight, loaded, kept, memory, frames⟩ := inductionHypothesis
      (fun entry member => resides entry (List.mem_cons_of_mem _ member)) spelled suited' others'
      (fun other member register given base located within =>
        avoids other (List.mem_cons_of_mem _ member) register given base located
          (List.mem_cons_of_mem _ within)) distinct.2
    rw [← show entry.instr = loadCode item.1 item.2 phys from first] at does
    refine ⟨view', ⟨_, does, straight⟩, ?_, ?_, memory, frames⟩
    · intro index other word' phys' found given among
      cases index with
      | zero =>
        cases found
        cases given
        cases among
        rw [kept phys distinct.1, View.get_set, if_pos rfl, covers]
      | succ index => exact loaded found given among
    · intro other outside
      rw [List.mem_cons, not_or] at outside
      rw [kept other outside.2, apart other outside.1]

/-- The instruction that keeps the stack aligned where an odd number of words is pushed. -/
def padCode (count : Nat) : List Instr :=
  if count % 2 = 1 then [.binary .sub (.reg rsp) (.lit (.ofInt 8))] else []

theorem straight_padding (checked : Bool) (view : View) {count : Nat}
    (spelled : code.map Entry.instr = padCode count) :
    ∃ view', Straight image checked code view view' ∧
      view'.get .rsp = view.get .rsp - 8 * UInt64.ofNat (count % 2) ∧
      (∀ phys, phys ≠ .rsp → view'.get phys = view.get phys) ∧
      view'.memory = view.memory ∧ view'.frames = view.frames := by
  unfold padCode at spelled
  by_cases odd : count % 2 = 1
  · rw [if_pos odd] at spelled
    obtain ⟨entry, none, rfl, first, empty⟩ := List.map_eq_cons_iff.mp spelled
    obtain rfl := List.map_eq_nil_iff.mp empty
    have lowers : Does ⟨image, entry.tick⟩ checked
        (.binary .sub (.reg (.fix .rsp .s64)) (.lit (.ofInt 8))) view _ :=
      Does.subLit .rsp rfl (show (Literal.ofInt 8).bits = .ok 8 from rfl)
    have word : signExtend 8 .s32 = 8 := by decide
    rw [word, ← show entry.instr = .binary .sub (.reg (.fix .rsp .s64)) (.lit (.ofInt 8)) from first]
      at lowers
    refine ⟨_, ⟨_, lowers, rfl⟩, ?_, ?_, rfl, rfl⟩
    · rw [odd]
      exact (View.get_set view .rsp .rsp _).trans (if_pos rfl)
    · intro phys other
      exact (View.get_set view .rsp phys _).trans (if_neg other)
  · rw [if_neg odd] at spelled
    obtain rfl := List.map_eq_nil_iff.mp spelled
    have even : count % 2 = 0 := by omega
    refine ⟨view, rfl, ?_, fun _ _ => rfl, rfl, rfl⟩
    rw [even]
    simp

/-- The words that a call takes on the stack for a number of arguments. -/
def stackWords (count : Nat) : Nat :=
  count - Function.registerArgs + (count - Function.registerArgs) % 2

theorem level_padded (top : UInt64) (count padding : Nat) :
    top - 8 * UInt64.ofNat padding - 8 * UInt64.ofNat count =
      top - 8 * UInt64.ofNat (count + padding) := by
  rw [UInt64.ofNat_add]
  grind

theorem within_grown {low address : UInt64} {count more : Nat} (fewer : count ≤ more)
    (few : more < 2 ^ 60) (within : Within low (8 * UInt64.ofNat count) address) :
    Within low (8 * UInt64.ofNat more) address := by
  unfold Within at within ⊢
  simp only [UInt64.toNat_mul, UInt64.toNat_ofNat', UInt64.reduceToNat] at within ⊢
  omega

/-- Code that passes arguments: it pads the stack, pushes those that find no register, and loads the
registers. -/
structure PassCode (place : Handle → Option Phys) (items : List (Variable × Operand))
    (code : List Entry) : Prop where
  parts : ∃ padding pushes loads, code = padding ++ pushes ++ loads ∧
    padding.map Entry.instr = padCode (items.length - Function.registerArgs) ∧
    Pushes place (items.take Function.registerArgs) (items.drop Function.registerArgs) pushes ∧
    loads.map Entry.instr =
      (items.zip CallingConvention.argumentRegisters).map fun ((parameter, argument), phys) =>
        loadCode parameter argument phys

/-- Only the first arguments find a register. -/
theorem zip_registers (items : List (Variable × Operand)) :
    (items.take Function.registerArgs).zip CallingConvention.argumentRegisters =
      items.zip CallingConvention.argumentRegisters := by
  have short : (items.zip CallingConvention.argumentRegisters).length ≤ Function.registerArgs := by
    rw [List.length_zip]
    exact Nat.min_le_right _ _
  exact List.take_zipWith.symm.trans (List.take_of_length_le short)

/-- Loaded registers and pushed words are passed arguments. -/
theorem passed_of_loaded {filled : List UInt64}
    (loaded : ∀ {index : Nat} {item : Variable × Operand} {word : UInt64} {phys : Phys},
      (items.take Function.registerArgs)[index]? = some item →
      (words.take Function.registerArgs)[index]? = some word →
      CallingConvention.argumentRegisters[index]? = some phys →
      view.get phys &&& mask item.1.operandSize = word)
    (covers : Covers (items.drop Function.registerArgs) (words.drop Function.registerArgs) filled)
    (stored : ∀ {index : Nat} {word : UInt64}, filled[index]? = some word →
      view.memory.load (view.get .rsp + 8 * UInt64.ofNat index) 8 = word) :
    Passed (items.map Prod.fst) words (view.get .rsp) view := by
  constructor
  · intro index v word phys found given among
    rw [List.getElem?_map] at found
    obtain ⟨item, here, rfl⟩ := Option.map_eq_some_iff.mp found
    have small : index < Function.registerArgs := (List.getElem?_eq_some_iff.mp among).1
    apply loaded _ _ among
    · rw [List.getElem?_take_of_lt small]
      exact here
    · rw [List.getElem?_take_of_lt small]
      exact given
  · intro index v word found given
    rw [List.getElem?_map] at found
    obtain ⟨item, here, rfl⟩ := Option.map_eq_some_iff.mp found
    obtain ⟨full, among, covered⟩ := @covers index item word
      (by rw [List.getElem?_drop]; exact here) (by rw [List.getElem?_drop]; exact given)
    rw [stored among, covered]

/-- The code that passes arguments does what the calling convention asks for, and changes no other
words of the memory than those that it pushes. -/
theorem PassCode.straight (checked : Bool) (passes : PassCode place items code)
    (resides : Resides image place code) (suited : Suited items)
    (means : AllMean image place view stack items words)
    (avoids : Avoids place items (.rsp :: CallingConvention.argumentRegisters))
    (room : ∀ address, Within (view.get .rsp - 8 * UInt64.ofNat (stackWords items.length))
      (8 * UInt64.ofNat (stackWords items.length)) address → stack address)
    (few : items.length < 2 ^ 59) :
    ∃ view', Straight image checked code view view' ∧
      Passed (items.map Prod.fst) words (view'.get .rsp) view' ∧
      view'.get .rsp = view.get .rsp - 8 * UInt64.ofNat (stackWords items.length) ∧
      (∀ address, ¬ stack address → view'.memory.get address = view.memory.get address) ∧
      view'.frames = view.frames := by
  -- each part leaves the operands alone that the next ones read, which means them anew in its view
  obtain ⟨padding, pushes, loads, rfl, pads, pushing, loading⟩ := passes.parts
  obtain ⟨view₁, padded, level, apart, memory, frames⟩ :=
    @straight_padding image padding checked view _ pads
  have aside : ∀ item ∈ items, ∀ register phys, item.2.base? = some register →
      locate place register = some phys → phys ≠ .rsp := by
    rintro item member register phys base located rfl
    exact avoids item member register _ base located List.mem_cons_self
  have early : ∀ item ∈ items.take Function.registerArgs, item ∈ items :=
    fun item => List.mem_of_mem_take
  have late : ∀ item ∈ items.drop Function.registerArgs, item ∈ items :=
    fun item => List.mem_of_mem_drop
  have count : (items.drop Function.registerArgs).length = items.length - Function.registerArgs :=
    List.length_drop
  have means₁ : AllMean image place view₁ stack items words := by
    apply AllMean.kept means suited
    · intro item member register phys base located
      exact apart phys (aside item member register phys base located)
    · intro address _
      rw [memory]
  have within : ∀ address, Within (view₁.get .rsp -
      8 * UInt64.ofNat (items.length - Function.registerArgs))
      (8 * UInt64.ofNat (items.length - Function.registerArgs)) address → stack address := by
    intro address inside
    rw [level, level_padded] at inside
    exact room address (within_grown (Nat.le_add_right _ _) (by unfold stackWords; omega) inside)
  obtain ⟨filled, view₂, pushed, stacked, length, covers, kept⟩ := pushing.straight checked
    (fun entry member => resides entry (by simp [member]))
    (fun item member => suited item (late item member)) (List.forall₂_drop _ means₁)
    (avoids.mono late (by simp)) (by rw [count]; exact within) (by rw [count]; omega)
  rw [count] at length
  have means₂ : AllMean image place view₂ stack (items.take Function.registerArgs)
      (words.take Function.registerArgs) := by
    apply AllMean.kept (List.forall₂_take _ means₁) fun item member => suited item (early item member)
    · intro item member register phys base located
      exact kept item member register phys base located
        (aside item (early item member) register phys base located)
    · exact fun address outside => stacked.outside length within outside
  rw [← zip_registers] at loading
  obtain ⟨view₃, loaded, arrived, unchanged, memory', frames'⟩ := straight_loads checked
    (fun entry member => resides entry (by simp [member])) loading
    (fun item member => suited item (early item member)) means₂
    (avoids.mono early fun _ => List.mem_cons_of_mem _) (by decide)
  have top : view₃.get .rsp = view₂.get .rsp := unchanged .rsp (by decide)
  refine ⟨view₃, (padded.append pushed).append loaded, ?_, ?_, ?_, ?_⟩
  · apply passed_of_loaded arrived covers
    intro index word among
    rw [top, memory', stacked.stored among]
  · rw [top, stacked.level, length, level, level_padded]
    rfl
  · intro address outside
    rw [memory', stacked.outside length within outside, memory]
  · rw [frames', stacked.frames, frames]

end X64Backend.Lower
