import X64Backend.Proofs.Lower.Arithmetic
import X64Backend.Proofs.Lower.LiteralStores
import X64Backend.Proofs.Lower.Statements

/-!
The value of a block.

A cell, a hardware register and a register that the block used undeclared are copied into a new
register of the pool, extended from their own width to that of the type.  A register that the block
owns is handed over as it is: above its own width it shows whatever the register held.  Of the upper
byte of a register only a wider type gets a copy; a byte gets the lower one.
-/

namespace X64Backend

namespace Machine

variable {scope : Scope} {checked : Bool} {view : View} {dst : Operand} {register : Register}
  {phys : Phys} {target : Spot}

/-- Reading a register, or the upper byte of one that has it. -/
theorem Yields.readLocated
    (place : scope.image.timeline.resolve register scope.tick = some phys)
    (has : register.size = .high8 → phys.hasHigh8 = true) (size : Size) :
    Yields (scope.read (.reg register) size) view (readPart (view.get phys) register.size) view :=
  (Yields.physOf place has).bind ((getReg phys).bind (pure _))

/-- Extending the upper byte of a register. -/
theorem Does.extendUpper {signed : Bool} (into : Finds scope dst target)
    (place : scope.image.timeline.resolve register scope.tick = some phys)
    (has : phys.hasHigh8 = true) (sized : dst.size ≠ .unsized) (low : dst.size ≠ .high8) :
    Does scope checked
      (.binary (if signed then .movsx else .movzx) dst (.reg (register.resize .high8))) view
      (target.write view dst.size
        (extend (readPart (view.get phys) .high8) .high8 signed)) := by
  have read := @Yields.readLocated scope view (register.resize .high8) phys place (fun _ => has)
    .high8
  have direct : (dst.isMem && (Operand.reg (register.resize .high8)).isMem) = false :=
    Bool.and_false _
  apply binary
  unfold Machine.binary
  dsimp only
  rw [if_neg sized, direct, ← Spot.write_mask sized low]
  cases signed with
  | true => exact read.bind (Yields.writeSpot into _)
  | false =>
    have byte :
        readPart (view.get phys) .high8 &&& mask .high8 = readPart (view.get phys) .high8 := by
      change _ &&& 0xFF &&& 0xFF = _ &&& 0xFF
      rw [UInt64.and_assoc, UInt64.and_self]
    rw [extend, if_neg Bool.false_ne_true, byte]
    exact read.bind (Yields.writeSpot into _)

end Machine

namespace Lower

open Machine X64Backend.Tree

variable {s s₁ s' : State} {relation : View → View → Prop} {value result : Operand} {spot : Spot}
  {type : TypeRef} {undeclared : List (Phys × Register)} {register : Register} {u : Unit}

/-- A block hands over its own register, and no copy of it. -/
def HandsOver (draft : Draft) (undeclared : List (Phys × Register)) (value : Operand) : Prop :=
  ∃ register, value = .reg register ∧ isTemp draft value = true ∧
    (undeclared.any fun entry => entry.2.same register) = false

namespace Replaying

/-- A register that is handed over gets no code: only its width is another. -/
theorem ownValue_handed (handed : HandsOver s.draft undeclared value)
    (run : ownValue undeclared value type s = .ok result s') :
    s = s' ∧ ∃ register, value = .reg register ∧
      result = .reg (register.resize type.operandSize) := by
  obtain ⟨register, rfl, temporary, unclaimed⟩ := handed
  simp only [ownValue, Success.bind_ok, temp_ok, Success.ite_apply] at run
  obtain ⟨_, _, ⟨rfl, rfl⟩, run⟩ := run
  rw [if_pos (by rw [temporary, unclaimed]; rfl)] at run
  obtain ⟨rfl, rfl⟩ := Success.pure_ok.mp run
  exact ⟨rfl, register, rfl, rfl⟩

theorem ownValue_copied (foreign : ¬ HandsOver s.draft undeclared value)
    (sits : Sits s.draft.timeline.current value spot)
    (run : ownValue undeclared value type s = .ok result s') :
    copyValue value type s = .ok result s' := by
  cases sits with
  | cell _ _ => exact run
  | @register register _ _ _ =>
    simp only [ownValue, Success.bind_ok, temp_ok, Success.ite_apply] at run
    obtain ⟨temporary, _, ⟨known, rfl⟩, run⟩ := run
    rw [if_neg] at run
    · exact run
    · rintro owns
      simp only [Bool.and_eq_true, Bool.not_eq_true'] at owns
      exact foreign ⟨register, rfl, known.trans owns.1, owns.2⟩

section Values

variable (tidy : s.draft.Tidy) (sits : Sits s.draft.timeline.current value spot)
  (regular : Regular value.size) (wide : Regular type.operandSize)
include tidy sits regular wide

/-- A copy holds the value, extended from its own width. -/
theorem adds_copyValue (lost : Handle → Prop) (run : copyValue value type s = .ok result s') :
    (∃ register, result = .reg register ∧ register.size = type.operandSize) ∧
    Adds lost s s' fun view view' => ∀ word, Shows s.draft.timeline.current view value word →
      Shows s'.draft.timeline.current view' result
        (extend word value.size type.isSigned) := by
  simp only [copyValue, if_neg wide.sized, Success.bind_ok, Success.pure_ok] at run
  obtain ⟨register, s₁, allocated, _, s₂, moved, rfl, rfl⟩ := run
  obtain ⟨slot, takes, first⟩ := takes_nextRegister tidy allocated
  have size : register.size = type.operandSize := congrArg Register.size takes.register
  obtain ⟨second, same⟩ := adds_move lost (first lost).tidy (sits.extends (first lost))
    (takes.sits wide) (size ▸ wide) regular .lowFirst moved
  refine ⟨⟨register, rfl, size⟩, ((Adds.silent (first lost)).trans second).mono (fun _ => id) ?_⟩
  rintro _ view' ⟨view, rfl, -, moves⟩ word ⟨spot', sits', read⟩
  exact moves word ⟨spot', sits'.extends (first lost), read⟩

/-- The operand that a block hands over holds its value, extended from its own width, unless it is
the block's own register and narrower than the type. -/
theorem adds_ownValue (lost : Handle → Prop)
    (narrow : HandsOver s.draft undeclared value → type.operandSize.bytes ≤ value.size.bytes)
    (run : ownValue undeclared value type s = .ok result s') :
    (∃ register, result = .reg register ∧ register.size = type.operandSize) ∧
    Adds lost s s' fun view view' => ∀ word, Shows s.draft.timeline.current view value word →
      Shows s'.draft.timeline.current view' result
        (extend word value.size type.isSigned) := by
  by_cases handed : HandsOver s.draft undeclared value
  · obtain ⟨rfl, register, rfl, rfl⟩ := ownValue_handed handed run
    refine ⟨⟨_, rfl, rfl⟩, (Adds.silent (.refl tidy)).mono (fun _ => id) ?_⟩
    rintro view _ rfl word shows'
    cases sits with
    | register located low =>
      obtain ⟨_, sits', read⟩ := shows'.narrow (.register located low) regular wide (narrow handed)
      exact ⟨_, sits', read.trans (extend_cut word wide (narrow handed) _).symm⟩
  · exact adds_copyValue tidy sits regular wide lost (ownValue_copied handed sits run)

end Values

/-- Of an upper byte, a copy for a wider type holds what it extends to.  A copy for a byte holds the
lower byte of the register. -/
theorem adds_copyValue_upper {phys : Phys} (tidy : s.draft.Tidy) (wide : Regular type.operandSize)
    (located : locate s.draft.timeline.current register = some phys)
    (has : phys.hasHigh8 = true) (lost : Handle → Prop)
    (run : copyValue (.reg (register.resize .high8)) type s = .ok result s') :
    Adds lost s s' fun view view' => Shows s'.draft.timeline.current view' result
      (if type.operandSize = .s8 then view.get phys
      else extend (readPart (view.get phys) .high8) .high8 type.isSigned) := by
  simp only [copyValue, if_neg wide.sized, Success.bind_ok, Success.pure_ok] at run
  obtain ⟨target, s₁, allocated, _, s₂, moved, rfl, rfl⟩ := run
  obtain ⟨slot, takes, first⟩ := takes_nextRegister tidy allocated
  have size : target.size = type.operandSize := congrArg Register.size takes.register
  have fits : Regular target.size := size ▸ wide
  have into := takes.sits wide
  have there : Sits s₁.draft.timeline.current (.reg (register.resize .s8)) (.register phys) :=
    Sits.extends (.register located (by simp [Register.resize])) (first lost)
  by_cases byte : type.operandSize = .s8
  · have small : Regular Size.s8 := ⟨by decide, by decide⟩
    have low : move (.reg target) (.reg (register.resize .high8)) type.isSigned .lowFirst =
        move (.reg target) (.reg (register.resize .s8)) type.isSigned .lowFirst := by
      change moveRegister target (register.resize .high8) _ =
        moveRegister target (register.resize .s8) _
      unfold moveRegister
      rw [size, byte]
      rfl
    rw [low] at moved
    obtain ⟨second, same⟩ := adds_move lost (first lost).tidy there into fits small .lowFirst
      moved
    refine ((Adds.silent (first lost)).trans second).mono (fun _ => id) ?_
    rintro _ view' ⟨view, rfl, -, moves⟩
    rw [if_pos byte]
    refine (moves (view.get phys) ⟨_, there, rfl⟩).congr ?_
    rw [show (Operand.reg target).size = .s8 from size.trans byte]
    exact extend_and_mask _ .s8 _
  · have wider : ¬ target.size.bytes ≤ (register.resize .high8).size.bytes := fun narrow =>
      byte (wide.eq_octet (size ▸ narrow))
    change moveRegister target (register.resize .high8) type.isSigned s₁ = _ at moved
    unfold moveRegister at moved
    rw [if_neg wider] at moved
    have located₁ : locate s₁.draft.timeline.current register = some phys := by
      cases there with
      | register located _ => exact located
    have same := (plain_emit _ _ _ _ moved).timeline
    have second : Adds lost s₁ s₂ fun view view' =>
        Shows s₁.draft.timeline.current view' (.reg target)
          (extend (readPart (view.get phys) .high8) .high8 type.isSigned) := by
      refine (adds_instr (first lost).tidy lost moved fun checked view here => ?_).1
      exact ⟨_, Does.extendUpper (into.finds here) (resolve_of_locate here located₁) has
        fits.sized fits.low, shows_set into fits (writePart_and_mask _ _ fits.low)⟩
    refine ((Adds.silent (first lost)).trans second).mono (fun _ => id) ?_
    rintro _ view' ⟨view, rfl, shows'⟩
    rw [if_neg byte, same]
    exact shows'

/-- Freeing registers changes neither the code nor where values are. -/
structure Frees (s s' : State) : Prop where
  text : s'.draft.text = s.draft.text
  timeline : s'.draft.timeline = s.draft.timeline

theorem frees_freeAnyway {operand : Operand} (run : freeAnyway operand s = .ok u s') :
    Frees s s' := by
  obtain ⟨freed, middle, freeing, rest⟩ := Success.bind_ok.mp run
  obtain ⟨_, rfl⟩ := Success.pure_ok.mp rest
  obtain ⟨draft, drafted, rfl⟩ := drafting_ok.mp freeing
  rcases Drafting.free_ok drafted with rfl | ⟨slot, _, _, rfl⟩
  · exact ⟨rfl, rfl⟩
  · exact ⟨rfl, rfl⟩

theorem frees_all {α : Type} {items : List α} {operand : α → Operand}
    (run : (items.forM fun item => freeAnyway (operand item)) s = .ok u s') : Frees s s' := by
  induction items generalizing s with
  | nil =>
      obtain ⟨_, rfl⟩ := Success.pure_ok.mp run
      exact ⟨rfl, rfl⟩
  | cons item rest inductionHypothesis =>
      obtain ⟨_, s₁, ran, onward⟩ := Success.bind_ok.mp run
      have first := frees_freeAnyway ran
      have second := inductionHypothesis onward
      exact ⟨second.text.trans first.text, second.timeline.trans first.timeline⟩

/-- Code is added that takes any view to one that is related to it, whatever becomes of the pool. -/
def Gains (s s' : State) (relation : View → View → Prop) : Prop :=
  ∃ code, s'.draft.text.code = s.draft.text.code ++ code ∧
    ∀ {image : Image} (checked : Bool) (view : View), Faithful image s s' →
      ∃ view', Straight image checked code view view' ∧ relation view view'

theorem Gains.of_adds {lost : Handle → Prop} (adds : Adds lost s s₁ relation)
    (frees : Frees s₁ s') : Gains s s' relation := by
  obtain ⟨code, added, leads⟩ := adds
  refine ⟨code, by rw [frees.text]; exact added.appended, fun checked view faithful => ?_⟩
  refine leads checked view fun handle tick issued reached earlier => ?_
  rw [← frees.timeline]
  exact faithful handle tick (frees.timeline ▸ issued) reached (frees.text ▸ earlier)

section Ends

variable {site : BlockSite} {replay replay' : Replay} (wide : Regular site.type.operandSize)
  (run : finish site value replay s = .ok (result, replay') s')
include wide run

/-- A block with a value hands it over and frees what it has taken. -/
theorem finish_ok : ∃ own s₁, ownValue replay.undeclared value site.type s = .ok own s₁ ∧
    (own ≠ .absent → result = own ∧ Frees s₁ s') := by
  simp only [finish, Success.stateT_bind_ok, Success.stateT_get_ok, Success.lift_ok,
    Success.stateT_ite_apply, Success.ite_apply] at run
  obtain ⟨_, _, _, ⟨same, rfl⟩, own, _, s₁, ⟨ran, rfl⟩, _, _, s₂, freed, _, _, s₃, freed',
    run⟩ := run
  cases same
  obtain ⟨dropped, rfl⟩ := Success.forM_of_lifted freed
  obtain ⟨dropped', rfl⟩ := Success.forM_of_lifted freed'
  have first := frees_all dropped
  have second := frees_all dropped'
  refine ⟨own, s₁, ran, fun present => ?_⟩
  rw [if_neg wide.sized, if_neg present] at run
  obtain ⟨same, rfl⟩ := Success.stateT_pure_ok.mp run
  cases same
  exact ⟨rfl, second.text.trans first.text, second.timeline.trans first.timeline⟩

/-- At its end a block hands over a register as wide as its type.  That register holds the value,
extended from its own width, unless it is the block's own one and narrower than the type. -/
theorem finish_value (tidy : s.draft.Tidy) (sits : Sits s.draft.timeline.current value spot)
    (regular : Regular value.size)
    (narrow : HandsOver s.draft replay.undeclared value →
      site.type.operandSize.bytes ≤ value.size.bytes) :
    (∃ register, result = .reg register ∧ register.size = site.type.operandSize) ∧
    Gains s s' fun view view' => ∀ word, Shows s.draft.timeline.current view value word →
      Shows s'.draft.timeline.current view' result
        (extend word value.size site.type.isSigned) := by
  obtain ⟨own, s₁, ran, hands⟩ := finish_ok wide run
  obtain ⟨⟨register, rfl, size⟩, adds⟩ :=
    adds_ownValue tidy sits regular wide (fun _ => True) narrow ran
  obtain ⟨rfl, frees⟩ := hands (by simp)
  refine ⟨⟨register, rfl, size⟩, ?_⟩
  rw [frees.timeline]
  exact .of_adds adds frees

omit wide run in
/-- The block's own register is handed over with what it holds above the width of the value. -/
theorem finish_handed {phys : Phys} (wide : Regular site.type.operandSize)
    (sits : Sits s.draft.timeline.current (.reg register) (.register phys))
    (handed : HandsOver s.draft replay.undeclared (.reg register))
    (run : finish site (.reg register) replay s = .ok (result, replay') s') :
    s'.draft.text = s.draft.text ∧
      ∀ view, Shows s'.draft.timeline.current view result (view.get phys) := by
  obtain ⟨own, s₁, ran, hands⟩ := finish_ok wide run
  obtain ⟨rfl, given, same, rfl⟩ := ownValue_handed handed ran
  cases same
  obtain ⟨rfl, frees⟩ := hands (by simp)
  refine ⟨frees.text, fun view => ?_⟩
  rw [frees.timeline]
  exact ⟨.register phys, sits.resize wide.low, readPart_regular _ wide⟩

end Ends

end Replaying

/-- The value of a block.  Behind its statements, what the block hands over holds the operand that
it returns, extended by the signedness of its type from the width of the operand, unless that is the
block's own register and narrower than the type. -/
theorem asmBlock_value {site : BlockSite} (prepared : Prepared s)
    (wide : Regular site.type.operandSize) (run : asmBlock site s = .ok result s') :
    ∃ value replay s₁, site.block.statements.foldlM (Replaying.statement site) .absent .start s =
        .ok (value, replay) s₁ ∧ ∀ spot, Sits s₁.draft.timeline.current value spot →
      Regular value.size →
      (HandsOver s₁.draft replay.undeclared value →
        site.type.operandSize.bytes ≤ value.size.bytes) →
      Replaying.Gains s₁ s' fun view view' => ∀ word,
        Shows s₁.draft.timeline.current view value word →
          Shows s'.draft.timeline.current view' result
            (extend word value.size site.type.isSigned) := by
  unfold asmBlock at run
  obtain ⟨⟨handed, replay'⟩, s₁, replayed, run⟩ := Success.bind_ok.mp run
  obtain ⟨rfl, rfl⟩ := Success.pure_ok.mp run
  obtain ⟨value, replay, s₂, ran, finished⟩ := Success.stateT_bind_ok.mp replayed
  have start : Replay.start.Fresh (Issued s) s := ⟨by simp [Replay.start], by simp [Replay.start],
    by simp [Replay.start]⟩
  obtain ⟨steady, -, -⟩ := Replaying.steady_statements (C := fun _ => True) prepared start
    (Fresh.of_none rfl).owned (fun _ _ _ _ => trivial) ran
  refine ⟨value, replay, s₂, ran, fun spot sits regular narrow => ?_⟩
  exact (Replaying.finish_value wide finished steady.guards.tidy sits regular narrow).2

end Lower

end X64Backend
