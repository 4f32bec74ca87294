import X64Backend.Proofs.Lower.Shifts

/-!
The operands of variables.  A variable is in the frame, in what a call in progress has bound to it,
or behind an address that is loaded for it.  In each case its operand rests, so what holds of the
operators on operands that rest holds of expressions on variables.
-/

namespace X64Backend.Lower

open X64Backend.Tree

variable {s s' : State} {operand : Operand} {program : TypedProgram} {env : Env} {id : VarId}
  {op : BinaryOp} {left right : Expr} {type : TypeRef}

/-- A variable rests while code is added that keeps what it is reached through. -/
theorem Rests.extends {lost : Handle → Prop} {code : List Entry} (rests : Rests s.draft operand)
    (tidy : s.draft.Tidy) (added : Extends lost s s' code)
    (kept : ∀ handle, operand.handle? = some handle → ¬ lost handle) : Rests s'.draft operand := by
  have older : ∀ {handle}, s.draft.Live handle → s.draft.timeline.born handle < s.draft.text.clock →
      s'.draft.timeline.born handle < s'.draft.text.clock := by
    rintro handle ⟨slot, holds⟩ older
    rw [Timeline.born, added.history handle (tidy.lt_count_of_holds holds)]
    exact Nat.lt_of_lt_of_le older added.clock
  cases rests with
  | @cell pointer wide rooted =>
    refine .cell wide (rooted.imp_right ?_)
    rintro ⟨handle, slotted, live, before⟩
    obtain ⟨slot, holds⟩ := id live
    obtain ⟨locked, carries⟩ := Draft.carries_of_holds holds
    have behind : (Operand.mem pointer).handle? = some handle :=
      Operand.handle?_eq_some_iff.mpr ⟨_, rfl, slotted⟩
    exact ⟨handle, slotted, Draft.live_of_carries (added.kept carries (.inr (kept handle behind))),
      older live before⟩
  | value carries before =>
    exact .value (added.kept carries (.inl rfl)) (older (Draft.live_of_carries carries) before)

/-- The address of a by-reference variable is loaded into a new register, which the cell of the
variable is reached through. -/
theorem rests_cell {v : Variable} {offset : Int64} (tidy : s.draft.Tidy)
    (run : variableOperand.cell v offset s = .ok operand s') :
    (∃ code, Extends (fun _ => False) s s' code) ∧ Rests s'.draft operand := by
  simp only [variableOperand.cell, Success.ite_apply] at run
  split at run
  · obtain ⟨pointer, s₁, allocated, run⟩ := Success.bind_ok.mp run
    obtain ⟨_, s₂, emitted, run⟩ := Success.bind_ok.mp run
    obtain ⟨rfl, rfl⟩ := Success.pure_ok.mp run
    obtain ⟨slot, takes, added⟩ := takes_nextRegister tidy allocated
    obtain ⟨code, spelled, added', same⟩ :=
      extends_emit (added fun _ => False).tidy (fun _ => False) emitted
    refine ⟨⟨_, (added _).trans added'⟩, .cell (by rw [takes.register]; rfl) (.inr ?_)⟩
    refine ⟨s.draft.timeline.count, by rw [takes.register]; rfl,
      Draft.live_of_carries (added'.kept takes.carries (.inr id)), ?_⟩
    obtain ⟨entry, _, rfl, _, _⟩ := List.map_eq_cons_iff.mp spelled
    have stamped := added'.stamped entry List.mem_cons_self
    rw [same]
    exact Nat.lt_of_le_of_lt (Nat.le_trans ((added fun _ => False).tidy.born_le_clock _) stamped.1)
      stamped.2
  · obtain ⟨rfl, rfl⟩ := Success.pure_ok.mp run
    exact ⟨⟨[], .refl tidy⟩, .cell rfl (.inl rfl)⟩

/-- The operand of a variable rests if those do that the calls in progress have bound. -/
theorem rests_variableOperand (tidy : s.draft.Tidy)
    (bound : ∀ activation ∈ s.activations, ∀ item ∈ activation.bound, Rests s.draft item.2)
    (run : variableOperand program id s = .ok operand s') :
    (∃ code, Extends (fun _ => False) s s' code) ∧ Rests s'.draft operand := by
  unfold variableOperand at run
  obtain ⟨_, _, got, run⟩ := Success.bind_ok.mp run
  obtain ⟨rfl, rfl⟩ := Success.get_ok.mp got
  cases found : s.activations.findSome? fun activation => activation.binding? id with
  | none =>
    rw [found] at run
    exact rests_cell tidy run
  | some binding =>
    rw [found] at run
    cases binding with
    | offset offset => exact rests_cell tidy run
    | operand given =>
      obtain ⟨rfl, rfl⟩ := Success.pure_ok.mp run
      obtain ⟨activation, member, binds⟩ := List.exists_of_findSome?_eq_some found
      refine ⟨⟨[], .refl tidy⟩, ?_⟩
      unfold Activation.binding? at binds
      cases looked : activation.bound.lookup id with
      | some other =>
        rw [looked] at binds
        cases binds
        obtain ⟨front, back, split, _⟩ := List.lookup_eq_some_iff.mp looked
        exact bound activation member (id, given) (by simp [split])
      | none => simp [looked] at binds

/-- The value of an operator comes from those of its sides, at the type of the left one for a
comparison. -/
theorem lower_binary : (lower env (.binary op left right type)).value = (do
    let x ← (lower env left).value
    let y ← (lower env right).value
    evaluate op x y (if op.isComparison then left.type env.program else type)
      (right.type env.program)) := by
  simp only [lower, Lowered.ofValue, binary, evaluate]
  cases op.isComparison with
  | true => simp only [if_true]
  | false => simp only [Bool.false_eq_true, if_false]

/-- On variables in the frame an operator works on their cells. -/
theorem lower_binary_framed {a b : VarId} {offset offset' : Int64}
    (framed : Framed env.program s a offset) (framed' : Framed env.program s b offset') :
    (lower env (.binary op (.var a) (.var b) type)).value s =
      evaluate op (.mem (frameCell offset (env.program.var a).type.operandSize))
        (.mem (frameCell offset' (env.program.var b).type.operandSize))
        (if op.isComparison then (env.program.var a).type else type)
        (env.program.var b).type s := by
  rw [lower_binary]
  exact (Success.bind_of_ok (variableOperand_framed framed)).trans
    ((Success.bind_of_ok (variableOperand_framed framed')).trans rfl)

/-- On literals an operator works on these. -/
theorem lower_binary_literal {first second : Literal} {word word' : UInt64} {own other : TypeRef}
    (number : numeric? first = some word) (number' : numeric? second = some word') :
    (lower env (.binary op (.lit first own) (.lit second other) type)).value =
      evaluate op (.lit first) (.lit second) (if op.isComparison then own else type) other := by
  have plain : ∀ {value : Literal} {word}, numeric? value = some word →
      literal value = pure (.lit value) := by
    intro value word number
    obtain ⟨_, text, _⟩ := bits_of_numeric number
    exact if_pos text
  rw [lower_binary]
  simp only [lower, Lowered.ofValue, plain number, plain number', pure_bind, Expr.type]

end X64Backend.Lower
