import X64Backend.Proofs.Lower.Expressions

/-!
Statements keep the locked values.  A statement may free every value that is not locked, and it may
choose where the innermost expansion puts its result.
-/

namespace X64Backend.Lower

open X64Backend.Tree

variable {C : Pool.Slot → Prop} {s s' s'' : State}

/-- The handles issued so far. -/
def Issued (s : State) (handle : Handle) : Prop :=
  handle < s.draft.timeline.count

/-- The calls in progress rely on locked values only. -/
def Prepared (s : State) : Prop :=
  Ready (Issued s) s

theorem Ready.prepared {guarded : Handle → Prop} (ready : Ready guarded s) : Prepared s := by
  refine ⟨ready.tidy, fun _ issued => issued, ?_⟩
  intro activation member operand among handle behind
  obtain ⟨guards, held⟩ := ready.settled activation member operand among handle behind
  exact ⟨ready.issued handle guards, held⟩

theorem Steady.prepared (steady : Steady (Issued s) C s s') (prepared : Prepared s) :
    Prepared s' :=
  (steady.ready prepared).prepared

/-- The innermost call goes on, with the same operands for its parameters.  Its result may be chosen
anew, but not among the values of old. -/
inductive Continued (count : Nat) : List Activation → List Activation → Prop where
  | idle : Continued count [] []
  | busy {innermost innermost' : Activation} {outer : List Activation} :
      innermost'.bound = innermost.bound → innermost'.inlining = innermost.inlining →
      (innermost'.result = innermost.result ∨
        ∀ handle, innermost'.result.handle? = some handle → count ≤ handle) →
      Continued count (innermost :: outer) (innermost' :: outer)

theorem Continued.refl (count : Nat) (activations : List Activation) :
    Continued count activations activations := by
  cases activations with
  | nil => exact .idle
  | cons innermost outer => exact .busy rfl rfl (.inl rfl)

theorem Continued.trans {count count' : Nat} {first second third : List Activation}
    (one : Continued count first second) (two : Continued count' second third)
    (later : count ≤ count') : Continued count first third := by
  cases one with
  | idle =>
      cases two
      exact .idle
  | busy bound inlining result =>
      cases two with
      | busy bound' inlining' result' =>
          refine .busy (bound'.trans bound) (inlining'.trans inlining) ?_
          rcases result' with same | fresh
          · rw [same]
            exact result
          · exact .inr fun handle behind => Nat.le_trans later (fresh handle behind)

theorem Continued.of_busy {count : Nat} {innermost : Activation} {outer left : List Activation}
    (continued : Continued count (innermost :: outer) left) :
    ∃ innermost', left = innermost' :: outer ∧ (innermost'.result = innermost.result ∨
      ∀ handle, innermost'.result.handle? = some handle → count ≤ handle) := by
  cases continued with
  | busy _ _ result => exact ⟨_, rfl, result⟩

/-- What a statement does to the state. -/
structure Advances (C : Pool.Slot → Prop) (s s' : State) : Prop where
  guards : Draft.Guards (fun handle => s.draft.Carries handle true) C s.draft s'.draft
  continued : Continued s.draft.timeline.count s.activations s'.activations
  prepared : Prepared s'

namespace Advances

theorem of_guards {guarded : Handle → Prop} (prepared : Prepared s)
    (guards : Draft.Guards guarded C s.draft s'.draft)
    (issued : ∀ handle, Issued s handle → guarded handle)
    (continued : Continued s.draft.timeline.count s.activations s'.activations)
    (prepared' : Prepared s') : Advances C s s' := by
  refine ⟨guards.mono ?_ fun _ claimed => claimed, continued, prepared'⟩
  intro handle carries
  obtain ⟨slot, here⟩ := Draft.live_of_carries carries
  exact issued handle (prepared.tidy.lt_count_of_holds here)

theorem of_steady (prepared : Prepared s) (steady : Steady (Issued s) C s s') :
    Advances C s s' := by
  refine of_guards prepared steady.guards (fun _ issued => issued) ?_ (steady.prepared prepared)
  rw [steady.activations]
  exact .refl _ _

theorem trans (first : Advances C s s') (second : Advances C s' s'') :
    Advances C s s'' := by
  refine ⟨first.guards.trans (second.guards.mono ?_ fun _ claimed => claimed),
    first.continued.trans second.continued first.guards.count, second.prepared⟩
  intro handle carries
  exact first.guards.kept carries carries

end Advances

/-- A computation that advances from any state in which the calls in progress are prepared. -/
def Executes {α : Type} (C : Pool.Slot → Prop) (action : Gen α) : Prop :=
  ∀ s a s', Prepared s → action s = .ok a s' → Advances C s s'

namespace Executes

variable {α β : Type}

theorem of_plain {action : Gen α} (plain : Plain action) : Executes C action := by
  intro s a s' prepared run
  exact .of_steady prepared (plain.steady prepared run)

theorem bind {first : Gen α} {next : α → Gen β} (executes : Executes C first)
    (executes' : ∀ a, Executes C (next a)) : Executes C (first >>= next) := by
  intro s b s' prepared run
  obtain ⟨a, s₁, ran, run⟩ := Success.bind_ok.mp run
  have one := executes s a s₁ prepared ran
  exact one.trans (executes' a s₁ b s' one.prepared run)

theorem ite {c : Prop} [Decidable c] {first second : Gen α} (executes : Executes C first)
    (executes' : Executes C second) : Executes C (if c then first else second) := by
  split
  · exact executes
  · exact executes'

theorem branch {lowered : Lowered} (sound : ∀ guarded, lowered.Sound guarded C)
    (label : String) (wanted : Bool) : Executes C (lowered.branch label wanted) := by
  intro s u s' prepared run
  exact .of_steady prepared ((sound _).branch label wanted s u s' prepared run)

end Executes

theorem executes_endStatement : Executes C endStatement := by
  intro s u s' prepared run
  obtain ⟨draft, drafted, rfl⟩ := drafting_ok.mp run
  have guards : Draft.Guards (fun handle => s.draft.Carries handle true) C s.draft draft := by
    refine .freeAll prepared.tidy ?_ drafted
    intro handle carries locked carries'
    exact prepared.tidy.carries_unique carries' carries
  refine ⟨guards, .refl _ _, guards.tidy, fun _ issued => issued, ?_⟩
  intro activation member operand among handle behind
  obtain ⟨issued, held⟩ := prepared.settled activation member operand among handle behind
  exact ⟨Nat.lt_of_lt_of_le issued guards.count, guards.held_locked issued held⟩

theorem modifyActivation_ok {change : Activation → Activation} {u : Unit}
    (run : modifyActivation change s = .ok u s') :
    s'.draft = s.draft ∧ s'.activations = s.activations.modifyHead change := by
  obtain rfl := Success.modify_ok.mp run
  cases current : s.activations with
  | nil => exact ⟨rfl, current⟩
  | cons innermost outer => exact ⟨rfl, rfl⟩

theorem executes_modifyActivation {change : Activation → Activation}
    (operands : ∀ activation, (change activation).operands = activation.operands)
    (inlining : ∀ activation, (change activation).inlining = activation.inlining)
    (bound : ∀ activation, (change activation).bound = activation.bound) :
    Executes C (modifyActivation change) := by
  intro s u s' prepared run
  obtain ⟨same, changed⟩ := modifyActivation_ok run
  have prepared' : Prepared s' := by
    refine ⟨same ▸ prepared.tidy, fun _ issued => issued, ?_⟩
    unfold Issued
    rw [same, changed]
    intro activation member operand among
    cases current : s.activations with
    | nil => simp [current] at member
    | cons innermost outer =>
        rw [current, List.modifyHead_cons] at member
        rcases List.mem_cons.mp member with rfl | member
        · rw [operands] at among
          exact prepared.settled innermost (by simp [current]) operand among
        · exact prepared.settled activation (by simp [current, member]) operand among
  have guards : Draft.Guards (Issued s) C s.draft s'.draft := by
    rw [same]
    exact .refl prepared.tidy
  refine .of_guards prepared guards (fun _ issued => issued) ?_ prepared'
  · rw [changed]
    cases s.activations with
    | nil => exact .idle
    | cons innermost outer =>
        exact .busy (bound innermost) (inlining innermost)
          (.inl (List.cons.inj (operands innermost)).1)

section Result

variable {guarded : Handle → Prop} {result : Operand} {u : Unit}

/-- Choosing the result of the innermost expansion locks it. -/
theorem setResult_ok (ready : Ready guarded s) (fresh : Fresh guarded s result)
    (run : setResult result s = .ok u s') :
    Draft.Guards guarded C s.draft s'.draft ∧
      (∀ handle, result.handle? = some handle → s'.draft.Held handle) ∧
      s'.activations = s.activations.modifyHead fun activation => { activation with result } := by
  obtain ⟨_, s₁, modified, locked⟩ := Success.bind_ok.mp run
  obtain ⟨same, changed⟩ := modifyActivation_ok modified
  have held : ∀ handle, result.handle? = some handle → s'.draft.Held handle := fun handle behind =>
    held_lock (same ▸ ready.tidy) behind locked
  obtain ⟨draft, drafted, rfl⟩ := drafting_ok.mp locked
  obtain rfl := Success.modify_ok.mp drafted
  refine ⟨?_, held, changed⟩
  rw [same]
  refine .adjust ready.tidy ?_ (fun _ => rfl) fun _ => rfl
  intro handle behind
  exact (fresh handle behind).2

theorem Ready.setResult (ready : Ready guarded s) (fresh : Fresh guarded s result)
    (run : setResult result s = .ok u s') :
    Ready (fun handle => guarded handle ∨ result.handle? = some handle) s' := by
  obtain ⟨guards, held, changed⟩ := setResult_ok (C := fun _ => True) ready fresh run
  have old : ∀ activation ∈ s.activations, ∀ operand ∈ activation.operands, ∀ handle,
      operand.handle? = some handle →
      (guarded handle ∨ result.handle? = some handle) ∧ s'.draft.Held handle := by
    intro activation member operand among handle behind
    obtain ⟨guarded', held⟩ := ready.settled activation member operand among handle behind
    exact ⟨.inl guarded', guards.held (ready.issued handle guarded') guarded' held⟩
  refine ⟨guards.tidy, ?_, ?_⟩
  · rintro handle (guarded' | behind)
    · exact Nat.lt_of_lt_of_le (ready.issued handle guarded') guards.count
    · exact Nat.lt_of_lt_of_le (fresh handle behind).1 guards.count
  · intro activation member operand among handle behind
    rw [changed] at member
    cases current : s.activations with
    | nil => simp [current] at member
    | cons innermost outer =>
        rw [current, List.modifyHead_cons] at member
        rcases List.mem_cons.mp member with rfl | member
        · rcases List.mem_cons.mp among with rfl | among
          · exact ⟨.inr behind, held handle behind⟩
          · exact old innermost (by simp [current]) operand (List.mem_cons_of_mem _ among) handle
              behind
        · exact old activation (by simp [current, member]) operand among handle behind

/-- The result of an expansion is chosen among new values. -/
theorem continued_setResult {count : Nat}
    (fresh : ∀ handle, result.handle? = some handle → count ≤ handle)
    (changed : s'.activations = s.activations.modifyHead fun activation =>
      { activation with result }) : Continued count s.activations s'.activations := by
  rw [changed]
  cases s.activations with
  | nil => exact .idle
  | cons innermost outer => exact .busy rfl rfl (.inr fresh)

theorem advances_storeResult {value : Operand} {size : Size} {signed : Bool} {s₀ : State}
    (prepared : Prepared s₀) (before : Steady (Issued s₀) C s₀ s)
    (owned : Owned (Issued s₀) s value)
    (run : storeResult result value size signed s = .ok u s') : Advances C s₀ s' := by
  have ready := before.ready prepared
  have stored : ∀ {dst}, store dst value signed .lowFirst s = .ok u s' → Advances C s₀ s' := by
    intro dst run
    exact .of_steady prepared (before.trans (steady_store ready owned run))
  cases result with
  | reg register => exact stored run
  | mem pointer => exact stored run
  | lit literal => exact stored run
  | absent =>
      simp only [storeResult, Success.bind_ok, Success.get_ok, Success.ite_apply] at run
      obtain ⟨_, _, ⟨rfl, rfl⟩, run⟩ := run
      split at run
      · rename_i kept
        have temporary : isTemp s.draft value = true := by
          unfold keepable at kept
          split at kept
          · simp only [Bool.and_eq_true] at kept
            exact kept.1.1
          · contradiction
        have fresh := owned.fresh ready.tidy temporary
        obtain ⟨guards, _, changed⟩ := setResult_ok (C := C) ready fresh run
        refine .of_guards prepared (before.guards.trans guards) (fun _ issued => issued) ?_
          (ready.setResult fresh run).prepared
        rw [← before.activations]
        exact continued_setResult (fun handle behind => Nat.le_of_not_lt (fresh handle behind).2)
          changed
      · simp only [Success.bind_ok] at run
        obtain ⟨chosen, s₁, allocated, _, s₂, settled, stored⟩ := run
        obtain ⟨_, newest⟩ := steady_stable (C := C) ready.prepared allocated
        obtain ⟨one, fresh⟩ := steady_stable (C := C) ready allocated
        have ready₁ := one.ready ready
        obtain ⟨guards, _, changed⟩ := setResult_ok (C := C) ready₁ fresh settled
        have ready₂ := ready₁.setResult fresh settled
        -- the value is older than the place that was chosen for it
        have owned₂ : Owned (fun handle => Issued s₀ handle ∨ chosen.handle? = some handle) s₂
            value := by
          intro handle behind
          obtain ⟨issued, held⟩ := (owned.steady one).later guards handle behind
          refine ⟨issued, ?_⟩
          rintro (guarded | same)
          · exact held guarded
          · exact absurd (owned handle behind).1 (newest handle same).2
        have last := steady_store (C := C) ready₂ owned₂ stored
        refine .of_guards prepared ((before.guards.trans one.guards).trans (guards.trans
          (last.guards.mono (fun _ issued => .inl issued) fun _ claimed => claimed)))
          (fun _ issued => issued) ?_ (last.ready ready₂).prepared
        rw [last.activations, ← before.activations, ← one.activations]
        exact continued_setResult (fun handle behind => Nat.le_of_not_lt (fresh handle behind).2)
          changed

end Result

theorem executes_expansionExit (activation : Activation) :
    Executes C (expansionExit activation) := by
  unfold expansionExit
  cases activation.exit with
  | some label => exact .of_plain (by simp)
  | none =>
      refine (Executes.of_plain plain_newLabel).bind fun label => ?_
      refine Executes.bind ?_ fun _ => .of_plain (by simp)
      apply executes_modifyActivation
      · intro activation
        rfl
      · intro activation
        rfl
      · intro activation
        rfl

theorem executes_leaveLoop (keyword : String) (target : Loop → String) :
    Executes C (leaveLoop keyword target) := by
  refine .of_plain (Plain.get.bind fun s => ?_)
  split
  · simp
  · simp

theorem executes_inLoop {entry : Loop} {body : Gen Unit} (executes : Executes C body) :
    Executes C (inLoop entry body) := by
  have loops : ∀ change : List Loop → List Loop,
      Executes C (modify fun s : State => { s with loops := change s.loops } : Gen Unit) := by
    intro change
    apply Executes.of_plain
    apply Plain.modify
    intro s
    exact ⟨rfl, rfl, Nat.le_refl _, rfl⟩
  exact (loops fun rest => entry :: rest).bind fun _ => executes.bind fun _ =>
    loops fun rest => rest.drop 1

section Values

variable {env : Env} (sound : ∀ guarded, ∀ e, (∀ slot, Expr.Claims env.program slot e → C slot) →
  (lower env e).Sound guarded C)
include sound

theorem executes_release {value : Expr}
    (claimed : ∀ slot, Expr.Claims env.program slot value → C slot) :
    Executes C (do release (← (lower env value).value)) := by
  intro s u s' prepared run
  obtain ⟨operand, s₁, evaluated, released⟩ := Success.bind_ok.mp run
  obtain ⟨one, owned⟩ := (sound _ value claimed).value s operand s₁ prepared evaluated
  exact .of_steady prepared (one.trans (steady_release (one.ready prepared) owned released))

theorem executes_assign {target value : Expr}
    (claimed : ∀ slot, Expr.Claims env.program slot target → C slot)
    (claimed' : ∀ slot, Expr.Claims env.program slot value → C slot) :
    Executes C (assign env target value) := by
  intro s u s' prepared run
  unfold assign at run
  obtain ⟨result, s₁, evaluated, run⟩ := Success.bind_ok.mp run
  obtain ⟨dst, s₂, placed, run⟩ := Success.bind_ok.mp run
  obtain ⟨_, s₃, stored, released⟩ := Success.bind_ok.mp run
  obtain ⟨one, owned⟩ := (sound _ value claimed').value s result s₁ prepared evaluated
  obtain ⟨two, owned'⟩ := evaluates_placeOf (sound _ target claimed) s₁ dst s₂ (one.ready prepared)
    placed
  have both := one.trans two
  have three := steady_store (C := C) (both.ready prepared) (owned.steady two) stored
  have all := both.trans three
  exact .of_steady prepared
    (all.trans (steady_release (all.ready prepared) (owned'.steady three) released))

theorem executes_returnInside {activation : Activation} {value : Expr}
    (claimed : ∀ slot, Expr.Claims env.program slot value → C slot) :
    Executes C (returnInside env activation value) := by
  have leave : Executes C (do
      jumpTo (← expansionExit activation)
      modifyActivation fun activation => { activation with jumps := activation.jumps + 1 }) := by
    refine (executes_expansionExit activation).bind fun label => ?_
    refine (Executes.of_plain (plain_jumpTo label)).bind fun _ => ?_
    apply executes_modifyActivation
    · intro activation
      rfl
    · intro activation
      rfl
    · intro activation
      rfl
  unfold returnInside
  refine Executes.ite ?_ leave
  intro s u s' prepared run
  obtain ⟨returned, s₁, evaluated, run⟩ := Success.bind_ok.mp run
  obtain ⟨_, s₂, stored, run⟩ := Success.bind_ok.mp run
  obtain ⟨one, owned⟩ := (sound _ value claimed).value s returned s₁ prepared evaluated
  have two := advances_storeResult prepared one owned stored
  exact two.trans (leave s₂ u s' two.prepared run)

theorem executes_returnFrom {frame : Frame} {value : Expr}
    (claimed : ∀ slot, Expr.Claims env.program slot value → C slot) :
    Executes C (returnFrom env frame value) := by
  have leave : Executes C (do
      jumpTo frame.exit
      modifyFrame fun frame => { frame with jumps := frame.jumps + 1 }) :=
    .of_plain (by simp)
  unfold returnFrom
  refine Executes.ite ?_ leave
  intro s u s' prepared run
  obtain ⟨returned, s₁, evaluated, run⟩ := Success.bind_ok.mp run
  obtain ⟨one, owned⟩ := (sound _ value claimed).value s returned s₁ prepared evaluated
  have ready := one.ready prepared
  simp only [Success.ite_apply] at run
  split at run
  · obtain ⟨_, s₂, reported, run⟩ := Success.bind_ok.mp run
    obtain ⟨_, s₃, released, run⟩ := Success.bind_ok.mp run
    have two := (plain_report _).steady (C := C) ready reported
    have three := two.trans (steady_release (two.ready ready) (owned.steady two) released)
    have four := Advances.of_steady prepared (one.trans three)
    exact four.trans (leave s₃ u s' four.prepared run)
  · obtain ⟨_, s₂, stored, run⟩ := Success.bind_ok.mp run
    have two := Advances.of_steady prepared (one.trans (steady_store ready owned stored))
    exact two.trans (leave s₂ u s' two.prepared run)

theorem executes_ret {value : Expr}
    (claimed : ∀ slot, Expr.Claims env.program slot value → C slot) :
    Executes C (ret env value) := by
  have looked : Plain expansion? := by
    refine Plain.get.bind fun s => ?_
    split
    · simp
    · simp
  refine (Executes.of_plain looked).bind fun expansion => ?_
  refine (Executes.of_plain Plain.get).bind fun s => ?_
  split
  · exact executes_returnInside sound claimed
  · exact executes_returnFrom sound claimed
  · exact .of_plain (by simp)

end Values

theorem executes_choose {cond : Lowered} {thenBody : Gen Unit} {elseBody : Option (Gen Unit)}
    (sound : ∀ guarded, cond.Sound guarded C) (executes : Executes C thenBody)
    (executes' : ∀ body, elseBody = some body → Executes C body) :
    Executes C (choose cond thenBody elseBody) := by
  unfold choose
  cases cond.literal? with
  | some known =>
      refine Executes.ite executes ?_
      cases elseBody with
      | none => exact .of_plain (by simp)
      | some body => exact executes' body rfl
  | none =>
      refine (Executes.of_plain plain_newLabel).bind fun otherwise => ?_
      refine (Executes.branch sound otherwise false).bind fun _ => ?_
      refine executes_endStatement.bind fun _ => executes.bind fun _ => ?_
      cases elseBody with
      | none => exact .of_plain (by simp)
      | some body =>
          refine (Executes.of_plain plain_newLabel).bind fun done => ?_
          refine (Executes.of_plain plain_lastInstr).bind fun last => ?_
          have rest : Executes C (do
              defineLabel otherwise
              body
              endStatement
              defineLabel done) :=
            (Executes.of_plain (by simp)).bind fun _ => (executes' body rfl).bind fun _ =>
              executes_endStatement.bind fun _ => .of_plain (by simp)
          exact Executes.ite ((Executes.of_plain (by simp)).bind fun _ => rest) rest

theorem executes_repeatWhile {cond : Lowered} {body : Gen Unit}
    (sound : ∀ guarded, cond.Sound guarded C) (executes : Executes C body) :
    Executes C (repeatWhile cond body) := by
  refine Executes.ite ?_ (.of_plain (by simp))
  refine (Executes.of_plain plain_newLabel).bind fun top => ?_
  refine (Executes.of_plain plain_newLabel).bind fun done => ?_
  refine (Executes.of_plain (plain_defineLabel top)).bind fun _ => ?_
  refine (Executes.branch sound done false).bind fun _ => ?_
  refine executes_endStatement.bind fun _ => (executes_inLoop executes).bind fun _ => ?_
  exact .of_plain (by simp)

theorem executes_headerPart {part : Option (Gen Unit)}
    (executes : ∀ action, part = some action → Executes C action) :
    Executes C (headerPart part) := by
  unfold headerPart
  cases part with
  | none => exact .of_plain (by simp)
  | some action => exact (executes action rfl).bind fun _ => executes_endStatement

theorem executes_repeatFor {start post : Option (Gen Unit)} {cond : Option Lowered}
    {body : Gen Unit} (starts : ∀ action, start = some action → Executes C action)
    (sound : ∀ lowered, cond = some lowered → ∀ guarded, lowered.Sound guarded C)
    (posts : ∀ action, post = some action → Executes C action)
    (executes : Executes C body) : Executes C (repeatFor start cond post body) := by
  refine (executes_headerPart starts).bind fun _ => ?_
  refine (Executes.of_plain plain_newLabel).bind fun top => ?_
  refine (Executes.of_plain plain_newLabel).bind fun next => ?_
  refine (Executes.of_plain plain_newLabel).bind fun done => ?_
  refine (Executes.of_plain (plain_defineLabel top)).bind fun _ => ?_
  refine Executes.bind ?_ fun _ => ?_
  · apply executes_headerPart
    intro action given
    obtain ⟨lowered, known, rfl⟩ := Option.map_eq_some_iff.mp given
    exact Executes.branch (sound lowered known) done false
  refine (executes_inLoop executes).bind fun _ => ?_
  refine (Executes.of_plain (plain_defineLabel next)).bind fun _ => ?_
  refine (executes_headerPart posts).bind fun _ => ?_
  exact .of_plain (by simp)

variable {env : Env}

theorem claimed_expr {stmt : Stmt} {e : Expr} (member : e ∈ stmt.exprs)
    (claimed : ∀ slot, Stmt.Claims env.program slot stmt → C slot) :
    ∀ slot, Expr.Claims env.program slot e → C slot := by
  intro slot C
  exact claimed slot (.expr member C)

theorem claimed_stmt {stmt part : Stmt} (member : part ∈ stmt.parts)
    (claimed : ∀ slot, Stmt.Claims env.program slot stmt → C slot) :
    ∀ slot, Stmt.Claims env.program slot part → C slot := by
  intro slot C
  exact claimed slot (.part member C)

mutual

theorem executes_statement (expanding : ∀ guarded, env.Expanding guarded C) (stmt : Stmt)
    (claimed : ∀ slot, Stmt.Claims env.program slot stmt → C slot) :
    Executes C (statement env stmt) := by
  have sound : ∀ guarded, ∀ e, (∀ slot, Expr.Claims env.program slot e → C slot) →
      (lower env e).Sound guarded C := fun guarded e => sound_lower (expanding guarded) e
  cases stmt with
  | absent =>
      rw [statement]
      exact .of_plain (by simp)
  | expr value =>
      rw [statement]
      exact executes_release sound (claimed_expr (by simp [Stmt.exprs]) claimed)
  | assign target value =>
      rw [statement]
      exact executes_assign sound (claimed_expr (by simp [Stmt.exprs]) claimed)
        (claimed_expr (by simp [Stmt.exprs]) claimed)
  | ret value =>
      rw [statement]
      exact executes_ret sound (claimed_expr (by simp [Stmt.exprs]) claimed)
  | ite cond thenBody elseBody =>
      have first := executes_statements expanding thenBody fun stmt member =>
        claimed_stmt (by simp [Stmt.parts, member]) claimed
      have second := executes_statement expanding elseBody
        (claimed_stmt (by simp [Stmt.parts]) claimed)
      rw [statement]
      refine executes_choose
        (fun guarded => sound guarded cond (claimed_expr (by simp [Stmt.exprs]) claimed)) first ?_
      intro body given
      split at given
      · contradiction
      · cases given
        exact second
  | «while» cond body =>
      have inner := executes_statements expanding body fun stmt member =>
        claimed_stmt (by simp [Stmt.parts, member]) claimed
      rw [statement]
      exact executes_repeatWhile
        (fun guarded => sound guarded cond (claimed_expr (by simp [Stmt.exprs]) claimed)) inner
  | «for» start cond post body =>
      have first := executes_statement expanding start
        (claimed_stmt (by simp [Stmt.parts]) claimed)
      have last := executes_statement expanding post (claimed_stmt (by simp [Stmt.parts]) claimed)
      have inner := executes_statements expanding body fun stmt member =>
        claimed_stmt (by simp [Stmt.parts, member]) claimed
      rw [statement]
      refine executes_repeatFor ?_ ?_ ?_ inner
      · intro action given
        split at given
        · contradiction
        · cases given
          exact first
      · intro lowered given guarded
        split at given
        · contradiction
        · cases given
          exact sound guarded cond (claimed_expr (by simp [Stmt.exprs]) claimed)
      · intro action given
        split at given
        · contradiction
        · cases given
          exact last
  | «break» =>
      rw [statement]
      exact executes_leaveLoop _ _
  | «continue» =>
      rw [statement]
      exact executes_leaveLoop _ _
  | block body =>
      rw [statement]
      exact executes_statements expanding body fun stmt member =>
        claimed_stmt (by simp [Stmt.parts, member]) claimed

theorem executes_statements (expanding : ∀ guarded, env.Expanding guarded C)
    (body : List Stmt)
    (claimed : ∀ stmt ∈ body, ∀ slot, Stmt.Claims env.program slot stmt → C slot) :
    Executes C (statement.statements env body) := by
  cases body with
  | nil =>
      rw [statement.statements]
      exact .of_plain (by simp)
  | cons stmt rest =>
      have first := executes_statement expanding stmt (claimed stmt (by simp))
      have others := executes_statements expanding rest fun other member =>
        claimed other (by simp [member])
      rw [statement.statements]
      exact first.bind fun _ => executes_endStatement.bind fun _ => others

end

end X64Backend.Lower
