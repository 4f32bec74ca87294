import X64Backend.Proofs.Lower.ExpressionChecks
import X64Backend.Proofs.Lower.Fusion

/-!
Operators that evaluate their right side only if the left one does not decide.  If the branches on
the two sides are taken exactly when the truths of the sides are as wanted, then so is the branch on
the operator, wherever literals stand.  The byte that its value is written to holds its truth, too.
-/

namespace X64Backend

namespace Machine

variable {image : Image} {checked : Bool} {index : Nat} {view : View} {entry : Entry}

/-- A jump without a condition leads to its label. -/
theorem Runs.goto {target : Nat} {label : String} (found : image.code[index]? = some entry)
    (jump : entry.instr = .branch .jmp label) (known : image.labels[label]? = some target) :
    Runs image checked index view target view := by
  have does : Yields (execute ⟨image, entry.tick⟩ checked entry.instr) view (.index target) view := by
    rw [jump]
    have led : Yields (unary ⟨image, entry.tick⟩ checked .jmp (.lit (.proc label))) view
        (some target) view :=
      (Yields.label known).bind (.pure _)
    exact led.bind (.pure _)
  intro state start
  obtain ⟨after, ran, seen, quiet, _, led⟩ := cycle_at start found does
  refine ⟨1, after, ?_, led target rfl, seen, quiet⟩
  rw [cycles, Success.bind_of_ok ran]
  rfl

/-- A conditional jump is not taken unless its condition holds, wherever it aims at. -/
theorem Runs.stay {cond : Cond} {label : String} (found : image.code[index]? = some entry)
    (jump : entry.instr = .branch (.jump cond) label) (fails : view.flags.holds cond = false) :
    Runs image checked index view (index + 1) view := by
  refine Runs.of_does found ?_
  have led : Yields (unary ⟨image, entry.tick⟩ checked (.jump cond) (.lit (.proc label))) view
      none view := by
    apply Yields.look
    intro state same
    have flags : state.flags = view.flags := by rw [← same]; rfl
    rw [flags, fails, if_neg Bool.false_ne_true]
    exact .pure none
  rw [jump]
  exact led.bind (.pure _)

/-- The machine goes past a label. -/
theorem Runs.pass {name : String} {isGlobal : Bool} (found : image.code[index]? = some entry)
    (label : entry.instr = .label name isGlobal) :
    Runs image checked index view (index + 1) view := by
  refine Runs.of_does found ?_
  rw [label]
  exact Yields.pure Next.following

/-- Entries stand in the code from an index on, and the labels among them are known. -/
structure Image.Stands (image : Image) (index : Nat) (entries : List Entry) : Prop where
  holds : image.Holds index entries
  labels : ∀ offset entry name isGlobal, entries[offset]? = some entry →
    entry.instr = .label name isGlobal → image.labels[name]? = some (index + offset)

namespace Image.Stands

variable {front back : List Entry}

theorem left (stands : image.Stands index (front ++ back)) : image.Stands index front := by
  refine ⟨stands.holds.left, fun offset entry name isGlobal found => ?_⟩
  refine stands.labels offset entry name isGlobal ?_
  rw [List.getElem?_append_left (List.getElem?_eq_some_iff.mp found).1]
  exact found

theorem right (stands : image.Stands index (front ++ back)) :
    image.Stands (index + front.length) back := by
  refine ⟨stands.holds.right, fun offset entry name isGlobal found => ?_⟩
  rw [Nat.add_assoc]
  refine stands.labels (front.length + offset) entry name isGlobal ?_
  rw [List.getElem?_append_right (Nat.le_add_right _ _), Nat.add_sub_cancel_left]
  exact found

end Image.Stands

end Machine

namespace Tree.LogicalOp

/-- The truth of two sides. -/
def eval (op : LogicalOp) (first second : Bool) : Bool :=
  match op with
  | and => first && second
  | or => first || second

theorem eval_of_decides {op : LogicalOp} {first : Bool} (decides : first = op.decisive)
    (second : Bool) : op.eval first second = op.decisive := by
  subst decides
  cases op <;> rfl

theorem eval_of_leaves {op : LogicalOp} {first : Bool} (leaves : first ≠ op.decisive)
    (second : Bool) : op.eval first second = second := by
  cases op <;> cases first <;> first | rfl | exact absurd rfl leaves

/-- The right side decides as well. -/
theorem eval_of_right {op : LogicalOp} {second : Bool} (decides : second = op.decisive)
    (first : Bool) : op.eval first second = op.decisive := by
  subst decides
  cases op <;> cases first <;> rfl

/-- A right side that does not decide leaves the outcome to the left one. -/
theorem eval_of_neutral {op : LogicalOp} {second : Bool} (leaves : second ≠ op.decisive)
    (first : Bool) : op.eval first second = first := by
  cases op <;> cases first <;> cases second <;> first | rfl | exact absurd rfl leaves

end Tree.LogicalOp

namespace Lower

open Machine X64Backend.Tree

variable {ready : State → Prop} {good : View → Prop} {s s₁ s₂ s' : State} {u : Unit}
  {label skip : String} {wanted a b : Bool} {left right : Lowered} {op : LogicalOp}

/-- Where code leads: to a label, or on to what follows it. -/
inductive Aims (image : Image) (behind : Nat) : Option String → Nat → Prop where
  | on : Aims image behind none behind
  | jump {label target} : image.labels[label]? = some target → Aims image behind (some label) target

/-- The code that was added leads to a label, or on to what follows it. -/
def Goes (good : View → Prop) (aim : Option String) (s s' : State) : Prop :=
  ∃ code, s'.draft.text.code = s.draft.text.code ++ code ∧
    ∀ {image : Image} (checked : Bool) {index target : Nat} {view : View},
      image.Stands index code → good view → Aims image (index + code.length) aim target →
      ∃ view', good view' ∧ Runs image checked index view target view'

namespace Goes

variable {aim : Option String}

theorem of_same (same : s'.draft.text.code = s.draft.text.code) : Goes good none s s' := by
  refine ⟨[], by rw [same, List.append_nil], ?_⟩
  intro image checked index target view stands holds aims
  cases aims
  exact ⟨view, holds, .refl index view⟩

theorem trans (first : Goes good none s s₁) (second : Goes good aim s₁ s') :
    Goes good aim s s' := by
  obtain ⟨front, appended, leads⟩ := first
  obtain ⟨back, appended', leads'⟩ := second
  refine ⟨front ++ back, by rw [appended', appended, List.append_assoc], ?_⟩
  intro image checked index target view stands holds aims
  obtain ⟨view₁, holds₁, runs⟩ := leads checked stands.left holds .on
  rw [List.length_append, ← Nat.add_assoc] at aims
  obtain ⟨view', holds', runs'⟩ := leads' checked stands.right holds₁ aims
  exact ⟨view', holds', runs.trans runs'⟩

/-- Code behind a jump is not reached. -/
theorem ahead (first : Goes good (some label) s s₁) (second : Goes good aim s₁ s') :
    Goes good (some label) s s' := by
  obtain ⟨front, appended, leads⟩ := first
  obtain ⟨back, appended', _⟩ := second
  refine ⟨front ++ back, by rw [appended', appended, List.append_assoc], ?_⟩
  intro image checked index target view stands holds aims
  cases aims with
  | jump known => exact leads checked stands.left holds (.jump known)

theorem jumped : Goes good (some label) s (s.emitted (.branch .jmp label)) := by
  refine ⟨_, Stream.code_emit _ _, ?_⟩
  intro image checked index target view stands holds aims
  cases aims with
  | jump known => exact ⟨view, holds, Runs.goto stands.holds.first rfl known⟩

theorem defined : Goes good none s (s.emitted (.label label false)) := by
  refine ⟨_, Stream.code_emit _ _, ?_⟩
  intro image checked index target view stands holds aims
  cases aims
  exact ⟨view, holds, Runs.pass stands.holds.first rfl⟩

/-- A jump over some code to a label behind it leads on. -/
theorem skipped (first : Goes good (some skip) s s₁) (second : Goes good aim s₁ s₂) :
    Goes good none s (s₂.emitted (.label skip false)) := by
  obtain ⟨code, appended, leads⟩ := first.ahead second
  refine ⟨code ++ [⟨s₂.draft.text.clock, .label skip false⟩], ?_, ?_⟩
  · change (s₂.draft.text.emit _).code = _
    rw [Stream.code_emit, appended, List.append_assoc]
  · intro image checked index target view stands holds aims
    cases aims
    have known : image.labels[skip]? = some (index + code.length) :=
      stands.labels code.length _ skip false List.getElem?_concat_length rfl
    obtain ⟨view', holds', runs⟩ := leads checked stands.left holds (.jump known)
    refine ⟨view', holds', runs.trans ?_⟩
    rw [List.length_append, ← Nat.add_assoc]
    exact Runs.pass stands.holds.right.first rfl

end Goes

/-- States that the labels and jumps of a branch do not leave. -/
structure Lasting (ready : State → Prop) : Prop where
  labels : ∀ {s}, ready s → ready { s with labels := s.labels + 1 }
  jump : ∀ {s label}, ready s → ready (s.emitted (.branch .jmp label))
  define : ∀ {s label}, ready s → ready (s.emitted (.label label false))

/-- A branch is taken exactly when a truth is as wanted. -/
def Branches (ready : State → Prop) (good : View → Prop) (branch : String → Bool → Gen Unit)
    (truth : Bool) : Prop :=
  ∀ {label wanted s u s'}, ready s → branch label wanted s = .ok u s' →
    ready s' ∧ Goes good (if truth = wanted then some label else none) s s'

/-- A value is computed for its effects only. -/
def LeadsOn (ready : State → Prop) (good : View → Prop) (value : Gen Operand) : Prop :=
  ∀ {s u s'}, ready s → (do release (← value) : Gen Unit) s = .ok u s' →
    ready s' ∧ Goes good none s s'

theorem goes_jumpIf (lasting : Lasting ready) {truth : Bool} (before : ready s)
    (run : (if truth = wanted then jumpTo label else pure ()) s = .ok u s') :
    ready s' ∧ Goes good (if truth = wanted then some label else none) s s' := by
  rw [Success.ite_apply] at run
  split at run
  · rename_i taken
    obtain rfl := Success.modify_ok.mp run
    rw [if_pos taken]
    exact ⟨lasting.jump before, .jumped⟩
  · rename_i passed
    obtain ⟨_, rfl⟩ := Success.pure_ok.mp run
    rw [if_neg passed]
    exact ⟨before, .of_same rfl⟩

/-- Both sides jump to the label if what decides is wanted. -/
theorem goes_directly (direct : wanted = op.decisive)
    (leads : Goes good (if a = wanted then some label else none) s s₁)
    (leads' : Goes good (if b = wanted then some label else none) s₁ s') :
    Goes good (if op.eval a b = wanted then some label else none) s s' := by
  by_cases decides : a = op.decisive
  · rw [LogicalOp.eval_of_decides decides, if_pos direct.symm]
    rw [if_pos (decides.trans direct.symm)] at leads
    exact leads.ahead leads'
  · rw [LogicalOp.eval_of_leaves decides]
    rw [if_neg (direct ▸ decides)] at leads
    exact leads.trans leads'

/-- If what decides is not wanted, the left side jumps over the right one. -/
theorem goes_around (other : wanted ≠ op.decisive)
    (leads : Goes good (if a = !wanted then some skip else none) s s₁)
    (leads' : Goes good (if b = wanted then some label else none) s₁ s') :
    Goes good (if op.eval a b = wanted then some label else none) s
      (s'.emitted (.label skip false)) := by
  have inverse : (!wanted) = op.decisive := by
    revert other
    cases wanted <;> cases op.decisive <;> simp
  by_cases decides : a = op.decisive
  · rw [LogicalOp.eval_of_decides decides, if_neg other.symm]
    rw [if_pos (decides.trans inverse.symm)] at leads
    exact leads.skipped leads'
  · rw [LogicalOp.eval_of_leaves decides]
    rw [if_neg (inverse ▸ decides)] at leads
    by_cases taken : b = wanted
    · rw [if_pos taken] at leads' ⊢
      exact (leads.trans leads').ahead .defined
    · rw [if_neg taken] at leads' ⊢
      exact (leads.trans leads').trans .defined

/-- A branch on two sides is taken exactly when their truth is as wanted, if the branches on the
sides are. -/
theorem branches_shortCircuit (lasting : Lasting ready) (first : Branches ready good left.branch a)
    (second : Branches ready good right.branch b)
    (knownLeft : ∀ value, left.literal? = some value → truth value = a)
    (knownRight : ∀ value, right.literal? = some value → truth value = b)
    (effects : ∀ value, left.literal? = none → right.literal? = some value → b = op.decisive →
      LeadsOn ready good left.value) :
    Branches ready good (shortCircuit op left right) (op.eval a b) := by
  intro label wanted s u s' before run
  unfold shortCircuit at run
  cases foundLeft : left.literal? with
  | some known =>
      simp only [foundLeft, knownLeft known foundLeft] at run
      by_cases decides : a = op.decisive
      · rw [if_pos decides] at run
        rw [LogicalOp.eval_of_decides decides]
        exact goes_jumpIf lasting before run
      · rw [if_neg decides] at run
        rw [LogicalOp.eval_of_leaves decides]
        exact second before run
  | none =>
      cases foundRight : right.literal? with
      | some known =>
          simp only [foundLeft, foundRight, knownRight known foundRight] at run
          by_cases decides : b = op.decisive
          · rw [if_pos decides, ← bind_assoc] at run
            rw [LogicalOp.eval_of_right decides]
            obtain ⟨_, s₁, passed, jumped⟩ := Success.bind_ok.mp run
            obtain ⟨between, leads⟩ := effects known foundLeft foundRight decides before passed
            obtain ⟨after, leads'⟩ := goes_jumpIf lasting between jumped
            exact ⟨after, leads.trans leads'⟩
          · rw [if_neg decides] at run
            rw [LogicalOp.eval_of_neutral decides]
            exact first before run
      | none =>
          simp only [foundLeft, foundRight] at run
          by_cases direct : wanted = op.decisive
          · rw [if_pos direct] at run
            obtain ⟨_, s₁, tested, run⟩ := Success.bind_ok.mp run
            obtain ⟨between, leads⟩ := first before tested
            obtain ⟨after, leads'⟩ := second between run
            exact ⟨after, goes_directly direct leads leads'⟩
          · rw [if_neg direct] at run
            obtain ⟨skip, s₁, labelled, run⟩ := Success.bind_ok.mp run
            obtain ⟨_, s₂, tested, run⟩ := Success.bind_ok.mp run
            obtain ⟨_, s₃, tested', defined⟩ := Success.bind_ok.mp run
            cases labelled
            obtain rfl := Success.modify_ok.mp defined
            obtain ⟨between, leads⟩ := first (lasting.labels before) tested
            obtain ⟨after, leads'⟩ := second between tested'
            exact ⟨lasting.define after, goes_around (s := s) direct leads leads'⟩

section Values

/-- The code that was added ends with the byte of a truth in an operand. -/
def WritesTruth (good : View → Prop) (operand : Operand) (truth : Bool) (s s' : State) : Prop :=
  ∃ code, s'.draft.text.code = s.draft.text.code ++ code ∧
    ∀ {image : Image} (checked : Bool) {index : Nat} {view : View} {spot : Spot},
      image.Stands index code → good view →
      (∀ entry ∈ code, operand ∈ entry.instr.operands → Finds ⟨image, entry.tick⟩ operand spot) →
      ∃ view', good view' ∧ Runs image checked index view (index + code.length)
        (spot.write view' .s8 (truthByte truth))

/-- The byte that was written reads as one for a truth and as zero otherwise. -/
theorem read_truthByte (spot : Spot) (view : View) (truth : Bool) :
    spot.read (spot.write view .s8 (truthByte truth)) .s8 = if truth then 1 else 0 := by
  rw [Spot.read_write (by decide) (by decide), truthByte_and_mask, truthByte]

/-- The sides of an operator lead to one of two moves, which write its truth. -/
theorem writes_logicalSides {dst : Operand} {no done : String} {truth : Bool}
    (branches : Branches ready good (shortCircuit op left right) truth) (before : ready s)
    (byte : dst.size = .s8) (run : logicalSides op left right dst no done s = .ok u s') :
    WritesTruth good dst truth s s' := by
  obtain ⟨_, s₁, branched, emitted⟩ := Success.bind_ok.mp run
  obtain ⟨_, front, appended, leads⟩ := branches before branched
  obtain rfl := Success.modify_ok.mp emitted
  obtain ⟨back, appended', spelled⟩ := s₁.draft.text.code_append
    [.binary .mov dst (.lit (.ofInt 1)), .branch .jmp done, .label no false,
      .binary .mov dst (.lit (.ofInt 0)), .label done false]
  obtain ⟨one, rest, rfl, toOne, spelled⟩ := List.map_eq_cons_iff.mp spelled
  obtain ⟨jump, rest, rfl, toJump, spelled⟩ := List.map_eq_cons_iff.mp spelled
  obtain ⟨atNo, rest, rfl, toNo, spelled⟩ := List.map_eq_cons_iff.mp spelled
  obtain ⟨zero, rest, rfl, toZero, spelled⟩ := List.map_eq_cons_iff.mp spelled
  obtain ⟨atDone, rest, rfl, toDone, spelled⟩ := List.map_eq_cons_iff.mp spelled
  obtain rfl := List.map_eq_nil_iff.mp spelled
  refine ⟨front ++ [one, jump, atNo, zero, atDone],
    by rw [appended', appended, List.append_assoc], ?_⟩
  intro image checked index view spot stands holds finds
  have moved : ∀ {entry : Entry} {number : Int} {word : UInt64} (view : View),
      entry ∈ [one, jump, atNo, zero, atDone] →
      entry.instr = .binary .mov dst (.lit (.ofInt number)) →
      (Literal.ofInt number).bits = .ok word →
      Does ⟨image, entry.tick⟩ checked entry.instr view (spot.write view .s8 word) := by
    intro entry number word view member same bits
    have found := finds entry (List.mem_append_right _ member) (by simp [same, Instr.operands])
    rw [same, ← byte]
    exact Does.movStanding found (.number rfl bits) (by simp [byte]) (by simp [byte])
  have tail := stands.right
  have atOne := tail.holds.first
  have atJump := tail.holds.tail.first
  have passNo := tail.holds.tail.tail.first
  have atZero := tail.holds.tail.tail.tail.first
  have passDone := tail.holds.tail.tail.tail.tail.first
  have knownNo := tail.labels 2 atNo no false rfl toNo
  have knownDone := tail.labels 4 atDone done false rfl toDone
  rw [List.length_append, ← Nat.add_assoc]
  cases truth with
  | true =>
      obtain ⟨view', holds', runs⟩ := leads checked stands.left holds .on
      refine ⟨view', holds', runs.trans ?_⟩
      have stores := Runs.of_does atOne (moved view' (by simp) toOne
        (Literal.bits_ofInt (by decide) (by decide)))
      exact stores.trans ((Runs.goto atJump toJump knownDone).trans (Runs.pass passDone toDone))
  | false =>
      obtain ⟨view', holds', runs⟩ := leads checked stands.left holds (.jump knownNo)
      refine ⟨view', holds', runs.trans ((Runs.pass passNo toNo).trans ?_)⟩
      have stores := Runs.of_does atZero (moved view' (by simp) toZero
        (Literal.bits_ofInt (by decide) (by decide)))
      exact stores.trans (Runs.pass passDone toDone)

theorem text_adjust (draft : Draft) (operand : Operand)
    (change : Pool.Occupant → Pool.Occupant) : (draft.adjust operand change).text = draft.text := by
  unfold Draft.adjust
  split <;> rfl

theorem text_logicalEnd {dst result : Operand} (run : logicalEnd dst s = .ok result s') :
    result = dst ∧ s'.draft.text = s.draft.text := by
  cases dst with
  | reg register =>
      obtain ⟨_, s₁, settled, run⟩ := Success.bind_ok.mp run
      obtain ⟨rfl, rfl⟩ := Success.pure_ok.mp run
      obtain ⟨draft, drafted, rfl⟩ := drafting_ok.mp settled
      obtain rfl := Success.modify_ok.mp drafted
      exact ⟨rfl, text_adjust _ _ _⟩
  | _ =>
      obtain ⟨rfl, rfl⟩ := Success.pure_ok.mp run
      exact ⟨rfl, rfl⟩

theorem size_logicalStart {dst : Operand} {no done : String}
    (run : logicalStart s = .ok (dst, no, done) s') : dst.size = .s8 := by
  simp only [logicalStart, Success.bind_ok, Success.pure_ok] at run
  obtain ⟨_, _, _, _, _, chosen, _, _, _, _, _, _, _, _, _, same, _⟩ := run
  cases same
  exact (stable_ok chosen).2.1

/-- A value whose left side is not a literal is the byte of its truth. -/
theorem writes_logicalValue {operand : Operand} {truth : Bool}
    (branches : Branches ready good (shortCircuit op left right) truth)
    (unknown : left.literal? = none) (run : logicalValue op left right s = .ok operand s') :
    ∃ no done s₁, logicalStart s = .ok (operand, no, done) s₁ ∧
      (ready s₁ → WritesTruth good operand truth s₁ s') := by
  rw [logicalValue_eq unknown] at run
  obtain ⟨⟨dst, no, done⟩, s₁, started, run⟩ := Success.bind_ok.mp run
  obtain ⟨_, s₂, ran, ended⟩ := Success.bind_ok.mp run
  obtain ⟨rfl, same⟩ := text_logicalEnd ended
  refine ⟨no, done, s₁, started, fun before => ?_⟩
  obtain ⟨code, appended, leads⟩ :=
    writes_logicalSides branches before (size_logicalStart started) ran
  exact ⟨code, by rw [same, appended], leads⟩

end Values

end Lower

end X64Backend
