import Mathlib.Data.Multiset.UnionInter
import X64Backend.Proofs.Block.Dispatched
import X64Backend.Proofs.Lower.Saved

/-!
Local labels.  Every label that the generator makes is owed until it is defined: by the statement or
the operator that made it, by an expansion, or by the procedure for its exit.  The last two count
the jumps that aim at their label, and define it if one is left.  So in the end each label that is
aimed at is defined, once, in its own procedure.
-/

namespace X64Backend

namespace Lower

open X64Backend.Tree

/-- A label that is local to a procedure. -/
def IsLocal (label : String) : Prop := ['.', 'L'] <+: label.toList

instance (label : String) : Decidable (IsLocal label) :=
  inferInstanceAs (Decidable (['.', 'L'] <+: label.toList))

/-- The local label with a number. -/
def localLabel (number : Nat) : String := ".L" ++ toString number

theorem isLocal_localLabel (number : Nat) : IsLocal (localLabel number) := by
  refine ⟨(toString number).toList, ?_⟩
  rw [localLabel, String.toList_append]
  rfl

theorem localLabel_injective {number other : Nat} (same : localLabel number = localLabel other) :
    number = other := by
  have spelled := congrArg String.toList same
  simp only [localLabel, String.toList_append] at spelled
  have digits : Nat.toDigits 10 number = Nat.toDigits 10 other := by
    simpa [toString] using List.append_cancel_left spelled
  rw [← Nat.ofDigitChars_toDigits (b := 10) (n := number) (by omega) (by omega), digits,
    Nat.ofDigitChars_toDigits (by omega) (by omega)]

end Lower

/-- The label that an instruction defines. -/
def Instr.defined? : Instr → Option String
  | .label name _ => some name
  | _ => none

@[simp]
theorem Instr.target?_set (cond : Cond) (location : Operand) :
    (Instr.unary (.set cond) location).target? = none := by
  cases location <;> simp [target?, Op.isBranch]

theorem Instr.target?_branch {op : Op} (branches : op.isBranch = true) (label : String) :
    (Instr.branch op label).target? = some label := by
  simp [branch, target?, branches, Literal.isLabel, Literal.proc]

theorem Instr.defined?_none {instr : Instr} {op : Op} (proper : instr.op? = some op) :
    instr.defined? = none := by
  cases instr with
  | label => cases proper
  | _ => rfl

namespace Lower

open X64Backend.Tree

/-- The labels that some code defines. -/
def definitions (code : List Entry) : List String :=
  code.filterMap fun entry => entry.instr.defined?

/-- The labels that the jumps and calls of some code aim at. -/
def targets (code : List Entry) : List String :=
  code.filterMap fun entry => entry.instr.target?

@[simp]
theorem definitions_append (code rest : List Entry) :
    definitions (code ++ rest) = definitions code ++ definitions rest :=
  List.filterMap_append

@[simp]
theorem targets_append (code rest : List Entry) :
    targets (code ++ rest) = targets code ++ targets rest :=
  List.filterMap_append

@[simp]
theorem definitions_label (tick : Nat) (name : String) (procedure : Bool) :
    definitions [⟨tick, .label name procedure⟩] = [name] := rfl

@[simp]
theorem targets_label (tick : Nat) (name : String) (procedure : Bool) :
    targets [⟨tick, .label name procedure⟩] = [] := rfl

/-- The labels of a procedure: those that an exit counts the jumps to, those that are owed
otherwise, and those that its code defines. -/
structure Ledger where
  counters : List (String × Nat)
  awaited : Multiset String
  code : List Entry
  /-- The number of labels that have been made. -/
  made : Nat

namespace Ledger

/-- Every label that is owed or defined. -/
def owned (ledger : Ledger) : Multiset String :=
  ↑(ledger.counters.map Prod.fst) + ledger.awaited + ↑(definitions ledger.code)

/-- Each label was made since the procedure began and is owed or defined once.  The code aims at no
other local label, and the exits count the jumps to their labels. -/
structure Sound (first : Nat) (ledger : Ledger) : Prop where
  nodup : ledger.owned.Nodup
  fresh : ∀ label ∈ ledger.owned, ∃ number, first ≤ number ∧ number < ledger.made ∧
    label = localLabel number
  aims : ∀ label ∈ targets ledger.code, IsLocal label → label ∈ ledger.owned
  counts : ∀ counter ∈ ledger.counters, (targets ledger.code).count counter.1 = counter.2

variable {first made : Nat} {front back : List (String × Nat)} {counters : List (String × Nat)}
  {awaited : Multiset String} {code code' : List Entry} {label : String} {jumps : Nat}

/-- A label that has not been made yet is owned by nobody. -/
theorem Sound.not_owned {ledger : Ledger} (sound : ledger.Sound first) :
    localLabel ledger.made ∉ ledger.owned := by
  intro member
  obtain ⟨number, _, below, same⟩ := sound.fresh _ member
  exact absurd (localLabel_injective same) (Nat.ne_of_gt below)

theorem Sound.not_aimed {ledger : Ledger} (sound : ledger.Sound first) :
    (targets ledger.code).count (localLabel ledger.made) = 0 :=
  List.count_eq_zero_of_not_mem fun member =>
    sound.not_owned (sound.aims _ member (isLocal_localLabel _))

/-- Code that defines the same labels and aims at the same labels. -/
theorem Sound.recode (sound : Sound first ⟨counters, awaited, code, made⟩)
    (defines : definitions code' = definitions code) (aims : targets code' = targets code) :
    Sound first ⟨counters, awaited, code', made⟩ := by
  have owned : owned ⟨counters, awaited, code', made⟩ = owned ⟨counters, awaited, code, made⟩ := by
    simp only [Ledger.owned, defines]
  refine ⟨owned ▸ sound.nodup, owned ▸ sound.fresh, ?_, ?_⟩
  · intro label member isLocal
    rw [owned]
    exact sound.aims label (aims ▸ member) isLocal
  · intro counter member
    rw [show targets code' = targets code from aims]
    exact sound.counts counter member

/-- A label behind which an exit counts is neither owed otherwise nor defined. -/
theorem Sound.apart {ledger : Ledger} (sound : ledger.Sound first) {counter : String × Nat}
    (member : counter ∈ ledger.counters) :
    counter.1 ∉ ledger.awaited + (definitions ledger.code : Multiset String) := by
  have nodup := sound.nodup
  rw [Ledger.owned, Multiset.add_assoc, Multiset.nodup_add] at nodup
  exact Multiset.disjoint_left.mp nodup.2.2
    (Multiset.mem_coe.mpr (List.mem_map_of_mem member))

/-- A jump to a label that no exit counts. -/
theorem Sound.aim (sound : Sound first ⟨counters, awaited, code, made⟩)
    (defines : definitions code' = definitions code) (aims : targets code' = targets code ++ [label])
    (owed : IsLocal label → label ∈ awaited + (definitions code : Multiset String)) :
    Sound first ⟨counters, awaited, code', made⟩ := by
  have owned : owned ⟨counters, awaited, code', made⟩ = owned ⟨counters, awaited, code, made⟩ := by
    simp only [Ledger.owned, defines]
  refine ⟨owned ▸ sound.nodup, owned ▸ sound.fresh, ?_, ?_⟩
  · intro other member isLocal
    rw [owned]
    rw [show targets code' = targets code ++ [label] from aims] at member
    rcases List.mem_append.mp member with member | member
    · exact sound.aims other member isLocal
    · obtain rfl := List.mem_singleton.mp member
      rw [Ledger.owned, Multiset.add_assoc]
      exact Multiset.mem_add.mpr (.inr (owed isLocal))
  · intro counter member
    have apart : label ≠ counter.1 := by
      rintro rfl
      have owns : counter.1 ∈ Ledger.owned ⟨counters, awaited, code, made⟩ :=
        Multiset.mem_add.mpr (.inl (Multiset.mem_add.mpr (.inl
          (Multiset.mem_coe.mpr (List.mem_map_of_mem member)))))
      obtain ⟨number, _, _, same⟩ := sound.fresh _ owns
      exact sound.apart member (owed (same ▸ isLocal_localLabel number))
    rw [show targets code' = targets code ++ [label] from aims, List.count_append,
      List.count_singleton]
    simp only [beq_iff_eq, apart, if_false, Nat.add_zero]
    exact sound.counts counter member

theorem owned_middle (front back : List (String × Nat)) (label : String) (jumps : Nat) :
    owned ⟨front ++ (label, jumps) :: back, awaited, code, made⟩ =
      label ::ₘ owned ⟨front ++ back, awaited, code, made⟩ := by
  have counted : (((front ++ (label, jumps) :: back).map Prod.fst : List String) : Multiset String) =
      label ::ₘ ((front ++ back).map Prod.fst : List String) := by
    rw [List.map_append, List.map_append, List.map_cons]
    exact Multiset.coe_eq_coe.mpr List.perm_middle
  simp only [owned, counted, Multiset.cons_add]

/-- No two exits count the jumps to one label. -/
theorem Sound.other (sound : Sound first ⟨front ++ (label, jumps) :: back, awaited, code, made⟩)
    {counter : String × Nat} (member : counter ∈ front ++ back) : label ≠ counter.1 := by
  have nodup := sound.nodup
  rw [owned_middle, Multiset.nodup_cons] at nodup
  rintro rfl
  refine nodup.1 (Multiset.mem_add.mpr (.inl (Multiset.mem_add.mpr (.inl ?_))))
  exact Multiset.mem_coe.mpr (List.mem_map_of_mem member)

theorem Sound.counted (sound : Sound first ⟨front ++ (label, jumps) :: back, awaited, code, made⟩) :
    (targets code).count label = jumps :=
  sound.counts (label, jumps) (by simp)

/-- The exit counts one more jump, or one less, as the code aims at its label. -/
theorem Sound.recount {jumps' : Nat}
    (sound : Sound first ⟨front ++ (label, jumps) :: back, awaited, code, made⟩)
    (defines : definitions code' = definitions code)
    (aims : ∀ other, label ≠ other → (targets code').count other = (targets code).count other)
    (counted : (targets code').count label = jumps') :
    Sound first ⟨front ++ (label, jumps') :: back, awaited, code', made⟩ := by
  have owned : owned ⟨front ++ (label, jumps') :: back, awaited, code', made⟩ =
      owned ⟨front ++ (label, jumps) :: back, awaited, code, made⟩ := by
    simp only [owned_middle]
    simp only [Ledger.owned, defines]
  refine ⟨owned ▸ sound.nodup, owned ▸ sound.fresh, ?_, ?_⟩
  · intro other member isLocal
    rw [owned]
    by_cases same : label = other
    · rw [← same, owned_middle]
      exact Multiset.mem_cons_self _ _
    · refine sound.aims other ?_ isLocal
      rw [← List.count_pos_iff, ← aims other same]
      exact List.count_pos_iff.mpr member
  · intro counter member
    have among : counter = (label, jumps') ∨ counter ∈ front ++ back := by
      simpa [or_left_comm] using member
    rcases among with rfl | rest
    · exact counted
    · rw [show (targets code').count counter.1 = (targets code).count counter.1 from
        aims counter.1 (sound.other rest)]
      refine sound.counts counter ?_
      rcases List.mem_append.mp rest with before | behind
      · exact List.mem_append_left _ before
      · exact List.mem_append_right _ (List.mem_cons_of_mem _ behind)

/-- A jump to the label of an exit. -/
theorem Sound.jump (sound : Sound first ⟨front ++ (label, jumps) :: back, awaited, code, made⟩)
    (defines : definitions code' = definitions code)
    (aims : targets code' = targets code ++ [label]) :
    Sound first ⟨front ++ (label, jumps + 1) :: back, awaited, code', made⟩ := by
  refine sound.recount defines ?_ ?_
  · intro other different
    simp [aims, different]
  · simp [aims, sound.counted]

/-- The last jump to the label of an exit is dropped. -/
theorem Sound.drop {last : Entry} (target : last.instr.target? = some label)
    (sound : Sound first ⟨front ++ (label, jumps) :: back, awaited, code ++ [last], made⟩) :
    Sound first ⟨front ++ (label, jumps - 1) :: back, awaited, code, made⟩ := by
  have aimed : targets [last] = [label] := by
    simp [targets, target]
  have defined : definitions [last] = [] := by
    cases spelled : last.instr with
    | label name procedure =>
        rw [spelled] at target
        cases target
    | _ => simp [definitions, spelled, Instr.defined?]
  have counted := sound.counted
  rw [targets_append, aimed, List.count_append, List.count_singleton_self] at counted
  refine sound.recount ?_ ?_ ?_
  · rw [definitions_append, defined, List.append_nil]
  · intro other different
    simp [aimed, different]
  · omega

/-- A label of its own is owned behind a step that makes it. -/
theorem Sound.extend {ledger ledger' : Ledger} (sound : ledger.Sound first) (begun : first ≤ ledger.made)
    (owned : ledger'.owned = localLabel ledger.made ::ₘ ledger.owned)
    (made : ledger'.made = ledger.made + 1) (aims : targets ledger'.code = targets ledger.code)
    (counts : ∀ counter ∈ ledger'.counters,
      counter ∈ ledger.counters ∨ counter = (localLabel ledger.made, 0)) :
    ledger'.Sound first := by
  refine ⟨?_, ?_, ?_, ?_⟩
  · rw [owned]
    exact Multiset.nodup_cons.mpr ⟨sound.not_owned, sound.nodup⟩
  · intro label member
    rw [owned] at member
    rw [made]
    rcases Multiset.mem_cons.mp member with rfl | member
    · exact ⟨ledger.made, begun, Nat.lt_succ_self _, rfl⟩
    · obtain ⟨number, since, below, same⟩ := sound.fresh label member
      exact ⟨number, since, Nat.lt_succ_of_lt below, same⟩
  · intro label member isLocal
    rw [aims] at member
    rw [owned]
    exact Multiset.mem_cons_of_mem (sound.aims label member isLocal)
  · intro counter member
    rw [aims]
    rcases counts counter member with before | rfl
    · exact sound.counts counter before
    · exact sound.not_aimed

/-- An exit is made, with a label of its own. -/
theorem Sound.exit (sound : Sound first ⟨front ++ back, awaited, code, made⟩) (begun : first ≤ made) :
    Sound first ⟨front ++ (localLabel made, 0) :: back, awaited, code, made + 1⟩ := by
  refine sound.extend begun (owned_middle front back _ 0) rfl rfl ?_
  intro counter member
  simpa [or_assoc, or_comm, or_left_comm] using member

/-- A label is made that is to be defined. -/
theorem Sound.make (sound : Sound first ⟨counters, awaited, code, made⟩) (begun : first ≤ made) :
    Sound first ⟨counters, localLabel made ::ₘ awaited, code, made + 1⟩ := by
  refine sound.extend begun ?_ rfl rfl fun counter member => .inl member
  simp only [owned, Multiset.add_cons, Multiset.cons_add]

/-- The same labels are owned, if not by the same owners. -/
theorem Sound.pass {ledger ledger' : Ledger} (sound : ledger.Sound first)
    (owned : ledger'.owned = ledger.owned) (made : ledger'.made = ledger.made)
    (aims : targets ledger'.code = targets ledger.code)
    (counts : ∀ counter ∈ ledger'.counters, counter ∈ ledger.counters) : ledger'.Sound first := by
  refine ⟨owned ▸ sound.nodup, ?_, ?_, ?_⟩
  · rw [owned, made]
    exact sound.fresh
  · rw [owned, aims]
    exact sound.aims
  · rw [aims]
    exact fun counter member => sound.counts counter (counts counter member)

/-- A label that was owed is defined. -/
theorem Sound.define (sound : Sound first ⟨counters, label ::ₘ awaited, code, made⟩)
    (defines : definitions code' = definitions code ++ [label])
    (aims : targets code' = targets code) :
    Sound first ⟨counters, awaited, code', made⟩ := by
  refine sound.pass ?_ rfl aims fun counter member => member
  have defined : (definitions code' : Multiset String) = label ::ₘ (definitions code : Multiset String) := by
    rw [defines]
    exact Multiset.coe_eq_coe.mpr (List.perm_append_singleton label _)
  simp only [owned, defined, Multiset.add_cons, Multiset.cons_add]

/-- An exit that nothing aims at needs no label. -/
theorem Sound.unused (sound : Sound first ⟨front ++ (label, 0) :: back, awaited, code, made⟩) :
    Sound first ⟨front ++ back, awaited, code, made⟩ := by
  have absent : label ∉ targets code := List.count_eq_zero.mp sound.counted
  have nodup := sound.nodup
  have fresh := sound.fresh
  have aims := sound.aims
  rw [owned_middle] at nodup fresh aims
  refine ⟨(Multiset.nodup_cons.mp nodup).2, ?_, ?_, ?_⟩
  · exact fun other member => fresh other (Multiset.mem_cons_of_mem member)
  · intro other member isLocal
    refine (Multiset.mem_cons.mp (aims other member isLocal)).resolve_left ?_
    rintro rfl
    exact absent member
  · intro counter member
    refine sound.counts counter ?_
    rcases List.mem_append.mp member with before | behind
    · exact List.mem_append_left _ before
    · exact List.mem_append_right _ (List.mem_cons_of_mem _ behind)

/-- An exit is closed.  Its label is defined if a jump to it is left. -/
theorem Sound.close (sound : Sound first ⟨front ++ (label, jumps) :: back, awaited, code, made⟩)
    (closed : Closed label jumps code code') :
    Sound first ⟨front ++ back, awaited, code', made⟩ := by
  induction closed with
  | unused => exact sound.unused
  | @defined jumps body tick _ =>
      refine sound.pass ?_ rfl ?_ ?_
      · rw [owned_middle]
        have defined : (definitions (body ++ [⟨tick, .label label false⟩]) : Multiset String) =
            label ::ₘ (definitions body : Multiset String) := by
          rw [definitions_append]
          exact Multiset.coe_eq_coe.mpr (List.perm_append_singleton label _)
        simp only [owned, defined, Multiset.add_cons]
      · rw [targets_append, targets_label, List.append_nil]
      · intro counter member
        rcases List.mem_append.mp member with before | behind
        · exact List.mem_append_left _ before
        · exact List.mem_append_right _ (List.mem_cons_of_mem _ behind)
  | direct jump _ inductionHypothesis =>
      have target := of_decide_eq_true (Bool.and_eq_true_iff.mp jump).2
      exact inductionHypothesis (sound.drop target)

end Ledger

namespace Config

/-- The exits of the expansions in progress, with the numbers of jumps to their labels. -/
def exits (calls : List Activation) : List (String × Nat) :=
  calls.filterMap fun activation => activation.exit.map fun label => (label, activation.jumps)

/-- The exits of the procedure and of its expansions in progress. -/
def counters (c : Config) : List (String × Nat) :=
  (c.state.frame.map fun frame => (frame.exit, frame.jumps)).toList ++ exits c.state.activations

/-- The labels of a procedure whose body is being written. -/
def ledger (c : Config) (body : List Entry) : Ledger :=
  ⟨c.counters, c.awaited, body, c.state.labels⟩

theorem exits_none {innermost : Activation} (unmade : innermost.exit = none)
    (outer : List Activation) : exits (innermost :: outer) = exits outer := by
  simp [exits, unmade]

theorem exits_some {innermost : Activation} {label : String} (made : innermost.exit = some label)
    (outer : List Activation) :
    exits (innermost :: outer) = (label, innermost.jumps) :: exits outer := by
  simp [exits, made]

end Config

/-- In the middle of a body, whose code stands behind a base, every label is accounted for. -/
structure Labelled (first : Nat) (base body : List Entry) (c : Config) : Prop where
  code : c.state.draft.text.code = base ++ body
  begun : first ≤ c.state.labels
  sound : (c.ledger body).Sound first
  defined : ∀ label ∈ c.defined, label ∈ definitions body
  idle : ∀ activation ∈ c.state.activations, activation.exit = none → activation.jumps = 0

namespace Labelled

variable {program : TypedProgram} {since : Handle} {c c' : Config} {base body body' : List Entry}
  {first : Nat} {label : String}

/-- A label that may be aimed at is owed or defined. -/
theorem owed (labelled : Labelled first base body c) (aimed : label ∈ c.targets) :
    label ∈ c.awaited + (definitions body : Multiset String) := by
  rcases Multiset.mem_add.mp aimed with awaited | defined
  · exact Multiset.mem_add.mpr (.inl awaited)
  · exact Multiset.mem_add.mpr (.inr (Multiset.mem_coe.mpr (labelled.defined label defined)))

/-- A change that has nothing to do with labels. -/
theorem same (labelled : Labelled first base body c) (code : c'.state.draft.text.code = base ++ body')
    (counters : c'.counters = c.counters) (awaited : c'.awaited = c.awaited)
    (made : c'.state.labels = c.state.labels) (defined : c'.defined = c.defined)
    (idle : ∀ activation ∈ c'.state.activations, activation.exit = none → activation.jumps = 0)
    (defines : definitions body' = definitions body) (aims : targets body' = targets body) :
    Labelled first base body' c' := by
  refine ⟨code, made ▸ labelled.begun, ?_, ?_, idle⟩
  · rw [Config.ledger, counters, awaited, made]
    exact labelled.sound.recode defines aims
  · rw [defined, defines]
    exact labelled.defined

/-- An instruction that has nothing to do with labels. -/
theorem emit (labelled : Labelled first base body c) {instr : Instr}
    (undefined : instr.defined? = none) (straight : instr.target? = none)
    (text : c'.state.draft.text = c.state.draft.text.emit instr) (counters : c'.counters = c.counters)
    (awaited : c'.awaited = c.awaited) (made : c'.state.labels = c.state.labels)
    (defined : c'.defined = c.defined) (calls : c'.state.activations = c.state.activations) :
    ∃ body', Labelled first base body' c' := by
  refine ⟨body ++ [⟨c.state.draft.text.clock, instr⟩], labelled.same ?_ counters awaited made defined
    (calls ▸ labelled.idle) ?_ ?_⟩
  · rw [text, Stream.code_emit, labelled.code, List.append_assoc]
  · simp [definitions, undefined]
  · simp [targets, straight]

/-- A jump to a label that no exit counts, at the end of other code. -/
theorem aim (labelled : Labelled first base body c)
    (owed : IsLocal label → label ∈ c.awaited + (definitions body : Multiset String))
    (code : c'.state.draft.text.code = base ++ body') (counters : c'.counters = c.counters)
    (awaited : c'.awaited = c.awaited) (made : c'.state.labels = c.state.labels)
    (defined : c'.defined = c.defined) (calls : c'.state.activations = c.state.activations)
    (defines : definitions body' = definitions body)
    (aims : targets body' = targets body ++ [label]) : Labelled first base body' c' := by
  refine ⟨code, made ▸ labelled.begun, ?_, ?_, calls ▸ labelled.idle⟩
  · rw [Config.ledger, counters, awaited, made]
    exact labelled.sound.aim defines aims owed
  · rw [defined, defines]
    exact labelled.defined

theorem branch (labelled : Labelled first base body c) (op : Op)
    (owed : IsLocal label → label ∈ c.awaited + (definitions body : Multiset String)) :
    ∃ body', Labelled first base body' (c.turn (c.state.emitted (.branch op label))) := by
  cases isBranch : op.isBranch with
  | false =>
      have straight : (Instr.branch op label).target? = none := by
        simp [Instr.branch, Instr.target?, isBranch]
      exact labelled.emit rfl straight rfl rfl rfl rfl rfl rfl
  | true =>
      have aimed := Instr.target?_branch isBranch label
      refine ⟨body ++ [⟨c.state.draft.text.clock, .branch op label⟩], labelled.aim owed ?_ rfl rfl rfl
        rfl rfl ?_ ?_⟩
      · rw [← List.append_assoc, ← labelled.code]
        exact Stream.code_emit _ _
      · simp [definitions, Instr.branch, Instr.defined?]
      · simp [targets, aimed]

/-- The newest instruction is replaced by a jump. -/
theorem fuse (labelled : Labelled first base body c) (headed : Headed base) {cond cond' : Cond}
    {location : Operand} (last : c.state.draft.text.last? = some (.unary (.set cond) location))
    (owed : IsLocal label → label ∈ c.awaited + (definitions body : Multiset String)) :
    ∃ body', Labelled first base body' (c.turn
      (c.state.withText (c.state.draft.text.replaceLast (.branch (.jump cond') label)))) := by
  obtain ⟨older, tick, rfl, replaced⟩ := headed.behind_set labelled.code last
  have aimed : (Instr.branch (.jump cond') label).target? = some label :=
    Instr.target?_branch rfl label
  refine ⟨_, labelled.aim owed (replaced _) rfl rfl rfl rfl rfl ?_ ?_⟩
  · simp [definitions, Instr.branch, Instr.defined?]
  · simp [targets, aimed]

/-- A jump to the label of an exit. -/
theorem jump (labelled : Labelled first base body c) (front back : List (String × Nat)) (jumps : Nat)
    (counters : c.counters = front ++ (label, jumps) :: back)
    (code : c'.state.draft.text = c.state.draft.text.emit (.branch .jmp label))
    (counters' : c'.counters = front ++ (label, jumps + 1) :: back)
    (awaited : c'.awaited = c.awaited) (made : c'.state.labels = c.state.labels)
    (defined : c'.defined = c.defined)
    (idle : ∀ activation ∈ c'.state.activations, activation.exit = none → activation.jumps = 0) :
    ∃ body', Labelled first base body' c' := by
  refine ⟨body ++ [⟨c.state.draft.text.clock, .branch .jmp label⟩], ?_, made ▸ labelled.begun, ?_, ?_,
    idle⟩
  · rw [code, Stream.code_emit, labelled.code, List.append_assoc]
  · have sound := labelled.sound
    rw [Config.ledger, counters] at sound
    rw [Config.ledger, counters', awaited, made]
    have aimed : (Instr.branch .jmp label).target? = some label := Instr.target?_branch rfl label
    refine sound.jump ?_ ?_
    · simp [definitions, Instr.branch, Instr.defined?]
    · simp [targets, aimed]
  · rw [defined]
    intro other member
    rw [definitions_append]
    exact List.mem_append_left _ (labelled.defined other member)

/-- The body behind the closing of an exit still defines what it has defined. -/
theorem definitions_closed {jumps : Nat} {closed : List Entry} (closes : Closed label jumps body closed)
    {other : String} (member : other ∈ definitions body) : other ∈ definitions closed := by
  induction closes with
  | unused => exact member
  | defined tick _ =>
      rw [definitions_append]
      exact List.mem_append_left _ member
  | @direct _ _ _ last jump _ inductionHypothesis =>
      refine inductionHypothesis ?_
      have undefined : definitions [last] = [] := by
        cases spelled : last.instr with
        | label name procedure =>
            rw [spelled] at jump
            cases jump
        | _ => simp [definitions, spelled, Instr.defined?]
      rwa [definitions_append, undefined, List.append_nil] at member

/-- An instruction that stores a condition is replaced by another one. -/
theorem reset (labelled : Labelled first base body c) (headed : Headed base) {cond cond' : Cond}
    {location dst : Operand} (last : c.state.draft.text.last? = some (.unary (.set cond) location)) :
    ∃ body', Labelled first base body' (c.turn
      (c.state.withText (c.state.draft.text.replaceLast (.unary (.set cond') dst)))) := by
  obtain ⟨older, tick, rfl, replaced⟩ := headed.behind_set labelled.code last
  refine ⟨_, labelled.same (replaced _) rfl rfl rfl rfl labelled.idle ?_ ?_⟩
  · simp [definitions, Instr.defined?]
  · simp [targets]

/-- A label that is awaited is defined. -/
theorem define (labelled : Labelled first base body c) {rest : Multiset String}
    (awaited : c.awaited = label ::ₘ rest) :
    ∃ body', Labelled first base body' { c with
      state := c.state.emitted (.label label false)
      awaited := rest
      defined := label ::ₘ c.defined } := by
  refine ⟨body ++ [⟨c.state.draft.text.clock, .label label false⟩], ?_, labelled.begun, ?_, ?_,
    labelled.idle⟩
  · rw [← List.append_assoc, ← labelled.code]
    exact Stream.code_emit _ _
  · have sound := labelled.sound
    rw [Config.ledger, awaited] at sound
    exact sound.define (by simp) (by simp)
  · intro other member
    rw [definitions_append, definitions_label]
    rcases Multiset.mem_cons.mp member with rfl | member
    · simp
    · exact List.mem_append_left _ (labelled.defined other member)

section Activations

variable {innermost : Activation} {outer : List Activation}

/-- The calls around the innermost one have no jumps without a label. -/
theorem idle_outer (labelled : Labelled first base body c)
    (calls : c.state.activations = innermost :: outer) {activation : Activation}
    (member : activation ∈ outer) (unmade : activation.exit = none) : activation.jumps = 0 := by
  refine labelled.idle activation ?_ unmade
  rw [calls]
  exact List.mem_cons_of_mem _ member

/-- A call begins that no jump leaves yet. -/
theorem enter (labelled : Labelled first base body c) (unmade : innermost.exit = none)
    (idle : innermost.jumps = 0) :
    Labelled first base body
      (c.turn { c.state with activations := innermost :: c.state.activations }) := by
  refine labelled.same labelled.code ?_ rfl rfl rfl ?_ rfl rfl
  · simp only [Config.counters, Config.turn, Config.exits_none unmade]
  · intro activation member unmade
    rcases List.mem_cons.mp member with rfl | member
    · exact idle
    · exact labelled.idle activation member unmade

/-- The innermost call gets a place for its result. -/
theorem result (labelled : Labelled first base body c)
    (calls : c.state.activations = innermost :: outer) (result : Operand) :
    Labelled first base body
      (c.turn { c.state with activations := { innermost with result } :: outer }) := by
  refine labelled.same labelled.code ?_ rfl rfl rfl ?_ rfl rfl
  · simp only [Config.counters, Config.turn, calls, Config.exits, List.filterMap_cons]
  · intro activation member unmade
    rcases List.mem_cons.mp member with rfl | member
    · exact labelled.idle innermost (by simp [calls]) unmade
    · exact labelled.idle_outer calls member unmade

/-- The innermost call gets a label behind it. -/
theorem exit (labelled : Labelled first base body c)
    (calls : c.state.activations = innermost :: outer) (unmade : innermost.exit = none) :
    Labelled first base body (c.turn { c.state with
      labels := c.state.labels + 1
      activations := { innermost with exit := some c.state.nextLabel } :: outer }) := by
  have idle := labelled.idle innermost (by simp [calls]) unmade
  have sound := labelled.sound
  rw [Config.ledger, Config.counters, calls, Config.exits_none unmade] at sound
  refine ⟨labelled.code, Nat.le_succ_of_le labelled.begun, ?_, labelled.defined, ?_⟩
  · rw [Config.ledger, Config.counters]
    simp only [Config.turn]
    rw [Config.exits_some rfl]
    simp only [idle]
    exact sound.exit labelled.begun
  · intro activation member absent
    rcases List.mem_cons.mp member with rfl | member
    · cases absent
    · exact labelled.idle_outer calls member absent

/-- A jump leaves the innermost call. -/
theorem jumpOut (labelled : Labelled first base body c)
    (calls : c.state.activations = innermost :: outer) (made : innermost.exit = some label) :
    ∃ body', Labelled first base body' (c.turn { c.state.emitted (.branch .jmp label) with
      activations := { innermost with jumps := innermost.jumps + 1 } :: outer }) := by
  refine labelled.jump (c.state.frame.map fun frame => (frame.exit, frame.jumps)).toList
    (Config.exits outer) innermost.jumps ?_ rfl ?_ rfl rfl rfl ?_
  · rw [Config.counters, calls, Config.exits_some made]
  · have counted : Config.exits ({ innermost with jumps := innermost.jumps + 1 } :: outer) =
        (label, innermost.jumps + 1) :: Config.exits outer := by
      simp [Config.exits, made]
    rw [← counted]
    rfl
  · intro activation member absent
    rcases List.mem_cons.mp member with rfl | member
    · rw [made] at absent
      cases absent
    · exact labelled.idle_outer calls member absent

/-- The innermost call ends, and no jump has left it. -/
theorem done (labelled : Labelled first base body c)
    (calls : c.state.activations = innermost :: outer) (unmade : innermost.exit = none) :
    Labelled first base body (c.turn { c.state with activations := outer }) := by
  refine labelled.same labelled.code ?_ rfl rfl rfl
    (fun _ member absent => labelled.idle_outer calls member absent) rfl rfl
  simp only [Config.counters, Config.turn, calls, Config.exits_none unmade]

/-- The innermost call ends where its label is. -/
theorem close (labelled : Labelled first base body c) (headed : Headed base)
    (calls : c.state.activations = innermost :: outer) (made : innermost.exit = some label) :
    ∃ body', Labelled first base body' (c.turn
      { c.state.withText (closedText c.state.draft.text label innermost.jumps) with
        activations := outer }) := by
  obtain ⟨body', same, closed⟩ := headed.closed label innermost.jumps labelled.code
  have sound := labelled.sound
  rw [Config.ledger, Config.counters, calls, Config.exits_some made] at sound
  exact ⟨body', same, labelled.begun, sound.close closed,
    fun other member => definitions_closed closed (labelled.defined other member),
    fun _ member absent => labelled.idle_outer calls member absent⟩

end Activations

/-- A change of the frame that has nothing to do with its exit. -/
theorem framed (labelled : Labelled first base body c) {change : Frame → Frame}
    (frame : c'.state.frame = c.state.frame.map change)
    (same : ∀ frame, ((change frame).exit, (change frame).jumps) = (frame.exit, frame.jumps))
    (text : c'.state.draft.text = c.state.draft.text)
    (calls : c'.state.activations = c.state.activations) (awaited : c'.awaited = c.awaited)
    (made : c'.state.labels = c.state.labels) (defined : c'.defined = c.defined) :
    Labelled first base body c' := by
  refine labelled.same (text ▸ labelled.code) ?_ awaited made defined (calls ▸ labelled.idle) rfl
    rfl
  simp only [Config.counters, frame, calls, Option.map_map]
  congr 3
  exact funext same

end Labelled

variable {program : TypedProgram} {since : Handle} {c c' : Config} {base body body' : List Entry}
  {first : Nat} {label : String}

theorem Move.labelled (move : Move program since c c') (headed : Headed base)
    (foreign : ∀ id, ¬ IsLocal (program.function id).linkName)
    (straight : ∀ instr, program.Asks instr → instr.target? = none)
    (labelled : Labelled first base body c) : ∃ body', Labelled first base body' c' := by
  cases move with
  | draft step =>
      cases step with
      | @shift slot _ occupant =>
          have moved : (Draft.moveOut occupant.handle slot).target? = none := rfl
          exact labelled.emit rfl moved rfl rfl rfl rfl rfl rfl
      | _ => exact ⟨body, labelled.same labelled.code rfl rfl rfl rfl labelled.idle rfl rfl⟩
  | note noted =>
      refine ⟨body, labelled.same ?_ ?_ rfl noted.labels rfl ?_ rfl rfl⟩
      · exact (congrArg Stream.code noted.text).trans labelled.code
      · simp only [Config.counters, Config.turn, noted.frame, noted.activations]
      · rw [Config.turn, noted.activations]
        exact labelled.idle
  | emit proper inLine _ =>
      exact labelled.emit (Instr.defined?_none proper) (inLine.elim id (straight _)) rfl rfl rfl rfl
        rfl rfl
  | transfer callee => exact labelled.branch .call fun isLocal => absurd isLocal (foreign callee)
  | reset last _ => exact labelled.reset headed last
  | fuse last aimed => exact labelled.fuse headed last fun _ => labelled.owed aimed
  | jump _ aimed => exact labelled.branch _ fun _ => labelled.owed aimed
  | label =>
      refine ⟨body, labelled.code, Nat.le_succ_of_le labelled.begun, ?_, labelled.defined,
        labelled.idle⟩
      exact labelled.sound.make labelled.begun
  | define awaited => exact labelled.define awaited
  | loops _ => exact ⟨body, labelled.same labelled.code rfl rfl rfl rfl labelled.idle rfl rfl⟩
  | @leave frame found =>
      refine labelled.jump [] (Config.exits c.state.activations) frame.jumps ?_ rfl ?_ rfl rfl rfl
        labelled.idle
      · rw [Config.counters, found]
        rfl
      · rfl
  | enter unmade idle _ => exact ⟨body, labelled.enter unmade idle⟩
  | result calls _ => exact ⟨body, labelled.result calls _⟩
  | exit calls unmade => exact ⟨body, labelled.exit calls unmade⟩
  | jumpOut calls made => exact labelled.jumpOut calls made
  | done calls unmade => exact ⟨body, labelled.done calls unmade⟩
  | close calls made => exact labelled.close headed calls made
  | push proper inLine _ _ =>
      exact labelled.emit (Instr.defined?_none proper) inLine rfl rfl rfl rfl rfl rfl
  | grow extent => exact ⟨body, labelled.framed rfl (fun _ => rfl) rfl rfl rfl rfl rfl⟩
  | called _ => exact ⟨body, labelled.framed rfl (fun _ => rfl) rfl rfl rfl rfl rfl⟩
  | reclaim _ _ _ => exact ⟨body, labelled.framed rfl (fun _ => rfl) rfl rfl rfl rfl rfl⟩
  | leak _ _ => exact ⟨body, labelled.framed rfl (fun _ => rfl) rfl rfl rfl rfl rfl⟩

theorem Moves.labelled (moves : Moves program since c c') (headed : Headed base)
    (foreign : ∀ id, ¬ IsLocal (program.function id).linkName)
    (straight : ∀ instr, program.Asks instr → instr.target? = none)
    (labelled : Labelled first base body c) : ∃ body', Labelled first base body' c' := by
  induction moves with
  | refl => exact ⟨body, labelled⟩
  | tail _ last inductionHypothesis =>
      obtain ⟨body₁, labelled₁⟩ := inductionHypothesis
      exact last.labelled headed foreign straight labelled₁

/-- Where the body of a procedure begins, only the label of its exit is owed. -/
theorem labelled_begun (s : State) (id : FnId) (fn : Function) :
    Labelled s.labels (Config.begun s id fn).state.draft.text.code [] (Config.begun s id fn) := by
  have nothing : Ledger.Sound s.labels ⟨[] ++ [], 0, [], s.labels⟩ := by
    refine ⟨?_, ?_, ?_, ?_⟩
    · exact Multiset.nodup_zero
    · intro label member
      exact absurd member (Multiset.notMem_zero label)
    · intro label member
      exact absurd member List.not_mem_nil
    · intro counter member
      exact absurd member List.not_mem_nil
  refine ⟨(List.append_nil _).symm, Nat.le_succ _, nothing.exit (Nat.le_refl _), ?_, ?_⟩
  · intro label member
    exact absurd member (Multiset.notMem_zero label)
  · intro activation member
    exact absurd member List.not_mem_nil

/-- The local labels of a section were made while it was generated, are defined once, and are the only
ones that it aims at. -/
structure Section.Tight (sec : Section) (first made : Nat) : Prop where
  nodup : (definitions sec.body).Nodup
  fresh : ∀ label ∈ definitions sec.body, ∃ number, first ≤ number ∧ number < made ∧
    label = localLabel number
  aims : ∀ label ∈ targets sec.body, IsLocal label → label ∈ definitions sec.body

theorem spelled_definitions {code : List Entry} {instrs : List Instr}
    (spelled : code.map Entry.instr = instrs) :
    definitions code = instrs.filterMap Instr.defined? := by
  rw [← spelled, List.filterMap_map]
  rfl

theorem spelled_targets {code : List Entry} {instrs : List Instr}
    (spelled : code.map Entry.instr = instrs) : targets code = instrs.filterMap Instr.target? := by
  rw [← spelled, List.filterMap_map]
  rfl

namespace Generated

variable {options : Options} {s s' : State} {sec : Section} {frame : Frame} {unclosed : List Entry}
  (generated : Generated program options s sec s' c frame unclosed)

include generated

theorem tight (foreign : ∀ id, ¬ IsLocal (program.function id).linkName)
    (straight : ∀ instr, program.Asks instr → instr.target? = none) :
    s.labels ≤ s'.labels ∧ sec.Tight s.labels s'.labels := by
  have headed := headed_label s.draft.text.code s.draft.text.clock
    (program.function sec.fn).linkName
  have begun := labelled_begun s sec.fn (program.function sec.fn)
  rw [code_begun] at begun
  obtain ⟨body, labelled⟩ := generated.written.moves.labelled headed foreign straight begun
  have same := labelled.code
  rw [generated.body, generated.head] at same
  rw [← List.append_cancel_left same] at labelled
  have counters : c.counters = [] ++ (frame.exit, frame.jumps) :: [] := by
    rw [Config.counters, generated.found, generated.written.activations]
    rfl
  have sound := labelled.sound
  rw [Config.ledger, counters, generated.written.awaited] at sound
  have closed := sound.close generated.closed
  have owned : Ledger.owned ⟨[] ++ [], 0, sec.body, c.state.labels⟩ = ↑(definitions sec.body) := by
    simp [Ledger.owned]
  rw [generated.finished.labels]
  refine ⟨labelled.begun, ?_, ?_, ?_⟩
  · have nodup := closed.nodup
    rw [owned] at nodup
    exact Multiset.coe_nodup.mp nodup
  · intro label member
    refine closed.fresh label ?_
    rw [owned]
    exact Multiset.mem_coe.mpr member
  · intro label member isLocal
    have aims := closed.aims label member isLocal
    rw [owned] at aims
    exact Multiset.mem_coe.mp aims

theorem framing : definitions sec.prologue = [] ∧ targets sec.prologue = [] ∧
    definitions sec.epilogue = [] ∧ targets sec.epilogue = [] := by
  rw [spelled_definitions generated.prologue, spelled_targets generated.prologue,
    spelled_definitions generated.epilogue, spelled_targets generated.epilogue]
  have silent : ∀ instrs : List Instr,
      (∀ instr ∈ instrs, (∃ op, instr.op? = some op) ∧ instr.target? = none) →
      instrs.filterMap Instr.defined? = [] ∧ instrs.filterMap Instr.target? = [] := by
    intro instrs proper
    constructor
    · rw [List.filterMap_eq_nil_iff]
      intro instr member
      obtain ⟨⟨op, spelled⟩, _⟩ := proper instr member
      exact Instr.defined?_none spelled
    · rw [List.filterMap_eq_nil_iff]
      exact fun instr member => (proper instr member).2
  let plan := c.state.plan options (program.function sec.fn) frame
  obtain ⟨noLabel, noTarget⟩ := silent plan.prologue fun instr member =>
    plan.proper (List.mem_append_left _ member)
  obtain ⟨noLabel', noTarget'⟩ := silent plan.epilogue fun instr member =>
    plan.proper (List.mem_append_right _ member)
  exact ⟨noLabel, noTarget, noLabel', noTarget'⟩

/-- Besides the label of the procedure, a section defines the labels of its body. -/
theorem definitions_entries : definitions sec.entries =
    (program.function sec.fn).linkName :: definitions sec.body := by
  obtain ⟨prologue, _, epilogue, _⟩ := generated.framing
  have head : definitions [sec.head] = [(program.function sec.fn).linkName] := by
    rw [generated.head]
    rfl
  rw [Section.entries, Section.inner, ← List.singleton_append, definitions_append,
    definitions_append, definitions_append, head, prologue, epilogue, List.append_nil,
    List.nil_append, List.singleton_append]

/-- A section aims at what its body aims at. -/
theorem targets_entries : targets sec.entries = targets sec.body := by
  obtain ⟨_, prologue, _, epilogue⟩ := generated.framing
  have head : targets [sec.head] = [] := by
    rw [generated.head]
    rfl
  rw [Section.entries, Section.inner, ← List.singleton_append, targets_append, targets_append,
    targets_append, head, prologue, epilogue, List.append_nil, List.nil_append, List.nil_append]

end Generated

/-- The local labels of procedures that were generated one after the other. -/
theorem Chain.tight {options : Options} {s s' : State} {sections : List Section}
    (chain : Chain program options s sections s')
    (foreign : ∀ id, ¬ IsLocal (program.function id).linkName)
    (straight : ∀ instr, program.Asks instr → instr.target? = none) :
    s.labels ≤ s'.labels ∧ (sections.flatMap fun sec => definitions sec.body).Nodup ∧
      (∀ label ∈ sections.flatMap fun sec => definitions sec.body,
        ∃ number, s.labels ≤ number ∧ number < s'.labels ∧ label = localLabel number) ∧
      (definitions (sections.flatMap Section.entries)).filter (fun label => IsLocal label) =
        sections.flatMap (fun sec => definitions sec.body) ∧
      ∀ sec ∈ sections, ∀ label ∈ targets sec.entries, IsLocal label →
        label ∈ definitions sec.body := by
  induction chain with
  | nil => exact ⟨Nat.le_refl _, List.nodup_nil, by simp, rfl, by simp⟩
  | @cons s s₁ s' sec rest c frame unclosed generated _ inductionHypothesis =>
      obtain ⟨made, tight⟩ := generated.tight foreign straight
      obtain ⟨made', nodup, fresh, all, aims⟩ := inductionHypothesis
      refine ⟨Nat.le_trans made made', ?_, ?_, ?_, ?_⟩
      · rw [List.flatMap_cons, List.nodup_append]
        refine ⟨tight.nodup, nodup, ?_⟩
        rintro label early _ late rfl
        obtain ⟨number, _, below, rfl⟩ := tight.fresh label early
        obtain ⟨other, above, _, same⟩ := fresh _ late
        exact absurd (localLabel_injective same) (by omega)
      · intro label member
        rw [List.flatMap_cons] at member
        rcases List.mem_append.mp member with early | late
        · obtain ⟨number, above, below, same⟩ := tight.fresh label early
          exact ⟨number, above, Nat.lt_of_lt_of_le below made', same⟩
        · obtain ⟨number, above, below, same⟩ := fresh label late
          exact ⟨number, Nat.le_trans made above, below, same⟩
      · have own : (definitions sec.body).filter (fun label => IsLocal label) =
            definitions sec.body := by
          rw [List.filter_eq_self]
          intro label member
          obtain ⟨number, _, _, rfl⟩ := tight.fresh label member
          exact decide_eq_true (isLocal_localLabel number)
        rw [List.flatMap_cons, definitions_append, generated.definitions_entries,
          List.filter_append, List.filter_cons_of_neg (by simpa using foreign sec.fn), own, all,
          List.flatMap_cons]
      · intro other member label aimed isLocal
        rcases List.mem_cons.mp member with rfl | member
        · rw [generated.targets_entries] at aimed
          exact tight.aims label aimed isLocal
        · exact aims other member label aimed isLocal

section Program

/-- An instruction that a block asks for stays in line if it stands in the dispatch table. -/
theorem straight_of_asks (dispatched : ∀ block, program.Contains block → block.Dispatched)
    {instr : Instr} (asks : program.Asks instr) : instr.target? = none := by
  obtain ⟨block, instruction, contained, member, proper⟩ := asks
  have inLine := Block.isBranch_of_specs (dispatched block contained _ member)
  cases instr with
  | unary op operand =>
      obtain rfl := Option.some.inj proper
      cases operand <;> simp [Instr.target?, inLine]
  | _ => rfl

/-- The name of a function that is not there is no local label either. -/
theorem not_isLocal_linkName (foreign : ∀ fn ∈ program.functions, ¬ IsLocal fn.linkName) (id : FnId) :
    ¬ IsLocal (program.function id).linkName := by
  unfold TypedProgram.function
  rw [Array.getD_eq_getD_getElem?]
  cases found : program.functions[id]? with
  | none => decide +kernel
  | some fn => exact foreign fn (Array.mem_of_getElem? found)

/-- The code in front of the procedures has nothing to do with local labels. -/
theorem header_labels {options : Options} {s : State}
    (foreign : ∀ fn ∈ program.functions, ¬ IsLocal fn.linkName)
    (run : (do
        emit [.sectionName ".text", .globalName "_start"]
        entryPoint (.of program options) : Gen Unit) .initial = .ok () s) :
    (∀ label ∈ targets s.draft.text.code, ¬ IsLocal label) ∧
      ∀ label ∈ definitions s.draft.text.code, ¬ IsLocal label := by
  obtain ⟨_, _, emitted, run⟩ := Success.bind_ok.mp run
  obtain rfl := Success.modify_ok.mp emitted
  unfold entryPoint at run
  obtain ⟨_, _, started, run⟩ := Success.bind_ok.mp run
  obtain rfl := Success.modify_ok.mp started
  have start : ∀ label ∈ ["_start"], ¬ IsLocal label := by decide
  dsimp only [Env.of] at run
  generalize found : program.lookup _ = known at run
  cases known with
  | some fn =>
      obtain rfl := Success.modify_ok.mp run
      refine ⟨?_, start⟩
      intro label member
      have called : label ∈ [fn.linkName] := member
      rw [List.mem_singleton.mp called]
      exact foreign fn (Array.mem_of_find?_eq_some found)
  | none =>
      obtain ⟨_, _, logged, run⟩ := Success.bind_ok.mp run
      obtain ⟨draft, traced, rfl⟩ := drafting_ok.mp logged
      obtain rfl := Success.modify_ok.mp traced
      obtain rfl := Success.modify_ok.mp run
      exact ⟨fun label member => absurd member List.not_mem_nil, start⟩

/-- What a body defines, its section defines. -/
theorem Section.definitions_body {sec : Section} {label : String}
    (member : label ∈ definitions sec.body) : label ∈ definitions sec.entries := by
  obtain ⟨entry, inside, defined⟩ := List.mem_filterMap.mp member
  refine List.mem_filterMap.mpr ⟨entry, List.mem_cons_of_mem _ ?_, defined⟩
  exact List.mem_append_left _ (List.mem_append_right _ inside)

/-- The local labels of a program that is generated are each defined once.  Those that the code of a
function aims at are defined in the code of this function, and the code in front of the procedures
aims at none. -/
theorem generate_closes_labels {options : Options} {code : Program}
    (foreign : ∀ fn ∈ program.functions, ¬ IsLocal fn.linkName)
    (dispatched : ∀ block, program.Contains block → block.Dispatched)
    (run : (generate options program).program? = some code) :
    ((definitions code.text.code).filter fun label => IsLocal label).Nodup ∧
    ∃ (header : List Entry) (sections : List Section),
      code.text.code = header ++ sections.flatMap Section.entries ∧
      sections.map Section.fn = definedAmong program (List.range program.functions.size) ∧
      (∀ label ∈ targets header, ¬ IsLocal label) ∧
      ∀ sec ∈ sections, sec.Shaped program ∧
        ∀ label ∈ targets sec.entries, IsLocal label →
          label ∈ definitions sec.entries ∧ (definitions code.text.code).count label = 1 := by
  obtain ⟨s, generated, text, _⟩ := generate_ok run
  obtain ⟨s₀, s₁, sections, begun, chain, functions, same, _⟩ := wholeProgram_chain generated
  obtain ⟨_, nodup, _, all, aims⟩ := chain.tight (not_isLocal_linkName foreign)
    fun instr asks => straight_of_asks dispatched asks
  obtain ⟨aimless, foreignHeader⟩ := header_labels foreign begun
  have spelled : code.text.code = s₀.draft.text.code ++ sections.flatMap Section.entries := by
    rw [text, same]
    exact chain.code
  have defined : (definitions code.text.code).filter (fun label => IsLocal label) =
      sections.flatMap fun sec => definitions sec.body := by
    have none : (definitions s₀.draft.text.code).filter (fun label => IsLocal label) = [] := by
      rw [List.filter_eq_nil_iff]
      exact fun label member => by simpa using foreignHeader label member
    rw [spelled, definitions_append, List.filter_append, all, none, List.nil_append]
  refine ⟨defined ▸ nodup, s₀.draft.text.code, sections, spelled, functions, aimless, ?_⟩
  intro sec member
  refine ⟨chain.shaped sec member, fun label aimed isLocal => ?_⟩
  have inside := aims sec member label aimed isLocal
  constructor
  · exact Section.definitions_body inside
  · have counted : ((definitions code.text.code).filter fun label => IsLocal label).count label =
        (definitions code.text.code).count label :=
      List.count_filter (by simpa using isLocal)
    rw [← counted, defined]
    exact List.count_eq_one_of_mem nodup (List.mem_flatMap.mpr ⟨sec, member, inside⟩)

/-- A program whose function returns early from the middle of its body. -/
def earlyReturn : TypedProgram :=
  .ofParts "Main" #[]
    #[{ (default : Function) with
        name := "Main"
        returnType := .int
        mods := { Mods.none with isStatic := true }
        locals := [⟨"b", .bool, false, false, 0⟩]
        body := some
          [.ite (.var ⟨0, 0⟩) [.ret (.lit (.ofInt 1) .int)] .absent, .ret (.lit (.ofInt 2) .int)] }]

theorem earlyReturn_contains {block : Block} : ¬ earlyReturn.Contains block := by
  have leaf : ∀ {e : Expr}, e.parts = [] → (∀ block vars type, e ≠ .asm block vars type) →
      ¬ Expr.Contains block e := by
    intro e none plain contains
    cases contains with
    | block => exact plain _ _ _ rfl
    | part member _ =>
        rw [none] at member
        exact List.not_mem_nil member
  have returns : ∀ {value : Expr}, ¬ Expr.Contains block value → ¬ Stmt.Contains block (.ret value) := by
    intro value clear contains
    cases contains with
    | expr member inside => exact clear (List.mem_singleton.mp member ▸ inside)
    | part member _ => cases member
  rintro ⟨id, body, found, contains⟩
  match id with
  | 0 =>
      have known : (earlyReturn.function 0).body = some
          [.ite (.var ⟨0, 0⟩) [.ret (.lit (.ofInt 1) .int)] .absent,
            .ret (.lit (.ofInt 2) .int)] := by
        with_unfolding_all rfl
      rw [known] at found
      cases found
      cases contains with
      | expr member _ => exact absurd member List.not_mem_nil
      | part member inside =>
          rcases List.mem_pair.mp member with rfl | rfl
          · cases inside with
            | expr member inside =>
                rw [List.mem_singleton.mp member] at inside
                exact leaf rfl (by simp) inside
            | part member inside =>
                rcases List.mem_pair.mp member with rfl | rfl
                · cases inside with
                  | expr member _ => exact absurd member List.not_mem_nil
                  | part member _ => exact absurd member List.not_mem_nil
                · exact returns (leaf rfl (by simp)) inside
          · exact returns (leaf rfl (by simp)) inside
  | later + 1 =>
      have one : earlyReturn.functions.size = 1 := by decide +kernel
      have outside : earlyReturn.functions.size ≤ later + 1 := by omega
      rw [TypedProgram.function, Array.getD_eq_getD_getElem?, Array.getElem?_eq_none outside] at found
      cases found

theorem earlyReturn_closes_labels : (∀ fn ∈ earlyReturn.functions, ¬ IsLocal fn.linkName) ∧
    (∀ block, earlyReturn.Contains block → block.Dispatched) ∧
    ∃ code, (generate .default earlyReturn).program? = some code ∧
      (∃ label ∈ targets code.text.code, IsLocal label) ∧
      ((definitions code.text.code).filter fun label => IsLocal label).Nodup ∧
      ∃ (header : List Entry) (sections : List Section),
        code.text.code = header ++ sections.flatMap Section.entries ∧
        sections.map Section.fn = [0] ∧
        (∀ label ∈ targets header, ¬ IsLocal label) ∧
        ∀ sec ∈ sections, sec.Shaped earlyReturn ∧
          ∀ label ∈ targets sec.entries, IsLocal label →
            label ∈ definitions sec.entries ∧ (definitions code.text.code).count label = 1 := by
  have foreign : ∀ fn ∈ earlyReturn.functions, ¬ IsLocal fn.linkName := by
    have all : earlyReturn.functions.all (fun fn => !decide (IsLocal fn.linkName)) = true := by
      decide +kernel
    intro fn member
    simpa using Array.all_eq_true_iff_forall_mem.mp all fn member
  have dispatched : ∀ block, earlyReturn.Contains block → block.Dispatched :=
    fun block contains => absurd contains earlyReturn_contains
  have succeeds : (generate .default earlyReturn).program?.any (fun code =>
      (targets code.text.code).any fun label => IsLocal label) = true := by
    decide +kernel
  obtain ⟨code, run, aimed⟩ := (Option.any_eq_true _ _).mp succeeds
  obtain ⟨label, member, isLocal⟩ := List.any_eq_true.mp aimed
  have only : definedAmong earlyReturn (List.range earlyReturn.functions.size) = [0] := by
    decide +kernel
  refine ⟨foreign, dispatched, code, run, ⟨label, member, of_decide_eq_true isLocal⟩, ?_⟩
  rw [← only]
  exact generate_closes_labels foreign dispatched run

end Program

end Lower

end X64Backend
