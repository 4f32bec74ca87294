import X64Backend.Lower.Arith
import X64Backend.Proofs.Lower.Sections
import X64Backend.Proofs.Machine.Spots
import X64Backend.Proofs.Numeral.Digits

/-!
Comparisons that are branched on, stored or negated directly.  The code that keeps the byte of the
comparison and looks at it comes to the same branch, the same stored byte and the same truth value,
whenever the operand looked at is exactly the byte that the comparison has written.  A wider operand
at the same location need not agree: its other bits are left over from before.
-/

namespace X64Backend

namespace Machine

/-- A condition or its negation holds. -/
theorem Flags.holds_negate (flags : Flags) (cond : Cond) :
    flags.holds cond.negate = !flags.holds cond := by
  cases cond <;> simp [Cond.negate, holds, Bool.not_and, Bool.not_or, bne]

/-- The byte that stands for a truth value. -/
def truthByte (truth : Bool) : UInt64 := if truth then 1 else 0

theorem truthByte_and_mask (truth : Bool) : truthByte truth &&& mask .s8 = truthByte truth := by
  cases truth <;> rfl

/-- The instruction that sets the flags from a value, as a register or as a memory cell. -/
def probe (operand : Operand) : Instr :=
  match operand with
  | .mem _ => .binary .cmp operand (.lit (.ofInt 0))
  | _ => .binary .test operand operand

variable {scope : Scope} {image : Image} {checked : Bool} {view view' : View} {operand dst : Operand}
  {spot into : Spot} {cond : Cond}

theorem Does.set (checked : Bool) (view : View) (cond : Cond) (found : Finds scope operand spot) :
    Does scope checked (.unary (.set cond) operand) view
      (spot.write view operand.size (truthByte (view.flags.holds cond))) := by
  apply Does.unary
  apply Yields.look
  intro state same
  have flags : state.flags = view.flags := by rw [← same]; rfl
  rw [flags]
  exact (Yields.writeSpot found _).bind (.pure _)

/-- A test tells whether a value is zero, and changes the flags only. -/
theorem Does.probe (checked : Bool) (view : View) (found : Finds scope operand spot)
    (sized : operand.size ≠ .unsized) :
    ∃ flags : Flags, flags.zero = decide (spot.read view operand.size &&& mask operand.size = 0) ∧
      Does scope checked (Machine.probe operand) view { view with flags } := by
  cases found with
  | @register register phys place low =>
    have read : Yields (scope.read (.reg register) register.size) view _ view :=
      Yields.readReg place low register.size
    refine ⟨.ofLogic (readPart (view.get phys) register.size &&&
      readPart (view.get phys) register.size) register.size, ?_, ?_⟩
    · rw [UInt64.and_self]
      rfl
    · apply Does.binary
      unfold Machine.binary
      dsimp only
      rw [if_neg sized, if_neg (by simp [Operand.isMem])]
      refine read.bind ?_
      rw [if_neg (by decide)]
      refine read.bind ?_
      rw [if_neg (by decide)]
      apply Yields.look
      intro state same
      exact (Yields.setFlags _).bind (.pure ())
  | @cell pointer base place low =>
    have read : Yields (scope.read (.mem pointer) (Operand.mem pointer).size) view _ view :=
      Yields.readSpot (.cell place low) (Operand.mem pointer).size
    have zero : Yields (scope.read (.lit (.ofInt 0)) (Operand.mem pointer).size) view
        (0 &&& mask (Operand.mem pointer).size) view :=
      Yields.readLit rfl (Literal.bits_ofInt (by decide) (by decide)) _
    rw [UInt64.zero_and] at zero
    let word := view.memory.load (Spot.address view base pointer.disp) pointer.size.bytes
    refine ⟨.ofSub word 0 (word - 0) pointer.size, ?_, ?_⟩
    · rw [UInt64.sub_zero]
      rfl
    · have extended : ∀ wide : Bool, (if wide = true then signExtend 0 .s32 else 0) = 0 := by decide
      apply Does.binary
      unfold Machine.binary
      dsimp only
      rw [if_neg sized, if_neg (by simp [Operand.isMem])]
      refine zero.bind ?_
      rw [if_neg (by decide), extended]
      refine read.bind ?_
      rw [if_neg (by decide)]
      apply Yields.look
      intro state same
      exact (Yields.setFlags _).bind (.pure ())

theorem Yields.label {label : String} {index : Nat}
    (known : scope.image.labels[label]? = some index) :
    Yields (scope.target (.lit (.proc label))) view (index, label) view := by
  have leads : scope.target (.lit (.proc label)) = Pure.pure (index, label) := by
    have text : (Literal.proc label).text = label := rfl
    simp only [Scope.target, show (Literal.proc label).isLabel = true from rfl, if_true, text, known]
  rw [leads]
  exact .pure _

/-- A conditional jump leads to its label if the condition holds, and on otherwise. -/
theorem Runs.jump {index target : Nat} {entry : Entry} {label : String}
    (found : image.code[index]? = some entry) (jump : entry.instr = .branch (.jump cond) label)
    (known : image.labels[label]? = some target) :
    Runs image checked index view (if view.flags.holds cond then target else index + 1) view := by
  have does : Yields (execute ⟨image, entry.tick⟩ checked entry.instr) view
      (if view.flags.holds cond then .index target else .following) view := by
    have led : Yields (unary ⟨image, entry.tick⟩ checked (.jump cond) (.lit (.proc label))) view
        (if view.flags.holds cond then some target else none) view := by
      apply Yields.look
      intro state same
      have flags : state.flags = view.flags := by rw [← same]; rfl
      rw [flags]
      by_cases holds : view.flags.holds cond = true
      · rw [if_pos holds, if_pos holds]
        exact (Yields.label known).bind (.pure _)
      · rw [if_neg holds, if_neg holds]
        exact .pure none
    rw [jump]
    refine led.bind ?_
    by_cases holds : view.flags.holds cond = true
    · rw [if_pos holds, if_pos holds]
      exact .pure _
    · rw [if_neg holds, if_neg holds]
      exact .pure _
  intro state start
  obtain ⟨after, ran, seen, quiet, onward, led⟩ := cycle_at start found does
  refine ⟨1, after, ?_, ?_, seen, quiet⟩
  · rw [cycles, Success.bind_of_ok ran]
    by_cases holds : view.flags.holds cond = true <;> simp [holds] <;> rfl
  · by_cases holds : view.flags.holds cond = true
    · rw [if_pos holds] at led ⊢
      exact led target rfl
    · rw [if_neg holds] at onward ⊢
      exact onward rfl

/-- Wherever it stands, code goes to a target if it is to be taken, and falls through otherwise. -/
def Forks (image : Image) (checked : Bool) (entries : List Entry) (target : Nat) (taken : Bool)
    (view view' : View) : Prop :=
  ∀ index, image.Holds index entries →
    Runs image checked index view (if taken then target else index + entries.length) view'

/-- Straight code in front of a conditional jump. -/
theorem Straight.forks {front : List Entry} {tick target : Nat} {label : String}
    (straight : Straight image checked front view view')
    (known : image.labels[label]? = some target) :
    Forks image checked (front ++ [⟨tick, .branch (.jump cond) label⟩]) target
      (view'.flags.holds cond) view view' := by
  intro index holds
  have jump : Runs image checked (index + front.length) view' _ view' :=
    Runs.jump holds.right.first rfl known
  rw [List.length_append, List.length_singleton, ← Nat.add_assoc]
  exact (Runs.of_straight holds.left straight).trans jump

/-- The machine before and behind code that changes at most one register. -/
structure View.AgreesBut (view view' : View) (phys : Phys) : Prop where
  registers : ∀ other, other ≠ phys → view'.get other = view.get other
  memory : view'.memory = view.memory
  flags : view'.flags = view.flags
  heap : view'.heap = view.heap
  frames : view'.frames = view.frames

/-- A write to a spot does not depend on a register that the spot does not use. -/
theorem Spot.write_set {phys : Phys} (apart : into.phys ≠ phys) (first second : UInt64) (size : Size) :
    (into.write view size second).AgreesBut (into.write (view.set phys first) size second) phys := by
  cases into with
  | register other =>
    have kept : (view.set phys first).get other = view.get other :=
      (View.get_set view phys other first).trans (if_neg apart)
    refine ⟨fun third different => ?_, rfl, rfl, rfl, rfl⟩
    rw [write, write, kept, View.get_set, View.get_set, View.get_set, if_neg different]
  | cell base disp =>
    have kept : (view.set phys first).get base = view.get base :=
      (View.get_set view phys base first).trans (if_neg apart)
    refine ⟨fun third different => ?_, ?_, rfl, rfl, rfl⟩
    · exact (View.get_set view phys third first).trans (if_neg different)
    · simp only [write, address, kept]
      rfl

/-- Looking at the byte that a comparison has written tells the outcome. -/
theorem Straight.setAndProbe (checked : Bool) (view : View) (cond : Cond) {first second : Nat}
    {stored : Operand}
    (wrote : Finds ⟨image, first⟩ stored spot) (looks : Finds ⟨image, second⟩ operand spot)
    (byte : stored.size = .s8) (same : operand.size = .s8) :
    ∃ flags : Flags, flags.zero = !view.flags.holds cond ∧
      Straight image checked [⟨first, .unary (.set cond) stored⟩, ⟨second, probe operand⟩] view
        { spot.write view .s8 (truthByte (view.flags.holds cond)) with flags } := by
  have set := Does.set checked view cond wrote
  rw [byte] at set
  obtain ⟨flags, zero, probed⟩ := Does.probe checked
    (spot.write view .s8 (truthByte (view.flags.holds cond))) looks (by simp [same])
  refine ⟨flags, ?_, _, set, _, probed, rfl⟩
  rw [zero, same, Spot.read_write (by decide) (by decide), UInt64.and_assoc, UInt64.and_self,
    truthByte_and_mask]
  cases view.flags.holds cond <;> rfl

/-- A wider operand at the same location holds bits that the comparison has left alone.  If one of
them is set, the value is true even where the comparison is false. -/
theorem Straight.wideProbe {first second : Nat} {stored : Operand} {phys : Phys}
    (wrote : Finds ⟨image, first⟩ stored (.register phys))
    (looks : Finds ⟨image, second⟩ operand (.register phys))
    (byte : stored.size = .s8) (wide : operand.size = .s64)
    (rest : view.get phys &&& ~~~ mask .s8 ≠ 0) (fails : view.flags.holds cond = false) :
    ∃ view', view'.flags.holds .ne = true ∧
      Straight image checked [⟨first, .unary (.set cond) stored⟩, ⟨second, probe operand⟩] view
        view' := by
  have set := Does.set checked view cond wrote
  rw [byte, fails] at set
  obtain ⟨flags, zero, probed⟩ := Does.probe checked
    (Spot.write view .s8 (truthByte false) (.register phys)) looks (by simp [wide])
  refine ⟨_, ?_, _, set, _, probed, rfl⟩
  have word : Spot.read (Spot.write view .s8 (truthByte false) (.register phys)) .s64
      (.register phys) = view.get phys &&& ~~~ mask .s8 := by
    rw [Spot.read, Spot.write, View.get_set, if_pos rfl, readPart_word]
    exact UInt64.or_zero
  rw [wide, word, and_mask_word] at zero
  simp [Flags.holds, zero, rest]

end Machine

namespace Lower

open Machine

variable {s s' : State} {u : Unit} {operand stored dst : Operand} {cond : Cond} {label : String}
  {wanted : Bool} {older : List Entry} {tick : Nat}

theorem text_release (run : release operand s = .ok u s') : s'.draft.text = s.draft.text := by
  simp only [release, Success.bind_ok, Success.pure_ok] at run
  obtain ⟨freed, s₁, ran, _, rfl⟩ := run
  obtain ⟨draft, freeing, rfl⟩ := drafting_ok.mp ran
  rcases Drafting.free_ok freeing with rfl | ⟨slot, _, _, rfl⟩ <;> rfl

theorem text_log {message : String} (run : log message s = .ok u s') :
    s'.draft.text = s.draft.text := by
  obtain ⟨draft, logged, rfl⟩ := drafting_ok.mp run
  rw [← Success.modify_ok.mp logged]

/-- The newest instruction stores the truth of a comparison in the byte that an operand names. -/
structure JustSet (s : State) (older : List Entry) (tick : Nat) (cond : Cond)
    (stored operand : Operand) : Prop where
  code : s.draft.text.code = older ++ [⟨tick, .unary (.set cond) stored⟩]
  same : stored.sameLocation operand = true
  stored : stored.size = .s8
  operand : operand.size = .s8

namespace JustSet

variable (set : JustSet s older tick cond stored operand)
include set

theorem lastSet_eq : lastSet? operand s = .ok (some cond) s := by
  have last : s.draft.text.last? = some (.unary (.set cond) stored) := by
    rw [Stream.last?_eq, set.code, List.getLast?_concat]
    rfl
  change EStateM.Result.ok (storedCond? (s.draft.text.last?.getD .absent) operand) s = _
  rw [last, Option.getD_some, storedCond?, if_pos set.same]

theorem code_replaced (instr : Instr) :
    (s.draft.text.replaceLast instr).code = older ++ [⟨tick, instr⟩] :=
  Stream.code_replaceLast instr set.code

end JustSet

/-- The condition to jump on when a comparison is to have an outcome. -/
def wantedCond (cond : Cond) (wanted : Bool) : Cond :=
  if wanted then cond else cond.negate

/-- A comparison is branched on directly. -/
theorem testAndBranch_code (set : JustSet s older tick cond stored operand)
    (run : testAndBranch operand label wanted s = .ok u s') :
    s'.draft.text.code = older ++
      (if isTemp s.draft operand then [] else [⟨tick, .unary (.set cond) stored⟩]) ++
      [⟨if isTemp s.draft operand then tick else s.draft.text.clock,
        .branch (.jump (wantedCond cond wanted)) label⟩] := by
  cases operand with
  | absent | lit => exact absurd set.operand nofun
  | reg | mem =>
    simp only [testAndBranch, Success.bind_of_ok set.lastSet_eq] at run
    have looked : ∀ operand, temp operand s = .ok (isTemp s.draft operand) s := fun _ => rfl
    rw [Success.bind_of_ok (looked _), Success.ite_apply] at run
    split at run
    · rename_i temporary
      obtain ⟨_, s₁, replaced, run⟩ := Success.bind_ok.mp run
      obtain ⟨_, s₂, logged, released⟩ := Success.bind_ok.mp run
      obtain rfl := Success.modify_ok.mp replaced
      rw [text_release released, text_log logged, if_pos temporary, if_pos temporary,
        List.append_nil]
      exact set.code_replaced _
    · rename_i settled
      obtain ⟨_, s₁, emitted, released⟩ := Success.bind_ok.mp run
      obtain rfl := Success.modify_ok.mp emitted
      rw [text_release released, if_neg settled, if_neg settled, ← set.code]
      exact Stream.code_emit _ _

theorem test_eq (sized : operand.size ≠ .unsized) : test operand = emit [probe operand] := by
  cases operand with
  | absent | lit => exact absurd rfl sized
  | reg | mem => rfl

/-- A value that no comparison has just made is tested. -/
theorem testAndBranch_plain_code (sized : operand.size ≠ .unsized)
    (plain : storedCond? (s.draft.text.last?.getD .absent) operand = none)
    (run : testAndBranch operand label wanted s = .ok u s') :
    s'.draft.text.code = s.draft.text.code ++ [⟨s.draft.text.clock, probe operand⟩,
      ⟨s.draft.text.clock + 1, .branch (.jump (if wanted then .ne else .e)) label⟩] := by
  have looked : lastSet? operand s = .ok none s := congrArg (EStateM.Result.ok · s) plain
  cases operand with
  | absent | lit => exact absurd rfl sized
  | reg | mem =>
    simp only [testAndBranch, Success.bind_of_ok looked, test_eq sized] at run
    obtain ⟨_, s₁, probed, run⟩ := Success.bind_ok.mp run
    obtain ⟨_, s₂, released, jumped⟩ := Success.bind_ok.mp run
    obtain rfl := Success.modify_ok.mp probed
    obtain rfl := Success.modify_ok.mp jumped
    change (s₂.draft.text.emit _).code = _
    rw [text_release released]
    change ((s.draft.text.emit _).emit _).code = _
    rw [Stream.code_emit, Stream.code_emit, List.append_assoc]
    rfl

/-- A truth value is stored by pointing its comparison at the destination. -/
theorem fuseStore_code (set : JustSet s older tick cond stored operand)
    (run : fuseStore dst operand s = .ok true s') :
    isTemp s.draft operand = true ∧ dst.size.bytes = 1 ∧
      s'.draft.text.code = older ++ [⟨tick, .unary (.set cond) dst⟩] := by
  have looked : temp operand s = .ok (isTemp s.draft operand) s := rfl
  unfold fuseStore at run
  rw [Success.bind_of_ok looked, Success.ite_apply] at run
  split at run
  · rename_i fusible
    simp only [Bool.and_eq_true, decide_eq_true_eq] at fusible
    rw [Success.bind_of_ok set.lastSet_eq] at run
    obtain ⟨_, s₁, replaced, run⟩ := Success.bind_ok.mp run
    obtain rfl := Success.modify_ok.mp replaced
    obtain ⟨_, s₂, released, run⟩ := Success.bind_ok.mp run
    obtain ⟨_, s₃, logged, run⟩ := Success.bind_ok.mp run
    obtain ⟨_, rfl⟩ := Success.pure_ok.mp run
    refine ⟨fusible.2, fusible.1, ?_⟩
    rw [text_log logged, text_release released]
    exact set.code_replaced _
  · obtain ⟨impossible, _⟩ := Success.pure_ok.mp run
    contradiction

/-- A truth value is negated by negating the condition of its comparison. -/
theorem negate_code {result : Operand} (set : JustSet s older tick cond stored operand)
    (temporary : isTemp s.draft operand = true) (run : negate operand s = .ok result s') :
    result = operand ∧
      s'.draft.text.code = older ++ [⟨tick, .unary (.set cond.negate) operand⟩] := by
  have looked : temp operand s = .ok (isTemp s.draft operand) s := rfl
  unfold negate at run
  rw [Success.bind_of_ok set.lastSet_eq, Success.bind_of_ok looked, temporary] at run
  obtain ⟨_, s₁, replaced, run⟩ := Success.bind_ok.mp run
  obtain rfl := Success.modify_ok.mp replaced
  obtain ⟨rfl, rfl⟩ := Success.pure_ok.mp run
  exact ⟨rfl, set.code_replaced _⟩

/-- The flags that a test has left lead the same way as those of the comparison. -/
theorem holds_wanted {flags tested : Flags} (zero : tested.zero = !flags.holds cond) :
    tested.holds (if wanted then .ne else .e) = (flags.holds cond == wanted) ∧
      flags.holds (wantedCond cond wanted) = (flags.holds cond == wanted) := by
  unfold wantedCond
  cases wanted with
  | true => exact ⟨by simp [Flags.holds, zero], by simp⟩
  | false =>
    rw [if_neg (by decide), if_neg (by decide), Flags.holds_negate]
    exact ⟨by simp [Flags.holds, zero], by simp⟩

/-- Branching directly on a comparison leads where a test of its byte leads. -/
theorem testAndBranch_agrees (set : JustSet s older tick cond stored operand)
    (run : testAndBranch operand label wanted s = .ok u s') :
    ∃ fused, s'.draft.text.code = older ++ fused ∧
      ∀ {image : Image} {target first second third : Nat} {spot : Spot} (checked : Bool)
        (view : View), image.labels[label]? = some target →
        Finds ⟨image, tick⟩ stored spot → Finds ⟨image, first⟩ stored spot →
        Finds ⟨image, second⟩ operand spot →
        ∃ flags, Forks image checked fused target (view.flags.holds cond == wanted) view
            (if isTemp s.draft operand then view
              else spot.write view .s8 (truthByte (view.flags.holds cond))) ∧
          Forks image checked [⟨first, .unary (.set cond) stored⟩, ⟨second, probe operand⟩,
              ⟨third, .branch (.jump (if wanted then .ne else .e)) label⟩] target
            (view.flags.holds cond == wanted) view
            { spot.write view .s8 (truthByte (view.flags.holds cond)) with flags } := by
  refine ⟨_, (testAndBranch_code set run).trans (List.append_assoc _ _ _), ?_⟩
  intro image target first second third spot checked view known here there looks
  obtain ⟨flags, zero, straight⟩ := Straight.setAndProbe checked view cond
    there looks set.stored set.operand
  obtain ⟨tested, direct⟩ := @holds_wanted cond wanted _ _ zero
  refine ⟨flags, ?_, ?_⟩
  · rw [← direct]
    by_cases temporary : isTemp s.draft operand = true
    · rw [if_pos temporary, if_pos temporary, if_pos temporary]
      exact @Straight.forks image checked view view _ [] _ _ _ rfl known
    · rw [if_neg temporary, if_neg temporary, if_neg temporary]
      have wrote := Does.set checked view cond here
      rw [set.stored] at wrote
      have straight : Straight image checked [⟨tick, .unary (.set cond) stored⟩] view _ :=
        ⟨_, wrote, rfl⟩
      have forks : Forks image checked ([⟨tick, .unary (.set cond) stored⟩] ++
          [⟨s.draft.text.clock, .branch (.jump (wantedCond cond wanted)) label⟩]) target _ view _ :=
        straight.forks known
      rwa [Spot.flags_write] at forks
  · rw [← tested]
    exact straight.forks known

/-- Pointing a comparison at a destination stores the byte that a copy of its value stores.  Only the
register of the value differs. -/
theorem fuseStore_agrees (set : JustSet s older tick cond stored operand)
    (run : fuseStore dst operand s = .ok true s') :
    ∃ fused, s'.draft.text.code = older ++ [fused] ∧
      ∀ {image : Image} {first second : Nat} {phys : Phys} {into : Spot} (checked : Bool)
        (view : View), dst.size = .s8 → into.phys ≠ phys →
        Finds ⟨image, tick⟩ dst into → Finds ⟨image, second⟩ dst into →
        Finds ⟨image, first⟩ stored (.register phys) →
        Finds ⟨image, second⟩ operand (.register phys) →
        ∃ direct detour, Straight image checked [fused] view direct ∧
          Straight image checked [⟨first, .unary (.set cond) stored⟩,
            ⟨second, .binary .mov dst operand⟩] view detour ∧
          into.read direct .s8 = truthByte (view.flags.holds cond) ∧
          direct.AgreesBut detour phys := by
  obtain ⟨temporary, _, code⟩ := fuseStore_code set run
  refine ⟨_, code, ?_⟩
  intro image first second phys into checked view byte apart here there wrote looks
  have stores := Does.set checked view cond here
  have sets := Does.set checked view cond wrote
  rw [byte] at stores
  rw [set.stored] at sets
  let bit := truthByte (view.flags.holds cond)
  have proper : dst.size ≠ .unsized := by simp [byte]
  have direct : (dst.isMem && operand.isMem) = false := by
    cases looks
    exact Bool.and_false _
  have copies : Does ⟨image, second⟩ checked (.binary .mov dst operand)
      (view.set phys (writePart (view.get phys) .s8 bit)) _ :=
    Does.movSpot there looks proper direct
  have carried : (Spot.register phys).read (view.set phys (writePart (view.get phys) .s8 bit))
      operand.size = bit := by
    rw [set.operand]
    exact (@Spot.read_write _ (.register phys) _ _ (by decide) (by decide)).trans
      (truthByte_and_mask _)
  rw [carried, byte] at copies
  refine ⟨_, _, ⟨_, stores, rfl⟩, ⟨_, sets, _, copies, rfl⟩, ?_, ?_⟩
  · exact (Spot.read_write (by decide) (by decide)).trans (truthByte_and_mask _)
  · exact Spot.write_set apart _ _ _

/-- Negating a comparison leaves the byte that testing and negating its value leaves. -/
theorem negate_agrees {result : Operand} (set : JustSet s older tick cond stored operand)
    (temporary : isTemp s.draft operand = true) (run : negate operand s = .ok result s') :
    result = operand ∧ ∃ fused, s'.draft.text.code = older ++ [fused] ∧
      ∀ {image : Image} {first second third : Nat} {spot into : Spot} (checked : Bool)
        (view : View), dst.size = .s8 →
        Finds ⟨image, tick⟩ operand spot → Finds ⟨image, first⟩ stored spot →
        Finds ⟨image, second⟩ operand spot → Finds ⟨image, third⟩ dst into →
        ∃ direct detour, Straight image checked [fused] view direct ∧
          Straight image checked [⟨first, .unary (.set cond) stored⟩, ⟨second, probe operand⟩,
            ⟨third, .unary (.set .e) dst⟩] view detour ∧
          spot.read direct .s8 = truthByte (!view.flags.holds cond) ∧
          into.read detour .s8 = truthByte (!view.flags.holds cond) := by
  obtain ⟨same, code⟩ := negate_code set temporary run
  refine ⟨same, _, code, ?_⟩
  intro image first second third spot into checked view byte here wrote looks there
  have negates := Does.set checked view cond.negate here
  rw [set.operand, Flags.holds_negate] at negates
  obtain ⟨flags, zero, straight⟩ := Straight.setAndProbe checked view cond
    wrote looks set.stored set.operand
  have sets := Does.set checked
    { spot.write view .s8 (truthByte (view.flags.holds cond)) with flags } .e there
  have opposite : flags.holds .e = !view.flags.holds cond := zero
  rw [byte, opposite] at sets
  refine ⟨_, _, ⟨_, negates, rfl⟩, straight.append ⟨_, sets, rfl⟩, ?_, ?_⟩
  · exact (Spot.read_write (by decide) (by decide)).trans (truthByte_and_mask _)
  · exact (Spot.read_write (by decide) (by decide)).trans (truthByte_and_mask _)

end Lower

end X64Backend
