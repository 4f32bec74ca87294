import X64Backend.Proofs.Lower.Procedures

/-!
The bookkeeping of the stack is always balanced: between calls the depth is the even number of words
that the epilogue reclaims, and while a call is being made the words pushed for it come on top.  So
none of the checks on the depth can fail.
-/

namespace X64Backend

/-- A number of words is the eighth part of its bytes, if these fit a machine word. -/
theorem StackDepth.bytes_div {words : Nat} (fits : words < 2 ^ 60) :
    (8 * Int64.ofNat words) / 8 = Int64.ofNat words := by
  have bytes : 8 * Int64.ofNat words = Int64.ofNat (8 * words) := (Int64.ofNat_mul 8 words).symm
  have divided := Int64.ofNat_div (a := 8 * words) (b := 8) (by omega) (by omega)
  rw [Nat.mul_div_cancel_left words (by omega)] at divided
  rw [bytes, divided]
  rfl

/-- A machine word keeps whether a number is even. -/
theorem StackDepth.even_mod {words : Nat} (even : Even words) : Int64.ofNat words % 2 = 0 := by
  apply Int64.toInt_inj.mp
  have dvd : (2 : Int) ∣ (Int64.ofNat words).toInt := by
    obtain ⟨half, rfl⟩ := even
    have wraps : (Int64.ofNat (half + half)).toInt = ((half + half : Nat) : Int).bmod (2 ^ 64) :=
      Int64.toInt_ofNat'
    rw [wraps, Int.bmod_def]
    split
    · omega
    · omega
  rw [Int64.toInt_mod]
  exact Int.tmod_eq_zero_of_dvd dvd

/-- A call succeeds if the number of words is even. -/
theorem StackDepth.call_ok {target : String} {depth : StackDepth} (aligned : depth.words % 2 = 0) :
    call target depth = record ("call " ++ target) depth := by
  have got : (get : Tracking StackDepth) depth = .ok depth depth := rfl
  rw [call, Success.bind_of_ok got]
  exact Success.ite_apply.trans (if_neg (not_not.mpr aligned))

/-- The stack pointer is raised if enough words are on the stack. -/
theorem StackDepth.add_ok {amount : Int64} {depth : StackDepth}
    (enough : ¬ depth.words < amount / 8) :
    add amount depth = record ("add rsp, " ++ toString amount)
      { depth with words := depth.words + -(amount / 8) } := by
  have got : (get : Tracking StackDepth) depth = .ok depth depth := rfl
  rw [add, Success.bind_of_ok got]
  exact Success.ite_apply.trans (if_neg enough)

namespace Draft

/-- The clock of the code never goes back. -/
theorem Step.clock_le {draft draft' : Draft} (step : Step draft draft') :
    draft.text.clock ≤ draft'.text.clock := by
  cases step with
  | shift => exact Nat.le_succ _
  | _ => exact Nat.le_refl _

end Draft

/-- Every function has fewer parameters than an address space has words. -/
def Tree.TypedProgram.Addressable (program : Tree.TypedProgram) : Prop :=
  ∀ id, (program.function id).args.length < 2 ^ 60

namespace Lower

open X64Backend.Tree

variable {program : TypedProgram} {since : Handle} {c c' : Config}

theorem clock_closedText (text : Stream) (label : String) (jumps : Nat) :
    text.clock ≤ (closedText text label jumps).clock := by
  unfold closedText
  dsimp only
  split
  · split
    · exact Nat.le_succ _
    · exact Nat.le_refl _
  · split
    · exact Nat.le_succ _
    · exact Nat.le_refl _

theorem Move.clock_le (move : Move program since c c') :
    c.state.draft.text.clock ≤ c'.state.draft.text.clock := by
  cases move with
  | draft step => exact step.clock_le
  | note noted => exact Nat.le_of_eq (congrArg Stream.clock noted.text.symm)
  | close => exact clock_closedText _ _ _
  | emit => exact Nat.le_succ _
  | transfer => exact Nat.le_succ _
  | jump => exact Nat.le_succ _
  | define => exact Nat.le_succ _
  | leave => exact Nat.le_succ _
  | jumpOut => exact Nat.le_succ _
  | push => exact Nat.le_succ _
  | _ => exact Nat.le_refl _

/-- The words on the stack are those left for the epilogue, an even number, and those of the call
that is being made.  The first call of a procedure leaves none. -/
structure Balanced (c : Config) (left : Nat) (frame : Frame) : Prop where
  found : c.state.frame = some frame
  even : Even left
  depth : c.state.depth.words = .ofNat (left + c.words)
  leaked : frame.leaked = 8 * .ofNat left
  first : frame.leaf = true → left = 0
  written : left + c.words ≤ c.state.draft.text.clock

namespace Balanced

variable {left : Nat} {frame : Frame}

/-- A change that has nothing to do with the stack. -/
theorem later {frame' : Frame} (balanced : Balanced c left frame)
    (found : c'.state.frame = some frame') (leaked : frame'.leaked = frame.leaked)
    (leaf : frame'.leaf = true → frame.leaf = true) (words : c'.words = c.words)
    (depth : c'.state.depth.words = c.state.depth.words)
    (clock : c.state.draft.text.clock ≤ c'.state.draft.text.clock) :
    Balanced c' left frame' := by
  refine ⟨found, balanced.even, ?_, leaked.trans balanced.leaked,
    fun first => balanced.first (leaf first), ?_⟩
  · rw [depth, words]
    exact balanced.depth
  · rw [words]
    exact Nat.le_trans balanced.written clock

theorem kept (balanced : Balanced c left frame) (found : c'.state.frame = c.state.frame)
    (words : c'.words = c.words) (depth : c'.state.depth.words = c.state.depth.words)
    (clock : c.state.draft.text.clock ≤ c'.state.draft.text.clock) : Balanced c' left frame :=
  balanced.later (found.trans balanced.found) rfl id words depth clock

end Balanced

/-- The words of a call fit a machine word. -/
theorem Config.Measured.fits (measured : c.Measured program) (addressable : program.Addressable) :
    c.words < 2 ^ 60 := by
  obtain ⟨callee, fewer⟩ := measured
  exact Nat.lt_of_le_of_lt fewer (addressable callee)

theorem Move.balanced (addressable : program.Addressable) (move : Move program since c c')
    {left : Nat} {frame : Frame} (balanced : Balanced c left frame) :
    ∃ left' frame', Balanced c' left' frame' := by
  have clock := move.clock_le
  have mapped : ∀ change : Frame → Frame, c.state.frame.map change = some (change frame) := by
    intro change
    rw [balanced.found]
    rfl
  cases move with
  | note noted => exact ⟨left, frame, balanced.kept noted.frame rfl noted.depth clock⟩
  | grow extent => exact ⟨left, _, balanced.later (mapped _) rfl id rfl rfl clock⟩
  | leave found =>
      rw [balanced.found] at found
      cases found
      exact ⟨left, _, balanced.later rfl rfl id rfl rfl clock⟩
  | called none => exact ⟨left, _, balanced.later (mapped _) rfl nofun rfl rfl clock⟩
  | push _ _ _ counted =>
      refine ⟨left, frame, balanced.found, balanced.even, ?_, balanced.leaked, balanced.first, ?_⟩
      · rw [counted, balanced.depth]
        exact (Int64.ofNat_add (left + c.words) 1).symm
      · exact Nat.succ_le_succ balanced.written
  | reclaim measured leaf taken =>
      have none := balanced.first (leaf frame balanced.found)
      subst none
      refine ⟨0, _, mapped _, balanced.even, ?_, balanced.leaked, nofun, Nat.zero_le _⟩
      rw [taken, balanced.depth, StackDepth.bytes_div (measured.fits addressable), Nat.zero_add]
      exact Int64.add_right_neg _
  | leak even leaf =>
      refine ⟨left + c.words, _, mapped _, balanced.even.add even, ?_, ?_, nofun, ?_⟩
      · exact balanced.depth
      · change frame.leaked + 8 * Int64.ofNat c.words = 8 * Int64.ofNat (left + c.words)
        rw [balanced.leaked, Int64.ofNat_add, Int64.mul_add]
      · exact balanced.written
  | _ => exact ⟨left, frame, balanced.kept rfl rfl rfl clock⟩

theorem Moves.balanced (addressable : program.Addressable) (moves : Moves program since c c')
    {left : Nat} {frame : Frame} (balanced : Balanced c left frame) :
    ∃ left' frame', Balanced c' left' frame' := by
  induction moves with
  | refl => exact ⟨left, frame, balanced⟩
  | tail _ last inductionHypothesis =>
      obtain ⟨left₁, frame₁, balanced₁⟩ := inductionHypothesis
      exact last.balanced addressable balanced₁

/-- Where the body of a procedure begins the stack is empty. -/
theorem balanced_begun (s : State) (id : FnId) (fn : Function) :
    ∃ frame, Balanced (.begun s id fn) 0 frame :=
  ⟨_, rfl, .zero, rfl, rfl, fun _ => rfl, Nat.zero_le _⟩

/-- None of the checks on the depth of the stack fails. -/
theorem Fails.isStack_eq_false {fault : Fault} {left : Nat} {frame : Frame}
    (addressable : program.Addressable) (balanced : Balanced c left frame)
    (fails : Fails program c fault) : fault.isStack = false := by
  cases fails with
  | other other => exact other
  | call even failed =>
      have aligned : c.state.depth.words % 2 = 0 := by
        rw [balanced.depth]
        exact StackDepth.even_mod (balanced.even.add even)
      rw [StackDepth.call_ok aligned] at failed
      cases failed
  | reclaim measured leaf failed =>
      have enough : ¬ c.state.depth.words < 8 * .ofNat c.words / 8 := by
        rw [balanced.depth, balanced.first (leaf frame balanced.found), Nat.zero_add,
          StackDepth.bytes_div (measured.fits addressable)]
        exact Int64.lt_irrefl
      rw [StackDepth.add_ok enough] at failed
      cases failed

/-- Between calls the stack holds what the epilogue reclaims. -/
theorem Balanced.bytes {left : Nat} {frame : Frame} (balanced : Balanced c left frame)
    (idle : c.words = 0) : c.state.depth.bytes = frame.leaked := by
  rw [StackDepth.bytes, balanced.depth, idle, balanced.leaked, Nat.add_zero, Int64.mul_comm]

section Program

variable {options : Options} {depth : Nat}

theorem calm_procedure (addressable : program.Addressable) {id : FnId} {body : List Stmt}
    (found : (program.function id).body = some body) :
    Calm (procedure (envAt program options depth) id body) := by
  intro s fault s' run
  obtain ⟨frame, begun⟩ := balanced_begun s id (program.function id)
  rcases procedure_error found run with ⟨c, moves, fails⟩ | ⟨c, frame', written, same, left⟩
  · obtain ⟨left, frame', balanced⟩ := moves.balanced addressable begun
    exact fails.isStack_eq_false addressable balanced
  · obtain ⟨_, _, balanced⟩ := written.moves.balanced addressable begun
    rw [balanced.found] at same
    cases same
    exact absurd (balanced.bytes written.words) left

theorem Calm.forM {α σ : Type} {items : List α} {action : α → EStateM Fault σ Unit}
    (each : ∀ item ∈ items, Calm (action item)) : Calm (items.forM action) := by
  induction items with
  | nil => exact Calm.pure ()
  | cons item rest inductionHypothesis =>
      refine (each item (by simp)).bind fun _ => ?_
      exact inductionHypothesis fun other member => each other (by simp [member])

theorem calm_report (problem : Problem) : Calm (report problem) := by
  intro s fault s' run
  cases run

theorem calm_entryPoint (env : Env) : Calm (entryPoint env) := by
  refine (Calm.modify _).bind fun _ => ?_
  split
  · exact Calm.modify _
  · exact calm_report _

/-- The generation of a program never faults for the bookkeeping of the stack. -/
theorem calm_wholeProgram (addressable : program.Addressable) (options : Options) :
    Calm (wholeProgram (.of program options)) := by
  refine (Calm.modify _).bind fun _ => (calm_entryPoint _).bind fun _ => ?_
  refine Calm.bind (Calm.forM fun id _ => ?_) fun _ => Calm.modify _
  unfold functionCode
  split
  · rename_i body found
    exact calm_procedure addressable found
  · exact Calm.pure ()

end Program

end Lower

end X64Backend
