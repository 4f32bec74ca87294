import X64Backend.Proofs.Lower.Arguments

/-!
A call from both sides.  The code that the caller emits puts the arguments where the calling
convention says, and the prologue and the stores of the callee take them from there to the cells that
the layout of its frame has given to the parameters.
-/

namespace X64Backend.Lower

open Machine X64Backend.Tree

variable {image : Image} {checked : Bool} {view view' : View} {params : List Variable}
  {words : List UInt64} {fn : Function}

/-- Arguments stay passed while their registers and the words on the stack are left alone. -/
theorem Passed.kept {base : UInt64} (passed : Passed params words base view)
    (registers : ∀ phys ∈ CallingConvention.argumentRegisters, view'.get phys = view.get phys)
    (memory : ∀ index < params.length,
      view'.memory.load (base + 8 * UInt64.ofNat index) 8 =
        view.memory.load (base + 8 * UInt64.ofNat index) 8) :
    Passed params words base view' := by
  constructor
  · intro index v word phys found given among
    rw [registers phys (List.mem_of_getElem? among)]
    exact passed.inRegister found given among
  · intro index v word found given
    have inside := (List.getElem?_eq_some_iff.mp found).1
    rw [memory index (by omega)]
    exact passed.onStack found given

theorem Passed.set {base : UInt64} (passed : Passed params words base view) (phys : Phys)
    (other : phys ∉ CallingConvention.argumentRegisters) (word : UInt64) :
    Passed params words base (view.set phys word) := by
  apply passed.kept
  · intro argument member
    apply (View.get_set view phys argument word).trans
    apply if_neg
    rintro rfl
    exact other member
  · exact fun _ _ => rfl

theorem slotPhys_not_argument (slot : Pool.Slot) :
    Pool.slotPhys slot ∉ CallingConvention.argumentRegisters := by
  revert slot
  decide

/-- Clearing the accumulator writes registers of the pool only. -/
theorem straight_clearing (checked : Bool) {base : UInt64} {clearing : List Entry}
    (moves : ∀ entry ∈ clearing, ∃ handle slot,
      entry.instr = Draft.moveOut handle Pool.accumulator ∧
        image.timeline.placeAt handle entry.tick = some (Pool.slotPhys slot))
    (passed : Passed params words base view) :
    ∃ view', Straight image checked clearing view view' ∧ Passed params words base view' ∧
      view'.get .rsp = view.get .rsp ∧ view'.memory = view.memory := by
  induction clearing generalizing view with
  | nil => exact ⟨view, rfl, passed, rfl, rfl⟩
  | cons entry rest inductionHypothesis =>
    obtain ⟨handle, slot, instr, placed⟩ := moves entry List.mem_cons_self
    have into : Finds ⟨image, entry.tick⟩ (.reg ⟨.slot handle, .s64⟩)
        (.register (Pool.slotPhys slot)) := .register placed (by simp)
    have out : Finds ⟨image, entry.tick⟩ (.reg (.fix (Pool.slotPhys Pool.accumulator) .s64))
        (.register (Pool.slotPhys Pool.accumulator)) := Finds.fixed _ (by simp)
    have does : Does ⟨image, entry.tick⟩ checked (Draft.moveOut handle Pool.accumulator) view _ :=
      Does.movSpot into out (by simp [Operand.size]) rfl
    rw [← instr] at does
    obtain ⟨view', straight, passed', level, memory⟩ := inductionHypothesis
      (fun other member => moves other (List.mem_cons_of_mem _ member))
      (passed.set _ (slotPhys_not_argument slot) _)
    refine ⟨view', ⟨_, does, straight⟩, passed', ?_, memory⟩
    rw [level]
    exact (View.get_set view _ _ _).trans (if_neg (slotPhys_ne_rsp slot).symm)

/-- A push leaves the words above it alone. -/
theorem load_above_push (memory : Memory) (top word : UInt64) {index : Nat} (few : index < 2 ^ 59) :
    (memory.store (top - 8) 8 word).load (top + 8 * UInt64.ofNat index) 8 =
      memory.load (top + 8 * UInt64.ofNat index) 8 := by
  apply Memory.load_congr (Nat.le_refl 8)
  intro address near
  apply Memory.get_store_of_le
  have bound := address.toNat_lt
  have bound' := top.toNat_lt
  simp only [UInt64.toNat_sub, UInt64.toNat_add, UInt64.toNat_mul, UInt64.toNat_ofNat',
    UInt64.reduceToNat] at near ⊢
  omega

theorem get_called {index : Nat} {name : String} (phys : Phys) :
    (view.called index name).get phys =
      if phys = .rsp then view.get .rsp - 8 else view.get phys := by
  generalize returning : codeBase + Literal.wordOfInt (index + 1) = word
  have shape : (view.called index name).get phys = (view.push word).get phys := by
    rw [← returning]
    rfl
  rw [shape]
  exact View.get_push word

theorem memory_called {index : Nat} {name : String} :
    (view.called index name).memory = view.memory.store (view.get .rsp - 8) 8
      (codeBase + Literal.wordOfInt (index + 1)) := by
  rfl

/-- A procedure begins in the code: behind its label stand a prologue and the stores of its arguments,
and then an index follows. -/
structure Opens (image : Image) (fn : Function) (plan : FramePlan) (target behind : Nat) : Prop where
  code : ∃ head body, image.Holds target (head :: body) ∧ head.instr = .label fn.linkName true ∧
    body.map Entry.instr = plan.prologue ++ spillArguments fn ∧ behind = target + 1 + body.length

/-- From a call with passed arguments, the callee comes behind its prologue and stores with every
parameter in its cell. -/
theorem callee_receives {index target behind size : Nat} {redZone : Int} {name : String}
    {entry : Entry} {operand : Operand} {plan : FramePlan}
    (found : image.code[index]? = some entry) (call : entry.instr = .unary .call operand)
    (leads : Machine.Yields (Scope.target ⟨image, entry.tick⟩ operand) view (target, name) view)
    (aligned : view.get .rsp % 16 = 0) (opens : Opens image fn plan target behind)
    (fits : plan.Fits size redZone) (framed : plan.hasFrame = true)
    (arranged : Function.Arranged fn.args) (few : fn.args.length ≤ 2 ^ 27)
    (passed : Passed fn.args words (view.get .rsp) view) :
    ∃ start, Runs image checked index view behind start ∧ Received fn.args words start := by
  obtain ⟨head, body, held, labelled, spelled, rfl⟩ := opens.code
  have called :=
    @Runs.call image checked index view entry target name operand found call leads aligned
  have level : (view.called index name).get .rsp = view.get .rsp - 8 :=
    (get_called .rsp).trans (if_pos rfl)
  have arrived : Passed fn.args words ((view.called index name).get .rsp + 8)
      (view.called index name) := by
    rw [level, UInt64.sub_add_cancel]
    apply passed.kept
    · intro phys member
      have apart : phys ≠ .rsp := by
        rintro rfl
        revert member
        decide
      exact (get_called phys).trans (if_neg apart)
    · intro index' inside
      rw [memory_called]
      exact load_above_push view.memory (view.get .rsp) _ (by omega)
  obtain ⟨start, acts, received⟩ := @acts_receive image checked _ plan size redZone fn words fits
    framed arranged few arrived
  have falls : Does ⟨image, head.tick⟩ checked head.instr (view.called index name)
      (view.called index name) := by
    rw [labelled]
    exact .pure _
  refine ⟨start, ?_, received⟩
  exact (called.trans (Runs.of_does held.first falls)).trans
    (Runs.of_straight held.tail (acts body spelled))

/-- Where a call leads: to the label of the function, or through the method table of the receiver to
its code. -/
inductive Leads (image : Image) (fn : Function) (view : View) (stack : UInt64 → Prop)
    (words : List UInt64) (target : Nat) : Bool → Prop where
  | direct : image.labels[fn.linkName]? = some target → Leads image fn view stack words target false
  | dispatched {receiver : Variable} {object table slot : UInt64} :
      fn.args.head? = some receiver → receiver.operandSize = .s64 → words.head? = some object →
      view.memory.load object 8 = table →
      table + Literal.wordOfInt (Int32.ofInt (8 * (fn.vindex : Int))).toInt = slot →
      view.memory.load slot 8 = codeBase + UInt64.ofNat target → target < 2 ^ 62 →
      (∀ address, Within object 8 address ∨ Within slot 8 address → ¬ stack address) →
      Leads image fn view stack words target true

/-- The address of a label in the code leads to the label. -/
theorem Yields.indirect {scope : Scope} {target tick : Nat} {name : String} {procedure : Bool}
    (found : scope.image.code[target]? = some ⟨tick, .label name procedure⟩)
    (small : target < 2 ^ 62) :
    Machine.Yields (Scope.target.indirect scope (codeBase + UInt64.ofNat target)) view (target, name)
      view := by
  have inside : target < scope.image.code.size := (Array.getElem?_eq_some_iff.mp found).1
  have offset : codeBase + UInt64.ofNat target - codeBase = UInt64.ofNat target := by
    rw [UInt64.add_comm, UInt64.add_sub_cancel]
  have word : (UInt64.ofNat target).toNat = target := by
    rw [UInt64.toNat_ofNat']
    exact Nat.mod_eq_of_lt (by omega)
  have index : Literal.intOfWord (UInt64.ofNat target) = target := by
    change (UInt64.ofNat target).toBitVec.toInt = target
    rw [BitVec.toInt_eq_toNat_of_lt]
    · exact congrArg Nat.cast word
    · change 2 * (UInt64.ofNat target).toNat < 2 ^ 64
      omega
  have above : ¬ codeBase + UInt64.ofNat target < codeBase := by
    rw [UInt64.lt_iff_toNat_lt, UInt64.toNat_add, word]
    change ¬ (0x400000 + target) % 2 ^ 64 < 0x400000
    omega
  unfold Scope.target.indirect
  rw [offset, index]
  dsimp only
  have within : ¬ (codeBase + UInt64.ofNat target < codeBase ∨
      (scope.image.code.size : Int) ≤ target) := by
    rintro (below | beyond)
    · exact above below
    · omega
  rw [if_neg within, if_neg (by omega)]
  simp only [Int.toNat_natCast, found]
  exact .pure _

/-- The view at a call: a virtual one has loaded the address of the method table. -/
def atCall (isVirtual : Bool) (view : View) : View :=
  if isVirtual then view.set .r11 (view.memory.load (view.get .rdi) 8) else view

theorem level_atCall (isVirtual : Bool) : (atCall isVirtual view).get .rsp = view.get .rsp := by
  cases isVirtual with
  | false => rfl
  | true => exact (View.get_set view .r11 .rsp _).trans (if_neg (by decide))

theorem Passed.atCall {base : UInt64} (passed : Passed params words base view) (isVirtual : Bool) :
    Passed params words base (atCall isVirtual view) := by
  cases isVirtual with
  | false => exact passed
  | true => exact passed.set .r11 (by decide) _

/-- The instructions that transfer control come to the call, which is the last of them. -/
theorem transfer_comes (checked : Bool) (view : View) {isVirtual : Bool} {index : Nat}
    {calling : List Entry} (held : image.Holds index calling)
    (calls : calling.map Entry.instr = transfer fn isVirtual) :
    ∃ call entry, Runs image checked index view call (atCall isVirtual view) ∧
      image.code[call]? = some entry ∧ (transfer fn isVirtual).getLast? = some entry.instr := by
  cases isVirtual with
  | false =>
    obtain ⟨entry, none, rfl, branch, empty⟩ := List.map_eq_cons_iff.mp calls
    exact ⟨index, entry, Runs.refl index view, held.first, congrArg some branch.symm⟩
  | true =>
    obtain ⟨fetch, rest, rfl, fetches, calls⟩ := List.map_eq_cons_iff.mp calls
    obtain ⟨entry, none, rfl, branch, empty⟩ := List.map_eq_cons_iff.mp calls
    have out : Finds ⟨image, fetch.tick⟩ (.mem (.ofBase (.fix .rdi .s64) 0 .s64)) (.cell .rdi 0) := by
      apply Finds.cell
      · rfl
      · simp [Pointer.ofBase, Register.resize]
    have does : Does ⟨image, fetch.tick⟩ checked (.binary .mov (.reg (.fix .r11 .s64))
        (.mem (.ofBase (.fix .rdi .s64) 0 .s64))) view
        (view.set .r11 ((Spot.cell .rdi 0).read view .s64)) :=
      Does.movSpot (Finds.fixed .r11 (by decide)) out (by decide) rfl
    have address : Spot.address view .rdi 0 = view.get .rdi := UInt64.add_zero _
    rw [Spot.read, address, ← show fetch.instr = _ from fetches] at does
    exact ⟨index + 1, entry, Runs.of_does held.first does, held.tail.first,
      congrArg some branch.symm⟩

/-- The call leads to the code of the callee. -/
theorem Leads.yields {start : View} {stack : UInt64 → Prop} {isVirtual : Bool}
    {target behind : Nat} {entry : Entry} {plan : FramePlan} {base : UInt64}
    (leads : Leads image fn start stack words target isVirtual)
    (memory : ∀ address, ¬ stack address → view.memory.get address = start.memory.get address)
    (opens : Opens image fn plan target behind) (passed : Passed fn.args words base view)
    (last : (transfer fn isVirtual).getLast? = some entry.instr) :
    ∃ operand, entry.instr = .unary .call operand ∧
      Machine.Yields (Scope.target ⟨image, entry.tick⟩ operand) (atCall isVirtual view)
        (target, fn.linkName) (atCall isVirtual view) := by
  cases leads with
  | direct known => exact ⟨_, (Option.some.inj last).symm, Yields.label known⟩
  | @dispatched receiver object table slot first wide given points selects leads small outside =>
    refine ⟨_, (Option.some.inj last).symm, ?_⟩
    have rdi : view.get .rdi = object := by
      rw [List.head?_eq_getElem?] at first given
      have arrived := passed.inRegister first given (show _ = some Phys.rdi from rfl)
      rwa [wide, and_mask_word] at arrived
    have same : ∀ place, place = object ∨ place = slot →
        view.memory.load place 8 = start.memory.load place 8 := by
      intro place either
      apply Memory.load_congr (Nat.le_refl 8)
      intro address near
      apply memory
      apply outside
      rcases either with rfl | rfl
      · exact .inl near
      · exact .inr near
    have fetched : atCall true view = view.set .r11 table := by
      rw [atCall, if_pos rfl, rdi, same object (.inl rfl), points]
    have into : Finds ⟨image, entry.tick⟩
        (.mem (.ofBase (.fix .r11 .s64) (Int32.ofInt (8 * (fn.vindex : Int))) .s64))
        (.cell .r11 (Int32.ofInt (8 * (fn.vindex : Int)))) := by
      apply Finds.cell
      · rfl
      · simp [Pointer.ofBase, Register.resize]
    have address : Spot.address (view.set .r11 table) .r11
        (Int32.ofInt (8 * (fn.vindex : Int))) = slot := by
      rw [Spot.address, View.get_set, if_pos rfl, selects]
    have selected : (Spot.cell .r11 (Int32.ofInt (8 * (fn.vindex : Int)))).read
        (view.set .r11 table) .s64 = codeBase + UInt64.ofNat target := by
      rw [Spot.read, address]
      exact (same slot (.inr rfl)).trans leads
    obtain ⟨⟨tick, instr⟩, body, inside, labelled, _, _⟩ := opens.code
    obtain rfl : instr = .label fn.linkName true := labelled
    rw [fetched]
    have read := @Yields.readSpot ⟨image, entry.tick⟩ (view.set .r11 table) _ _ into .s64
    exact (selected ▸ read).bind (Yields.indirect inside.first small)

theorem aligned_stackWords {top : UInt64} {count : Nat} (aligned : top % 16 = 0)
    (few : count < 2 ^ 59) : (top - 8 * UInt64.ofNat (stackWords count)) % 16 = 0 := by
  obtain ⟨pairs, even⟩ : ∃ pairs, stackWords count = 2 * pairs :=
    ⟨(count - Function.registerArgs + 1) / 2, by unfold stackWords; omega⟩
  have bound : pairs < 2 ^ 59 := by
    have fewer : stackWords count ≤ count + 1 := by
      unfold stackWords
      omega
    omega
  have bound' := top.toNat_lt
  apply UInt64.toNat_inj.mp
  have aligned' : top.toNat % 16 = 0 := by
    have same := congrArg UInt64.toNat aligned
    rwa [UInt64.toNat_mod] at same
  rw [even, UInt64.toNat_mod]
  simp only [UInt64.toNat_sub, UInt64.toNat_mul, UInt64.toNat_ofNat', UInt64.reduceToNat]
  omega

/-- The words below the stack pointer that a call with a number of arguments writes. -/
def CallArea (view : View) (count : Nat) (address : UInt64) : Prop :=
  Within (view.get .rsp - 8 * UInt64.ofNat (stackWords count)) (8 * UInt64.ofNat (stackWords count))
    address

/-- The code of a call stands in an image that finds the values where the histories tell when the
call is done. -/
structure Hosts (image : Image) (s s' : State) (index : Nat) (code : List Entry) : Prop where
  holds : image.Holds index code
  agrees : ∀ handle tick, handle < s'.draft.timeline.count → s.draft.text.clock ≤ tick →
    tick < s'.draft.text.clock →
    image.timeline.placeAt handle tick = s'.draft.timeline.placeAt handle tick

/-- A procedure with a frame of at most 2147483584 bytes, which saves general registers, begins in
the code. -/
inductive Enterable (image : Image) (fn : Function) (target behind : Nat) : Prop where
  | intro {frame : Frame} {stackArguments : Bool} {saved : List Phys} {redZone : Int} :
      Opens image fn (.ofFrame frame stackArguments saved redZone) target behind →
      (FramePlan.ofFrame frame stackArguments saved redZone).hasFrame = true →
      0 ≤ frame.stackSize.toInt → frame.stackSize.toInt ≤ 2 ^ 31 - 64 → saved.length ≤ 5 →
      (∀ phys ∈ saved, phys ≠ .rsp ∧ phys ≠ .rbp) → Enterable image fn target behind

/-- The arguments that a call can be given: operands of the types of the parameters, in memory for
those by reference, each with a value of the pool of its own, in the frame, or locked. -/
structure Callable (draft : Draft) (params : List Variable) (arguments : List Operand) : Prop where
  count : arguments.length = params.length
  fitting : ∀ item ∈ params.zip arguments, Fitting item.1 item.2
  based : ∀ item ∈ params.zip arguments, Based draft item.2
  apart : (params.zip arguments).Pairwise (Apart draft)

theorem Hosts.placed {s s' : State} {index : Nat} {code : List Entry} {handle : Handle} {tick : Nat}
    {phys : Phys} (hosts : Hosts image s s' index code) (reached : s.draft.text.clock ≤ tick)
    (earlier : tick < s'.draft.text.clock)
    (placed : s'.draft.timeline.placeAt handle tick = some phys) :
    image.timeline.placeAt handle tick = some phys := by
  rw [hosts.agrees handle tick (lt_count_of_placeAt placed) reached earlier, placed]

section Calls

variable {s s' : State} {items : List (Variable × Operand)} {transferring : List Instr}
  {index : Nat} {passing clearing calling code : List Entry}

theorem CallCode.resides (called : CallCode s s' items transferring passing clearing calling)
    (hosts : Hosts image s s' index code) : Resides image (startPlace s s') passing := by
  intro entry member handle phys placed
  have bounds := called.stamped entry (by simp [member])
  apply hosts.placed bounds.1 bounds.2
  rw [called.still entry member, placed]

/-- Clearing the accumulator leaves the passed arguments alone. -/
theorem CallCode.clearing_straight (checked : Bool)
    (called : CallCode s s' items transferring passing clearing calling) (hosts : Hosts image s s' index code) {base : UInt64}
    (passed : Passed params words base view) :
    ∃ view', Straight image checked clearing view view' ∧ Passed params words base view' ∧
      view'.get .rsp = view.get .rsp ∧ view'.memory = view.memory := by
  refine straight_clearing checked ?_ passed
  intro entry member
  obtain ⟨handle, slot, instr, placed⟩ := called.clears entry member
  have bounds := called.stamped entry (by simp [member])
  exact ⟨handle, slot, instr, hosts.placed bounds.1 bounds.2 placed⟩

/-- The arguments are in registers of the pool, or in cells that they or the frame pointer lead to. -/
theorem CallCode.avoids (called : CallCode s s' items transferring passing clearing calling)
    (based : ∀ item ∈ items, Based s.draft item.2) :
    Avoids (startPlace s s') items (.rsp :: CallingConvention.argumentRegisters) := by
  intro item member register phys base located
  rcases based item member register base with fixed | ⟨handle, slotted, live⟩
  · unfold locate at located
    rw [fixed] at located
    cases located
    decide
  · obtain ⟨slot, home⟩ := called.homes (List.ne_nil_of_mem member) handle live
    unfold locate at located
    rw [slotted] at located
    obtain rfl := Option.some.inj (home.symm.trans located)
    exact List.not_mem_cons_of_ne_of_not_mem (slotPhys_ne_rsp slot) (slotPhys_not_argument slot)

end Calls

/-- The caller and the callee agree on the arguments.  The code of a call, run from an aligned stack,
comes to the call with the stack aligned, and behind the prologue and the stores of the callee every
parameter holds the word of its operand: its value, or its address for a reference. -/
theorem emitCall_receives {declared : Function} {arguments : List Operand} {isVirtual : Bool}
    {s s' : State} {result : Operand} (scalar : ∀ v ∈ declared.args, v.Scalar)
    (few : declared.args.length ≤ 2 ^ 27) (tidy : s.draft.Tidy)
    (callable : Callable s.draft declared.layoutFrame.args arguments)
    (run : emitCall declared.layoutFrame arguments isVirtual s = .ok result s') :
    ∃ code rest, s'.draft.text.code = s.draft.text.code ++ (code ++ rest) ∧
      ∀ {image : Image} {index : Nat} {view : View} {words : List UInt64} (checked : Bool),
        Hosts image s s' index code → view.get .rsp % 16 = 0 →
        AllMean image (startPlace s s') view (CallArea view arguments.length)
          (declared.layoutFrame.args.zip arguments) words →
        ∃ call before, Runs image checked index view call before ∧
          image.code[call]?.map Entry.instr = (transfer declared.layoutFrame isVirtual).getLast? ∧
          before.get .rsp % 16 = 0 ∧ ∀ {target behind : Nat},
            Leads image declared.layoutFrame view (CallArea view arguments.length) words target
              isVirtual →
            Enterable image declared.layoutFrame target behind →
            ∃ received, Runs image checked call before behind received ∧
              Received declared.layoutFrame.args words received := by
  have arranged := Function.arranged_layoutFrame scalar few
  have length : declared.layoutFrame.args.length = declared.args.length :=
    Function.length_args_layoutFrame declared
  have total : (declared.layoutFrame.args.zip arguments).length = arguments.length := by
    rw [List.length_zip, callable.count, Nat.min_self]
  have suited : Suited (declared.layoutFrame.args.zip arguments) := by
    intro item member
    exact ⟨arranged.scalar item.1 (List.of_mem_zip member).1, callable.fitting item member⟩
  obtain ⟨passing, clearing, calling, called⟩ :=
    emitCall_code tidy suited callable.based callable.apart run
  obtain ⟨rest, appended⟩ := called.appended
  refine ⟨passing ++ clearing ++ calling, rest, appended, ?_⟩
  intro image index view words checked hosts aligned means
  have bound : arguments.length < 2 ^ 59 := by
    rw [callable.count, length]
    omega
  -- the caller: arguments, accumulator, then the instructions up to the call
  obtain ⟨view₁, passes, passed, level, memory, _⟩ := called.passes.straight checked
    (called.resides hosts) suited means (called.avoids callable.based)
    (by rw [total]; exact fun address within => within) (by rw [total]; exact bound)
  have params : (declared.layoutFrame.args.zip arguments).map Prod.fst = declared.layoutFrame.args :=
    List.map_fst_zip (Nat.le_of_eq callable.count.symm)
  rw [params] at passed
  rw [total] at level
  obtain ⟨view₂, clears, passed', level', memory'⟩ := called.clearing_straight checked hosts passed
  have front := Runs.of_straight hosts.holds.left (passes.append clears)
  have aligned' : view₂.get .rsp % 16 = 0 := by
    rw [level', level]
    exact aligned_stackWords aligned bound
  rw [← level'] at passed'
  obtain ⟨call, entry, comes, found, last⟩ :=
    transfer_comes checked view₂ hosts.holds.right called.calls
  have atop : (atCall isVirtual view₂).get .rsp % 16 = 0 := by rwa [level_atCall]
  refine ⟨call, atCall isVirtual view₂, front.trans comes, ?_, atop, ?_⟩
  · rw [found, last]
    rfl
  · -- the callee: its code is found through memory that passing the arguments has left alone
    intro target behind leads enterable
    obtain ⟨opens, framed, least, greatest, fewSaved, general⟩ := enterable
    have kept : ∀ address, ¬ CallArea view arguments.length address →
        view₂.memory.get address = view.memory.get address := by
      rw [memory']
      exact memory
    obtain ⟨operand, calls, yields⟩ := leads.yields kept opens passed' last
    have arrived := passed'.atCall isVirtual
    rw [← level_atCall isVirtual] at arrived
    exact callee_receives found calls yields atop opens
      (fits_ofFrame least greatest fewSaved general) framed arranged (by rw [length]; exact few) arrived

end X64Backend.Lower
