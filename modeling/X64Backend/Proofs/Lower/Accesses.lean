import X64Backend.Proofs.Lower.Coverage
import X64Backend.Proofs.Lower.Sections

/-!
The memory that an assignment names.  A value is moved by instructions that name parts of its operand
and of its destination, and operands are built for variables, fields and literals.  So where types
leave room, whatever is emitted for an assignment stays in the bytes of the variables and fields on
its two sides.
-/

namespace X64Backend

open X64Backend.Tree

namespace Operand

/-- Every part of an operand in memory is one of some cells. -/
def Enclosed (cells : Pointer → Prop) (operand : Operand) : Prop :=
  ∀ whole cell, operand = .mem whole → cell.PartOf whole → cells cell

variable {cells : Pointer → Prop}

namespace Enclosed

theorem reg (register : Register) : (Operand.reg register).Enclosed cells := by
  intro whole cell same
  contradiction

theorem lit (literal : Literal) : (Operand.lit literal).Enclosed cells := by
  intro whole cell same
  contradiction

theorem mem {whole : Pointer} (parts : ∀ cell, cell.PartOf whole → cells cell) :
    (Operand.mem whole).Enclosed cells := by
  intro other cell same part
  cases same
  exact parts cell part

/-- What encloses a cell encloses its parts. -/
theorem part {whole cell : Pointer} (enclosed : (Operand.mem whole).Enclosed cells)
    (inner : cell.PartOf whole) : (Operand.mem cell).Enclosed cells :=
  mem fun _ further => enclosed whole _ rfl (further.trans inner)

theorem cell {cell : Pointer} (enclosed : (Operand.mem cell).Enclosed cells) : cells cell :=
  enclosed cell cell rfl (.refl cell)

theorem mono {operand : Operand} {more : Pointer → Prop} (enclosed : operand.Enclosed cells)
    (fewer : ∀ cell, cells cell → more cell) : operand.Enclosed more :=
  fun whole cell same part => fewer cell (enclosed whole cell same part)

/-- What encloses a range encloses a cell that starts it and is no wider. -/
theorem ofBase {base : Register} {size : Size} (stretch : Stretch)
    (all : ∀ cell, cell.Within (base.resize .s64) stretch → cells cell)
    (displaced : stretch.offset.toInt32.toInt = stretch.offset.toInt)
    (narrow : (size.bytes : Int) ≤ stretch.bytes.toInt)
    (reaches : stretch.offset.toInt + size.bytes < 2 ^ 31) :
    (Operand.mem (.ofBase base stretch.offset.toInt32 size)).Enclosed cells := by
  have within : (Pointer.ofBase base stretch.offset.toInt32 size).Within (base.resize .s64)
      stretch := (Pointer.within_ofBase_iff displaced).mpr narrow
  apply mem
  intro cell part
  apply all
  apply within.part part
  change stretch.offset.toInt32.toInt + size.bytes < _
  omega

end Enclosed

end Operand

/-- Every part of an operand in memory is one of some cells. -/
def Instr.Enclosed (cells : Pointer → Prop) (instr : Instr) : Prop :=
  ∀ operand ∈ instr.operands, operand.Enclosed cells

theorem Instr.Enclosed.binary {cells : Pointer → Prop} {op : Op} {dst src : Operand}
    (ofDst : dst.Enclosed cells) (ofSrc : src.Enclosed cells) :
    (Instr.binary op dst src).Enclosed cells :=
  List.forall_mem_cons.mpr ⟨ofDst, List.forall_mem_singleton.mpr ofSrc⟩

namespace Draft

/-- An instruction with a memory cell was there before a step of the allocator. -/
theorem Step.mem_code {draft draft' : Draft} {entry : Entry} {cell : Pointer}
    (step : Step draft draft') (member : entry ∈ draft'.text.code)
    (named : .mem cell ∈ entry.instr.operands) : entry ∈ draft.text.code := by
  cases step with
  | @shift slot _ occupant =>
      change entry ∈ (draft.text.emit (moveOut occupant.handle slot)).code at member
      rw [Stream.code_emit] at member
      rcases List.mem_append.mp member with before | last
      · exact before
      · rw [List.mem_singleton.mp last] at named
        simp [moveOut, Instr.operands] at named
  | _ => exact member

theorem Steps.mem_code {draft draft' : Draft} {entry : Entry} {cell : Pointer}
    (steps : Steps draft draft') (member : entry ∈ draft'.text.code)
    (named : .mem cell ∈ entry.instr.operands) : entry ∈ draft.text.code := by
  induction steps with
  | refl => exact member
  | tail _ step inductionHypothesis => exact inductionHypothesis (step.mem_code member named)

end Draft

namespace Lower

variable {α β : Type} {cells : Pointer → Prop}

/-- The code has an instruction with a memory cell. -/
def State.Names (s : State) (cell : Pointer) : Prop :=
  ∃ entry ∈ s.draft.text.code, .mem cell ∈ entry.instr.operands

/-- No other memory cells than some have come into the code, and the calls in progress are as
before. -/
structure Touched (cells : Pointer → Prop) (s s' : State) : Prop where
  names : ∀ cell, s'.Names cell → s.Names cell ∨ cells cell
  activations : s'.activations = s.activations

namespace Touched

variable {s s₁ s' : State}

theorem of_text (text : s'.draft.text = s.draft.text)
    (activations : s'.activations = s.activations) : Touched cells s s' := by
  refine ⟨fun cell names => ?_, activations⟩
  unfold State.Names at names
  rw [text] at names
  exact .inl names

theorem trans (first : Touched cells s s₁) (second : Touched cells s₁ s') :
    Touched cells s s' := by
  refine ⟨fun cell names => ?_, second.activations.trans first.activations⟩
  rcases second.names cell names with before | here
  · exact first.names cell before
  · exact .inr here

theorem mono {more : Pointer → Prop} (touched : Touched cells s s')
    (fewer : ∀ cell, cells cell → more cell) : Touched more s s' :=
  ⟨fun cell names => (touched.names cell names).imp_right (fewer cell), touched.activations⟩

end Touched

/-- A computation that brings no other memory cells than some into the code. -/
def Touches (cells : Pointer → Prop) (action : Gen α) : Prop :=
  ∀ s a s', action s = .ok a s' → Touched cells s s'

namespace Touches

theorem pure (a : α) : Touches cells (Pure.pure a) := by
  intro s b s' run
  obtain ⟨_, rfl⟩ := Success.pure_ok.mp run
  exact .of_text rfl rfl

theorem throw (fault : Fault) : Touches cells (throw fault : Gen α) := by
  intro s a s' run
  simp at run

theorem get : Touches cells MonadState.get := by
  intro s a s' run
  obtain ⟨_, rfl⟩ := Success.get_ok.mp run
  exact .of_text rfl rfl

theorem modify {change : State → State}
    (text : ∀ s, (change s).draft.text = s.draft.text)
    (activations : ∀ s, (change s).activations = s.activations) :
    Touches cells (modify change) := by
  intro s a s' run
  obtain rfl := Success.modify_ok.mp run
  exact .of_text (text s) (activations s)

theorem bind {first : Gen α} {next : α → Gen β} (touches : Touches cells first)
    (touches' : ∀ a, Touches cells (next a)) : Touches cells (first >>= next) := by
  intro s b s' run
  obtain ⟨a, middle, ran, run⟩ := Success.bind_ok.mp run
  exact (touches s a middle ran).trans (touches' a middle b s' run)

/-- What the allocator emits has no memory cells. -/
theorem drafting {action : Drafting α}
    (steps : ∀ draft a draft', action draft = .ok a draft' → Draft.Steps draft draft') :
    Touches cells (Lower.drafting action) := by
  intro s a s' run
  obtain ⟨draft, ran, rfl⟩ := drafting_ok.mp run
  refine ⟨fun cell names => ?_, rfl⟩
  obtain ⟨entry, member, named⟩ := names
  exact .inl ⟨entry, (steps s.draft a draft ran).mem_code member named, named⟩

theorem emit {instrs : List Instr} (each : ∀ instr ∈ instrs, instr.Enclosed cells) :
    Touches cells (Lower.emit instrs) := by
  intro s a s' run
  obtain rfl := Success.modify_ok.mp run
  refine ⟨fun cell names => ?_, rfl⟩
  obtain ⟨entry, member, named⟩ := names
  obtain ⟨added, same, spelled⟩ := s.draft.text.code_append instrs
  change entry ∈ (s.draft.text.append instrs).code at member
  rw [same] at member
  rcases List.mem_append.mp member with before | new
  · exact .inl ⟨entry, before, named⟩
  · have among : entry.instr ∈ instrs := spelled ▸ List.mem_map_of_mem new
    exact .inr (each entry.instr among _ named).cell

theorem emitBinary {op : Op} {dst src : Operand} (ofDst : dst.Enclosed cells)
    (ofSrc : src.Enclosed cells) : Touches cells (Lower.emit [.binary op dst src]) := by
  apply emit
  intro instr member
  rw [List.mem_singleton.mp member]
  exact .binary ofDst ofSrc

/-- The newest instruction is written anew. -/
theorem replaceLast {instr : Instr} (enclosed : instr.Enclosed cells) :
    Touches cells (modifyText fun text => text.replaceLast instr) := by
  intro s a s' run
  obtain rfl := Success.modify_ok.mp run
  refine ⟨fun cell names => ?_, rfl⟩
  obtain ⟨entry, member, named⟩ := names
  change entry ∈ (s.draft.text.replaceLast instr).code at member
  rcases List.eq_nil_or_concat s.draft.text.code with none | ⟨older, last, some⟩
  · have empty : s.draft.text.entries = #[] := Array.toList_eq_nil_iff.mp none
    simp [Stream.code, Stream.replaceLast, empty] at member
  · rw [List.concat_eq_append] at some
    rw [Stream.code_replaceLast instr some] at member
    rcases List.mem_append.mp member with before | new
    · exact .inl ⟨entry, some ▸ List.mem_append_left _ before, named⟩
    · rw [List.mem_singleton.mp new] at named
      exact .inr (enclosed _ named).cell

end Touches

section Moves

variable {dst src operand : Operand} {literal : Literal} {size : Size} {signed : Bool}
  {order : ChunkOrder}

theorem touches_log (message : String) : Touches cells (log message) :=
  .drafting fun _ _ _ run => by cases run; exact .single (.trace message)

theorem touches_report (problem : Problem) : Touches cells (report problem) :=
  (touches_log _).bind fun _ => .modify (fun _ => rfl) fun _ => rfl

theorem touches_nextRegister (size : Size) :
    Touches cells (drafting (Drafting.nextRegister size)) := by
  apply Touches.drafting
  intro draft register draft' run
  obtain ⟨slot, empty, _, _, rfl⟩ := Drafting.nextRegister_ok run
  exact .single (.issue empty fun produced => absurd rfl produced)

theorem touches_release (operand : Operand) : Touches cells (release operand) :=
  (Touches.drafting fun _ _ _ run => Draft.steps_free run).bind fun _ => .pure _

theorem touches_freeAnyway (operand : Operand) : Touches cells (freeAnyway operand) :=
  (Touches.drafting fun _ _ _ run => Draft.steps_free run).bind fun _ => .pure _

theorem touches_temp (operand : Operand) : Touches cells (temp operand) :=
  Touches.get.bind fun _ => .pure _

theorem touches_lastSet (location : Operand) : Touches cells (lastSet? location) :=
  (Touches.get.bind fun _ => .pure _ : Touches cells lastInstr).bind fun _ => .pure _

theorem touches_fits (literal : Literal) (size : Size) : Touches cells (fits literal size) := by
  unfold fits
  split
  · exact (touches_report _).bind fun _ => .pure _
  · split
    · exact (touches_report _).bind fun _ => .pure _
    · exact .pure _

/-- Each half of a wide literal is stored in a part of its cell. -/
theorem touches_storeHalves {cell : Pointer} (wide : cell.size = .s64)
    (enclosed : (Operand.mem cell).Enclosed cells) :
    Touches cells (storeHalves cell literal order) := by
  have half : ∀ {part : Pointer} (value : Literal), part.PartOf cell →
      (Instr.binary .mov (.mem part) (.lit value)).Enclosed cells := by
    intro part value inner
    exact .binary (enclosed.part inner) (.lit value)
  unfold storeHalves
  split
  · exact touches_report _
  · refine (touches_log _).bind fun _ => ?_
    split
    · apply Touches.emit
      exact List.forall_mem_cons.mpr ⟨half _ (.lower wide),
        List.forall_mem_singleton.mpr (half _ (.upper wide))⟩
    · apply Touches.emit
      exact List.forall_mem_cons.mpr ⟨half _ (.upper wide),
        List.forall_mem_singleton.mpr (half _ (.lower wide))⟩

theorem touches_storeLiteral (enclosed : dst.Enclosed cells) :
    Touches cells (storeLiteral dst literal order) := by
  have direct : Touches cells (emit [.binary .mov dst (.lit literal)]) :=
    .emitBinary enclosed (.lit literal)
  refine (touches_fits literal dst.size).bind fun fit => ?_
  split
  · split
    · rename_i cell
      split
      · exact direct
      · rename_i split
        have wide : cell.size = .s64 := by
          by_contra narrow
          simp [narrow] at split
        exact touches_storeHalves wide enclosed
    · exact direct
  · exact .pure _

theorem touches_widen {register : Register} (enclosed : src.Enclosed cells) :
    Touches cells (widen register src signed) := by
  apply Touches.emit
  intro instr member
  rw [List.mem_singleton.mp member]
  unfold widening
  split
  · split
    · exact .binary (.reg _) enclosed
    · exact .binary (.reg _) enclosed
  · exact .binary (.reg _) enclosed

theorem touches_moveRegister (target register : Register) :
    Touches cells (moveRegister target register signed) := by
  unfold moveRegister
  split
  · exact .emitBinary (.reg _) (.reg _)
  · exact touches_widen (.reg _)

/-- A cell that is cut is read in part. -/
theorem touches_moveCell {target : Register} {cell : Pointer}
    (enclosed : (Operand.mem cell).Enclosed cells) :
    Touches cells (moveCell target cell signed) := by
  unfold moveCell
  split
  · rename_i narrow
    exact .emitBinary (.reg _) (enclosed.part (.resize narrow))
  · exact touches_widen enclosed

theorem touches_viaTemp {fill : Register → Gen Unit} (enclosed : dst.Enclosed cells)
    (fills : ∀ register, Touches cells (fill register)) : Touches cells (viaTemp dst fill) :=
  (touches_nextRegister dst.size).bind fun register =>
    (fills register).bind fun _ =>
      (Touches.emitBinary enclosed (.reg register)).bind fun _ => touches_freeAnyway _

/-- A value is moved by instructions that name parts of its operand and of its destination. -/
theorem touches_move (ofDst : dst.Enclosed cells) (ofSrc : src.Enclosed cells) :
    Touches cells (move dst src signed order) := by
  unfold move
  split
  · exact .throw _
  · exact touches_storeLiteral ofDst
  · exact touches_moveRegister _ _
  · split
    · exact .emitBinary ofDst (.reg _)
    · exact touches_viaTemp ofDst fun _ => touches_widen ofSrc
  · exact touches_moveCell ofSrc
  · exact touches_viaTemp ofDst fun _ => touches_moveCell ofSrc

theorem touches_load (enclosed : operand.Enclosed cells) :
    Touches cells (load operand size signed) := by
  refine (touches_temp operand).bind fun owned => ?_
  split
  · split
    · exact (touches_widen enclosed).bind fun _ => .pure _
    · exact .pure _
  · refine (touches_nextRegister size).bind fun register => ?_
    refine (touches_move (.reg register) enclosed).bind fun _ => ?_
    exact (touches_release operand).bind fun _ => .pure _

theorem touches_fuseStore (enclosed : dst.Enclosed cells) :
    Touches cells (fuseStore dst operand) := by
  refine (touches_temp operand).bind fun owned => ?_
  split
  · refine (touches_lastSet operand).bind fun stored => ?_
    split
    · refine (Touches.replaceLast ?_).bind fun _ => ?_
      · exact List.forall_mem_singleton.mpr enclosed
      · exact (touches_release operand).bind fun _ => (touches_log _).bind fun _ => .pure _
    · exact .pure _
  · exact .pure _

/-- A value is stored by instructions that name parts of its operand and of its destination. -/
theorem touches_store (ofDst : dst.Enclosed cells) (ofSrc : src.Enclosed cells) :
    Touches cells (store dst src signed order) := by
  refine (touches_fuseStore ofDst).bind fun fused => ?_
  split
  · exact (touches_move ofDst ofSrc).bind fun _ => touches_release src
  · exact .pure _

end Moves

section Places

variable {program : TypedProgram} {env : Env} {id : VarId} {v : Variable} {offset : Int64}
  {operand object : Operand} {member : Field} {s s' : State}

/-- The cells in the bytes of a variable, and for a reference those in the bytes that it leads
to. -/
def VariableCell (v : Variable) (offset : Int64) (cell : Pointer) : Prop :=
  cell.Within rbp ⟨offset, v.storage⟩ ∨
    v.byRef = true ∧ ∃ register, cell.Within register ⟨0, v.type.storage⟩

/-- The cell of a variable with a type that leaves room. -/
theorem cell_touched (roomy : v.type.Roomy) (near : Stretch.Near ⟨offset, v.storage⟩)
    (run : variableOperand.cell v offset s = .ok operand s') :
    Touched (VariableCell v offset) s s' ∧ operand.Enclosed (VariableCell v offset) := by
  have framed : ∀ {size : Size}, (size.bytes : Int) ≤ v.storage.toInt →
      (Operand.mem (frameCell offset size)).Enclosed (VariableCell v offset) := by
    intro size narrow
    have reaches := near.reaches
    refine .ofBase ⟨offset, v.storage⟩ (fun _ => .inl) near.displaced narrow ?_
    dsimp only at reaches ⊢
    omega
  simp only [variableOperand.cell, Success.ite_apply] at run
  split at run
  · rename_i reference
    obtain ⟨pointer, s₁, allocated, run⟩ := Success.bind_ok.mp run
    obtain ⟨_, s₂, emitted, run⟩ := Success.bind_ok.mp run
    obtain ⟨rfl, rfl⟩ := Success.pure_ok.mp run
    have room : v.storage = 8 := if_pos reference
    constructor
    · have loads : Touches (VariableCell v offset)
          (emit [.binary .mov (.reg pointer) (.mem (frameCell offset .s64))]) :=
        .emitBinary (.reg pointer) (framed (by rw [room]; decide))
      exact (touches_nextRegister .s64 s pointer s₁ allocated).trans (loads s₁ _ _ emitted)
    · have width : v.type.operandSize.bytes ≤ 8 := bytes_le_word _
      refine .ofBase ⟨0, v.type.storage⟩ (fun _ within => .inr ⟨reference, _, within⟩) rfl
        (v.type.operandSize_le_storage_iff.mpr roomy) ?_
      change 0 + (v.type.operandSize.bytes : Int) < _
      omega
  · rename_i direct
    obtain ⟨rfl, rfl⟩ := Success.pure_ok.mp run
    have room : v.storage = v.type.storage := if_neg direct
    refine ⟨.of_text rfl rfl, framed ?_⟩
    rw [room]
    exact v.type.operandSize_le_storage_iff.mpr roomy

/-- The offset of a variable's cell, its own or one that a call in progress has given to it. -/
def Placed (program : TypedProgram) (s : State) (id : VarId) (offset : Int64) : Prop :=
  (program.var id).offset = offset ∨
    ∃ activation ∈ s.activations, activation.locals.lookup id = some offset

/-- A variable has a cell of its own, or it stands for an operand that a call in progress has bound
to it. -/
theorem variableOperand_places (run : variableOperand program id s = .ok operand s') :
    (∃ offset, Placed program s id offset ∧
        variableOperand.cell (program.var id) offset s = .ok operand s') ∨
      s = s' ∧ ∃ activation ∈ s.activations, activation.bound.lookup id = some operand := by
  unfold variableOperand at run
  obtain ⟨_, _, got, run⟩ := Success.bind_ok.mp run
  obtain ⟨rfl, rfl⟩ := Success.get_ok.mp got
  cases found : s.activations.findSome? fun activation => activation.binding? id with
  | none =>
    rw [found] at run
    exact .inl ⟨_, .inl rfl, run⟩
  | some binding =>
    rw [found] at run
    obtain ⟨activation, among, binds⟩ := List.exists_of_findSome?_eq_some found
    unfold Activation.binding? at binds
    cases binding with
    | offset offset =>
      refine .inl ⟨offset, .inr ⟨activation, among, ?_⟩, run⟩
      split at binds
      · cases binds
      · obtain ⟨_, located, same⟩ := Option.map_eq_some_iff.mp binds
        cases same
        exact located
    | operand given =>
      obtain ⟨rfl, rfl⟩ := Success.pure_ok.mp run
      refine .inr ⟨rfl, activation, among, ?_⟩
      split at binds
      · rename_i bound isBound
        cases binds
        exact isBound
      · obtain ⟨_, _, impossible⟩ := Option.map_eq_some_iff.mp binds
        contradiction

/-- The cell of a field with a type that leaves room. -/
theorem fieldCell_touched (roomy : member.type.Roomy) (near : member.stretch.Near)
    (enclosed : object.Enclosed cells)
    (all : ∀ register cell, cell.Within register member.stretch → cells cell)
    (run : fieldCell object member s = .ok operand s') :
    Touched cells s s' ∧ operand.Enclosed cells := by
  obtain ⟨register, s₁, found, run⟩ := Success.bind_ok.mp run
  obtain ⟨rfl, rfl⟩ := Success.pure_ok.mp run
  constructor
  · have reads : Touches cells (base object) := by
      unfold base
      split
      · exact .pure _
      · exact touches_load enclosed
    exact reads s register s₁ found
  · have narrow := member.type.operandSize_le_storage_iff.mpr roomy
    have reaches := near.reaches
    refine .ofBase member.stretch (all _) near.displaced narrow ?_
    change _ + member.type.storage.toInt < _ at reaches
    omega

/-- A place in memory that an assignment is made to or from: a literal, a variable, or a field of
what such an expression refers to, at offsets that displacements reach. -/
inductive Ranged (program : TypedProgram) (s : State) : Expr → Prop where
  | lit (value : Literal) (type : TypeRef) : Ranged program s (.lit value type)
  | var {id : VarId} : (program.var id).type.Roomy →
      (∀ offset, Placed program s id offset → Stretch.Near ⟨offset, (program.var id).storage⟩) →
      Ranged program s (.var id)
  | field {object : Expr} {member : Field} : Ranged program s object → member.type.Roomy →
      member.stretch.Near → Ranged program s (.field object member)

/-- The cells that a variable or a field of it may be accessed through. -/
inductive Access (program : TypedProgram) (s : State) : Expr → Pointer → Prop where
  | own {id : VarId} {offset : Int64} {cell : Pointer} : Placed program s id offset →
      VariableCell (program.var id) offset cell → Access program s (.var id) cell
  | bound {id : VarId} {activation : Activation} {whole cell : Pointer} :
      activation ∈ s.activations → activation.bound.lookup id = some (.mem whole) →
      cell.PartOf whole → Access program s (.var id) cell
  | object {object : Expr} {member : Field} {cell : Pointer} : Access program s object cell →
      Access program s (.field object member) cell
  | field {object : Expr} {member : Field} {register : Register} {cell : Pointer} :
      cell.Within register member.stretch → Access program s (.field object member) cell

theorem literal_touched {value : Literal} (run : literal value s = .ok operand s') :
    Touched cells s s' ∧ operand.Enclosed cells := by
  simp only [literal, Success.ite_apply] at run
  split at run
  · obtain ⟨rfl, rfl⟩ := Success.pure_ok.mp run
    exact ⟨.of_text rfl rfl, .lit value⟩
  · obtain ⟨state, s₁, got, run⟩ := Success.bind_ok.mp run
    obtain ⟨rfl, rfl⟩ := Success.get_ok.mp got
    cases known : s.texts.idxOf? value.text with
    | some number =>
      simp only [known] at run
      obtain ⟨rfl, rfl⟩ := Success.pure_ok.mp run
      exact ⟨.of_text rfl rfl, .lit _⟩
    | none =>
      simp only [known] at run
      obtain ⟨_, s₂, filed, run⟩ := Success.bind_ok.mp run
      obtain rfl := Success.modify_ok.mp filed
      obtain ⟨rfl, rfl⟩ := Success.pure_ok.mp run
      exact ⟨.of_text rfl rfl, .lit _⟩

/-- The value of such an expression is found by instructions that name only its own cells, and it is
in one of these unless it is a literal. -/
theorem lower_touched {e : Expr} {s₀ : State} (ranged : Ranged env.program s₀ e)
    (same : s.activations = s₀.activations) (run : (lower env e).value s = .ok operand s') :
    Touched (Access env.program s₀ e) s s' ∧ operand.Enclosed (Access env.program s₀ e) := by
  induction ranged generalizing s operand s' with
  | lit value type => exact literal_touched run
  | @var id roomy near =>
    rcases variableOperand_places run with ⟨offset, placed, found⟩ | ⟨rfl, activation, among, bound⟩
    · have placed : Placed env.program s₀ id offset := by rwa [Placed, same] at placed
      obtain ⟨touched, enclosed⟩ := cell_touched roomy (near offset placed) found
      exact ⟨touched.mono fun _ => .own placed, enclosed.mono fun _ => .own placed⟩
    · rw [same] at among
      refine ⟨.of_text rfl rfl, fun whole cell memory part => ?_⟩
      rw [memory] at bound
      exact .bound among bound part
  | @field object member _ roomy near inductionHypothesis =>
    obtain ⟨referred, s₁, evaluated, run⟩ := Success.bind_ok.mp run
    obtain ⟨touched, enclosed⟩ := inductionHypothesis same evaluated
    have inner : ∀ cell, Access env.program s₀ object cell →
        Access env.program s₀ (.field object member) cell := fun _ => .object
    obtain ⟨touched', enclosed'⟩ :=
      fieldCell_touched roomy near (enclosed.mono inner) (fun _ _ => .field) run
    exact ⟨(touched.mono inner).trans touched', enclosed'⟩

/-- An assignment names no other memory cells than those of its two sides: as long as their types
leave room, each of them is within one variable or field. -/
theorem assign_touched {target value : Expr} (ofTarget : Ranged env.program s target)
    (ofValue : Ranged env.program s value) {u : Unit} (run : assign env target value s = .ok u s') :
    Touched (fun cell => Access env.program s target cell ∨ Access env.program s value cell)
      s s' := by
  obtain ⟨result, s₁, evaluated, run⟩ := Success.bind_ok.mp run
  obtain ⟨dst, s₂, placed, run⟩ := Success.bind_ok.mp run
  obtain ⟨_, s₃, stored, released⟩ := Success.bind_ok.mp run
  obtain ⟨touched, ofResult⟩ := lower_touched ofValue rfl evaluated
  have located : (lower env target).value s₁ = .ok dst s₂ := by
    cases ofTarget with
    | lit value type => simp [placeOf, lower, Lowered.ofValue] at placed
    | var => exact placed
    | field => exact placed
  obtain ⟨touched', ofDst⟩ := lower_touched ofTarget touched.activations located
  have inTarget : ∀ cell, Access env.program s target cell →
      Access env.program s target cell ∨ Access env.program s value cell := fun _ => .inl
  have inValue : ∀ cell, Access env.program s value cell →
      Access env.program s target cell ∨ Access env.program s value cell := fun _ => .inr
  have stores := touches_store (ofDst.mono inTarget) (ofResult.mono inValue) s₂ _ s₃ stored
  exact (touched.mono inValue).trans
    ((touched'.mono inTarget).trans (stores.trans (touches_release dst s₃ _ s' released)))

end Places

end Lower

end X64Backend
