import X64Backend.Proofs.Lower.Parts
import X64Backend.Proofs.Lower.Symbols
import X64Backend.Proofs.Machine.Data
import X64Backend.Proofs.Text.Quoted

/-!
The data of a program that is generated, from the literal nodes and the classes to the memory of the
machine.  A text is filed once and keeps its number, items of data get addresses one behind the
other, and the words of the method tables are the addresses of the procedures.
-/

namespace X64Backend

/-- The item of data that an instruction is. -/
def Instr.item? : Instr → Option DataItem
  | .data item => some item
  | _ => none

namespace Machine

theorem items_eq (entries : List Entry) :
    items entries = (entries.map Entry.instr).filterMap Instr.item? := by
  rw [List.filterMap_map]
  rfl

end Machine

namespace Lower

open X64Backend.Tree X64Backend.Machine

variable {program : TypedProgram} {options : Options} {code : Program} {image : Image}

section Definitions

variable {start : Nat} {entry : Entry} {entries rest : List Entry}
  {labels final : Std.HashMap String Nat} {name : String} {isGlobal : Bool}

theorem definitions_cons_label (label : entry.instr = .label name isGlobal) :
    definitions (entry :: rest) = name :: definitions rest :=
  List.filterMap_cons_some (by rw [label]; rfl)

theorem definitions_cons_other (other : ∀ name isGlobal, entry.instr ≠ .label name isGlobal) :
    definitions (entry :: rest) = definitions rest := by
  refine List.filterMap_cons_none ?_
  cases form : entry.instr with
  | label name isGlobal => exact absurd form (other name isGlobal)
  | _ => rfl

/-- Labels are indexed only if none is defined twice. -/
theorem nodup_definitions (run : indexLabels start entries labels = .ok final) :
    (definitions entries).Nodup ∧ ∀ name ∈ definitions entries, labels[name]? = none := by
  induction entries generalizing start labels with
  | nil => exact ⟨List.nodup_nil, by simp [definitions]⟩
  | cons entry rest inductionHypothesis =>
      rw [indexLabels] at run
      split at run
      · rename_i name _ label
        split at run
        · contradiction
        · rename_i fresh
          obtain ⟨distinct, new⟩ := inductionHypothesis run
          have unknown : labels[name]? = none := by
            rw [← Std.HashMap.isSome_getElem?_eq_contains] at fresh
            simpa using fresh
          rw [definitions_cons_label label]
          refine ⟨List.nodup_cons.mpr ⟨fun member => ?_, distinct⟩, fun other member => ?_⟩
          · have absent := new name member
            rw [Std.HashMap.getElem?_insert_self] at absent
            contradiction
          · rcases List.mem_cons.mp member with rfl | member
            · exact unknown
            · have absent := new other member
              rw [Std.HashMap.getElem?_insert] at absent
              split at absent
              · contradiction
              · exact absent
      · rename_i other
        rw [definitions_cons_other other]
        exact inductionHypothesis run

/-- Labels that are defined once can be indexed. -/
theorem exists_indexLabels (distinct : (definitions entries).Nodup)
    (new : ∀ name ∈ definitions entries, labels[name]? = none) :
    ∃ final, indexLabels start entries labels = .ok final := by
  induction entries generalizing start labels with
  | nil => exact ⟨labels, rfl⟩
  | cons entry rest inductionHypothesis =>
      rw [indexLabels]
      split
      · rename_i name _ label
        rw [definitions_cons_label label] at distinct new
        obtain ⟨once, distinct⟩ := List.nodup_cons.mp distinct
        have fresh : labels.contains name = false := by
          rw [Std.HashMap.contains_eq_isSome_getElem?, new name List.mem_cons_self]
          rfl
        rw [if_neg (by rw [fresh]; exact Bool.false_ne_true)]
        refine inductionHypothesis distinct fun other member => ?_
        have apart : ¬ name = other := fun same => once (same ▸ member)
        rw [Std.HashMap.getElem?_insert, if_neg (by simpa using apart)]
        exact new other (List.mem_cons_of_mem _ member)
      · rename_i other
        rw [definitions_cons_other other] at distinct new
        exact inductionHypothesis distinct new

end Definitions

/-- The item of a text with its number. -/
def textData (number : Nat) (text : String) : DataItem :=
  ⟨textLabel number, ".asciz", [Text.quote text]⟩

/-- The item of a method table. -/
def methodTable (program : TypedProgram) (c : Tree.Class) : DataItem :=
  ⟨c.vtableLabel, ".quad", c.virtual.map fun id => (program.function id).linkName⟩

theorem filterMap_item? (data : List DataItem) :
    (data.map Instr.data).filterMap Instr.item? = data := by
  rw [List.filterMap_map]
  exact List.filterMap_some

/-- The data of a program that is generated: its texts in the order in which they were filed, each
of them once, and then the method tables. -/
theorem generate_items (run : (generate options program).program? = some code) :
    ∃ s, wholeProgram (.of program options.normalize) .initial = .ok () s ∧ s.texts.Nodup ∧
      items code.data.entries.toList = s.texts.mapIdx textData ++
        (program.classes.toList.filter Class.hasVTable).map (methodTable program) := by
  obtain ⟨s, generated, _, _, data⟩ := generate_ok run
  obtain ⟨s₀, s₁, sections, begun, chain, _, _, _, texts, tables⟩ := wholeProgram_chain generated
  obtain ⟨filed, distinct⟩ := chain.filed (header_symbols begun).2.2
  refine ⟨s, generated, texts ▸ distinct, ?_⟩
  have ofTexts : s₁.texts.mapIdx textItem = (s₁.texts.mapIdx textData).map Instr.data := by
    rw [List.mapIdx_eq_zipIdx_map, List.mapIdx_eq_zipIdx_map, List.map_map]
    rfl
  have ofTables : methodTables program =
      ((program.classes.toList.filter Class.hasVTable).map (methodTable program)).map
        Instr.data := by
    rw [List.map_map]
    rfl
  have contents := code_withTables s₁.data (methodTables program)
  rw [Stream.code, Stream.code, filed, ofTexts, ofTables] at contents
  rw [items_eq, data, tables, ofTables, contents, List.filterMap_append, List.filterMap_append,
    filterMap_item?, filterMap_item?, texts]
  split
  · rfl
  · rfl

/-- The label of a text is no label of a table, since numbers are written with digits only. -/
theorem textLabel_ne_vtableLabel (number : Nat) (c : Tree.Class) :
    textLabel number ≠ c.vtableLabel := by
  intro same
  have letter : 'v' ∈ (textLabel number).toList := by
    rw [same, c.toList_vtableLabel]
    simp
  rw [textLabel, String.toList_append, List.mem_append] at letter
  rcases letter with letter | digit
  · exact absurd letter (by decide)
  · exact absurd (Numeral.isDigit_of_mem_repr digit) (by decide)

/-- No item of data has the label of another one. -/
theorem nodup_labels (texts : List String)
    (unique : (program.classes.toList.map Class.name).Nodup) :
    ((texts.mapIdx textData ++
      (program.classes.toList.filter Class.hasVTable).map (methodTable program)).map
        DataItem.label).Nodup := by
  have ofTexts : (texts.mapIdx textData).map DataItem.label =
      (List.range texts.length).map textLabel := by
    rw [List.mapIdx_eq_zipIdx_map, List.range_eq_range', ← List.zipIdx_map_snd, List.map_map,
      List.map_map]
    rfl
  have ofTables : ((program.classes.toList.filter Class.hasVTable).map
      (methodTable program)).map DataItem.label =
        (program.classes.toList.filter Class.hasVTable).map Class.vtableLabel := by
    rw [List.map_map]
    rfl
  rw [List.map_append, ofTexts, ofTables, List.nodup_append]
  refine ⟨List.nodup_range.map fun _ _ => textLabel_injective, ?_, ?_⟩
  · exact nodup_vtableLabels (unique.sublist (List.filter_sublist.map _))
  · intro label member other member' same
    obtain ⟨number, _, rfl⟩ := List.mem_map.mp member
    obtain ⟨c, _, rfl⟩ := List.mem_map.mp member'
    exact textLabel_ne_vtableLabel number c same

/-- The operand of a text is the address of the label with its number. -/
theorem literal_ok {text : String} {operand : Operand} {s s' : State}
    (run : literal ⟨.string, text⟩ s = .ok operand s') :
    ∃ number, operand = .lit (.data (textLabel number)) ∧ s'.texts[number]? = some text := by
  unfold literal at run
  rw [if_neg (by simp)] at run
  obtain ⟨_, _, got, run⟩ := Success.bind_ok.mp run
  obtain ⟨rfl, rfl⟩ := Success.get_ok.mp got
  dsimp only at run
  cases found : s.texts.idxOf? text with
  | some number =>
      rw [found] at run
      obtain ⟨rfl, rfl⟩ := Success.pure_ok.mp run
      obtain ⟨inside, same, _⟩ := List.idxOf?_eq_some_iff.mp found
      exact ⟨number, rfl, List.getElem?_eq_some_iff.mpr ⟨inside, same⟩⟩
  | none =>
      rw [found] at run
      obtain ⟨_, _, filed, run⟩ := Success.bind_ok.mp run
      obtain rfl := Success.modify_ok.mp filed
      obtain ⟨rfl, rfl⟩ := Success.pure_ok.mp run
      exact ⟨s.texts.length, rfl, by simp⟩

/-- The label of a procedure stands in the code. -/
theorem Chain.labelled {s s' : State} {sections : List Section}
    (chain : Chain program options s sections s') {sec : Section} (member : sec ∈ sections) :
    sec.head.instr = .label (program.function sec.fn).linkName true := by
  induction chain with
  | nil => contradiction
  | cons generated _ inductionHypothesis =>
      rcases List.mem_cons.mp member with rfl | member
      · rw [generated.head]
      · exact inductionHypothesis member

/-- Every function with a body has a section of its own. -/
theorem exists_section {sections : List Section}
    (functions : sections.map Section.fn =
      definedAmong program (List.range program.functions.size)) {id : FnId}
    (bodied : (program.function id).body.isSome = true) : ∃ sec ∈ sections, sec.fn = id := by
  have inside : id < program.functions.size := by
    by_contra outside
    rw [TypedProgram.function, Array.getD_eq_getD_getElem?,
      Array.getElem?_eq_none (Nat.le_of_not_lt outside)] at bodied
    contradiction
  have listed : id ∈ sections.map Section.fn := by
    rw [functions]
    exact List.mem_filter.mpr ⟨List.mem_range.mpr inside, bodied⟩
  exact List.mem_map.mp listed

/-- Every function with a body has a procedure in the code. -/
theorem generate_procedure (run : (generate options program).program? = some code) {id : FnId}
    (bodied : (program.function id).body.isSome = true) :
    ∃ index : Nat, code.text.entries.toList[index]?.map Entry.instr =
      some (.label (program.function id).linkName true) := by
  obtain ⟨s, generated, text, _, _⟩ := generate_ok run
  obtain ⟨s₀, s₁, sections, _, chain, functions, same, _⟩ := wholeProgram_chain generated
  obtain ⟨sec, member, rfl⟩ := exists_section functions bodied
  have among : sec.head ∈ code.text.code := by
    rw [text, same, chain.code]
    exact List.mem_append_right _ (List.mem_flatMap.mpr ⟨sec, member, List.mem_cons_self⟩)
  obtain ⟨index, found⟩ := List.mem_iff_getElem?.mp among
  refine ⟨index, ?_⟩
  rw [Stream.code] at found
  rw [found, Option.map_some, chain.labelled member]

/-- A function whose symbol is that of the entry point defines it a second time, so that no machine
takes the code. -/
theorem generate_start_twice (run : (generate options program).program? = some code) {id : FnId}
    (bodied : (program.function id).body.isSome = true)
    (same : (program.function id).linkName = "_start") (image : Image) :
    Image.ofProgram code ≠ .ok image := by
  intro laid
  obtain ⟨_, indexed, _, _, _⟩ := Image.ofProgram_ok laid
  have distinct : (definitions code.text.code).Nodup := (nodup_definitions indexed).1
  obtain ⟨s, generated, text, _, _⟩ := generate_ok run
  obtain ⟨s₀, s₁, sections, begun, chain, functions, kept, _⟩ := wholeProgram_chain generated
  obtain ⟨sec, member, rfl⟩ := exists_section functions bodied
  have procedure : "_start" ∈ definitions (sections.flatMap Section.entries) := by
    refine List.mem_filterMap.mpr ⟨sec.head, ?_, ?_⟩
    · exact List.mem_flatMap.mpr ⟨sec, member, List.mem_cons_self⟩
    · rw [chain.labelled member, same]
      rfl
  rw [text, kept, chain.code, definitions_append, (header_symbols begun).1] at distinct
  exact (List.nodup_cons.mp distinct).1 procedure

section Layout

variable (run : (generate options program).program? = some code)
  (bodied : ∀ c ∈ program.classes, ∀ id ∈ c.virtual, (program.function id).body.isSome = true)
  (symbolic : ∀ c ∈ program.classes, ∀ id ∈ c.virtual,
    isNumeral (program.function id).linkName = false)

include run bodied symbolic in
/-- A program that is generated is laid out exactly if no label is defined twice in its code. -/
theorem generate_laid_iff :
    (∃ image, Image.ofProgram code = .ok image) ↔ (definitions code.text.entries.toList).Nodup := by
  constructor
  · rintro ⟨image, laid⟩
    obtain ⟨_, indexed, _, _, _⟩ := Image.ofProgram_ok laid
    exact (nodup_definitions indexed).1
  · intro distinct
    obtain ⟨labels, indexed⟩ : ∃ labels, indexLabels 0 code.text.entries.toList ∅ = .ok labels :=
      exists_indexLabels distinct fun _ _ => Std.HashMap.getElem?_empty
    obtain ⟨s, _, _, contents⟩ := generate_items run
    have either : ∀ item ∈ items code.data.entries.toList,
        (∃ number text, item = textData number text) ∨
          ∃ c ∈ program.classes, item = methodTable program c := by
      intro item member
      rw [contents] at member
      rcases List.mem_append.mp member with member | member
      · obtain ⟨number, _, rfl⟩ := List.mem_mapIdx.mp member
        exact .inl ⟨number, _, rfl⟩
      · obtain ⟨c, among, rfl⟩ := List.mem_map.mp member
        exact .inr ⟨c, ⟨(List.mem_filter.mp among).1⟩, rfl⟩
    refine Image.exists_ofProgram indexed (fun item member => ?_) fun data item member => ?_
    · rcases either item member with ⟨number, text, rfl⟩ | ⟨c, _, rfl⟩
      · exact ⟨(Text.bytes text ++ [0]).length.toUInt64, by
          simp [itemSize, textData, valueWidth?, isTextDirective, textBytes?]⟩
      · exact ⟨_, rfl⟩
    · rcases either item member with ⟨number, text, rfl⟩ | ⟨c, among, rfl⟩
      · exact ⟨Text.bytes text ++ [0], by
          simp [itemBytes?, textData, valueWidth?, isTextDirective, textBytes?]⟩
      · refine exists_valueBytes? fun symbol listed => ?_
        obtain ⟨id, member, rfl⟩ := List.mem_map.mp listed
        obtain ⟨entry, labelled⟩ := generate_procedure run (bodied c among id member)
        have found := indexLabels_finds indexed labelled
        exact ⟨_, symbolValue?_of_label (symbolic c among id member) found⟩

end Layout

section Nodes

variable {d : Nat} {text other label label' : String} {type : TypeRef} {s final : State} {u : Unit}

/-- In the generation of a program a literal node of a text is evaluated, and its operand is the
address of a label. -/
def TextLabelled (program : TypedProgram) (options : Options) (text label : String) : Prop :=
  ∃ d type s s', Undertaken program options d (.item (.value (.lit ⟨.string, text⟩ type))) s ∧
    (lower (envAt program options d) (.lit ⟨.string, text⟩ type)).value s =
      .ok (.lit (.data label)) s'

/-- The text of a node is filed under the number of its label. -/
theorem Undertaken.filed
    (undertaken : Undertaken program options d (.item (.value (.lit ⟨.string, text⟩ type))) s)
    (ran : wholeProgram (.of program options) .initial = .ok u final) :
    ∃ number s', (lower (envAt program options d) (.lit ⟨.string, text⟩ type)).value s =
      .ok (.lit (.data (textLabel number))) s' ∧ final.texts[number]? = some text := by
  obtain ⟨_, reached, done, kept⟩ := undertaken.included u final ran
  obtain ⟨operand, s', evaluated, dropped⟩ := Success.bind_ok.mp done
  obtain ⟨_, rfl⟩ := Success.pure_ok.mp dropped
  have ofNode : (lower (envAt program options d) (.lit ⟨.string, text⟩ type)).value =
      literal ⟨.string, text⟩ := by
    rw [lower]
    rfl
  change (lower _ (.lit ⟨.string, text⟩ type)).value s = _ at evaluated
  obtain ⟨number, rfl, found⟩ := literal_ok (ofNode ▸ evaluated)
  obtain ⟨later, same⟩ := kept
  have inside := (List.getElem?_eq_some_iff.mp found).1
  exact ⟨number, s', evaluated, by rw [← same, List.getElem?_append_left inside, found]⟩

theorem TextLabelled.filed (labelled : TextLabelled program options text label)
    (ran : wholeProgram (.of program options) .initial = .ok u final) :
    ∃ number, label = textLabel number ∧ final.texts[number]? = some text := by
  obtain ⟨d, type, s, s', undertaken, evaluated⟩ := labelled
  obtain ⟨number, s₁, evaluated', found⟩ := undertaken.filed ran
  rw [evaluated] at evaluated'
  cases evaluated'
  exact ⟨number, rfl, found⟩

/-- Nodes have one label exactly if they have one text. -/
theorem TextLabelled.eq_iff (labelled : TextLabelled program options text label)
    (labelled' : TextLabelled program options other label') (distinct : final.texts.Nodup)
    (ran : wholeProgram (.of program options) .initial = .ok u final) :
    label = label' ↔ text = other := by
  obtain ⟨number, rfl, found⟩ := labelled.filed ran
  obtain ⟨number', rfl, found'⟩ := labelled'.filed ran
  constructor
  · intro same
    obtain rfl := textLabel_injective same
    exact Option.some.inj (found.symm.trans found')
  · rintro rfl
    obtain ⟨inside, here⟩ := List.getElem?_eq_some_iff.mp found
    obtain ⟨inside', there⟩ := List.getElem?_eq_some_iff.mp found'
    exact congrArg textLabel (distinct.getElem_inj_iff.mp (here.trans there.symm))

end Nodes

/-- The data of a program that is generated is what the source says.  Literal nodes of texts have
one label exactly if they have one text, and each label is defined once in its section.  The items
lie apart from each other at multiples of eight bytes.  At the label of a text are its bytes and a
zero byte, and the words of a method table are the addresses of the procedures of the virtual
methods. -/
theorem generate_lays_data (run : (generate options program).program? = some code)
    (laid : Image.ofProgram code = .ok image)
    (unique : (program.classes.toList.map Class.name).Nodup)
    (bodied : ∀ c ∈ program.classes, ∀ id ∈ c.virtual, (program.function id).body.isSome = true)
    (symbolic : ∀ c ∈ program.classes, ∀ id ∈ c.virtual,
      isNumeral (program.function id).linkName = false)
    (room : dataSize code < (heapBase - dataBase).toNat) :
    (∀ d text type s,
      Undertaken program options.normalize d (.item (.value (.lit ⟨.string, text⟩ type))) s →
      ∃ label s', (lower (envAt program options.normalize d) (.lit ⟨.string, text⟩ type)).value s =
        .ok (.lit (.data label)) s') ∧
    (∀ text label other label', TextLabelled program options.normalize text label →
      TextLabelled program options.normalize other label' → (label = label' ↔ text = other)) ∧
    ((items code.data.entries.toList).map DataItem.label).Nodup ∧
    (definitions code.text.entries.toList).Nodup ∧
    (∃ placed : List (UInt64 × DataItem),
      placed.map Prod.snd = items code.data.entries.toList ∧
      (∀ item ∈ placed, image.data[item.2.label]? = some item.1 ∧ item.1.toNat % 8 = 0) ∧
      placed.Pairwise fun first second => ∀ byte, Inside first byte → ¬ Inside second byte) ∧
    (∀ text label, TextLabelled program options.normalize text label →
      ∃ address, image.data[label]? = some address ∧
        image.memory.Holds address (Text.bytes text ++ [0])) ∧
    ∀ c ∈ program.classes, ∀ index id, c.virtual[index]? = some id →
      ∃ address, image.data[c.vtableLabel]? = some address ∧
        ∃ entry : Nat, code.text.entries[entry]?.map Entry.instr =
            some (.label (program.function id).linkName true) ∧
          image.memory.load (address + .ofNat (8 * index)) 8 = codeBase + .ofNat entry := by
  obtain ⟨final, generated, distinct, contents⟩ := generate_items run
  have labels : ((items code.data.entries.toList).map DataItem.label).Nodup := by
    rw [contents]
    exact nodup_labels final.texts unique
  obtain ⟨placed, lays⟩ := Image.lays_ofProgram labels room laid
  obtain ⟨_, indexed, _, _, _⟩ := Image.ofProgram_ok laid
  refine ⟨?_, ?_, labels, (nodup_definitions indexed).1, ⟨placed, lays.items, ?_, lays.apart⟩, ?_,
    ?_⟩
  · intro d text type s undertaken
    obtain ⟨number, s', evaluated, _⟩ := undertaken.filed generated
    exact ⟨textLabel number, s', evaluated⟩
  · intro text label other label' labelled labelled'
    exact labelled.eq_iff labelled' distinct generated
  · intro item member
    exact ⟨lays.addresses item member, (lays.lies item member).aligned⟩
  · intro text label labelled
    obtain ⟨number, rfl, found⟩ := labelled.filed generated
    refine lays.text (List.mem_iff_getElem?.mpr ⟨number, ?_⟩)
    have inside := (List.getElem?_eq_some_iff.mp found).1
    rw [contents, List.getElem?_append_left (by rwa [List.length_mapIdx]), List.getElem?_mapIdx,
      found]
    rfl
  · intro c member index id listed
    have among : id ∈ c.virtual := List.mem_of_getElem? listed
    obtain ⟨entry, labelled⟩ := generate_procedure run (bodied c member id among)
    have virtual : c.hasVTable = true := by
      cases methods : c.virtual with
      | nil => simp [methods] at among
      | cons _ _ => simp [Class.hasVTable, methods]
    have item : methodTable program c ∈ items code.data.entries.toList := by
      rw [contents]
      exact List.mem_append_right _
        (List.mem_map_of_mem (List.mem_filter.mpr ⟨member.val, virtual⟩))
    obtain ⟨address, found, word⟩ := lays.word item
      (by rw [List.getElem?_map, listed]; rfl) (symbolic c member id among)
      (lays.labels _ _ _ labelled)
    exact ⟨address, found, entry, by rwa [← Array.getElem?_toList], word⟩

/-- A program with a text and a virtual method. -/
def greeting : TypedProgram :=
  .ofParts "Main" #[{ (default : Tree.Class) with name := "P", virtual := [1] }]
    #[{ (default : Function) with
        name := "Main"
        returnType := .int
        mods := { Mods.none with isStatic := true }
        body := some [.expr (.lit ⟨.string, "hi"⟩ .string), .ret (.lit (.ofInt 0) .int)] },
      { (default : Function) with
        name := "m"
        owner := "P"
        returnType := .int
        mods := { Mods.none with isVirtual := true }
        body := some [.ret (.lit (.ofInt 7) .int)] }]

theorem greeting_textLabelled : TextLabelled greeting .default "hi" ".S0" := by
  let body : List Stmt := [.expr (.lit ⟨.string, "hi"⟩ .string), .ret (.lit (.ofInt 0) .int)]
  let value := (lower (envAt greeting .default Options.default.inlineDepth.toNat)
    (.lit ⟨.string, "hi"⟩ .string)).value
  let computation : Gen Unit := do
    upToBody greeting .default 0
    let operand ← value
    if operand = .lit (.data ".S0") then pure () else throw .poolExhausted
  have succeeds : Success.succeeds (computation .initial) = true := by decide +kernel
  obtain ⟨_, _, ran⟩ := Success.exists_of_succeeds succeeds
  obtain ⟨_, s, began, ran⟩ := Success.bind_ok.mp ran
  obtain ⟨operand, s', evaluated, ran⟩ := Success.bind_ok.mp ran
  rw [Success.ite_apply] at ran
  split at ran
  · rename_i outcome
    obtain rfl := outcome
    have begins : Begins greeting .default 0 body s :=
      ⟨by decide +kernel, by with_unfolding_all rfl, began⟩
    have first : Undertaken greeting .default _ (.stmt (.expr (.lit ⟨.string, "hi"⟩ .string))) s :=
      .step (.start begins) (.call .first trivial rfl)
    exact ⟨_, _, s, s', .step first (.call .expr trivial rfl), evaluated⟩
  · simp at ran

theorem greeting_lays_data : ∃ code image, (generate .default greeting).program? = some code ∧
    Image.ofProgram code = .ok image ∧ TextLabelled greeting .default "hi" ".S0" ∧
    (∃ address, image.data[".S0"]? = some address ∧ image.memory.Holds address [104, 105, 0]) ∧
    ∃ address, image.data["P.vtable"]? = some address ∧
      ∃ entry : Nat, code.text.entries[entry]?.map Entry.instr = some (.label "P.m" true) ∧
        image.memory.load (address + .ofNat (8 * 0)) 8 = codeBase + .ofNat entry := by
  have bodied : ∀ c ∈ greeting.classes, ∀ id ∈ c.virtual,
      (greeting.function id).body.isSome = true := by decide +kernel
  have symbolic : ∀ c ∈ greeting.classes, ∀ id ∈ c.virtual,
      isNumeral (greeting.function id).linkName = false := by decide +kernel
  have fits : ((generate .default greeting).program?.any fun code =>
      decide (definitions code.text.entries.toList).Nodup &&
        decide (dataSize code < (heapBase - dataBase).toNat)) = true := by decide +kernel
  obtain ⟨code, run, both⟩ := (Option.any_eq_true _ _).mp fits
  simp only [Bool.and_eq_true, decide_eq_true_eq] at both
  obtain ⟨image, laid⟩ := (generate_laid_iff run bodied symbolic).mpr both.1
  obtain ⟨_, _, _, _, _, texts, words⟩ := generate_lays_data run laid (by decide +kernel) bodied
    symbolic both.2
  have letters : Text.bytes "hi" ++ [0] = [104, 105, 0] := by decide +kernel
  refine ⟨code, image, run, laid, greeting_textLabelled, ?_, ?_⟩
  · rw [← letters]
    exact texts "hi" ".S0" greeting_textLabelled
  · have table : (greeting.cls 0).vtableLabel = "P.vtable" := by decide +kernel
    have method : (greeting.function 1).linkName = "P.m" := by decide +kernel
    have word := words (greeting.cls 0) (by decide +kernel) 0 1 (by decide +kernel)
    rw [table, method] at word
    exact word

end Lower

end X64Backend
