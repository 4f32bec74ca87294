import X64Backend.Proofs.Lower.Labels
import X64Backend.Proofs.Tree.Names

/-!
The symbols of a program, over its code and its data.  Local labels and the labels of texts begin
with a dot, which no name does.  The symbol of a method and the label of a method table are both an
owner and a name, so these are told apart as long as no method has the name of the table.
-/

namespace X64Backend

@[simp]
theorem symbols_append (front back : List Entry) :
    symbols (front ++ back) = symbols front ++ symbols back :=
  List.filterMap_append

/-- The symbols of entries are those of their instructions. -/
theorem symbols_eq (entries : List Entry) :
    symbols entries = (entries.map Entry.instr).filterMap Instr.symbol? := by
  rw [List.filterMap_map]
  rfl

/-- Every symbol that a program defines. -/
def Program.symbols (code : Program) : List String :=
  X64Backend.symbols code.text.code ++ X64Backend.symbols code.data.code

/-- A symbol that begins with a dot. -/
def Dotted (symbol : String) : Prop :=
  symbol.toList.head? = some '.'

instance (symbol : String) : Decidable (Dotted symbol) :=
  inferInstanceAs (Decidable (symbol.toList.head? = some '.'))

namespace Tree

variable {classes : Array Class} {functions : Array Function}

theorem IsName.not_dotted {name : String} (isName : IsName name) (rest : List Char) :
    (name.toList ++ rest).head? ≠ some '.' := by
  obtain ⟨first, others, same⟩ := List.exists_cons_of_ne_nil isName.inhabited
  rw [same]
  intro dotted
  have dot : first = '.' := Option.some.inj dotted
  exact isName.dotless (by rw [same, dot]; exact List.mem_cons_self)

theorem Function.Named.not_dotted {fn : Function} (named : fn.Named) : ¬ Dotted fn.linkName := by
  unfold Dotted
  rw [linkName_eq, String.toList_append]
  by_cases free : fn.owner = ""
  · rw [toList_qualifiedName_free free]
    exact named.name.not_dotted _
  · rw [toList_qualifiedName_owned free, List.append_assoc]
    exact (named.owner.resolve_left free).not_dotted _

theorem Class.toList_vtableLabel (c : Class) :
    c.vtableLabel.toList = c.name.toList ++ '.' :: "vtable".toList := by
  rw [vtableLabel, String.toList_append]
  rfl

/-- A function whose symbol is the label of a method table is owned by the class, is no overload and
has the name of the table. -/
theorem Function.Named.eq_vtable {fn : Function} {c : Class} (named : fn.Named)
    (isName : IsName c.name) (same : fn.linkName = c.vtableLabel) :
    fn.owner = c.name ∧ fn.name = "vtable" := by
  have spelled := congrArg String.toList same
  rw [linkName_eq, String.toList_append, c.toList_vtableLabel] at spelled
  have alone : fn.linkSuffix.toList = [] := by
    refine fn.toList_linkSuffix.resolve_right ?_
    rintro ⟨digits, hash⟩
    have member : '$' ∈ c.name.toList ++ '.' :: "vtable".toList := by
      rw [← spelled, hash]
      exact List.mem_append_right _ List.mem_cons_self
    rcases List.mem_append.mp member with early | late
    · exact isName.plain early
    · exact absurd late (by decide)
  rw [alone, List.append_nil] at spelled
  by_cases free : fn.owner = ""
  · rw [toList_qualifiedName_free free] at spelled
    exact absurd (spelled ▸ List.mem_append_right _ List.mem_cons_self) named.name.dotless
  · rw [toList_qualifiedName_owned free] at spelled
    obtain ⟨owner, name⟩ := append_separator_inj (named.owner.resolve_left free).dotless
      isName.dotless spelled
    exact ⟨String.toList_inj.mp owner, String.toList_inj.mp name⟩

theorem Class.vtableLabel_dotted (c : Class) : '.' ∈ c.vtableLabel.toList := by
  rw [c.toList_vtableLabel]
  exact List.mem_append_right _ List.mem_cons_self

theorem Class.not_dotted_vtableLabel {c : Class} (isName : IsName c.name) :
    ¬ Dotted c.vtableLabel := by
  unfold Dotted
  rw [c.toList_vtableLabel]
  exact isName.not_dotted _

/-- Tables of classes with different names have different labels. -/
theorem nodup_vtableLabels {classes : List Class} (unique : (classes.map Class.name).Nodup) :
    (classes.map Class.vtableLabel).Nodup := by
  have labels : classes.map Class.vtableLabel =
      (classes.map Class.name).map fun name => name ++ ".vtable" := by
    rw [List.map_map]
    rfl
  rw [labels]
  refine unique.map fun name other same => ?_
  have spelled := congrArg String.toList same
  simp only [String.toList_append] at spelled
  exact String.toList_inj.mp (List.append_cancel_right spelled)

/-- A symbol without the signs that symbols are put together with is the name of its function. -/
theorem Function.linkName_eq_name {fn : Function} (dotless : '.' ∉ fn.linkName.toList)
    (plain : '$' ∉ fn.linkName.toList) : fn.linkName = fn.name := by
  rw [linkName_eq, String.toList_append] at dotless plain
  have free : fn.owner = "" := by
    by_contra owned
    refine dotless (List.mem_append_left _ ?_)
    rw [toList_qualifiedName_owned owned]
    exact List.mem_append_right _ List.mem_cons_self
  have alone : fn.linkSuffix.toList = [] := by
    refine fn.toList_linkSuffix.resolve_right ?_
    rintro ⟨digits, hash⟩
    exact plain (List.mem_append_right _ (hash ▸ List.mem_cons_self))
  refine String.toList_inj.mp ?_
  rw [linkName_eq, String.toList_append, alone, List.append_nil, toList_qualifiedName_free free]

/-- The names of a program as its symbols need them: different classes, functions that symbols tell
apart, and no method with the name of the table of its class. -/
structure Distinct (classes : Array Class) (functions : Array Function) : Prop where
  classNames : ∀ c ∈ classes, IsName c.name
  unique : (classes.toList.map Class.name).Nodup
  functionNames : ∀ fn ∈ functions, fn.Named
  apart : functions.toList.Pairwise Function.Apart
  start : ∀ fn ∈ functions, fn.name ≠ "_start"
  tables : ∀ c ∈ classes, c.hasVTable = true → ∀ fn ∈ functions,
    fn.owner = c.name → fn.name ≠ "vtable"

end Tree

namespace Lower

open X64Backend.Tree

variable {program : TypedProgram} {options : Options}

theorem textLabel_injective {number other : Nat} (same : textLabel number = textLabel other) :
    number = other := by
  have spelled := congrArg String.toList same
  simp only [textLabel, String.toList_append] at spelled
  have digits := List.append_cancel_left spelled
  refine localLabel_injective (String.toList_inj.mp ?_)
  rw [localLabel, localLabel, String.toList_append, String.toList_append, digits]

theorem not_isLocal_textLabel (number : Nat) : ¬ IsLocal (textLabel number) := by
  rintro ⟨rest, same⟩
  rw [textLabel, String.toList_append] at same
  cases same

theorem dotted_textLabel (number : Nat) : Dotted (textLabel number) := by
  rw [Dotted, textLabel, String.toList_append]
  rfl

theorem IsLocal.dotted {label : String} (isLocal : IsLocal label) : Dotted label := by
  obtain ⟨rest, same⟩ := isLocal
  rw [Dotted, ← same]
  rfl

/-- The texts that have been filed are labelled with their numbers. -/
theorem State.Filed.symbols {s : State} (filed : s.Filed) :
    symbols s.data.code = (List.range s.texts.length).map textLabel := by
  rw [symbols_eq, Stream.code, filed.1, List.mapIdx_eq_zipIdx_map, List.filterMap_map,
    List.range_eq_range', ← List.zipIdx_map_snd, List.map_map, ← List.filterMap_eq_map]
  rfl

/-- Where there are no items of data, the symbols are the labels. -/
theorem symbols_eq_definitions {code : List Entry}
    (coded : ∀ entry ∈ code, ∀ item, entry.instr ≠ .data item) :
    symbols code = definitions code := by
  refine List.filterMap_congr fun entry member => ?_
  cases same : entry.instr with
  | data item => exact absurd same (coded entry member item)
  | _ => rfl

/-- No item of data stands in the code of a procedure. -/
theorem Generated.coded {s s' : State} {sec : Section} {c : Config} {frame : Frame}
    {unclosed : List Entry} (generated : Generated program options s sec s' c frame unclosed) :
    ∀ entry ∈ sec.entries, ∀ item, entry.instr ≠ .data item := by
  obtain ⟨base, covering⟩ := generated.covering
  intro entry member item
  have framing : ∀ instr ∈ sec.prologue.map Entry.instr ++ sec.epilogue.map Entry.instr,
      instr ≠ .data item := by
    intro instr among
    rw [generated.prologue, generated.epilogue] at among
    obtain ⟨⟨op, proper⟩, _⟩ := FramePlan.proper _ among
    rintro rfl
    cases proper
  rcases List.mem_cons.mp member with rfl | member
  · rw [generated.head]
    simp
  · rcases List.mem_append.mp member with member | member
    · rcases List.mem_append.mp member with member | member
      · exact framing _ (List.mem_append_left _ (List.mem_map_of_mem member))
      · rcases generated.closed.mem member with before | label
        · exact (covering.covered entry before).coded item
        · rw [label]
          simp
    · exact framing _ (List.mem_append_right _ (List.mem_map_of_mem member))

theorem Chain.coded {s s' : State} {sections : List Section}
    (chain : Chain program options s sections s') :
    ∀ entry ∈ sections.flatMap Section.entries, ∀ item, entry.instr ≠ .data item := by
  induction chain with
  | nil => simp
  | cons generated _ inductionHypothesis =>
      intro entry member
      rw [List.flatMap_cons] at member
      rcases List.mem_append.mp member with first | later
      · exact generated.coded entry first
      · exact inductionHypothesis entry later

/-- The labels of procedures, without those of their bodies. -/
theorem Chain.procedures {s s' : State} {sections : List Section}
    (chain : Chain program options s sections s')
    (foreign : ∀ id, ¬ IsLocal (program.function id).linkName)
    (straight : ∀ instr, program.Asks instr → instr.target? = none) :
    (definitions (sections.flatMap Section.entries)).filter (fun label => !IsLocal label) =
      sections.map fun sec => (program.function sec.fn).linkName := by
  induction chain with
  | nil => rfl
  | @cons s s₁ s' sec rest c frame unclosed generated _ inductionHypothesis =>
      have inner : (definitions sec.body).filter (fun label => !IsLocal label) = [] := by
        rw [List.filter_eq_nil_iff]
        intro label member
        obtain ⟨number, _, _, rfl⟩ := (generated.tight foreign straight).2.fresh label member
        simpa using isLocal_localLabel number
      rw [List.flatMap_cons, definitions_append, generated.definitions_entries,
        List.filter_append, List.filter_cons_of_pos (by simpa using foreign sec.fn), inner,
        inductionHypothesis]
      rfl

/-- The code in front of the procedures defines the entry point only, and files no text. -/
theorem header_symbols {s : State} (run : (do
      emit [.sectionName ".text", .globalName "_start"]
      entryPoint (.of program options) : Gen Unit) .initial = .ok () s) :
    definitions s.draft.text.code = ["_start"] ∧ symbols s.draft.text.code = ["_start"] ∧
      s.Filed := by
  obtain ⟨_, _, emitted, run⟩ := Success.bind_ok.mp run
  obtain rfl := Success.modify_ok.mp emitted
  unfold entryPoint at run
  obtain ⟨_, _, started, run⟩ := Success.bind_ok.mp run
  obtain rfl := Success.modify_ok.mp started
  dsimp only [Env.of] at run
  generalize program.lookup _ = known at run
  cases known with
  | some fn =>
      obtain rfl := Success.modify_ok.mp run
      exact ⟨rfl, rfl, rfl, List.nodup_nil⟩
  | none =>
      obtain ⟨_, _, logged, run⟩ := Success.bind_ok.mp run
      obtain ⟨draft, traced, rfl⟩ := drafting_ok.mp logged
      obtain rfl := Success.modify_ok.mp traced
      obtain rfl := Success.modify_ok.mp run
      exact ⟨rfl, rfl, rfl, List.nodup_nil⟩

/-- The data of a program are its texts and its method tables. -/
theorem code_withTables (data : Stream) (tables : List Instr) :
    (withTables data tables).code.map Entry.instr =
      (if data.size = 0 && tables.isEmpty then [] else [.sectionName ".data"]) ++
        data.code.map Entry.instr ++ tables := by
  unfold withTables
  split
  · rename_i none
    simp only [Bool.and_eq_true, decide_eq_true_eq, List.isEmpty_iff] at none
    rw [none.2, List.append_nil, List.nil_append]
  · obtain ⟨head, inserted, ofHead⟩ := Stream.code_insert [.sectionName ".data"]
      (List.nil_append data.code).symm
    obtain ⟨added, appended, ofTables⟩ := Stream.code_append (data.insert 0 [.sectionName ".data"])
      tables
    have same : (data.insert 0 [.sectionName ".data"]).code = [] ++ head ++ data.code := inserted
    rw [appended, same, List.map_append, List.map_append, ofTables, List.nil_append, ofHead]

theorem symbols_withTables (data : Stream) (tables : List Instr) :
    symbols (withTables data tables).code =
      symbols data.code ++ tables.filterMap Instr.symbol? := by
  rw [symbols_eq, symbols_eq, code_withTables, List.filterMap_append, List.filterMap_append]
  split
  · rfl
  · rfl

theorem symbols_methodTables (program : TypedProgram) :
    (methodTables program).filterMap Instr.symbol? =
      (program.classes.toList.filter Class.hasVTable).map Class.vtableLabel := by
  unfold methodTables
  rw [List.filterMap_map]
  exact congrFun (List.filterMap_eq_map (f := Class.vtableLabel)) _

/-- The symbols of a program that is generated, by their kind: the entry point, the procedures, the
labels in their bodies, the texts and the method tables. -/
theorem generate_symbols {code : Program}
    (foreign : ∀ fn ∈ program.functions, ¬ IsLocal fn.linkName)
    (dispatched : ∀ block, program.Contains block → block.Dispatched)
    (run : (generate options program).program? = some code) :
    ∃ locals texts, locals.Nodup ∧ (∀ label ∈ locals, IsLocal label) ∧
      code.symbols.Perm (locals ++ (List.range texts).map textLabel ++ ("_start" ::
        (definedAmong program (List.range program.functions.size)).map
          (fun id => (program.function id).linkName) ++
        (program.classes.toList.filter Class.hasVTable).map Class.vtableLabel)) := by
  obtain ⟨s, generated, text, _, data⟩ := generate_ok run
  obtain ⟨s₀, s₁, sections, begun, chain, functions, same, _, _, tables⟩ :=
    wholeProgram_chain generated
  have foreign' := not_isLocal_linkName foreign
  have straight : ∀ instr, program.Asks instr → instr.target? = none :=
    fun instr asks => straight_of_asks dispatched asks
  obtain ⟨_, nodup, fresh, all, _⟩ := chain.tight foreign' straight
  have procedures := chain.procedures foreign' straight
  obtain ⟨_, start, filed⟩ := header_symbols begun
  refine ⟨sections.flatMap fun sec => definitions sec.body, s₁.texts.length, nodup, ?_, ?_⟩
  · intro label member
    obtain ⟨number, _, _, rfl⟩ := fresh label member
    exact isLocal_localLabel number
  · have labels : (definitions (sections.flatMap Section.entries)).Perm
        ((sections.flatMap fun sec => definitions sec.body) ++
          (definedAmong program (List.range program.functions.size)).map
            fun id => (program.function id).linkName) := by
      rw [← functions, List.map_map, ← all]
      have named : sections.map ((fun id => (program.function id).linkName) ∘ Section.fn) =
          (definitions (sections.flatMap Section.entries)).filter
            (fun label => !IsLocal label) := procedures.symm
      rw [named]
      exact (List.filter_append_perm _ _).symm
    have ofText : symbols code.text.code =
        "_start" :: definitions (sections.flatMap Section.entries) := by
      rw [text, same, chain.code, symbols_append, start, symbols_eq_definitions chain.coded]
      rfl
    have ofData : symbols code.data.code = (List.range s₁.texts.length).map textLabel ++
        (program.classes.toList.filter Class.hasVTable).map Class.vtableLabel := by
      rw [data, tables, symbols_withTables, symbols_methodTables]
      exact congrArg (· ++ _) (chain.filed filed).symbols
    rw [Program.symbols, ofText, ofData]
    refine List.perm_iff_count.mpr fun symbol => ?_
    have counted := labels.count_eq symbol
    simp only [List.count_append, List.count_cons] at counted ⊢
    omega

section Program

variable {entry : String} {classes : Array Tree.Class} {functions : Array Function} {code : Program}

theorem size_ofParts :
    (TypedProgram.ofParts entry classes functions).functions.size = functions.size := by
  simp [TypedProgram.ofParts, TypedProgram.markOverloads]

/-- The symbol of a function of a program that was put together. -/
theorem linkName_mem_ofParts {fn : Function}
    (member : fn ∈ (TypedProgram.ofParts entry classes functions).functions) :
    ∃ part ∈ functions, fn.linkName = (TypedProgram.marked functions part).linkName := by
  obtain ⟨id, inside, rfl⟩ := Array.mem_iff_getElem.mp member
  have inside' : id < functions.size := size_ofParts ▸ inside
  refine ⟨functions[id], Array.getElem_mem inside', ?_⟩
  rw [← TypedProgram.linkName_function_ofParts inside', TypedProgram.function,
    Array.getD_eq_getD_getElem?, Array.getElem?_eq_getElem inside]
  rfl

/-- The symbols of the procedures of a program that was put together. -/
def procedureSymbols (entry : String) (classes : Array Tree.Class) (functions : Array Function) :
    List String :=
  (definedAmong (.ofParts entry classes functions)
    (List.range (TypedProgram.ofParts entry classes functions).functions.size)).map
      fun id => ((TypedProgram.ofParts entry classes functions).function id).linkName

theorem mem_procedureSymbols {symbol : String}
    (member : symbol ∈ procedureSymbols entry classes functions) :
    ∃ part ∈ functions, symbol = (TypedProgram.marked functions part).linkName := by
  obtain ⟨id, among, rfl⟩ := List.mem_map.mp member
  have inside : id < functions.size := by
    rw [← size_ofParts]
    exact List.mem_range.mp (List.mem_of_mem_filter among)
  exact ⟨functions[id], Array.getElem_mem inside, TypedProgram.linkName_function_ofParts inside⟩

theorem nodup_procedureSymbols (distinct : Distinct classes functions) :
    (procedureSymbols entry classes functions).Nodup := by
  refine List.Nodup.map_on ?_ (List.nodup_range.filter _)
  intro id member other member' same
  have inside : ∀ {id}, id ∈ definedAmong (.ofParts entry classes functions)
      (List.range (TypedProgram.ofParts entry classes functions).functions.size) →
      id < functions.size := by
    intro id member
    rw [← size_ofParts]
    exact List.mem_range.mp (List.mem_of_mem_filter member)
  exact TypedProgram.linkName_ofParts_inj distinct.functionNames distinct.apart (inside member)
    (inside member') same

/-- The entry point, the procedures and the method tables have different symbols. -/
theorem nodup_names (distinct : Distinct classes functions) :
    ("_start" :: procedureSymbols entry classes functions ++
      (classes.toList.filter Class.hasVTable).map Class.vtableLabel).Nodup := by
  have named : ∀ part ∈ functions, (TypedProgram.marked functions part).Named :=
    fun part among => TypedProgram.named_marked (distinct.functionNames part among)
  have tables : ((classes.toList.filter Class.hasVTable).map Class.vtableLabel).Nodup :=
    nodup_vtableLabels ((List.filter_sublist.map Class.name).nodup distinct.unique)
  rw [List.nodup_append, List.nodup_cons]
  refine ⟨⟨?_, nodup_procedureSymbols distinct⟩, tables, ?_⟩
  · intro member
    obtain ⟨part, among, same⟩ := mem_procedureSymbols member
    refine distinct.start part among ?_
    change (TypedProgram.marked functions part).name = "_start"
    rw [← Function.linkName_eq_name (same ▸ by decide) (same ▸ by decide), ← same]
  · rintro symbol early _ late rfl
    obtain ⟨c, member, rfl⟩ := List.mem_map.mp late
    obtain ⟨among, hasTable⟩ := List.mem_filter.mp member
    have among := Array.mem_toList_iff.mp among
    rcases List.mem_cons.mp early with start | early
    · exact absurd (start ▸ c.vtableLabel_dotted) (by decide)
    · obtain ⟨part, ofPart, same⟩ := mem_procedureSymbols early
      obtain ⟨owner, name⟩ := (named part ofPart).eq_vtable (distinct.classNames c among) same.symm
      exact distinct.tables c among hasTable part ofPart owner name

/-- Every symbol of a program that is generated is defined once, over its code and its data. -/
theorem generate_symbols_nodup (distinct : Distinct classes functions)
    (dispatched : ∀ block, (TypedProgram.ofParts entry classes functions).Contains block →
      block.Dispatched)
    (run : (generate options (.ofParts entry classes functions)).program? = some code) :
    code.symbols.Nodup := by
  have named : ∀ part ∈ functions, ¬ Dotted (TypedProgram.marked functions part).linkName :=
    fun part among =>
      (TypedProgram.named_marked (distinct.functionNames part among)).not_dotted
  have foreign : ∀ fn ∈ (TypedProgram.ofParts entry classes functions).functions,
      ¬ IsLocal fn.linkName := by
    intro fn member isLocal
    obtain ⟨part, among, same⟩ := linkName_mem_ofParts member
    exact named part among (same ▸ isLocal.dotted)
  obtain ⟨locals, texts, nodup, allLocal, kinds⟩ := generate_symbols foreign dispatched run
  rw [kinds.nodup_iff, List.nodup_append]
  refine ⟨?_, nodup_names distinct, ?_⟩
  · rw [List.nodup_append]
    refine ⟨nodup, List.nodup_range.map fun _ _ => textLabel_injective, ?_⟩
    rintro label early _ late rfl
    obtain ⟨number, _, same⟩ := List.mem_map.mp late
    exact not_isLocal_textLabel number (same ▸ allLocal label early)
  · rintro symbol early _ late rfl
    have dotted : Dotted symbol := by
      rcases List.mem_append.mp early with early | early
      · exact (allLocal symbol early).dotted
      · obtain ⟨number, _, rfl⟩ := List.mem_map.mp early
        exact dotted_textLabel number
    rcases List.mem_append.mp late with late | late
    · rcases List.mem_cons.mp late with rfl | late
      · exact absurd dotted (by decide)
      · obtain ⟨part, among, same⟩ := mem_procedureSymbols late
        exact named part among (same ▸ dotted)
    · obtain ⟨c, member, rfl⟩ := List.mem_map.mp late
      have among := Array.mem_toList_iff.mp (List.mem_of_mem_filter member)
      exact Class.not_dotted_vtableLabel (distinct.classNames c among) dotted

end Program

/-- A function whose symbol is the label of a method table defines it a second time, so that the
address of the one is taken for that of the other. -/
theorem generate_vtable_twice {code : Program} {c : Tree.Class} {id : FnId}
    (foreign : ∀ fn ∈ program.functions, ¬ IsLocal fn.linkName)
    (dispatched : ∀ block, program.Contains block → block.Dispatched)
    (run : (generate options program).program? = some code) (member : c ∈ program.classes)
    (hasTable : c.hasVTable = true) (inside : id < program.functions.size)
    (defined : (program.function id).body.isSome = true)
    (same : (program.function id).linkName = c.vtableLabel) :
    2 ≤ code.symbols.count c.vtableLabel := by
  obtain ⟨locals, texts, _, _, kinds⟩ := generate_symbols foreign dispatched run
  have procedure : 0 < ((definedAmong program (List.range program.functions.size)).map
      fun id => (program.function id).linkName).count c.vtableLabel := by
    refine List.count_pos_iff.mpr (List.mem_map.mpr ⟨id, ?_, same⟩)
    exact List.mem_filter.mpr ⟨List.mem_range.mpr inside, defined⟩
  have table : 0 < ((program.classes.toList.filter Class.hasVTable).map
      Class.vtableLabel).count c.vtableLabel := by
    refine List.count_pos_iff.mpr (List.mem_map_of_mem ?_)
    exact List.mem_filter.mpr ⟨Array.mem_toList_iff.mpr member, hasTable⟩
  rw [kinds.count_eq]
  simp only [List.count_append, List.count_cons]
  omega

/-- A class with a method that has the name of its method table. -/
def tableMethod : TypedProgram :=
  .ofParts "Main"
    #[{ (default : Tree.Class) with name := "P", virtual := [0] }]
    #[{ (default : Function) with
        name := "vtable"
        owner := "P"
        returnType := .int
        mods := { Mods.none with isVirtual := true }
        body := some [.ret (.lit (.ofInt 7) .int)] }]

example : ((generate .default tableMethod).program?.map fun code =>
    code.symbols.count "P.vtable") = some 2 := by
  decide +kernel

end Lower

end X64Backend
