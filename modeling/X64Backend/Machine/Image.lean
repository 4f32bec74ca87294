import X64Backend.Code.Listing
import X64Backend.Machine.Memory

/-!
A program as the machine sees it: its code, the index of every label, and its data laid out in
memory.  Items of data start at multiples of eight bytes.
-/

namespace X64Backend.Machine

/-- The address of the first instruction; every instruction takes one address. -/
def codeBase : UInt64 := 0x400000

def dataBase : UInt64 := 0x600000

/-- The address of the first page handed out to the program. -/
def heapBase : UInt64 := 0x10000000

def stackTop : UInt64 := 0x7FFFF000

/-- The return address of the outermost call. -/
def returnSentinel : UInt64 := 0xDEADBEE0

def pageSize : UInt64 := 4096

structure Image where
  timeline : Timeline
  code : Array Entry
  labels : Std.HashMap String Nat
  data : Std.HashMap String UInt64
  /-- The memory at the start, which holds the data. -/
  memory : Memory

inductive LayoutFault where
  | duplicateLabel (name : String)
  | badText (label : String)
  | zeroArity (label : String)
  | zeroCount (refusal : Numeral.Refusal)
  | unsupported (label directive : String)
  | symbol (label value : String)
  deriving DecidableEq, Repr

def LayoutFault.message : LayoutFault → String
  | duplicateLabel name => "duplicate label " ++ Text.quote name
  | badText label => "data " ++ label ++ ": invalid syntax"
  | zeroArity label => "data " ++ label ++ ": .zero takes one value"
  | zeroCount refusal => refusal.message
  | unsupported label directive => "data " ++ label ++ ": unsupported directive " ++ directive
  | symbol label value => "data " ++ label ++ ": unknown symbol " ++ Text.quote value

/-- The value of a number, a code label or a data label, looked for in this order. -/
def symbolValue? (labels : Std.HashMap String Nat) (data : Std.HashMap String UInt64)
    (symbol : String) : Option UInt64 :=
  match Numeral.readSigned .byLead symbol, Numeral.readUnsigned .byLead symbol with
  | .ok value, _ => some (Literal.wordOfInt value)
  | .error _, .ok value => some value
  | .error _, .error _ =>
      match labels[symbol]?, data[symbol]? with
      | some index, _ => some (codeBase + index.toUInt64)
      | none, address => address

/-- The indices of the labels in a list of entries; no name may occur twice. -/
def indexLabels : (index : Nat) → List Entry → Std.HashMap String Nat →
    Except LayoutFault (Std.HashMap String Nat)
  | _, [], labels => .ok labels
  | index, entry :: rest, labels =>
      match entry.instr with
      | .label name _ =>
          if labels.contains name then .error (.duplicateLabel name)
          else indexLabels (index + 1) rest (labels.insert name index)
      | _ => indexLabels (index + 1) rest labels

def valueWidth? : String → Option Nat
  | ".quad" => some 8
  | ".long" => some 4
  | ".byte" => some 1
  | _ => none

/-- Whether a directive lays out texts, each closed by a zero byte. -/
def isTextDirective (directive : String) : Bool :=
  directive = ".asciz" || directive = ".string"

def textBytes? : List String → Option (List UInt8)
  | [] => some []
  | value :: rest => do
      let front ← Text.unquote? value
      return front ++ 0 :: (← textBytes? rest)

def itemSize (item : DataItem) : Except LayoutFault UInt64 :=
  match valueWidth? item.directive with
  | some width => .ok (width * item.values.length).toUInt64
  | none =>
      if isTextDirective item.directive then
        match textBytes? item.values with
        | some bytes => .ok bytes.length.toUInt64
        | none => .error (.badText item.label)
      else if item.directive = ".zero" then
        match item.values with
        | [count] =>
            match Numeral.readUnsigned .byLead count with
            | .ok size => .ok size
            | .error refusal => .error (.zeroCount refusal)
        | _ => .error (.zeroArity item.label)
      else .error (.unsupported item.label item.directive)

def items (entries : List Entry) : List DataItem :=
  entries.filterMap fun entry =>
    match entry.instr with
    | .data item => some item
    | _ => none

def placeItems : UInt64 → List DataItem → Except LayoutFault (List (UInt64 × DataItem))
  | _, [] => .ok []
  | address, item :: rest => do
      let size ← itemSize item
      return (address, item) :: (← placeItems (address + ((size + 7) &&& ~~~ 7)) rest)

def fillValues (value? : String → Option UInt64) (label : String) (width : Nat) :
    UInt64 → List String → Memory → Except LayoutFault Memory
  | _, [], memory => .ok memory
  | address, value :: rest, memory =>
      match value? value with
      | some word =>
          fillValues value? label width (address + width.toUInt64) rest
            (memory.store address width word)
      | none => .error (.symbol label value)

def fillItem (value? : String → Option UInt64) (memory : Memory) (placed : UInt64 × DataItem) :
    Except LayoutFault Memory :=
  let (address, item) := placed
  match valueWidth? item.directive with
  | some width => fillValues value? item.label width address item.values memory
  | none =>
      if isTextDirective item.directive then
        .ok (memory.storeBytes address ((textBytes? item.values).getD []))
      else .ok memory

def Image.ofProgram (program : Program) : Except LayoutFault Image := do
  let labels ← indexLabels 0 program.text.entries.toList ∅
  let placed ← placeItems dataBase (items program.data.entries.toList)
  let data := placed.foldl (fun data (address, item) => data.insert item.label address)
    (∅ : Std.HashMap String UInt64)
  let memory ← placed.foldlM (fillItem (symbolValue? labels data)) Memory.empty
  return ⟨program.timeline, program.text.entries, labels, data, memory⟩

end X64Backend.Machine
