import X64Backend.Block.Statement
import X64Backend.Diagnostic
import X64Backend.Suggest

/-!
Reading an inline assembly block.  A malformed statement is reported and skipped up to the next
semicolon, so one block can give many diagnostics.
-/

namespace X64Backend.Block

/-- The state of reading: the words to come, and the names known so far. -/
structure Reading where
  /-- The words to come; the last one stands for the end and is never taken away. -/
  tokens : List Token
  /-- The name of the block in diagnostics. -/
  name : String
  collector : Collector
  /-- Whether anything was reported. -/
  failed : Bool
  /-- Every declaration so far, newest first. -/
  decls : List Alloc
  /-- The declarations in force. -/
  live : List Alloc
  /-- The names that were ever given back. -/
  freed : List String
  /-- Whether the block already has a value. -/
  returned : Bool

/-- Computations that read.  Failing means that the statement was reported and is to be skipped;
the words taken and the diagnostics stay as they are. -/
abbrev Parser := EStateM Unit Reading

namespace Parser

/-- The word that stands for a missing one. -/
def missing : Token := ⟨.eof, "", ⟨1, 1⟩⟩

def current : Parser Token := do
  return (← get).tokens.head?.getD missing

/-- The word behind the current one. -/
def following : Parser Token := do
  match (← get).tokens with
  | _ :: second :: _ => return second
  | [only] => return only
  | [] => return missing

/-- Takes the current word away, unless it is the end. -/
def advance : Parser Unit :=
  modify fun reading =>
    match reading.tokens with
    | _ :: second :: rest => { reading with tokens := second :: rest }
    | _ => reading

def currentKind : Parser TokenKind := do
  return (← current).kind

/-- Reports a word without giving up on the statement. -/
def note (token : Token) (suggestion message : String) : Parser Unit :=
  modify fun reading =>
    let location : Location :=
      { file := reading.name
        line := token.pos.line
        column := token.pos.column
        length := (max (Text.byteLength token.text) 1 : Nat) }
    { reading with
      failed := true
      collector := reading.collector.add
        { Diagnostic.ofGrammar message location with suggestion } }

/-- Reports a word and gives up on the statement. -/
def reject {α : Type} (token : Token) (suggestion message : String) : Parser α := do
  note token suggestion message
  throw ()

def rejectCurrent {α : Type} (message : String) : Parser α := do
  reject (← current) "" message

def expect (kind : TokenKind) : Parser Unit := do
  let token ← current
  if token.kind = kind then advance
  else reject token "" ("expected " ++ kind.text ++ ", got " ++ token.shown)

/-- The declaration of a name in force. -/
def live? (name : String) : Parser (Option Alloc) := do
  return (← get).live.find? fun declaration => declaration.name = name

/-- The words behind the statement that the first word belongs to. -/
def skipStatement : List Token → List Token
  | [] => []
  | token :: rest =>
      match token.kind with
      | .eof | .rightBrace => token :: rest
      | .semicolon => if rest.isEmpty then [token] else rest
      | _ => if rest.isEmpty then [token] else skipStatement rest

/-- Skips the rest of a statement. -/
def synchronize : Parser Unit :=
  modify fun reading => { reading with tokens := skipStatement reading.tokens }

/-- Reads type and size behind colons, in any order; a type is given at most once. -/
def suffix : (steps : Nat) → String → Size → Parser (String × Size)
  | 0, type, size => return (type, size)
  | steps + 1, type, size => do
      if (← currentKind) ≠ .colon then return (type, size)
      advance
      let token ← current
      match token.kind with
      | .ident =>
          if type ≠ "" then rejectCurrent "type given twice"
          advance
          suffix steps token.text size
      | .number =>
          let given :=
            match Numeral.readInteger (.fixed 10) token.text.toList with
            | .ok count => Size.ofBytes? count
            | .error _ => none
          match given with
          | some size =>
              advance
              suffix steps type size
          | none =>
              rejectCurrent
                ("invalid register size '" ++ token.text ++ "' (expected 1, 2, 4 or 8)")
      | _ => rejectCurrent ("expected a type or a size after ':', got " ++ token.shown)

def suffixes (type : String) (size : Size) : Parser (String × Size) := do
  suffix (← get).tokens.length type size

/-- Reads a register or a declared name, with an optional type and size. -/
def register (pos : Pos) : Parser RegRef := do
  let token ← current
  let declared ← live? token.text
  let found ←
    match declared, Phys.lookup token.text with
    | some declaration, _ =>
        pure (RegRef.mk pos token.text true declaration.phys declaration.type .unsized)
    | none, some (phys, size) => pure (RegRef.mk pos token.text false (some phys) "" size)
    | none, none =>
        let reading ← get
        let candidates := reading.live.map Alloc.name ++ Phys.names
        let message :=
          if reading.freed.contains token.text then
            "register '" ++ token.text ++ "' is used after it was freed"
          else "unknown register or name '" ++ token.text ++ "'"
        reject token (Suggest.hint token.text candidates) message
  advance
  let (type, size) ← suffixes found.type found.size
  return { found with type, size }

def varRef (pos : Pos) : Parser VarRef := do
  advance
  let token ← current
  if token.kind ≠ .ident then
    rejectCurrent ("expected a variable name after '$', got " ++ token.shown)
  advance
  return ⟨pos, token.text⟩

def withoutUnderscores (text : String) : String :=
  String.ofList (text.toList.filter (· ≠ '_'))

/-- The value of a displacement that fits 32 bits. -/
def displacement? (negative : Bool) (text : String) : Option Int32 :=
  match Numeral.readInteger .byLead (withoutUnderscores text).toList with
  | .ok value =>
      let value := if negative then -value else value
      if -0x80000000 ≤ value ∧ value < 0x80000000 then some (Int32.ofInt value) else none
  | .error _ => none

def displacement : Parser Int32 := do
  let sign ← currentKind
  if sign ≠ .plus && sign ≠ .minus then return 0
  advance
  let token ← current
  if token.kind ≠ .number then rejectCurrent ("expected a displacement, got " ++ token.shown)
  match displacement? (sign = .minus) token.text with
  | some disp =>
      advance
      return disp
  | none =>
      rejectCurrent ("displacement " ++ (if sign = .minus then "-" else "+") ++ token.text ++
        " does not fit in 32 bits")

def memory (pos : Pos) (size : Size) : Parser Term := do
  expect .leftBracket
  let token ← current
  let base ←
    match token.kind with
    | .dollar => BaseRef.var <$> varRef token.pos
    | .ident => BaseRef.reg <$> register token.pos
    | _ => rejectCurrent ("expected a base register or variable, got " ++ token.shown)
  let disp ← displacement
  expect .rightBracket
  return .mem pos size base disp

/-- The literal that a number is written as, by its lead. -/
def literalOf (negative : Bool) (digits : String) : Literal :=
  let kind : Literal.Kind :=
    match (lowerCase digits).toList with
    | '0' :: 'x' :: _ => .hex
    | '0' :: 'b' :: _ => .binary
    | _ => .int
  ⟨kind, (if negative then "-" else "") ++ digits⟩

def digits (pos : Pos) (negative : Bool) : Parser Term := do
  let literal := literalOf negative (withoutUnderscores (← current).text)
  match literal.bits with
  | .ok _ =>
      advance
      return .lit pos literal
  | .error _ => rejectCurrent ("invalid number '" ++ literal.text ++ "'")

def number (pos : Pos) : Parser Term := do
  let negative := (← currentKind) = .minus
  if negative then
    advance
    let token ← current
    if token.kind ≠ .number then
      rejectCurrent ("expected a number after '-', got " ++ token.shown)
  digits pos negative

/-- The width that a keyword before an address names. -/
def sizeKeyword? (word : String) : Option Size :=
  match lowerCase word with
  | "byte" => some .s8
  | "word" => some .s16
  | "dword" => some .s32
  | "qword" => some .s64
  | _ => none

/-- Whether a word is the one that may stand between a width and an address. -/
def isPtr (token : Token) : Bool := lowerCase token.text = "ptr"

def operand : Parser Term := do
  let token ← current
  match token.kind with
  | .dollar => Term.var <$> varRef token.pos
  | .leftBracket => memory token.pos .unsized
  | .number | .minus => number token.pos
  | .ident =>
      let second ← following
      match sizeKeyword? token.text,
          second.kind = .leftBracket || isPtr second with
      | some size, true =>
          advance
          if isPtr second then advance
          memory token.pos size
      | _, _ =>
          if token.text = "true" || token.text = "false" then
            advance
            return .lit token.pos (.ofBool (token.text = "true"))
          else Term.reg <$> register token.pos
  | _ => rejectCurrent ("malformed operand " ++ token.shown)

/-- Words that cannot name a register. -/
def isReserved (word : String) : Bool :=
  isMnemonic word || word = "alloc" || word = "free" || word = "return"

/-- Reads what may follow the name of a declared register: a hardware register, or type and
size. -/
def allocTail (name : String) (phys : Option Phys) (size : Size) :
    Parser (Option Phys × String × Size) := do
  let token ← current
  match token.kind with
  | .ident =>
      match Phys.lookup token.text with
      | none =>
          reject token (Suggest.hint token.text Phys.names)
            ("unknown register '" ++ token.text ++ "'")
      | some (given, size) =>
          if phys.isSome && phys ≠ some given then
            reject token "" ("'" ++ name ++ "' is itself a register and cannot be bound to " ++
              token.text)
          advance
          return (some given, "", size)
  | _ =>
      let (type, size) ← suffixes "" size
      return (phys, type, size)

def alloc (pos : Pos) : Parser Statement := do
  advance
  let token ← current
  if token.kind ≠ .ident then
    rejectCurrent ("expected a register name after 'alloc', got " ++ token.shown)
  advance
  let name := token.text
  if (← live? name).isSome then reject token "" ("'" ++ name ++ "' is already allocated")
  if isReserved name then
    reject token "" ("'" ++ name ++ "' is a reserved word and cannot name a register")
  let (own, ownSize) :=
    match Phys.lookup name with
    | some (phys, size) => (some phys, size)
    | none => (none, .s64)
  let (phys, type, size) ← allocTail name own ownSize
  if phys = some .rsp || phys = some .rbp then
    reject token "" (Phys.textOrUnknown phys ++ " cannot be allocated")
  if size = .high8 && !(phys.any Phys.hasHigh8) then
    reject token "" (Phys.textOrUnknown phys ++ " has no upper-8 alias")
  let declaration : Alloc := { pos, name, phys, type, size }
  modify fun reading =>
    { reading with
      live := declaration :: reading.live
      decls := declaration :: reading.decls }
  return .alloc declaration

def free (pos : Pos) : Parser Statement := do
  advance
  let token ← current
  if token.kind ≠ .ident then
    rejectCurrent ("expected a register name after 'free', got " ++ token.shown)
  advance
  let name := token.text
  if (← live? name).isNone then
    let reading ← get
    let message :=
      if reading.freed.contains name then "register '" ++ name ++ "' is already freed"
      else "free of unknown register '" ++ name ++ "'"
    reject token (Suggest.hint name (reading.live.map Alloc.name)) message
  modify fun reading =>
    { reading with
      live := reading.live.filter fun declaration => declaration.name ≠ name
      freed := name :: reading.freed }
  return .free pos name false

/-- The kind of an operand; a variable has none of its own. -/
def kindOf? : Term → Option OperandKind
  | .var _ => none
  | .reg _ => some .reg
  | .mem _ _ _ _ => some .mem
  | .lit _ _ => some .imm

def check (token : Token) (mnemonic : String) (index : Nat) (position : Position) (term : Term) :
    Parser Unit :=
  let refuse (what : String) : Parser Unit :=
    reject token "" ("operand " ++ toString (index + 1) ++ " of '" ++ mnemonic ++ "' cannot be " ++
      what)
  match kindOf? term with
  | none => if position.takesVariable then return () else refuse "a variable"
  | some kind => if position.accepts kind then return () else refuse kind.text

/-- Reads the operands of an instruction behind those read so far. -/
def operands (mnemonic : String) (spec : Spec) :
    (steps : Nat) → List Term → Parser (List Term)
  | 0, terms => return terms
  | steps + 1, terms => do
      match ← currentKind with
      | .semicolon | .rightBrace | .eof => return terms
      | _ =>
          if !terms.isEmpty then expect .comma
          let token ← current
          let term ← operand
          match spec.positions[terms.length]? with
          | some position => check token mnemonic terms.length position term
          | none => pure ()
          operands mnemonic spec steps (terms ++ [term])

def isMemory : Term → Bool
  | .mem _ _ _ _ => true
  | _ => false

def instruction (pos : Pos) (returned : Bool) (spec : Spec) : Parser Statement := do
  let token ← current
  let mnemonic := lowerCase token.text
  advance
  let terms ← operands mnemonic spec (← get).tokens.length []
  if terms.length ≠ spec.arity then
    reject token "" ("'" ++ mnemonic ++ "' takes " ++ toString spec.arity ++
      " operand(s), got " ++ toString terms.length)
  if returned && spec.arity = 0 then
    reject token "" ("'" ++ mnemonic ++ "' has no destination to return")
  if spec.arity = 2 && terms.all isMemory then
    reject token "" ("'" ++ mnemonic ++ "' cannot take two memory operands")
  return .instr { pos, mnemonic, spec, operands := terms, returned }

/-- Reads the word that makes a statement the value of the block, if it stands here. -/
def returnMark : Parser Bool := do
  let token ← current
  if token.kind = .ident && token.text = "return" then
    advance
    if (← get).returned then rejectCurrent "block already returns a value"
    modify fun reading => { reading with returned := true }
    return true
  else return false

/-- Reads the operand that is the value of the block. -/
def valueStatement (pos : Pos) : Parser Statement := do
  return .value pos (← operand)

def statement : Parser Statement := do
  let pos := (← current).pos
  let returned ← returnMark
  let token ← current
  if token.kind = .ident then
    let word := token.text
    if word = "alloc" || word = "free" then
      if returned then rejectCurrent ("cannot return '" ++ word ++ "'")
      if word = "alloc" then alloc pos else free pos
    else
      match spec? (lowerCase word) with
      | some spec => instruction pos returned spec
      | none =>
          if returned then valueStatement pos
          else
            reject token (Suggest.hint (lowerCase word) mnemonics)
              ("unsupported instruction '" ++ word ++ "'")
  else if returned then valueStatement pos
  else rejectCurrent ("expected an instruction, got " ++ token.shown)

/-- What came of reading, or nothing if it failed. -/
def attempt {α : Type} (reader : Parser α) : Parser (Option α) := fun reading =>
  match reader reading with
  | .ok result reading => .ok (some result) reading
  | .error _ reading => .ok none reading

/-- Reads the semicolon behind a statement. -/
def endStatement : Parser Unit := do
  let token ← current
  if token.kind = .semicolon then advance
  else
    note token "" ("expected ';' after statement, got " ++ token.shown)
    synchronize

/-- Reads statements up to the closing brace.  Every round takes at least one word. -/
def statements : (steps : Nat) → Parser (List Statement)
  | 0 => return []
  | steps + 1 => do
      match ← currentKind with
      | .rightBrace | .eof => return []
      | _ =>
          match ← attempt statement with
          | none =>
              synchronize
              statements steps
          | some found =>
              endStatement
              return found :: (← statements steps)

/-- Reads a whole block.  Every name that was never given back is given back at the end, in the
order of declaration. -/
def block : Parser Block := do
  let name := (← get).name
  match ← attempt (expect .leftBrace) with
  | none => return ⟨name, [], []⟩
  | some _ =>
      let found ← statements (← get).tokens.length
      let _ ← attempt (expect .rightBrace)
      let token ← current
      if token.kind ≠ .eof then
        note token "" ("unexpected " ++ token.shown ++ " after end of block")
      let reading ← get
      let decls := reading.decls.reverse
      let unfreed := decls.filter fun declaration => !reading.freed.contains declaration.name
      let frees := unfreed.map fun declaration =>
        Statement.free declaration.pos declaration.name true
      return ⟨name, found ++ frees, decls⟩

end Parser

structure Parsed where
  block : Block
  ok : Bool
  collector : Collector

/-- Reads a block in bytes.  The block can be used only if nothing was reported. -/
def parseBytes (name : String) (source : List UInt8) (collector : Collector) : Parsed :=
  let start : Reading :=
    { tokens := tokensOfBytes source
      name
      collector
      failed := false
      decls := []
      live := []
      freed := []
      returned := false }
  match Parser.block start with
  | .ok block reading => ⟨block, !reading.failed, reading.collector⟩
  | .error _ reading => ⟨⟨name, [], []⟩, false, reading.collector⟩

def parse (name source : String) (collector : Collector) : Parsed :=
  parseBytes name (Text.bytes source) collector

end X64Backend.Block
