import X64Backend.Text.Lines

/-!
The words of an inline assembly block.  A block is read as bytes: a byte that starts no word is a
word of its own, shown as the character with its number.
-/

namespace X64Backend.Block

inductive TokenKind where
  | eof
  | ident
  | number
  | dollar
  | colon
  | comma
  | semicolon
  | leftBracket
  | rightBracket
  | leftBrace
  | rightBrace
  | plus
  | minus
  | illegal
  deriving DecidableEq, Repr, Inhabited

namespace TokenKind

def text : TokenKind → String
  | eof => "end of input"
  | ident => "identifier"
  | number => "number"
  | dollar => "'$'"
  | colon => "':'"
  | comma => "','"
  | semicolon => "';'"
  | leftBracket => "'['"
  | rightBracket => "']'"
  | leftBrace => "'\x7b'"
  | rightBrace => "'\x7d'"
  | plus => "'+'"
  | minus => "'-'"
  | illegal => "illegal character"

/-- Every kind, in the order of its number. -/
def all : List TokenKind :=
  [eof, ident, number, dollar, colon, comma, semicolon, leftBracket, rightBracket, leftBrace,
    rightBrace, plus, minus, illegal]

def textOfNumber (number : Int) : String :=
  match if 0 ≤ number then all[number.toNat]? else none with
  | some kind => kind.text
  | none => "token(" ++ toString number ++ ")"

end TokenKind

/-- A place in the text of a block: line and column count from one, the column in bytes. -/
structure Pos where
  line : Nat
  column : Nat
  deriving DecidableEq, Repr, Inhabited

structure Token where
  kind : TokenKind
  text : String
  pos : Pos
  deriving DecidableEq, Repr, Inhabited

def Token.shown (token : Token) : String :=
  match token.kind with
  | .ident | .number | .illegal => "'" ++ token.text ++ "'"
  | kind => kind.text

/-- The rest of a text with the place where it starts. -/
structure Cursor where
  rest : List UInt8
  pos : Pos
  deriving DecidableEq, Repr

def byteOf (c : Char) : UInt8 := c.toNat.toUInt8

def isBetween (low high : Char) (byte : UInt8) : Bool :=
  byteOf low ≤ byte && byte ≤ byteOf high

def isDigitByte (byte : UInt8) : Bool := isBetween '0' '9' byte

def isIdentStart (byte : UInt8) : Bool :=
  byte = byteOf '_' || byte = byteOf '.' || isBetween 'a' 'z' byte || isBetween 'A' 'Z' byte

def isIdentByte (byte : UInt8) : Bool := isIdentStart byte || isDigitByte byte

/-- A later byte of a number: a digit of any radix, its mark, or an underscore. -/
def isNumberByte (byte : UInt8) : Bool :=
  byte = byteOf '_' || isDigitByte byte || isBetween 'a' 'f' byte || isBetween 'A' 'F' byte ||
    byte = byteOf 'x' || byte = byteOf 'X'

/-- A blank other than the newline. -/
def isSpaceByte (byte : UInt8) : Bool :=
  byte = byteOf ' ' || byte = byteOf '\t' || byte = byteOf '\r'

/-- Whether a comment starts here: at a hash sign, or at two slashes. -/
def startsComment (byte : UInt8) (rest : List UInt8) : Bool :=
  byte = byteOf '#' || (byte = byteOf '/' && rest.head? = some (byteOf '/'))

/-- Skips blanks, newlines and comments, which end with their line. -/
def skipBlank : (inComment : Bool) → List UInt8 → Pos → Cursor
  | _, [], pos => ⟨[], pos⟩
  | inComment, byte :: rest, pos =>
      if byte = byteOf '\n' then skipBlank false rest ⟨pos.line + 1, 1⟩
      else if inComment || isSpaceByte byte then
        skipBlank inComment rest ⟨pos.line, pos.column + 1⟩
      else if startsComment byte rest then skipBlank true rest ⟨pos.line, pos.column + 1⟩
      else ⟨byte :: rest, pos⟩

/-- The characters with the numbers of the bytes. -/
def textOfBytes (bytes : List UInt8) : String :=
  String.ofList (bytes.map fun byte => Char.ofNat byte.toNat)

def kindOfByte (byte : UInt8) : TokenKind :=
  if byte = byteOf '$' then .dollar
  else if byte = byteOf ':' then .colon
  else if byte = byteOf ',' then .comma
  else if byte = byteOf ';' then .semicolon
  else if byte = byteOf '[' then .leftBracket
  else if byte = byteOf ']' then .rightBracket
  else if byte = byteOf '\x7b' then .leftBrace
  else if byte = byteOf '\x7d' then .rightBrace
  else if byte = byteOf '+' then .plus
  else if byte = byteOf '-' then .minus
  else .illegal

/-- The longest word of bytes of a class, at the start of a text. -/
def takeWord (kind : TokenKind) (inWord : UInt8 → Bool) (cursor : Cursor) : Token × Cursor :=
  let word := cursor.rest.takeWhile inWord
  (⟨kind, textOfBytes word, cursor.pos⟩,
    ⟨cursor.rest.drop word.length, ⟨cursor.pos.line, cursor.pos.column + word.length⟩⟩)

/-- The next word; at the end of the text, the word that stands for the end. -/
def nextToken (cursor : Cursor) : Token × Cursor :=
  let cursor := skipBlank false cursor.rest cursor.pos
  match cursor.rest with
  | [] => (⟨.eof, "", cursor.pos⟩, cursor)
  | byte :: rest =>
      if isIdentStart byte then takeWord .ident isIdentByte cursor
      else if isDigitByte byte then takeWord .number isNumberByte cursor
      else
        (⟨kindOfByte byte, textOfBytes [byte], cursor.pos⟩,
          ⟨rest, ⟨cursor.pos.line, cursor.pos.column + 1⟩⟩)

/-- The words from a place on, up to and including the end.  Every word but the last takes at least
one byte, so one more step than there are bytes reaches the end. -/
def tokensFrom : (steps : Nat) → Cursor → List Token
  | 0, _ => []
  | steps + 1, cursor =>
      let (token, rest) := nextToken cursor
      if token.kind = .eof then [token] else token :: tokensFrom steps rest

def tokensOfBytes (bytes : List UInt8) : List Token :=
  tokensFrom (bytes.length + 1) ⟨bytes, ⟨1, 1⟩⟩

def tokens (source : String) : List Token :=
  tokensOfBytes (Text.bytes source)

end X64Backend.Block
