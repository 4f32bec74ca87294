/-!
Texts as lists of lines, the padding of columns and the cutting of blanks.
-/

namespace X64Backend.Text

/-- Splits at every newline; the result has one element more than there are newlines. -/
def splitNewlineChars : List Char → List (List Char)
  | [] => [[]]
  | c :: rest =>
      match splitNewlineChars rest with
      | [] => [[c]]
      | line :: lines => if c = '\n' then [] :: line :: lines else (c :: line) :: lines

def splitNewline (text : String) : List String :=
  (splitNewlineChars text.toList).map String.ofList

/-- The lines of a text whose last line may or may not end in a newline.
The empty text has no lines. -/
def lines (text : String) : List String :=
  let parts := splitNewline text
  if text.isEmpty then []
  else if parts.getLast? = some "" then parts.dropLast else parts

def join (separator : String) (parts : List String) : String :=
  separator.intercalate parts

def repeated (c : Char) (count : Nat) : String :=
  String.ofList (List.replicate count c)

def padRight (width : Nat) (text : String) : String :=
  text ++ repeated ' ' (width - text.length)

def padZeros (width : Nat) (text : String) : String :=
  repeated '0' (width - text.length) ++ text

def hexLower (n : Nat) : String :=
  String.ofList (Nat.toDigits 16 n)

def hexUpper (n : Nat) : String :=
  String.ofList ((Nat.toDigits 16 n).map Char.toUpper)

def bytes (text : String) : List UInt8 :=
  text.toUTF8.toList

def byteLength (text : String) : Nat :=
  text.utf8ByteSize

/-- Whether a text starts with another one; if so, what follows it. -/
def dropLeading? (lead text : String) : Option String :=
  let rest := text.toList
  let front := lead.toList
  if front.isPrefixOf rest then some (String.ofList (rest.drop front.length)) else none

def isBlank (c : Char) : Bool :=
  let n := c.toNat
  (9 ≤ n && n ≤ 13) || n = 0x20 || n = 0x85 || n = 0xA0 || n = 0x1680 ||
    (0x2000 ≤ n && n ≤ 0x200A) || n = 0x2028 || n = 0x2029 || n = 0x202F || n = 0x205F ||
    n = 0x3000

def trimBlankChars (text : List Char) : List Char :=
  (((text.dropWhile isBlank).reverse).dropWhile isBlank).reverse

def trimBlank (text : String) : String :=
  String.ofList (trimBlankChars text.toList)

end X64Backend.Text
