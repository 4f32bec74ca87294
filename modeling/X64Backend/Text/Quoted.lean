import X64Backend.Text.Lines
import X64Backend.Text.Printable

/-!
Quoted texts.  `quote` writes a text between double quotes on one line; `unquote` reads the three
quoted forms: double quotes, single quotes around one character, and raw text between back quotes.
The value of a quoted text is a list of bytes, since an escape can denote any byte.
-/

namespace X64Backend.Text

/-- How one character stands between double quotes. -/
def quoteChar (c : Char) : List Char :=
  if c = '"' || c = '\\' then ['\\', c]
  else if isPrintable c then [c]
  else match c.toNat with
    | 7 => ['\\', 'a']
    | 8 => ['\\', 'b']
    | 12 => ['\\', 'f']
    | 10 => ['\\', 'n']
    | 13 => ['\\', 'r']
    | 9 => ['\\', 't']
    | 11 => ['\\', 'v']
    | n =>
        if n < 0x20 || n = 0x7F then '\\' :: 'x' :: (padZeros 2 (hexLower n)).toList
        else if n < 0x10000 then '\\' :: 'u' :: (padZeros 4 (hexLower n)).toList
        else '\\' :: 'U' :: (padZeros 8 (hexLower n)).toList

def quote (text : String) : String :=
  String.ofList ('"' :: text.toList.flatMap quoteChar ++ ['"'])

def hexValue? (c : Char) : Option Nat :=
  if '0' ≤ c ∧ c ≤ '9' then some (c.toNat - '0'.toNat)
  else if 'a' ≤ c ∧ c ≤ 'f' then some (c.toNat - 'a'.toNat + 10)
  else if 'A' ≤ c ∧ c ≤ 'F' then some (c.toNat - 'A'.toNat + 10)
  else none

/-- The number written by exactly `count` hexadecimal digits, and what follows them. -/
def hexNumber? : (count : Nat) → List Char → Nat → Option (Nat × List Char)
  | 0, rest, value => some (value, rest)
  | _ + 1, [], _ => none
  | count + 1, c :: rest, value =>
      match hexValue? c with
      | some digit => hexNumber? count rest (value * 16 + digit)
      | none => none

def octalValue? (c : Char) : Option Nat :=
  if '0' ≤ c ∧ c ≤ '7' then some (c.toNat - '0'.toNat) else none

/-- The bytes of a code point that an escape names, if it is one. -/
def codePointBytes? (n : Nat) : Option (List UInt8) :=
  if n < 0xD800 ∨ (0xDFFF < n ∧ n ≤ 0x10FFFF) then some (bytes (Char.ofNat n).toString) else none

/-- Reads the escape that follows a backslash inside the given quotes. -/
def unescape? (mark : Char) : List Char → Option (List UInt8 × List Char)
  | 'a' :: rest => some ([7], rest)
  | 'b' :: rest => some ([8], rest)
  | 'f' :: rest => some ([12], rest)
  | 'n' :: rest => some ([10], rest)
  | 'r' :: rest => some ([13], rest)
  | 't' :: rest => some ([9], rest)
  | 'v' :: rest => some ([11], rest)
  | 'x' :: rest => (hexNumber? 2 rest 0).map fun found => ([found.1.toUInt8], found.2)
  | 'u' :: rest => do
      let (value, rest) ← hexNumber? 4 rest 0
      return (← codePointBytes? value, rest)
  | 'U' :: rest => do
      let (value, rest) ← hexNumber? 8 rest 0
      return (← codePointBytes? value, rest)
  | '\\' :: rest => some ([92], rest)
  | c :: rest =>
      if c = '\'' ∨ c = '"' then
        if c = mark then some ([c.toNat.toUInt8], rest) else none
      else
        match octalValue? c, rest with
        | some high, d :: e :: rest => do
            let value := high * 64 + (← octalValue? d) * 8 + (← octalValue? e)
            if value ≤ 255 then some ([value.toUInt8], rest) else none
        | _, _ => none
  | [] => none

/-- Reads one character or escape inside the given quotes.  A bare newline and the closing quote
are no characters of the text. -/
def unquoteChar? (mark : Char) : List Char → Option (List UInt8 × List Char)
  | [] => none
  | c :: rest =>
      if c = mark ∨ c = '\n' then none
      else if c = '\\' then unescape? mark rest
      else some (bytes c.toString, rest)

/-- Reads up to the closing quote, which must end the text.  Each step takes at least one
character, so the length of the text bounds the number of steps. -/
def unquoteBody? (mark : Char) : (steps : Nat) → List Char → Option (List UInt8)
  | _, [] => none
  | 0, c :: rest => if c = mark ∧ rest = [] then some [] else none
  | steps + 1, c :: rest =>
      if c = mark then (if rest = [] then some [] else none)
      else do
        let (value, rest) ← unquoteChar? mark (c :: rest)
        return value ++ (← unquoteBody? mark steps rest)

/-- The mark around raw text. -/
def backQuote : Char := Char.ofNat 96

/-- The value of a quoted text.  Raw text loses its carriage returns. -/
def unquote? (text : String) : Option (List UInt8) :=
  match text.toList with
  | [] => none
  | mark :: rest =>
      if mark = '"' then unquoteBody? mark rest.length rest
      else if mark = '\'' then unquoteBody? mark 1 rest
      else if mark = backQuote then
        let raw := rest.takeWhile (· ≠ backQuote)
        if rest.drop raw.length = [backQuote] then
          some (bytes (String.ofList (raw.filter (· ≠ '\r'))))
        else none
      else none

end X64Backend.Text
