import X64Backend.Text.Lines

/-!
The 32-bit FNV-1a hash, and the identities and name suffixes built from it.
-/

namespace X64Backend.Hash

def offsetBasis : UInt32 := 2166136261

def mix (hash : UInt32) (byte : UInt8) : UInt32 :=
  (hash ^^^ byte.toUInt32) * 16777619

def ofBytes (bytes : List UInt8) : UInt32 :=
  bytes.foldl mix offsetBasis

/-- The hash of a list of type identities, each written in decimal and closed by a semicolon. -/
def identity (ids : List Int64) : UInt32 :=
  ofBytes (ids.flatMap fun id => Text.bytes (toString id ++ ";"))

/-- The identity of a named type: positive and at least 256. -/
def ofName (name : String) : Nat :=
  ((ofBytes (Text.bytes name)).toNat % 0x80000000) ||| 0x100

/-- The suffix that tells overloads apart: a dollar sign and eight hexadecimal digits. -/
def suffix (ids : List Int64) : String :=
  "$" ++ Text.padZeros 8 (Text.hexLower (identity ids).toNat)

end X64Backend.Hash
