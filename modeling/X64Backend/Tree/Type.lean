import X64Backend.Code.Size

/-!
The types of values.  Sizes and offsets are machine words: a layout that outgrows a word wraps
around.
-/

namespace X64Backend.Tree

/-- The index of a class in its program. -/
abbrev ClassId := Nat

inductive Kind where
  | void
  | int
  | uint
  | bool
  | pointer
  | cls
  | string
  deriving DecidableEq, Repr, Inhabited

/-- A type.  Its identity tells overloads apart. -/
structure TypeRef where
  name : String
  id : Int64
  kind : Kind
  /-- The size in bytes. -/
  size : Int64
  cls : Option ClassId := none
  deriving DecidableEq, Repr, Inhabited

namespace TypeRef

def void : TypeRef := { name := "void", id := 1, kind := .void, size := 0 }
def int : TypeRef := { name := "int", id := 2, kind := .int, size := 8 }
def int32 : TypeRef := { name := "int32", id := 3, kind := .int, size := 4 }
def int16 : TypeRef := { name := "int16", id := 4, kind := .int, size := 2 }
def byte : TypeRef := { name := "byte", id := 5, kind := .uint, size := 1 }
def uint : TypeRef := { name := "uint", id := 6, kind := .uint, size := 8 }
def bool : TypeRef := { name := "bool", id := 7, kind := .bool, size := 1 }
def string : TypeRef := { name := "string", id := 8, kind := .string, size := 8 }

/-- The types that every program knows. -/
def predefined : List TypeRef := [void, int, int32, int16, byte, uint, bool, string]

def operandSize (type : TypeRef) : Size :=
  if type.kind = .void then .unsized else Size.ofBytes type.size.toInt

/-- Whether comparisons and widening treat the type as signed. -/
def isSigned (type : TypeRef) : Bool :=
  type.kind = .int

/-- The bytes that a value of the type takes in a frame or an object. -/
def storage (type : TypeRef) : Int64 :=
  max type.size 1

end TypeRef

def alignUp (number size : Int64) : Int64 :=
  if size ≤ 1 then number else (number + size - 1) / size * size

end X64Backend.Tree
