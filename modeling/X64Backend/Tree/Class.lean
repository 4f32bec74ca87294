import X64Backend.Tree.Function

/-!
Classes: the layout of their instances and their method tables.  An instance of a class with virtual
methods starts with the address of the method table.
-/

namespace X64Backend.Tree

structure Class where
  name : String
  id : Nat
  /-- The size of an instance. -/
  size : Int64
  fields : List Field
  methods : List FnId
  /-- The virtual methods in the order of the method table. -/
  virtual : List FnId
  ctor : Option FnId
  deriving DecidableEq, Repr, Inhabited

namespace Class

def reference (name : String) (index : ClassId) : TypeRef :=
  { name, id := .ofNat (Hash.ofName name), kind := .cls, size := 8, cls := some index }

/-- Whether instances start with the address of a method table. -/
def hasVTable (c : Class) : Bool :=
  !c.virtual.isEmpty

def vtableLabel (c : Class) : String :=
  c.name ++ ".vtable"

/-- Gives each field the next offset aligned to its own size.  The second result is the end. -/
def placeFields : (offset : Int64) → List Field → List Field × Int64
  | offset, [] => ([], offset)
  | offset, f :: rest =>
      let start := alignUp offset f.type.storage
      let (placed, final) := placeFields (start + f.type.storage) rest
      ({ f with offset := start } :: placed, final)

def layout (c : Class) : Class :=
  let (fields, final) := placeFields (if c.hasVTable then 8 else 0) c.fields
  { c with fields, size := max (alignUp final 8) 8 }

def ofFields (name : String) (fields : List Field) : Class :=
  layout
    { name
      id := Hash.ofName name
      size := 0
      fields
      methods := []
      virtual := []
      ctor := none }

def field? (c : Class) (name : String) : Option Field :=
  c.fields.find? fun f => f.name = name

/-- Adds a method.  A virtual one takes the next place in the method table, and the layout is redone
since the first one moves every field. -/
def addMethod (c : Class) (fn : FnId) (mods : Mods) : Class :=
  let c := { c with methods := c.methods ++ [fn] }
  if mods.isVirtual && !mods.isStatic then layout { c with virtual := c.virtual ++ [fn] } else c

end Class

end X64Backend.Tree
