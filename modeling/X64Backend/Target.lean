import X64Backend.Text.Quoted

/-!
The names of the one supported platform.
-/

namespace X64Backend.Target

def name : String := "x86_64-linux"

def architectures : List String := ["x86_64", "amd64", "x86-64", "x64"]

/-- Lower case.  Two characters beyond ASCII have an ASCII letter as their lower case: the dotted
capital I and the Kelvin sign.  No other one can turn a name into an accepted name. -/
def lowerChar (c : Char) : Char :=
  if c.toNat = 0x130 then 'i' else if c.toNat = 0x212A then 'k' else c.toLower

/-- A slash stands for a hyphen, and case does not matter. -/
def canonicalChars (text : String) : List Char :=
  text.toList.map fun c => if c = '/' then '-' else lowerChar c

/-- Whether a name denotes the platform: an architecture, a hyphen, and the system. -/
def accepts (text : String) : Bool :=
  let given := canonicalChars text
  match architectures.find? fun architecture => (architecture ++ "-").toList.isPrefixOf given with
  | some architecture => given.drop (architecture.length + 1) = "linux".toList
  | none => false

/-- The canonical name, or the reason why there is none. -/
def resolve (text : String) : Except String String :=
  if accepts text then .ok name
  else .error ("unsupported target " ++ Text.quote text ++ " (supported: " ++ name ++ ")")

end X64Backend.Target
