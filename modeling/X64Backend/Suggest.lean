import X64Backend.Text.Lines

/-!
Suggestions for misspelt names.  The distance of two names is the least number of single-byte
insertions, deletions and substitutions that turn one into the other; it is computed row by row.
-/

namespace X64Backend.Suggest

/-- One row of the distance table behind its first column.  `corner` and `left` are the entries
above to the left and to the left, `above` the rest of the row above. -/
def rowTail (byte : UInt8) : (columns : List UInt8) → (corner : Nat) → (above : List Nat) →
    (left : Nat) → List Nat
  | column :: columns, corner, upper :: above, left =>
      let cost := if byte = column then 0 else 1
      let entry := min (upper + 1) (min (left + 1) (corner + cost))
      entry :: rowTail byte columns upper above entry
  | _, _, _, _ => []

/-- The row below a given one, for one more byte of the first name. -/
def nextRow (columns : List UInt8) (row : List Nat) (byte : UInt8) : List Nat :=
  match row with
  | [] => []
  | corner :: above => (corner + 1) :: rowTail byte columns corner above (corner + 1)

def editDistance (first second : List UInt8) : Nat :=
  let rows := first.foldl (nextRow second) (List.range (second.length + 1))
  rows.getLast?.getD 0

def distance (first second : String) : Nat :=
  editDistance (Text.bytes first) (Text.bytes second)

/-- The largest distance at which a name is suggested. -/
def reach : Nat := 2

/-- Closer names come first, and names at the same distance in alphabetical order. -/
def precedes (first second : Nat × String) : Bool :=
  first.1 < second.1 || (first.1 = second.1 && (first.2 < second.2 || first.2 = second.2))

/-- The distinct candidates within reach of a name, other than the name itself, in order. -/
def ranked (name : String) (candidates : List String) : List (Nat × String) :=
  let close := candidates.eraseDups.filterMap fun candidate =>
    let d := distance name candidate
    if 0 < d ∧ d ≤ reach then some (d, candidate) else none
  close.mergeSort precedes

/-- At most `limit` candidates close to a name, closest first. -/
def similar (name : String) (candidates : List String) (limit : Nat) : List String :=
  ((ranked name candidates).take limit).map Prod.snd

/-- A hint with the closest candidate, or the empty text. -/
def hint (name : String) (candidates : List String) : String :=
  match similar name candidates 1 with
  | [] => ""
  | closest :: _ => "did you mean '" ++ closest ++ "'?"

end X64Backend.Suggest
