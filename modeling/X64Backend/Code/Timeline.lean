import X64Backend.Code.Operand

/-!
The table of handles.  A handle has a history of hardware registers over the clock of the
instruction stream, so that a value can be moved after instructions that name it were emitted.
A handle is never issued twice.
-/

namespace X64Backend

structure History where
  born : Nat
  origin : Option Phys
  /-- Later registers with the tick from which they hold, newest first. -/
  moves : List (Nat × Option Phys)
  deriving DecidableEq, Repr, Inhabited

namespace History

def current (history : History) : Option Phys :=
  match history.moves with
  | (_, phys) :: _ => phys
  | [] => history.origin

/-- The newest register that holds from the tick or earlier; at first the one at birth. -/
def placeAt (history : History) (tick : Nat) : Option Phys :=
  match history.moves.find? fun move => move.1 ≤ tick with
  | some (_, phys) => phys
  | none => history.origin

/-- Moves the handle for its whole life, past and future. -/
def rebind (history : History) (phys : Option Phys) : History :=
  { history with origin := phys, moves := [] }

/-- Moves the handle from a tick onwards.  A second move at the same tick replaces the first. -/
def relocate (history : History) (phys : Option Phys) (now : Nat) : History :=
  match history.moves with
  | [] =>
      if history.born = now then { history with origin := phys }
      else { history with moves := [(now, phys)] }
  | (tick, old) :: earlier =>
      if tick = now then { history with moves := (now, phys) :: earlier }
      else { history with moves := (now, phys) :: (tick, old) :: earlier }

end History

structure Timeline where
  histories : Array History
  deriving DecidableEq, Repr, Inhabited

namespace Timeline

def empty : Timeline := ⟨#[]⟩

def history? (timeline : Timeline) (handle : Handle) : Option History :=
  if handle = 0 then none else timeline.histories[handle - 1]?

/-- One more than the number of handles issued: the zero handle counts too. -/
def count (timeline : Timeline) : Nat :=
  timeline.histories.size + 1

def bind (timeline : Timeline) (phys : Option Phys) (now : Nat) : Handle × Timeline :=
  (timeline.count, ⟨timeline.histories.push ⟨now, phys, []⟩⟩)

def born (timeline : Timeline) (handle : Handle) : Nat :=
  match timeline.history? handle with
  | some history => history.born
  | none => 0

def current (timeline : Timeline) (handle : Handle) : Option Phys :=
  (timeline.history? handle).bind History.current

def placeAt (timeline : Timeline) (handle : Handle) (tick : Nat) : Option Phys :=
  (timeline.history? handle).bind fun history => history.placeAt tick

/-- Changes the history of one handle; a handle that was not issued has none to change. -/
def update (timeline : Timeline) (handle : Handle) (change : History → History) : Timeline :=
  if handle = 0 then timeline else ⟨timeline.histories.modify (handle - 1) change⟩

/-- Moves a handle for its whole life: every instruction already emitted now names the new
register. -/
def rebind (timeline : Timeline) (handle : Handle) (phys : Option Phys) : Timeline :=
  timeline.update handle fun history => history.rebind phys

/-- Moves a handle from a tick onwards: earlier instructions keep naming the old register. -/
def relocate (timeline : Timeline) (handle : Handle) (phys : Option Phys) (now : Nat) : Timeline :=
  timeline.update handle fun history => history.relocate phys now

def resolve (timeline : Timeline) (register : Register) (tick : Nat) : Option Phys :=
  match register.place with
  | .slot handle => timeline.placeAt handle tick
  | .fixed phys => phys

end Timeline

end X64Backend
