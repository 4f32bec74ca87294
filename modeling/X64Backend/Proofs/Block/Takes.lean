import X64Backend.Proofs.Block.Grammar
import X64Backend.Proofs.Block.Reports

/-!
What it means that a reader takes some words: in front of them, wherever they stand in the text, it
succeeds and stops right behind them.  One rule for each way to put readers together.
-/

namespace X64Backend.Block

open Grammar

/-- The same names in front of other words. -/
def Reading.facing (reading : Reading) (tokens : List Token) : Reading := { reading with tokens }

/-- The names known so far, without their places in the text. -/
def Reading.scope (reading : Reading) : Scope where
  live := reading.live.map Alloc.unplaced
  decls := reading.decls.map Alloc.unplaced
  freed := reading.freed
  returned := reading.returned

/-- The same place, where the block may have a value. -/
def Reading.marked (reading : Reading) (returned : Bool) : Reading :=
  { reading with returned := reading.returned || returned }

namespace Parser

variable {α β γ : Type} {reading : Reading} {words words' follow : List Word} {word : Word}

/-- In front of some words a reader succeeds and stops right behind them. -/
def Takes (reading : Reading) (reader : Parser α) (words follow : List Word)
    (P : α → Reading → Prop) : Prop :=
  ∀ front rest : List Token, front.map Token.word = words → rest.map Token.word = follow →
    rest ≠ [] → ∃ a after,
      reader (reading.facing (front ++ rest)) = .ok a (Reading.facing after rest) ∧ P a after

/-- What was found is what is meant, apart from its place, and the names stay as they are. -/
abbrev Meant (reading : Reading) (unplaced : α → γ) (meaning : γ) : α → Reading → Prop :=
  fun a after => unplaced a = meaning ∧ reading = after

namespace Takes

variable {reader : Parser α} {next : α → Parser β} {P : β → Reading → Prop}
  {Q : α → Reading → Prop}

theorem pure {a : α} (promise : Q a reading) : Takes reading (Pure.pure a) [] follow Q := by
  intro front rest same _ _
  obtain rfl := List.map_eq_nil_iff.mp same
  exact ⟨a, reading, rfl, promise⟩

theorem bind (first : Takes reading reader words (words' ++ follow) Q)
    (later : ∀ a after, Q a after → Takes after (next a) words' follow P) :
    Takes reading (reader >>= next) (words ++ words') follow P := by
  intro front rest same behind some
  obtain ⟨front₁, front₂, rfl, rfl, rfl⟩ := List.map_eq_append_iff.mp same
  obtain ⟨a, middle, ran, promise⟩ := first front₁ (front₂ ++ rest) rfl
    (by rw [List.map_append, behind]) (List.append_ne_nil_of_right_ne_nil _ some)
  obtain ⟨b, after, ran', promise'⟩ := later a middle promise front₂ rest rfl behind some
  refine ⟨b, after, ?_, promise'⟩
  rw [List.append_assoc, Success.bind_of_ok ran, ran']

/-- A last reader with something left to do that takes no words. -/
theorem last (first : Takes reading reader words follow Q)
    (later : ∀ a after, Q a after → Takes after (next a) [] follow P) :
    Takes reading (reader >>= next) words follow P := by
  have both : Takes reading (reader >>= next) (words ++ []) follow P := first.bind later
  rwa [List.append_nil] at both

theorem mono {Q' : α → Reading → Prop} (takes : Takes reading reader words follow Q)
    (weaker : ∀ a after, Q a after → Q' a after) : Takes reading reader words follow Q' := by
  intro front rest same behind some
  obtain ⟨a, after, ran, promise⟩ := takes front rest same behind some
  exact ⟨a, after, ran, weaker a after promise⟩

theorem map {f : α → β} (takes : Takes reading reader words follow Q)
    (promise : ∀ a after, Q a after → P (f a) after) :
    Takes reading (f <$> reader) words follow P := by
  rw [map_eq_pure_bind]
  exact takes.last fun a after promised => .pure (promise a after promised)

/-- The state is looked at; only the places of the words in it are unknown. -/
theorem get_bind {next : Reading → Parser β}
    (later : ∀ tokens : List Token, tokens.map Token.word = words ++ follow →
      Takes reading (next (reading.facing tokens)) words follow P) :
    Takes reading (MonadState.get >>= next) words follow P := by
  intro front rest same behind some
  exact later (front ++ rest) (by rw [List.map_append, same, behind]) front rest same behind some

/-- The next word is looked at. -/
theorem current_bind {next : Token → Parser β} (found : (words ++ follow).head? = some word)
    (later : ∀ pos, Takes reading (next ⟨word.kind, word.text, pos⟩) words follow P) :
    Takes reading (current >>= next) words follow P := by
  refine get_bind fun tokens same => ?_
  rw [← same, List.head?_map] at found
  obtain ⟨token, isHead, rfl⟩ := Option.map_eq_some_iff.mp found
  simp only [Reading.facing, isHead, Option.getD_some]
  exact later token.pos

theorem currentKind_bind {next : TokenKind → Parser β} (found : (words ++ follow).head? = some word)
    (later : Takes reading (next word.kind) words follow P) :
    Takes reading (currentKind >>= next) words follow P := by
  unfold currentKind
  rw [bind_assoc]
  exact current_bind found fun _ => later

/-- The word behind the next one is looked at. -/
theorem following_bind {next : Token → Parser β} {first : Word} {more : List Word}
    (found : words ++ follow = first :: word :: more)
    (later : ∀ pos, Takes reading (next ⟨word.kind, word.text, pos⟩) words follow P) :
    Takes reading (following >>= next) words follow P := by
  unfold following
  rw [bind_assoc]
  refine get_bind fun tokens same => ?_
  obtain ⟨_, _, rfl, -, same⟩ := List.map_eq_cons_iff.mp (same.trans found)
  obtain ⟨second, _, rfl, rfl, -⟩ := List.map_eq_cons_iff.mp same
  exact later second.pos

theorem advance : Takes reading advance [word] follow fun _ after => reading = after := by
  intro front rest same behind some
  obtain ⟨token, _, rfl, -, none⟩ := List.map_eq_cons_iff.mp same
  obtain rfl := List.map_eq_nil_iff.mp none
  obtain ⟨second, rest, rfl⟩ := List.exists_cons_of_ne_nil some
  exact ⟨(), reading, advance_eq _, rfl⟩

/-- The next word is taken. -/
theorem advance_bind {next : Unit → Parser β} (later : Takes reading (next ()) words follow P) :
    Takes reading (Parser.advance >>= next) (word :: words) follow P :=
  have takes : Takes reading (Parser.advance >>= next) ([word] ++ words) follow P :=
    advance.bind fun _ _ same => same ▸ later
  takes

theorem expect {kind : TokenKind} (known : word.kind = kind) :
    Takes reading (expect kind) [word] follow fun _ after => reading = after := by
  refine current_bind rfl fun pos => ?_
  rw [if_pos known]
  exact advance

/-- A word of a kind is taken. -/
theorem expect_bind {kind : TokenKind} {next : Unit → Parser β} (known : word.kind = kind)
    (later : Takes reading (next ()) words follow P) :
    Takes reading (Parser.expect kind >>= next) (word :: words) follow P :=
  have takes : Takes reading (Parser.expect kind >>= next) ([word] ++ words) follow P :=
    (expect known).bind fun _ _ same => same ▸ later
  takes

theorem live?_bind {name : String} {next : Option Alloc → Parser β}
    (later : Takes reading (next (reading.live.find? fun declaration => declaration.name = name))
      words follow P) : Takes reading (live? name >>= next) words follow P := by
  unfold live?
  rw [bind_assoc]
  exact get_bind fun _ _ => later

/-- A change of the names. -/
theorem modify_bind {change : Reading → Reading} {next : Unit → Parser β}
    (blind : ∀ tokens, change (reading.facing tokens) = (change reading).facing tokens)
    (later : Takes (change reading) (next ()) words follow P) :
    Takes reading (modify change >>= next) words follow P := by
  intro front rest same behind some
  obtain ⟨b, after, ran, promise⟩ := later front rest same behind some
  refine ⟨b, after, ?_, promise⟩
  rw [Success.bind_of_ok Success.modify_eq, blind, ran]

end Takes

end Parser

end X64Backend.Block
