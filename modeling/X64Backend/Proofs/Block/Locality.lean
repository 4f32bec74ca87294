import X64Backend.Proofs.Block.Takes
import X64Backend.Proofs.Block.Total

/-!
Statements are read one by one.  No reader of a part of a statement takes the semicolon behind it or
looks further: what it finds, where it stops and what it reports is the same whatever stands behind
the semicolon.
-/

namespace X64Backend.Block

/-- The words in front of a semicolon, whether they make a statement or not. -/
structure Segment where
  words : List Token
  /-- The place of the semicolon. -/
  close : Pos
  plain : ∀ word ∈ words, word.kind ≠ .semicolon ∧ word.kind ≠ .rightBrace ∧ word.kind ≠ .eof

namespace Segment

/-- The semicolon. -/
def stop (segment : Segment) : Token := ⟨.semicolon, ";", segment.close⟩

/-- The words with the semicolon. -/
def tokens (segment : Segment) : List Token := segment.words ++ [segment.stop]

/-- The next word where some words are left. -/
def word (segment : Segment) (front : List Token) : Token := front.head?.getD segment.stop

/-- A word other than the semicolon is the first one that is left. -/
theorem front_eq {segment : Segment} {front : List Token}
    (other : (segment.word front).kind ≠ .semicolon) :
    ∃ front', front = segment.word front :: front' := by
  cases front with
  | nil => exact absurd rfl other
  | cons token front' => exact ⟨front', rfl⟩

theorem word_mem {segment : Segment} {front : List Token} (inside : front <:+ segment.words) :
    segment.word front ∈ segment.tokens := by
  cases front with
  | nil => exact List.mem_append_right _ List.mem_cons_self
  | cons token front' => exact List.mem_append_left _ (inside.subset List.mem_cons_self)

/-- Some last words of a segment in front of the end of a text. -/
theorem ends (segment : Segment) {front : List Token} (inside : front <:+ segment.words) :
    Ends (front ++ [segment.stop, Parser.missing]) := by
  induction front with
  | nil => exact .more (by simp [stop]) (.last rfl)
  | cons token front' inductionHypothesis =>
    have plain := segment.plain token (inside.subset List.mem_cons_self)
    exact .more plain.2.2 (inductionHypothesis ((List.suffix_cons token front').trans inside))

end Segment

/-- The names of a reading in front of what is left of a segment and of what comes behind it. -/
def Reading.within (reading : Reading) (segment : Segment) (front rest : List Token)
    (collector : Collector) (failed : Bool) : Reading :=
  (reading.facing (front ++ segment.stop :: rest)).noting collector failed

theorem Reading.diagnosis_congr {reading after : Reading} (same : after.name = reading.name)
    (token : Token) (suggestion message : String) :
    after.diagnosis token suggestion message = reading.diagnosis token suggestion message := by
  unfold diagnosis
  rw [same]

namespace Parser

variable {α β : Type} {segment : Segment} {front : List Token} {reading : Reading}

/-- A reader, which may know what comes behind a segment, has one outcome whatever that is: it stops
in front of the semicolon, with a result or behind reporting a word of the segment. -/
inductive Settles (segment : Segment) (front : List Token) (reading : Reading)
    (reader : List Token → Parser α) : Prop where
  | found (a : α) (front' : List Token) (after : Reading) :
      front' <:+ front → after.name = reading.name →
      (∀ rest collector failed, rest ≠ [] →
        reader rest (reading.within segment front rest collector failed) =
          .ok a (after.within segment front' rest collector failed)) →
      Settles segment front reading reader
  | refused (token : Token) (suggestion message : String) (front' : List Token) (after : Reading) :
      token ∈ segment.tokens → front' <:+ front → after.name = reading.name →
      (∀ rest collector failed, rest ≠ [] →
        reader rest (reading.within segment front rest collector failed) =
          .error () (after.within segment front' rest
            (collector.add (reading.diagnosis token suggestion message)) true)) →
      Settles segment front reading reader

/-- A reader that goes on as another one further inside of the segment. -/
theorem Settles.before {reader : List Token → Parser α} {next : List Token → Parser α}
    {front' : List Token} {after : Reading} (settles : Settles segment front' after next)
    (behind : front' <:+ front) (named : after.name = reading.name)
    (went : ∀ rest collector failed, rest ≠ [] →
      reader rest (reading.within segment front rest collector failed) =
        next rest (after.within segment front' rest collector failed)) :
    Settles segment front reading reader := by
  cases settles with
  | found a front₂ after₂ behind' named' ran =>
    refine .found a front₂ after₂ (behind'.trans behind) (named'.trans named) ?_
    intro rest collector failed some
    exact (went rest collector failed some).trans (ran rest collector failed some)
  | refused token suggestion message front₂ after₂ member behind' named' ran =>
    refine .refused token suggestion message front₂ after₂ member (behind'.trans behind)
      (named'.trans named) ?_
    intro rest collector failed some
    rw [← Reading.diagnosis_congr named]
    exact (went rest collector failed some).trans (ran rest collector failed some)

/-- Among the last words of a segment, a reader settles. -/
def Local (segment : Segment) (front : List Token) (reading : Reading)
    (reader : List Token → Parser α) : Prop :=
  front <:+ segment.words → Settles segment front reading reader

namespace Local

section Rules

variable {reader : List Token → Parser α} {next : List Token → α → Parser β}

theorem pure (a : α) : Local segment front reading fun _ => Pure.pure a :=
  fun _ => .found a front reading (List.suffix_refl _) rfl fun _ _ _ _ => rfl

/-- The rest is read from where the first reader stops. -/
theorem bind_of_run (first : Local segment front reading reader)
    (later : ∀ a front' after, front' <:+ front →
      (∀ rest collector failed, rest ≠ [] →
        reader rest (reading.within segment front rest collector failed) =
          .ok a (after.within segment front' rest collector failed)) →
      Local segment front' after fun rest => next rest a) :
    Local segment front reading fun rest => reader rest >>= next rest := by
  intro inside
  cases first inside with
  | found a front' after behind named ran =>
    apply (later a front' after behind ran (behind.trans inside)).before behind named
    intro rest collector failed some
    exact Success.bind_of_ok (ran rest collector failed some)
  | refused token suggestion message front' after member behind named ran =>
    refine .refused token suggestion message front' after member behind named ?_
    intro rest collector failed some
    exact Success.bind_of_error (ran rest collector failed some)

theorem bind (first : Local segment front reading reader)
    (later : ∀ a front' after, front' <:+ front →
      Local segment front' after fun rest => next rest a) :
    Local segment front reading fun rest => reader rest >>= next rest :=
  first.bind_of_run fun a front' after behind _ => later a front' after behind

theorem map {reader : Parser α} {f : α → β} (first : Local segment front reading fun _ => reader) :
    Local segment front reading fun _ => f <$> reader := by
  rw [map_eq_pure_bind]
  exact first.bind fun a _ _ _ => pure (f a)

theorem ite {c : Prop} [Decidable c] {first second : List Token → Parser α}
    (ofFirst : c → Local segment front reading first)
    (ofSecond : ¬ c → Local segment front reading second) :
    Local segment front reading fun rest => if c then first rest else second rest := by
  by_cases holds : c
  · simp only [if_pos holds]
    exact ofFirst holds
  · simp only [if_neg holds]
    exact ofSecond holds

/-- A computation that goes on with the state, but not with the diagnostics in it. -/
theorem get_bind {next : Reading → Parser α}
    (blind : ∀ reading collector failed, next (reading.noting collector failed) = next reading)
    (later : Local segment front reading fun rest =>
      next (reading.facing (front ++ segment.stop :: rest))) :
    Local segment front reading fun _ => get >>= next := by
  intro inside
  apply (later inside).before (List.suffix_refl _) rfl
  intro rest collector failed _
  exact congrFun (blind _ collector failed) _

/-- A computation that goes on with the names only. -/
theorem names_bind {next : Reading → Parser α}
    (blind : ∀ reading tokens collector failed,
      next ((Reading.facing reading tokens).noting collector failed) = next reading)
    (later : Local segment front reading fun _ => next reading) :
    Local segment front reading fun _ => get >>= next := by
  intro inside
  apply (later inside).before (List.suffix_refl _) rfl
  intro rest collector failed _
  exact congrFun (blind _ _ collector failed) _

/-- A reader that is known to succeed, in front of the rest. -/
theorem step_bind {reader : Parser α} {a : α} {front' : List Token} {after : Reading}
    (behind : front' <:+ front) (named : after.name = reading.name)
    (ran : ∀ rest collector failed, rest ≠ [] →
      reader (reading.within segment front rest collector failed) =
        .ok a (after.within segment front' rest collector failed))
    (later : front <:+ segment.words → Local segment front' after fun rest => next rest a) :
    Local segment front reading fun rest => reader >>= next rest := by
  intro inside
  apply (later inside (behind.trans inside)).before behind named
  intro rest collector failed some
  exact Success.bind_of_ok (ran rest collector failed some)

/-- A change of the names. -/
theorem modify_bind {change : Reading → Reading} {next : List Token → PUnit → Parser β}
    (blind : ∀ reading tokens collector failed,
      change ((Reading.facing reading tokens).noting collector failed) =
        ((change reading).facing tokens).noting collector failed)
    (named : (change reading).name = reading.name)
    (later : Local segment front (change reading) fun rest => next rest ⟨⟩) :
    Local segment front reading fun rest => modify change >>= next rest := by
  refine step_bind (List.suffix_refl _) named ?_ fun _ => later
  intro rest collector failed _
  exact congrArg (EStateM.Result.ok PUnit.unit) (blind _ _ collector failed)

end Rules

section Words

variable {next : List Token → Token → Parser α}

/-- The next word is looked at. -/
theorem current_bind (later : segment.word front ∈ segment.tokens →
      Local segment front reading fun rest => next rest (segment.word front)) :
    Local segment front reading fun rest => current >>= next rest := by
  refine step_bind (List.suffix_refl _) rfl ?_ fun inside => later (Segment.word_mem inside)
  intro rest collector failed _
  cases front with
  | nil => rfl
  | cons token front' => rfl

theorem currentKind_bind {next : List Token → TokenKind → Parser α}
    (later : Local segment front reading fun rest => next rest (segment.word front).kind) :
    Local segment front reading fun rest => currentKind >>= next rest := by
  unfold currentKind
  simp only [bind_assoc, pure_bind]
  exact current_bind fun _ => later

/-- The next word is taken. -/
theorem take_bind {token : Token} {next : List Token → Unit → Parser α}
    (later : Local segment front reading fun rest => next rest ()) :
    Local segment (token :: front) reading fun rest => advance >>= next rest := by
  refine step_bind (List.suffix_cons token front) rfl ?_ fun _ => later
  intro rest collector failed _
  rw [advance_eq]
  cases front with
  | nil => rfl
  | cons second front' => rfl

/-- A word that is not the semicolon is taken. -/
theorem advance_bind {next : List Token → Unit → Parser α}
    (other : (segment.word front).kind ≠ .semicolon)
    (later : ∀ front', front = segment.word front :: front' →
      Local segment front' reading fun rest => next rest ()) :
    Local segment front reading fun rest => advance >>= next rest := by
  obtain ⟨front', same⟩ := Segment.front_eq other
  rw [same]
  exact take_bind (later front' same)

/-- The word behind the next one is looked at. -/
theorem following_bind {token : Token}
    (later : segment.word front ∈ segment.tokens →
      Local segment (token :: front) reading fun rest => next rest (segment.word front)) :
    Local segment (token :: front) reading fun rest => following >>= next rest := by
  refine step_bind (List.suffix_refl _) rfl ?_ fun inside =>
    later (Segment.word_mem ((List.suffix_cons _ _).trans inside))
  intro rest collector failed _
  cases front with
  | nil => rfl
  | cons second front' => rfl

theorem live?_bind {name : String} {next : List Token → Option Alloc → Parser α}
    (later : Local segment front reading fun rest =>
      next rest (reading.live.find? fun declaration => declaration.name = name)) :
    Local segment front reading fun rest => live? name >>= next rest :=
  step_bind (List.suffix_refl _) rfl (fun _ _ _ _ => rfl) fun _ => later

theorem reject {token : Token} {suggestion message : String} (member : token ∈ segment.tokens) :
    Local segment front reading fun _ => (reject token suggestion message : Parser α) :=
  fun _ => .refused token suggestion message front reading member (List.suffix_refl _) rfl
    fun _ _ _ _ => rfl

/-- Nothing comes behind a refusal. -/
theorem reject_bind {token : Token} {suggestion message : String} {next : List Token → β → Parser α}
    (member : token ∈ segment.tokens) : Local segment front reading fun rest =>
      (Parser.reject token suggestion message : Parser β) >>= next rest :=
  reject member

theorem rejectCurrent {message : String} :
    Local segment front reading fun _ => (rejectCurrent message : Parser α) :=
  current_bind fun member => reject member

theorem rejectCurrent_bind {message : String} {next : List Token → β → Parser α} :
    Local segment front reading fun rest =>
      (Parser.rejectCurrent message : Parser β) >>= next rest :=
  rejectCurrent

/-- A check of a word in front of the rest. -/
theorem check {c : Prop} [Decidable c] {token : Token} {suggestion message : String}
    {rest : List Token → Parser α} (member : token ∈ segment.tokens)
    (ofRest : ¬ c → Local segment front reading rest) :
    Local segment front reading fun behind =>
      if c then (Parser.reject token suggestion message : Parser β) >>= fun _ => rest behind
      else rest behind :=
  ite (fun _ => reject_bind member) ofRest

/-- A check of the next word in front of the rest. -/
theorem checkCurrent {c : Prop} [Decidable c] {message : String} {rest : List Token → Parser α}
    (ofRest : ¬ c → Local segment front reading rest) :
    Local segment front reading fun behind =>
      if c then (Parser.rejectCurrent message : Parser β) >>= fun _ => rest behind
      else rest behind :=
  ite (fun _ => rejectCurrent_bind) ofRest

end Words

end Local

section Readers

variable {pos : Pos} {type : String} {size : Size}

theorem local_expect {kind : TokenKind} (other : kind ≠ .semicolon) :
    Local segment front reading fun _ => expect kind := by
  refine .current_bind fun member => .ite (fun same => ?_) fun _ => .reject member
  have taken : Local segment front reading fun _ => advance >>= pure :=
    .advance_bind (same ▸ other) fun _ _ => .pure ()
  rwa [bind_pure] at taken

/-- Steps that are more than some words leave as many behind the first one. -/
theorem exists_fewer {count : Nat} {steps : List Token → Nat}
    (enough : ∀ rest, count < steps rest) :
    ∃ fewer : List Token → Nat, (steps = fun rest => fewer rest + 1) ∧ ∀ rest, count ≤ fewer rest :=
  ⟨fun rest => steps rest - 1, funext fun rest => (Nat.succ_pred_eq_of_pos
    (Nat.zero_lt_of_lt (enough rest))).symm, fun rest => Nat.le_sub_one_of_lt (enough rest)⟩

/-- The loop over the suffixes has steps enough if there is one more than words are left. -/
theorem local_suffix {steps : List Token → Nat} (enough : ∀ rest, front.length < steps rest) :
    Local segment front reading fun rest => suffix (steps rest) type size := by
  induction count : front.length using Nat.strongRecOn
    generalizing front steps type size with
  | ind _ inductionHypothesis =>
    subst count
    obtain ⟨fewer, rfl, left⟩ := exists_fewer enough
    refine .currentKind_bind (.ite (fun _ => .pure _) fun colon => ?_)
    have other : (segment.word front).kind ≠ .semicolon :=
      ne_of_eq_of_ne (not_not.mp colon) (by decide)
    refine .advance_bind other fun front₁ same => .current_bind fun member => ?_
    have again : ∀ type size, (segment.word front₁).kind ≠ .semicolon →
        Local segment front₁ reading fun rest =>
          (do advance; suffix (fewer rest) type size) := by
      intro type size other
      refine .advance_bind other fun front₂ same₂ => ?_
      have length := congrArg List.length same
      have length₂ := congrArg List.length same₂
      simp only [List.length_cons] at length length₂
      apply inductionHypothesis front₂.length (by omega) _ rfl
      intro rest
      have := left rest
      omega
    cases kind : (segment.word front₁).kind with
    | ident => exact .checkCurrent fun _ => again _ _ (ne_of_eq_of_ne kind (by decide))
    | number =>
      dsimp only
      split
      · exact again _ _ (ne_of_eq_of_ne kind (by decide))
      · exact .rejectCurrent
    | _ => exact .rejectCurrent

theorem local_suffixes : Local segment front reading fun _ => suffixes type size := by
  refine .get_bind (fun _ _ _ => rfl) (local_suffix fun rest => ?_)
  simp [Reading.facing]

theorem local_register (other : (segment.word front).kind ≠ .semicolon) :
    Local segment front reading fun _ => register pos := by
  refine .current_bind fun member => .live?_bind ?_
  have rest : ∀ found : RegRef, Local segment front reading fun _ => (do
      advance
      let given ← suffixes found.type found.size
      return { found with type := given.1, size := given.2 }) := fun found =>
    .advance_bind other fun _ _ => local_suffixes.bind fun _ _ _ _ => .pure _
  dsimp only
  split
  · exact rest _
  · exact rest _
  · exact .names_bind (fun _ _ _ _ => rfl) (.reject_bind member)

theorem local_varRef (other : (segment.word front).kind ≠ .semicolon) :
    Local segment front reading fun _ => varRef pos := by
  refine .advance_bind other fun front₁ _ => .current_bind fun _ => .checkCurrent fun ident => ?_
  exact .advance_bind (ne_of_eq_of_ne (not_not.mp ident) (by decide)) fun _ _ => .pure _

theorem local_displacement : Local segment front reading fun _ => displacement := by
  refine .currentKind_bind (.ite (fun _ => .pure _) fun sign => ?_)
  have other : (segment.word front).kind ≠ .semicolon := by
    intro same
    simp [same] at sign
  refine .advance_bind other fun front₁ _ => .current_bind fun _ => .checkCurrent fun number => ?_
  have other₁ : (segment.word front₁).kind ≠ .semicolon :=
    ne_of_eq_of_ne (not_not.mp number) (by decide)
  split
  · exact .advance_bind other₁ fun _ _ => .pure _
  · exact .rejectCurrent

theorem local_memory : Local segment front reading fun _ => memory pos size := by
  refine (local_expect (by decide)).bind fun _ front₁ after₁ _ => .current_bind fun _ => ?_
  have rest : ∀ base front₂ after₂, front₂ <:+ front₁ → Local segment front₂ after₂ fun _ => (do
      let disp ← displacement
      expect .rightBracket
      return Term.mem pos size base disp) := fun base _ _ _ =>
    local_displacement.bind fun _ _ _ _ => (local_expect (by decide)).bind fun _ _ _ _ => .pure _
  cases kind : (segment.word front₁).kind with
  | dollar => exact (local_varRef (ne_of_eq_of_ne kind (by decide))).map.bind rest
  | ident => exact (local_register (ne_of_eq_of_ne kind (by decide))).map.bind rest
  | _ => exact .rejectCurrent_bind

theorem local_digits (other : (segment.word front).kind ≠ .semicolon) {negative : Bool} :
    Local segment front reading fun _ => digits pos negative := by
  refine .current_bind fun _ => ?_
  dsimp only
  split
  · exact .advance_bind other fun _ _ => .pure _
  · exact .rejectCurrent

theorem local_number (other : (segment.word front).kind ≠ .semicolon) :
    Local segment front reading fun _ => number pos := by
  refine .currentKind_bind (.ite (fun _ => ?_) fun _ => local_digits other)
  refine .advance_bind other fun front₁ _ => .current_bind fun _ => .checkCurrent fun number => ?_
  exact local_digits (ne_of_eq_of_ne (not_not.mp number) (by decide))

/-- A semicolon does not stand between a width and an address. -/
theorem isPtr_stop (segment : Segment) : isPtr segment.stop = false :=
  decide_eq_false (by decide : lowerCase ";" ≠ "ptr")

theorem local_operand : Local segment front reading fun _ => operand := by
  refine .current_bind fun _ => ?_
  cases kind : (segment.word front).kind with
  | dollar => exact (local_varRef (ne_of_eq_of_ne kind (by decide))).map
  | leftBracket => exact local_memory
  | number => exact local_number (ne_of_eq_of_ne kind (by decide))
  | minus => exact local_number (ne_of_eq_of_ne kind (by decide))
  | ident =>
    have other : (segment.word front).kind ≠ .semicolon := ne_of_eq_of_ne kind (by decide)
    obtain ⟨front₁, same⟩ := Segment.front_eq other
    rw [same]
    refine .following_bind fun _ => ?_
    rw [← same]
    split
    · rename_i second
      have some : front₁ ≠ [] := by
        rintro rfl
        rw [show segment.word [] = segment.stop from rfl, isPtr_stop] at second
        contradiction
      obtain ⟨next, front₂, rfl⟩ := List.exists_cons_of_ne_nil some
      rw [same]
      exact .take_bind (.ite (fun _ => .take_bind local_memory) fun _ => local_memory)
    · refine .ite (fun _ => ?_) fun _ => ?_
      · exact .advance_bind other fun _ _ => .pure _
      · exact (local_register other).map
  | _ => exact .rejectCurrent

theorem local_allocTail {name : String} {phys : Option Phys} :
    Local segment front reading fun _ => allocTail name phys size := by
  refine .current_bind fun member => ?_
  cases kind : (segment.word front).kind with
  | ident =>
    dsimp only
    split
    · exact .reject member
    · refine .check member fun _ => ?_
      exact .advance_bind (ne_of_eq_of_ne kind (by decide)) fun _ _ => .pure _
  | _ => exact local_suffixes.bind fun _ _ _ _ => .pure _

theorem local_alloc (other : (segment.word front).kind ≠ .semicolon) :
    Local segment front reading fun _ => alloc pos := by
  refine .advance_bind other fun front₁ _ => .current_bind fun member => ?_
  refine .checkCurrent fun ident => ?_
  refine .advance_bind (ne_of_eq_of_ne (not_not.mp ident) (by decide)) fun _ _ => ?_
  refine .live?_bind (.check member fun _ => .check member fun _ => ?_)
  refine local_allocTail.bind fun tail _ _ _ => .check member fun _ => .check member fun _ => ?_
  exact .modify_bind (fun _ _ _ _ => rfl) rfl (.pure _)

theorem local_free (other : (segment.word front).kind ≠ .semicolon) :
    Local segment front reading fun _ => free pos := by
  refine .advance_bind other fun front₁ _ => .current_bind fun member => ?_
  refine .checkCurrent fun ident => ?_
  refine .advance_bind (ne_of_eq_of_ne (not_not.mp ident) (by decide)) fun _ _ => ?_
  refine .live?_bind (.ite (fun _ => ?_) fun _ => ?_)
  · exact .names_bind (fun _ _ _ _ => rfl) (.reject_bind member)
  · exact .modify_bind (fun _ _ _ _ => rfl) rfl (.pure _)

theorem local_check {token : Token} (member : token ∈ segment.tokens) {mnemonic : String}
    {index : Nat} {position : Position} {term : Term} :
    Local segment front reading fun _ => check token mnemonic index position term := by
  unfold check
  dsimp only
  split
  · exact .ite (fun _ => .pure _) fun _ => .reject member
  · exact .ite (fun _ => .pure _) fun _ => .reject member

/-- The loop over the operands has steps enough if there is one more than words are left: every
round takes at least one of them. -/
theorem local_operands {mnemonic : String} {spec : Spec} {steps : List Token → Nat}
    {terms : List Term} (enough : ∀ rest, front.length < steps rest) :
    Local segment front reading fun rest => operands mnemonic spec (steps rest) terms := by
  induction count : front.length using Nat.strongRecOn
    generalizing front reading steps terms with
  | ind _ inductionHypothesis =>
    subst count
    obtain ⟨fewer, rfl, left⟩ := exists_fewer enough
    have again : ∀ term front₂ after₂, front₂.length < front.length →
        Local segment front₂ after₂ fun rest =>
          operands mnemonic spec (fewer rest) (terms ++ [term]) := by
      intro term front₂ after₂ shorter
      apply inductionHypothesis front₂.length shorter _ rfl
      intro rest
      exact Nat.lt_of_lt_of_le shorter (left rest)
    have round : ∀ {next : Token → Term → List Token → Parser (List Term)},
        (∀ token ∈ segment.tokens, ∀ term front₂ after₂, front₂.length < front.length →
          Local segment front₂ after₂ (next token term)) →
        ∀ front₁ after₁, front₁ <:+ front → Local segment front₁ after₁ fun rest => (do
          let token ← current
          let term ← operand
          next token term rest) := by
      intro next ofNext front₁ after₁ behind inside
      refine Local.current_bind (fun member => local_operand.bind_of_run ?_) inside
      intro term front₂ after₂ _ ran
      have read := ran [missing] .empty false (List.cons_ne_nil _ _)
      have fewer := ((reads_operand (segment.ends inside)).ok read).2.2
      have shorter : front₂.length < front₁.length := by
        simpa [Reading.within, Reading.facing, Reading.noting] using fewer
      exact ofNext _ member term front₂ after₂ (Nat.lt_of_lt_of_le shorter behind.length_le)
    refine .currentKind_bind ?_
    split
    · exact .pure _
    · exact .pure _
    · exact .pure _
    · refine .ite (fun _ => (local_expect (by decide)).bind fun _ => round ?_) fun _ =>
        round ?_ _ _ (List.suffix_refl _)
      -- with a comma in front or without one, the operand is checked in the same way
      all_goals
        intro token member term front₂ after₂ shorter
        dsimp only
        split
        · refine (local_check member).bind fun _ front₃ after₃ behind => ?_
          exact again term front₃ after₃ (Nat.lt_of_le_of_lt behind.length_le shorter)
        · exact again term front₂ after₂ shorter

theorem local_instruction (other : (segment.word front).kind ≠ .semicolon) {returned : Bool}
    {spec : Spec} : Local segment front reading fun _ => instruction pos returned spec := by
  refine .current_bind fun member => .advance_bind other fun front₁ _ => ?_
  refine .get_bind (fun _ _ _ => rfl) ?_
  refine (local_operands fun rest => ?_).bind fun terms _ _ _ => ?_
  · simp [Reading.facing]
  · exact .check member fun _ => .check member fun _ => .check member fun _ => .pure _

theorem local_returnMark : Local segment front reading fun _ => returnMark := by
  refine .current_bind fun _ => .ite (fun mark => ?_) fun _ => .pure _
  have other : (segment.word front).kind ≠ .semicolon := by
    intro same
    simp [same] at mark
  refine .advance_bind other fun front₁ _ => .names_bind (fun _ _ _ _ => rfl) ?_
  exact .checkCurrent fun _ => .modify_bind (fun _ _ _ _ => rfl) rfl (.pure _)

theorem local_valueStatement : Local segment front reading fun _ => valueStatement pos :=
  local_operand.bind fun _ _ _ _ => .pure _

/-- A statement is read, or reported by one of its words, without a look behind its semicolon. -/
theorem local_statement : Local segment front reading fun _ => statement := by
  refine .current_bind fun _ => local_returnMark.bind fun returned front₁ after₁ _ => ?_
  refine .current_bind fun member => .ite (fun ident => ?_) fun _ => ?_
  · have other : (segment.word front₁).kind ≠ .semicolon := ne_of_eq_of_ne ident (by decide)
    refine .ite (fun _ => .checkCurrent fun _ => ?_) fun _ => ?_
    · exact .ite (fun _ => local_alloc other) fun _ => local_free other
    · split
      · exact local_instruction other
      · exact .ite (fun _ => local_valueStatement) fun _ => .reject member
  · exact .ite (fun _ => local_valueStatement) fun _ => .rejectCurrent

end Readers

end Parser

end X64Backend.Block
