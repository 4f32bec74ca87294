import Mathlib.Data.List.Sort
import X64Backend.Proofs.Text.Bytes
import X64Backend.Suggest

/-!
Which candidates are suggested, and in which order.  Two candidates are never as close and of one
name, so the order of those within reach is strict, and it depends on nothing but the candidates
themselves: how often they are listed, and where, makes no difference.
-/

namespace X64Backend.Suggest

variable {name candidate first second third : String} {candidates others : List String}
  {limit : Nat}

/-- One candidate is suggested before another: it is closer, or as close and its bytes come
first. -/
def Nearer (name first second : String) : Prop :=
  distance name first < distance name second ∨
    distance name first = distance name second ∧ Text.bytes first < Text.bytes second

/-- A candidate close enough to be suggested, but not the name itself. -/
def InReach (name candidate : String) : Prop :=
  distance name candidate = 1 ∨ distance name candidate = 2

theorem inReach_iff : InReach name candidate ↔
    0 < distance name candidate ∧ distance name candidate ≤ reach := by
  unfold InReach reach
  omega

theorem nearer_iff : Nearer name first second ↔ distance name first < distance name second ∨
    distance name first = distance name second ∧ first < second := by
  rw [Nearer, Text.bytes_lt_iff]

theorem Nearer.irrefl : ¬ Nearer name first first := by
  rw [nearer_iff]
  rintro (closer | ⟨_, before⟩)
  · exact Nat.lt_irrefl _ closer
  · exact String.lt_irrefl _ before

theorem Nearer.trans (front : Nearer name first second) (back : Nearer name second third) :
    Nearer name first third := by
  rw [nearer_iff] at front back ⊢
  rcases front with closer | ⟨same, before⟩
  · rcases back with closer' | ⟨same', _⟩
    · exact .inl (Nat.lt_trans closer closer')
    · exact .inl (same' ▸ closer)
  · rcases back with closer' | ⟨same', before'⟩
    · exact .inl (same ▸ closer')
    · exact .inr ⟨same.trans same', String.lt_trans before before'⟩

theorem precedes_iff {first second : Nat × String} : precedes first second = true ↔
    first.1 < second.1 ∨ first.1 = second.1 ∧ first.2 ≤ second.2 := by
  simp [precedes, le_iff_lt_or_eq]

theorem precedes_trans (first second third : Nat × String) (front : precedes first second = true)
    (back : precedes second third = true) : precedes first third = true := by
  rw [precedes_iff] at front back ⊢
  rcases front with closer | ⟨same, before⟩
  · rcases back with closer' | ⟨same', _⟩
    · exact .inl (Nat.lt_trans closer closer')
    · exact .inl (same' ▸ closer)
  · rcases back with closer' | ⟨same', before'⟩
    · exact .inl (same ▸ closer')
    · exact .inr ⟨same.trans same', le_trans before before'⟩

theorem precedes_total (first second : Nat × String) :
    (precedes first second || precedes second first) = true := by
  rw [Bool.or_eq_true, precedes_iff, precedes_iff]
  rcases Nat.lt_trichotomy first.1 second.1 with less | same | more
  · exact .inl (.inl less)
  · rcases le_total first.2 second.2 with before | behind
    · exact .inl (.inr ⟨same, before⟩)
    · exact .inr (.inr ⟨same.symm, behind⟩)
  · exact .inr (.inl more)

/-- The ranked candidates are those within reach, with their distances. -/
theorem mem_ranked {entry : Nat × String} : entry ∈ ranked name candidates ↔
    entry.2 ∈ candidates ∧ InReach name entry.2 ∧ entry.1 = distance name entry.2 := by
  obtain ⟨d, candidate⟩ := entry
  simp only [ranked, List.mem_mergeSort, List.mem_filterMap, List.mem_eraseDups, inReach_iff]
  constructor
  · rintro ⟨found, member, kept⟩
    split at kept
    · rename_i close
      cases kept
      exact ⟨member, close, rfl⟩
    · cases kept
  · rintro ⟨member, close, rfl⟩
    exact ⟨candidate, member, by rw [if_pos close]⟩

theorem nodup_eraseDups (texts : List String) : texts.eraseDups.Nodup := by
  match texts with
  | [] => exact List.nodup_nil
  | text :: rest =>
      have shorter := List.length_filter_le (fun other => !other == text) rest
      rw [List.eraseDups_cons, List.nodup_cons]
      exact ⟨by simp, nodup_eraseDups _⟩
termination_by texts.length
decreasing_by exact Nat.lt_succ_of_le shorter

theorem nodup_ranked : (ranked name candidates).Nodup := by
  refine (List.mergeSort_perm _ _).nodup_iff.mpr ((nodup_eraseDups candidates).filterMap ?_)
  intro one other entry ofOne ofOther
  dsimp only at ofOne ofOther
  split at ofOne
  · split at ofOther
    · have same := (Option.some.inj ofOne).trans (Option.some.inj ofOther).symm
      exact congrArg Prod.snd same
    · cases ofOther
  · cases ofOne

theorem pairwise_ranked :
    (ranked name candidates).Pairwise fun front back => precedes front back = true :=
  List.pairwise_mergeSort precedes_trans precedes_total _

/-- The names of the ranked candidates, in a strict order. -/
theorem pairwise_names : ((ranked name candidates).map Prod.snd).Pairwise (Nearer name) := by
  rw [List.pairwise_map]
  refine (pairwise_ranked.and nodup_ranked).imp_of_mem ?_
  rintro ⟨d, first⟩ ⟨e, second⟩ ofFirst ofSecond ⟨before, apart⟩
  have d_eq : d = distance name first := (mem_ranked.mp ofFirst).2.2
  have e_eq : e = distance name second := (mem_ranked.mp ofSecond).2.2
  subst d_eq e_eq
  rw [precedes_iff] at before
  rw [nearer_iff]
  rcases before with closer | ⟨same, before⟩
  · exact .inl closer
  · refine .inr ⟨same, lt_of_le_of_ne before fun equal => apart ?_⟩
    exact Prod.ext same equal

theorem mem_names : candidate ∈ (ranked name candidates).map Prod.snd ↔
    candidate ∈ candidates ∧ InReach name candidate := by
  rw [List.mem_map]
  constructor
  · rintro ⟨entry, member, rfl⟩
    obtain ⟨listed, close, _⟩ := mem_ranked.mp member
    exact ⟨listed, close⟩
  · rintro ⟨listed, close⟩
    exact ⟨(distance name candidate, candidate), mem_ranked.mpr ⟨listed, close, rfl⟩, rfl⟩

theorem similar_eq_take :
    similar name candidates limit = ((ranked name candidates).map Prod.snd).take limit := by
  rw [similar, List.map_take]

/-- Lists with the same elements have the same ranking. -/
theorem names_congr (same : ∀ candidate, candidate ∈ candidates ↔ candidate ∈ others) :
    (ranked name others).map Prod.snd = (ranked name candidates).map Prod.snd := by
  have irreflexive : Std.Irrefl (Nearer name) := ⟨fun _ => Nearer.irrefl⟩
  have antisymmetric : Std.Antisymm (Nearer name) :=
    ⟨fun _ _ front back => absurd (front.trans back) Nearer.irrefl⟩
  refine pairwise_names.eq_of_mem_iff pairwise_names fun candidate => ?_
  rw [mem_names, mem_names, same]

/-- The suggestions are the first few of the candidates within reach, the closest first and of those
as close in the order of their names.  Any list of the same candidates gives the same suggestions. -/
theorem similar_is_ranking (name : String) (candidates : List String) (limit : Nat) :
    (∃ names : List String, names.Pairwise (Nearer name) ∧
        (∀ candidate, candidate ∈ names ↔ candidate ∈ candidates ∧ InReach name candidate) ∧
        similar name candidates limit = names.take limit) ∧
      ∀ others : List String, (∀ candidate, candidate ∈ candidates ↔ candidate ∈ others) →
        similar name others limit = similar name candidates limit ∧
          hint name others = hint name candidates := by
  refine ⟨⟨_, pairwise_names, fun _ => mem_names, similar_eq_take⟩, fun others same => ?_⟩
  have congr : ∀ limit, similar name others limit = similar name candidates limit := by
    intro limit
    rw [similar_eq_take, similar_eq_take, names_congr same]
  refine ⟨congr limit, ?_⟩
  rw [hint, hint, congr 1]

/-- A list of mnemonics with a repetition, and the same ones in another order. -/
theorem similar_is_ranking_movv :
    (∀ candidate, candidate ∈ ["mov", "movzx", "add", "mov", "movsx"] ↔
        candidate ∈ ["add", "movsx", "mov", "movzx"]) ∧
      similar "movv" ["add", "movsx", "mov", "movzx"] 2 =
        similar "movv" ["mov", "movzx", "add", "mov", "movsx"] 2 ∧
      hint "movv" ["add", "movsx", "mov", "movzx"] =
        hint "movv" ["mov", "movzx", "add", "mov", "movsx"] := by
  have same : ∀ candidate, candidate ∈ ["mov", "movzx", "add", "mov", "movsx"] ↔
      candidate ∈ ["add", "movsx", "mov", "movzx"] := by
    intro candidate
    simp only [List.mem_cons, List.not_mem_nil, or_false]
    tauto
  exact ⟨same, (similar_is_ranking "movv" _ 2).2 _ same⟩

end X64Backend.Suggest
