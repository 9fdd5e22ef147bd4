import Mathlib.Data.List.MinMax

/-! # The intervals between marks

Marks on a line cut it into intervals, each named by the mark that it ends with. The intervals are
open: a mark lies in none of them. -/

namespace Miningcore.Intervals

variable {Mark Point : Type} [LinearOrder Point]
variable (place : Mark → Point) (marks : List Mark)

def IsIn (mark : Mark) (point : Point) : Prop :=
  point < place mark ∧ ∀ other ∈ marks, place other < place mark → place other < point

variable {place marks} {point : Point}

theorem not_isIn_of_mem {mark other : Mark} (member : other ∈ marks) :
    ¬IsIn place marks mark (place other) := by
  rintro ⟨before, behind⟩
  exact lt_irrefl _ (behind other member before)

theorem eq_of_isIn (distinct : ∀ left ∈ marks, ∀ right ∈ marks, place left = place right →
    left = right) {left right : Mark} (leftMember : left ∈ marks) (rightMember : right ∈ marks)
    (inLeft : IsIn place marks left point) (inRight : IsIn place marks right point) :
    left = right := by
  apply distinct left leftMember right rightMember
  rcases lt_trichotomy (place left) (place right) with less | equal | greater
  · exact absurd (inRight.2 left leftMember less) inLeft.1.asymm
  · exact equal
  · exact absurd (inLeft.2 right rightMember greater) inRight.1.asymm

theorem exists_isIn (before : ∃ mark ∈ marks, point < place mark)
    (isNone : ∀ mark ∈ marks, place mark ≠ point) :
    ∃ mark ∈ marks, IsIn place marks mark point := by
  rcases before with ⟨some, someMember, someBefore⟩
  have nonempty : marks.filter (fun mark => point < place mark) ≠ [] :=
    List.ne_nil_of_mem (List.mem_filter.mpr ⟨someMember, decide_eq_true someBefore⟩)
  cases first : (marks.filter fun mark => point < place mark).argmin place with
  | none => exact absurd (List.argmin_eq_none.mp first) nonempty
  | some next =>
      rcases List.mem_filter.mp (List.argmin_mem first) with ⟨member, behind⟩
      refine ⟨next, member, of_decide_eq_true behind, ?_⟩
      intro other otherMember less
      by_contra notBefore
      have between : point < place other :=
        lt_of_le_of_ne (not_lt.mp notBefore) (isNone other otherMember).symm
      have least := List.le_of_mem_argmin
        (List.mem_filter.mpr ⟨otherMember, decide_eq_true between⟩) first
      exact absurd less (not_lt.mpr least)

theorem existsUnique_isIn_iff (distinct : ∀ left ∈ marks, ∀ right ∈ marks,
    place left = place right → left = right) (upTo : ∃ mark ∈ marks, point ≤ place mark) :
    (∃! mark, mark ∈ marks ∧ IsIn place marks mark point) ↔ ∀ mark ∈ marks, place mark ≠ point := by
  constructor
  · rintro ⟨mark, ⟨-, isIn⟩, -⟩ other member rfl
    exact not_isIn_of_mem member isIn
  · intro isNone
    have before : ∃ mark ∈ marks, point < place mark := by
      rcases upTo with ⟨mark, member, le⟩
      exact ⟨mark, member, lt_of_le_of_ne le (isNone mark member).symm⟩
    rcases exists_isIn before isNone with ⟨mark, member, isIn⟩
    refine ⟨mark, ⟨member, isIn⟩, ?_⟩
    rintro other ⟨otherMember, otherIn⟩
    exact eq_of_isIn distinct otherMember member otherIn isIn

end Miningcore.Intervals
