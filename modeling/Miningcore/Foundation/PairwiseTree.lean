import Mathlib.Data.Nat.Log

/-! # Pairwise trees

A list is reduced level by level: neighbours are joined, and the last value of a level of odd
length is joined with itself. The first value of every level depends on the first leaf; the
branch holds what is joined to it, which does not. -/

namespace Miningcore.PairwiseTree

variable {Node : Type} (join : Node → Node → Node)

def parents : List Node → List Node
  | [] => []
  | [last] => [join last last]
  | left :: right :: rest => join left right :: parents rest

@[simp] theorem parents_length (nodes : List Node) :
    (parents join nodes).length = (nodes.length + 1) / 2 := by
  induction nodes using parents.induct with
  | case1 => simp [parents]
  | case2 last => simp [parents]
  | case3 left right rest induction =>
      simp only [parents, List.length_cons, induction]
      omega

def root : List Node → Option Node
  | [] => none
  | [node] => some node
  | left :: right :: rest => root (parents join (left :: right :: rest))
termination_by nodes => nodes.length
decreasing_by
  rw [parents_length]
  simp only [List.length_cons]
  omega

/-- What is joined to the first value, level by level from the leaves, given the values after it. -/
def branch : List Node → List Node
  | [] => []
  | sibling :: rest => sibling :: branch (parents join rest)
termination_by nodes => nodes.length
decreasing_by
  rw [parents_length]
  simp only [List.length_cons]
  omega

@[simp] theorem branch_nil : branch join [] = [] := by rw [branch]

@[simp] theorem branch_cons (sibling : Node) (rest : List Node) :
    branch join (sibling :: rest) = sibling :: branch join (parents join rest) := by
  rw [branch]

theorem root_eq_foldl_branch (first : Node) (rest : List Node) :
    root join (first :: rest) = some ((branch join rest).foldl join first) := by
  induction rest using branch.induct join generalizing first with
  | case1 => simp [root]
  | case2 sibling rest induction =>
      rw [root, parents, induction, branch_cons, List.foldl_cons]

theorem branch_length (rest : List Node) :
    (branch join rest).length = Nat.clog 2 (rest.length + 1) := by
  induction rest using branch.induct join with
  | case1 => simp
  | case2 sibling rest induction =>
      have halved : (rest.length + 1) / 2 + 1 = (rest.length + 1 + 1 + 2 - 1) / 2 := by omega
      rw [branch_cons, List.length_cons, induction, parents_length, List.length_cons, halved,
        Nat.clog_of_two_le (le_refl 2) (by omega : 2 ≤ rest.length + 1 + 1)]

end Miningcore.PairwiseTree
