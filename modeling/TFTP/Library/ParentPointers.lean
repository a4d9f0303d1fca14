import TFTP.Library.HuffmanTree
import Mathlib.Logic.Function.Iterate

/-!
# Trees by parent pointers

Inner nodes are made one after another, and a node that becomes a child is marked with
the index of its parent. Nodes become children in the order in which they were made. The
pointers then never decrease, and every level of the last tree is an interval of nodes,
found from the level above by counting pointers.
-/

namespace TFTP.ParentPointers

open HuffmanTree HuffmanTree.CodeTree

/-- The number of inner nodes on level `d` of some trees. -/
def innerSum (trees : List CodeTree) (d : Nat) : Nat := (trees.map fun t => t.innerAt d).sum

/-- The number of nodes whose parent is made before node `a`. -/
def childrenBefore (parents : List Nat) (a : Nat) : Nat := parents.countP fun p => p < a

theorem innerSum_append (ts us : List CodeTree) (d : Nat) :
    innerSum (ts ++ us) d = innerSum ts d + innerSum us d := by
  simp only [innerSum, List.map_append, List.sum_append]

theorem innerSum_take_succ {ts : List CodeTree} {t : CodeTree} {j : Nat} (here : ts[j]? = some t)
    (d : Nat) : innerSum (ts.take (j + 1)) d = innerSum (ts.take j) d + t.innerAt d := by
  rw [List.take_add_one, here, innerSum_append]
  rfl

/-- A new node takes a leaf, or the first node that has no parent yet. -/
inductive Picked (made : List CodeTree) (parents : List Nat) : CodeTree → List Nat → Prop where
  | leaf (w : Nat) : Picked made parents (leaf w) parents
  | tree (t : CodeTree) (first : made[parents.length]? = some t) :
      Picked made parents t (parents ++ [made.length])

/-- The nodes made so far, with the pointers of those that have a parent. -/
structure Linked (made : List CodeTree) (parents : List Nat) : Prop where
  length_le : parents.length ≤ made.length
  sorted : parents.Pairwise (· ≤ ·)
  bounded : ∀ p ∈ parents, p < made.length
  later : ∀ j (p : Nat), parents[j]? = some p → j < p
  roots : ∀ a, a ≤ made.length → innerSum (made.take a) 0 = a
  levels : ∀ a d, a ≤ made.length →
    innerSum (made.take a) (d + 1) = innerSum (made.take (childrenBefore parents a)) d

theorem linked_nil : Linked [] [] where
  length_le := Nat.le_refl _
  sorted := List.Pairwise.nil
  bounded := fun p mem => by cases mem
  later := fun j p h => by cases h
  roots := fun a le => by rw [Nat.le_zero.mp le]; rfl
  levels := fun a d le => by rw [Nat.le_zero.mp le]; rfl

section Picks

variable {made : List CodeTree} {parents parents' : List Nat} {t : CodeTree}

theorem Picked.innerSum (picked : Picked made parents t parents') (d : Nat) :
    innerSum (made.take parents'.length) d =
      innerSum (made.take parents.length) d + t.innerAt d := by
  cases picked with
  | leaf w => rfl
  | tree t first =>
    rw [List.length_append]
    exact innerSum_take_succ first d

theorem Picked.length_le (picked : Picked made parents t parents')
    (le : parents.length ≤ made.length) : parents'.length ≤ made.length := by
  cases picked with
  | leaf w => exact le
  | tree t first =>
    obtain ⟨room, _⟩ := List.getElem?_eq_some_iff.mp first
    rw [List.length_append]
    exact room

theorem Picked.sorted (picked : Picked made parents t parents')
    (sorted : parents.Pairwise (· ≤ ·)) (bounded : ∀ p ∈ parents, p ≤ made.length) :
    parents'.Pairwise (· ≤ ·) := by
  cases picked with
  | leaf w => exact sorted
  | tree t first =>
    refine List.pairwise_append.mpr ⟨sorted, List.pairwise_singleton _ _, ?_⟩
    intro p mem q last
    rw [List.mem_singleton.mp last]
    exact bounded p mem

theorem Picked.bounded (picked : Picked made parents t parents')
    (bounded : ∀ p ∈ parents, p ≤ made.length) : ∀ p ∈ parents', p ≤ made.length := by
  cases picked with
  | leaf w => exact bounded
  | tree t first =>
    intro p mem
    rcases List.mem_append.mp mem with mem | mem
    · exact bounded p mem
    · exact Nat.le_of_eq (List.mem_singleton.mp mem)

theorem Picked.later (picked : Picked made parents t parents')
    (later : ∀ j (p : Nat), parents[j]? = some p → j < p) :
    ∀ j (p : Nat), parents'[j]? = some p → j < p := by
  cases picked with
  | leaf w => exact later
  | tree t first =>
    intro j p here
    obtain ⟨room, _⟩ := List.getElem?_eq_some_iff.mp first
    rw [List.getElem?_append] at here
    split at here
    · exact later j p here
    · have last : j = parents.length ∧ p = made.length := by
        obtain ⟨lt, eq⟩ := List.getElem?_eq_some_iff.mp here
        simp only [List.length_singleton] at lt
        simp only [List.getElem_singleton] at eq
        omega
      omega

/-- The new pointers lead to the new node only. -/
theorem Picked.childrenBefore (picked : Picked made parents t parents') {a : Nat}
    (le : a ≤ made.length) : childrenBefore parents' a = childrenBefore parents a := by
  cases picked with
  | leaf w => rfl
  | tree t first =>
    have outside : ¬ made.length < a := Nat.not_lt.mpr le
    simp only [ParentPointers.childrenBefore, List.countP_append, List.countP_singleton,
      outside, decide_false]
    rfl

end Picks

theorem childrenBefore_all {parents : List Nat} {a : Nat} (bounded : ∀ p ∈ parents, p < a) :
    childrenBefore parents a = parents.length := by
  apply List.countP_eq_length.mpr
  intro p mem
  exact decide_eq_true (bounded p mem)

theorem Linked.add {made : List CodeTree} {parents parents₁ parents₂ : List Nat} {l r : CodeTree}
    (linked : Linked made parents) (left : Picked made parents l parents₁)
    (right : Picked made parents₁ r parents₂) : Linked (made ++ [node l r]) parents₂ := by
  have bounded : ∀ p ∈ parents, p ≤ made.length := fun p mem => Nat.le_of_lt (linked.bounded p mem)
  have bounded₁ := left.bounded bounded
  have bounded₂ := right.bounded bounded₁
  have bounded' : ∀ p ∈ parents₂, p < (made ++ [node l r]).length := by
    intro p mem
    rw [List.length_append]
    exact Nat.lt_succ_of_le (bounded₂ p mem)
  have room : parents₂.length ≤ made.length := right.length_le (left.length_le linked.length_le)
  have longer : (made ++ [node l r]).length = made.length + 1 := List.length_append
  constructor
  · rw [longer]
    exact Nat.le_succ_of_le room
  · exact right.sorted (left.sorted linked.sorted bounded) bounded₁
  · exact bounded'
  · exact right.later (left.later linked.later)
  · intro a le
    rcases Nat.lt_or_ge made.length a with last | earlier
    · obtain rfl : a = made.length + 1 := by omega
      have old := linked.roots made.length (Nat.le_refl _)
      rw [List.take_length] at old
      rw [← longer, List.take_length, innerSum_append, old, longer]
      rfl
    · rw [List.take_append_of_le_length earlier]
      exact linked.roots a earlier
  · intro a d le
    rcases Nat.lt_or_ge made.length a with last | earlier
    · obtain rfl : a = made.length + 1 := by omega
      have old := linked.levels made.length d (Nat.le_refl _)
      rw [List.take_length, childrenBefore_all linked.bounded] at old
      rw [← longer, List.take_length, innerSum_append, old, childrenBefore_all bounded',
        List.take_append_of_le_length room, right.innerSum, left.innerSum]
      simp only [innerSum, innerAt, List.map_cons, List.map_nil, List.sum_singleton]
      omega
    · have same : childrenBefore parents₂ a = childrenBefore parents a := by
        rw [right.childrenBefore earlier, left.childrenBefore earlier]
      have fits : childrenBefore parents a ≤ made.length :=
        Nat.le_trans List.countP_le_length linked.length_le
      rw [same, List.take_append_of_le_length earlier, List.take_append_of_le_length fits]
      exact linked.levels a d earlier

section Levels

variable {made : List CodeTree} {parents : List Nat}

/-- The nodes with a parent before `a` come first. -/
theorem lt_childrenBefore_iff (sorted : parents.Pairwise (· ≤ ·)) {a j p : Nat}
    (here : parents[j]? = some p) : j < childrenBefore parents a ↔ p < a := by
  induction parents generalizing j with
  | nil => cases here
  | cons q parents ih =>
    obtain ⟨first, rest⟩ := List.pairwise_cons.mp sorted
    by_cases before : q < a
    · cases j with
      | zero =>
        obtain rfl : q = p := Option.some.inj here
        simp [childrenBefore, before]
      | succ j =>
        have := ih rest here
        simp only [childrenBefore] at this ⊢
        simp only [List.countP_cons, before, decide_true, if_true]
        omega
    · have none : childrenBefore (q :: parents) a = 0 := by
        apply List.countP_eq_zero.mpr
        intro r mem
        have : q ≤ r := by
          rcases List.mem_cons.mp mem with rfl | mem
          · exact Nat.le_refl _
          · exact first r mem
        simp only [decide_eq_true_eq]
        omega
      have le : q ≤ p := by
        rcases List.mem_cons.mp (List.mem_of_getElem? here) with rfl | mem
        · exact Nat.le_refl _
        · exact first p mem
      omega

/-- A child is made before its parent. -/
theorem childrenBefore_lt (linked : Linked made parents) {a : Nat} (pos : 0 < a) :
    childrenBefore parents a < a := by
  rcases Nat.eq_zero_or_pos (childrenBefore parents a) with none | some
  · rw [none]
    exact pos
  · have last : childrenBefore parents a - 1 < parents.length := by
      have := List.countP_le_length (p := fun p => decide (p < a)) (l := parents)
      simp only [childrenBefore] at some ⊢
      omega
    have here := List.getElem?_eq_getElem last
    have earlier := linked.later _ _ here
    have below := (lt_childrenBefore_iff linked.sorted here (a := a)).mp (by omega)
    omega

/-- The node with which level `d` of the last tree begins. -/
def levelTop (parents : List Nat) (d : Nat) : Nat := (childrenBefore parents)^[d] parents.length

theorem levelTop_succ (parents : List Nat) (d : Nat) :
    levelTop parents (d + 1) = childrenBefore parents (levelTop parents d) :=
  Function.iterate_succ_apply' _ _ _

theorem levelTop_le (parents : List Nat) (d : Nat) : levelTop parents d ≤ parents.length := by
  cases d with
  | zero => exact Nat.le_refl _
  | succ d =>
    rw [levelTop_succ]
    exact List.countP_le_length

theorem innerSum_eq_iterate (linked : Linked made parents) (d : Nat) {a : Nat}
    (le : a ≤ made.length) : innerSum (made.take a) d = (childrenBefore parents)^[d] a := by
  induction d generalizing a with
  | zero => exact linked.roots a le
  | succ d ih =>
    rw [linked.levels a d le, Function.iterate_succ_apply]
    exact ih (Nat.le_trans List.countP_le_length linked.length_le)

/-- Every level of the last tree is an interval of nodes. -/
theorem innerAt_succ {t : CodeTree} (linked : Linked made parents)
    (last : made[parents.length]? = some t) (all : made.length = parents.length + 1) (d : Nat) :
    t.innerAt (d + 1) + levelTop parents (d + 1) = levelTop parents d := by
  have upTo := innerSum_eq_iterate linked (d + 1) (Nat.le_refl made.length)
  have before := innerSum_eq_iterate linked (d + 1) linked.length_le
  have count : childrenBefore parents made.length = parents.length :=
    childrenBefore_all linked.bounded
  rw [Function.iterate_succ_apply, count, all, innerSum_take_succ last, before] at upTo
  simp only [levelTop]
  omega

theorem innerAt_zero {t : CodeTree} (linked : Linked made parents)
    (last : made[parents.length]? = some t) : t.innerAt 0 = 1 := by
  obtain ⟨room, _⟩ := List.getElem?_eq_some_iff.mp last
  have upTo := linked.roots (parents.length + 1) room
  have before := linked.roots parents.length linked.length_le
  rw [innerSum_take_succ last, before] at upTo
  omega

end Levels

end TFTP.ParentPointers
