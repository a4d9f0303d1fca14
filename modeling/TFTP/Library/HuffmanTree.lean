import Mathlib.Data.List.Sort
import Mathlib.Data.Nat.Fib.Basic
import Mathlib.Tactic.Ring

/-!
# Huffman trees from two queues

Leaves wait in one queue, ordered by weight, and inner nodes in another, in the order
they were made. The two least trees are merged until one is left, a leaf going first
when weights are equal. Since nothing is ever taken that is lighter than what was taken
before, weights double every two levels, and no tree is deep.
-/

namespace TFTP.HuffmanTree

inductive CodeTree where
  | leaf (weight : Nat)
  | node (left right : CodeTree)
  deriving DecidableEq, Repr

namespace CodeTree

def weight : CodeTree → Nat
  | leaf w => w
  | node l r => l.weight + r.weight

/-- The depths of the leaves, from left to right, in a tree whose root is at depth `d`. -/
def depths : Nat → CodeTree → List Nat
  | d, leaf _ => [d]
  | d, node l r => depths (d + 1) l ++ depths (d + 1) r

def leavesAt : CodeTree → Nat → Nat
  | leaf _, 0 => 1
  | leaf _, _ + 1 => 0
  | node _ _, 0 => 0
  | node l r, d + 1 => l.leavesAt d + r.leavesAt d

def innerAt : CodeTree → Nat → Nat
  | leaf _, _ => 0
  | node _ _, 0 => 1
  | node l r, d + 1 => l.innerAt d + r.innerAt d

theorem leavesAt_zero_add (t : CodeTree) : t.leavesAt 0 + t.innerAt 0 = 1 := by
  cases t <;> rfl

/-- Every inner node has two children on the next level. -/
theorem leavesAt_succ_add (t : CodeTree) (d : Nat) :
    t.leavesAt (d + 1) + t.innerAt (d + 1) = 2 * t.innerAt d := by
  induction t generalizing d with
  | leaf w => rfl
  | node l r ihl ihr =>
    cases d with
    | zero =>
      have hl := leavesAt_zero_add l
      have hr := leavesAt_zero_add r
      simp only [leavesAt, innerAt]
      omega
    | succ d =>
      have hl := ihl d
      have hr := ihr d
      simp only [leavesAt, innerAt] at hl hr ⊢
      omega

theorem innerAt_below {t : CodeTree} {d : Nat} (none : t.innerAt d = 0) (k : Nat) :
    t.innerAt (d + k) = 0 := by
  induction k with
  | zero => exact none
  | succ k ih =>
    have both := t.leavesAt_succ_add (d + k)
    rw [ih] at both
    rw [← Nat.add_assoc]
    omega

theorem leavesAt_below {t : CodeTree} {d e : Nat} (none : t.innerAt d = 0) (lt : d < e) :
    t.leavesAt e = 0 := by
  have above := innerAt_below none (e - d - 1)
  have both := t.leavesAt_succ_add (d + (e - d - 1))
  rw [above, show d + (e - d - 1) + 1 = e by omega] at both
  omega

theorem le_of_mem_depths {t : CodeTree} {e d : Nat} (mem : d ∈ t.depths e) : e ≤ d := by
  induction t generalizing e with
  | leaf w => exact Nat.le_of_eq (List.mem_singleton.mp mem).symm
  | node l r ihl ihr =>
    rcases List.mem_append.mp mem with mem | mem
    · exact Nat.le_of_succ_le (ihl mem)
    · exact Nat.le_of_succ_le (ihr mem)

theorem count_depths (t : CodeTree) (e d : Nat) : (t.depths e).count (e + d) = t.leavesAt d := by
  induction t generalizing e d with
  | leaf w => cases d <;> simp [depths, leavesAt]
  | node l r ihl ihr =>
    cases d with
    | zero =>
      have deeper : e ∉ (node l r).depths e := by
        intro mem
        rcases List.mem_append.mp mem with mem | mem
        · exact absurd (le_of_mem_depths mem) (by omega)
        · exact absurd (le_of_mem_depths mem) (by omega)
      exact List.count_eq_zero.mpr deeper
    | succ d =>
      have shift : e + (d + 1) = e + 1 + d := by omega
      rw [depths, List.count_append, shift, ihl, ihr]
      rfl

theorem depths_ne_nil (t : CodeTree) (e : Nat) : t.depths e ≠ [] := by
  cases t with
  | leaf w => exact List.cons_ne_nil _ _
  | node l r =>
    intro h
    have parts := List.append_eq_nil_iff.mp h
    exact depths_ne_nil l (e + 1) parts.1

theorem depths_pos {t : CodeTree} (more : 1 < (t.depths 0).length) : ∀ d ∈ t.depths 0, 0 < d := by
  cases t with
  | leaf w => cases Nat.not_lt.mpr (Nat.le_refl 1) more
  | node l r =>
    intro d mem
    rcases List.mem_append.mp mem with mem | mem
    · exact le_of_mem_depths mem
    · exact le_of_mem_depths mem

/-- The leaves fill the unit interval, measured in units of depth `m`. -/
theorem kraft (t : CodeTree) {e m : Nat} (deep : ∀ d ∈ t.depths e, d ≤ m) :
    ((t.depths e).map fun d => 2 ^ (m - d)).sum = 2 ^ (m - e) := by
  induction t generalizing e with
  | leaf w => simp [depths]
  | node l r ihl ihr =>
    have hl := ihl (e := e + 1) fun d mem => deep d (List.mem_append_left _ mem)
    have hr := ihr (e := e + 1) fun d mem => deep d (List.mem_append_right _ mem)
    have room : e + 1 ≤ m := by
      obtain ⟨d, mem⟩ := List.exists_mem_of_ne_nil _ (depths_ne_nil l (e + 1))
      exact Nat.le_trans (le_of_mem_depths mem) (deep d (List.mem_append_left _ mem))
    rw [depths, List.map_append, List.sum_append, hl, hr, ← Nat.two_mul, ← Nat.pow_succ']
    congr 1
    omega

def height : CodeTree → Nat
  | leaf _ => 0
  | node l r => max l.height r.height + 1

theorem depths_le_height (t : CodeTree) (e : Nat) : ∀ d ∈ t.depths e, d ≤ e + t.height := by
  induction t generalizing e with
  | leaf w =>
    intro d mem
    exact Nat.le_of_eq (List.mem_singleton.mp mem)
  | node l r ihl ihr =>
    intro d mem
    have hl : l.height ≤ max l.height r.height := Nat.le_max_left _ _
    have hr : r.height ≤ max l.height r.height := Nat.le_max_right _ _
    simp only [height]
    rcases List.mem_append.mp mem with mem | mem
    · have := ihl (e + 1) d mem
      omega
    · have := ihr (e + 1) d mem
      omega

/-- Every level above a leaf has another leaf below it. -/
theorem depths_lt_length (t : CodeTree) (e : Nat) :
    ∀ d ∈ t.depths e, d < e + (t.depths e).length := by
  induction t generalizing e with
  | leaf w =>
    intro d mem
    rw [List.mem_singleton.mp mem]
    exact Nat.lt_succ_self e
  | node l r ihl ihr =>
    intro d mem
    have left := List.length_pos_iff.mpr (depths_ne_nil l (e + 1))
    have right := List.length_pos_iff.mpr (depths_ne_nil r (e + 1))
    rw [depths, List.length_append]
    rcases List.mem_append.mp mem with mem | mem
    · have := ihl (e + 1) d mem
      omega
    · have := ihr (e + 1) d mem
      omega

/-- Both children of an inner node are no heavier than `bound`. -/
def ChildrenLe (bound : Nat) : CodeTree → Prop
  | leaf _ => True
  | node l r => l.weight ≤ bound ∧ r.weight ≤ bound

/-- No node is heavier than its parent's sibling. -/
def Doubling : CodeTree → Prop
  | leaf _ => True
  | node l r => l.Doubling ∧ r.Doubling ∧ l.ChildrenLe r.weight ∧ r.ChildrenLe l.weight

def Positive : CodeTree → Prop
  | leaf w => 0 < w
  | node l r => l.Positive ∧ r.Positive

theorem weight_pos {t : CodeTree} (positive : t.Positive) : 0 < t.weight := by
  induction t with
  | leaf w => exact positive
  | node l r ihl ihr => exact Nat.add_pos_left (ihl positive.1) _

theorem ChildrenLe.mono {t : CodeTree} {b c : Nat} (le : t.ChildrenLe b) (bc : b ≤ c) :
    t.ChildrenLe c := by
  cases t with
  | leaf w => trivial
  | node l r => exact ⟨Nat.le_trans le.1 bc, Nat.le_trans le.2 bc⟩

/-- One level below the root of a doubling tree weighs at most half. -/
theorem pow_half_height_le_of_child {l s : CodeTree}
    (ih : ∀ a b, l = node a b → 2 ^ (a.height / 2) ≤ a.weight ∧ 2 ^ (b.height / 2) ≤ b.weight)
    (children : l.ChildrenLe s.weight) (pos : 0 < l.weight) :
    2 ^ ((l.height + 1) / 2) ≤ l.weight + s.weight := by
  cases l with
  | leaf w =>
    simp only [height, weight] at pos ⊢
    simp only [Nat.zero_add, Nat.reduceDiv, Nat.pow_zero]
    omega
  | node a b =>
    obtain ⟨ha, hb⟩ := ih a b rfl
    obtain ⟨ca, cb⟩ := children
    have level : (max a.height b.height + 1 + 1) / 2 = max a.height b.height / 2 + 1 := by omega
    simp only [height, weight, level, Nat.pow_succ]
    rcases Nat.le_total a.height b.height with le | le
    · rw [Nat.max_eq_right le]
      omega
    · rw [Nat.max_eq_left le]
      omega

/-- The bound for a tree goes with the bound for its two children: a step reaches two
levels down. -/
theorem pow_half_height_le_both {t : CodeTree} (doubling : t.Doubling) (positive : t.Positive) :
    2 ^ (t.height / 2) ≤ t.weight ∧
      ∀ a b, t = node a b → 2 ^ (a.height / 2) ≤ a.weight ∧ 2 ^ (b.height / 2) ≤ b.weight := by
  induction t with
  | leaf w =>
    refine ⟨?_, fun a b h => by cases h⟩
    have pos : 0 < w := positive
    simp only [height, weight, Nat.zero_div, Nat.pow_zero]
    exact pos
  | node l r ihl ihr =>
    obtain ⟨dl, dr, cl, cr⟩ := doubling
    obtain ⟨hl, belowl⟩ := ihl dl positive.1
    obtain ⟨hr, belowr⟩ := ihr dr positive.2
    have viaLeft := pow_half_height_le_of_child belowl cl (weight_pos positive.1)
    have viaRight := pow_half_height_le_of_child belowr cr (weight_pos positive.2)
    constructor
    · simp only [height, weight]
      rcases Nat.le_total l.height r.height with le | le
      · rw [Nat.max_eq_right le]
        omega
      · rw [Nat.max_eq_left le]
        omega
    · rintro a b h
      cases h
      exact ⟨hl, hr⟩

theorem pow_half_height_le {t : CodeTree} (doubling : t.Doubling) (positive : t.Positive) :
    2 ^ (t.height / 2) ≤ t.weight :=
  (pow_half_height_le_both doubling positive).1

/-- The bound for a tree goes with one for whatever is as heavy as its two children. -/
theorem fib_height_le_both {t : CodeTree} (doubling : t.Doubling) (positive : t.Positive) :
    Nat.fib (t.height + 2) ≤ t.weight ∧
      ∀ bound, 0 < bound → t.ChildrenLe bound → Nat.fib (t.height + 1) ≤ bound := by
  induction t with
  | leaf w => exact ⟨positive, fun bound pos _ => pos⟩
  | node l r ihl ihr =>
    obtain ⟨dl, dr, cl, cr⟩ := doubling
    obtain ⟨hl, belowl⟩ := ihl dl positive.1
    obtain ⟨hr, belowr⟩ := ihr dr positive.2
    have besideL := belowl r.weight (weight_pos positive.2) cl
    have besideR := belowr l.weight (weight_pos positive.1) cr
    simp only [height, weight]
    rcases Nat.le_total l.height r.height with le | le
    · rw [Nat.max_eq_right le]
      constructor
      · rw [show r.height + 1 + 2 = r.height + 1 + 1 + 1 from rfl, Nat.fib_add_two]
        exact Nat.add_le_add besideR hr
      · exact fun bound _ children => Nat.le_trans hr children.2
    · rw [Nat.max_eq_left le]
      constructor
      · rw [show l.height + 1 + 2 = l.height + 1 + 1 + 1 from rfl, Nat.fib_add_two, Nat.add_comm]
        exact Nat.add_le_add hl besideL
      · exact fun bound _ children => Nat.le_trans hl children.1

/-- A doubling tree of some height weighs at least a Fibonacci number. -/
theorem fib_height_le {t : CodeTree} (doubling : t.Doubling) (positive : t.Positive) :
    Nat.fib (t.height + 2) ≤ t.weight :=
  (fib_height_le_both doubling positive).1

end CodeTree

open CodeTree

structure Queues where
  leaves : List Nat
  trees : List CodeTree
  deriving DecidableEq, Repr

/-- The least tree at the front of the two queues, and what is left of them. -/
def least : Queues → Option (CodeTree × Queues)
  | ⟨[], []⟩ => none
  | ⟨w :: ws, []⟩ => some (leaf w, ⟨ws, []⟩)
  | ⟨[], t :: ts⟩ => some (t, ⟨[], ts⟩)
  | ⟨w :: ws, t :: ts⟩ =>
    if t.weight < w then some (t, ⟨w :: ws, ts⟩) else some (leaf w, ⟨ws, t :: ts⟩)

def merge (q : Queues) : Option Queues :=
  match least q with
  | none => none
  | some (a, q) =>
    match least q with
    | none => none
    | some (b, q) => some { q with trees := q.trees ++ [node a b] }

def merges : Nat → Queues → Option Queues
  | 0, q => some q
  | k + 1, q => (merge q).bind (merges k)

/-- The Huffman tree of some weights in nondecreasing order. -/
def huffman (weights : List Nat) : Option CodeTree :=
  match merges (weights.length - 1) ⟨weights, []⟩ with
  | some ⟨[], [t]⟩ => some t
  | some ⟨[w], []⟩ => some (leaf w)
  | _ => none

theorem merges_succ (k : Nat) (q : Queues) :
    merges (k + 1) q = (merges k q).bind merge := by
  induction k generalizing q with
  | zero => simp [merges]
  | succ k ih =>
    rw [merges, merges, Option.bind_assoc]
    congr 1
    funext q'
    exact ih q'

def Queues.total (q : Queues) : Nat := q.leaves.sum + (q.trees.map weight).sum

theorem least_total {q q' : Queues} {t : CodeTree} (taken : least q = some (t, q')) :
    t.weight + q'.total = q.total := by
  match q, taken with
  | ⟨w :: ws, []⟩, taken =>
    obtain ⟨rfl, rfl⟩ := Prod.mk.inj (Option.some.inj taken)
    simp only [Queues.total, weight, List.sum_cons]
    omega
  | ⟨[], s :: ts⟩, taken =>
    obtain ⟨rfl, rfl⟩ := Prod.mk.inj (Option.some.inj taken)
    simp only [Queues.total, List.map_cons, List.sum_cons]
    omega
  | ⟨w :: ws, s :: ts⟩, taken =>
    rw [least] at taken
    split at taken
    · obtain ⟨rfl, rfl⟩ := Prod.mk.inj (Option.some.inj taken)
      simp only [Queues.total, List.map_cons, List.sum_cons]
      omega
    · obtain ⟨rfl, rfl⟩ := Prod.mk.inj (Option.some.inj taken)
      simp only [Queues.total, weight, List.map_cons, List.sum_cons]
      omega

theorem merge_some {q q' : Queues} (merged : merge q = some q') : ∃ a qa b qb,
    least q = some (a, qa) ∧ least qa = some (b, qb) ∧
      q' = { qb with trees := qb.trees ++ [node a b] } := by
  unfold merge at merged
  split at merged
  · cases merged
  · rename_i a qa takenA
    split at merged
    · cases merged
    · rename_i b qb takenB
      exact ⟨a, qa, b, qb, takenA, takenB, (Option.some.inj merged).symm⟩

theorem merge_total {q q' : Queues} (merged : merge q = some q') : q'.total = q.total := by
  obtain ⟨a, qa, b, qb, takenA, takenB, rfl⟩ := merge_some merged
  have first := least_total takenA
  have second := least_total takenB
  simp only [Queues.total, List.map_append, List.sum_append, List.map_cons, List.map_nil,
    List.sum_singleton, weight] at first second ⊢
  omega

theorem merges_total {k : Nat} {q q' : Queues} (merged : merges k q = some q') :
    q'.total = q.total := by
  induction k generalizing q with
  | zero =>
    obtain rfl := Option.some.inj merged
    rfl
  | succ k ih =>
    obtain ⟨qm, first, rest⟩ := Option.bind_eq_some_iff.mp merged
    rw [ih rest, merge_total first]

/-- The queues are ordered, nothing in them is lighter than what was taken last, and the
trees weigh at most twice as much. -/
structure Ordered (last : Nat) (q : Queues) : Prop where
  leavesSorted : q.leaves.Pairwise (· ≤ ·)
  treesSorted : (q.trees.map weight).Pairwise (· ≤ ·)
  leavesGe : ∀ w ∈ q.leaves, last ≤ w ∧ 0 < w
  treesGe : ∀ t ∈ q.trees, last ≤ t.weight ∧ t.weight ≤ 2 * last
  doubling : ∀ t ∈ q.trees, t.Doubling ∧ t.Positive ∧ t.ChildrenLe last

theorem start_ordered {weights : List Nat} (sorted : weights.Pairwise (· ≤ ·))
    (positive : ∀ w ∈ weights, 0 < w) : Ordered 0 ⟨weights, []⟩ where
  leavesSorted := sorted
  treesSorted := List.Pairwise.nil
  leavesGe := fun w mem => ⟨Nat.zero_le _, positive w mem⟩
  treesGe := fun t mem => by cases mem
  doubling := fun t mem => by cases mem

/-- What taking the least tree yields. -/
structure Takes (last : Nat) (q : Queues) (t : CodeTree) (q' : Queues) : Prop where
  ge : last ≤ t.weight
  ordered : Ordered t.weight q'
  trees : ∀ s ∈ q'.trees, s ∈ q.trees
  doubling : t.Doubling ∧ t.Positive ∧ t.ChildrenLe last

theorem takes_leaf {last w : Nat} {ws : List Nat} {ts : List CodeTree}
    (ordered : Ordered last ⟨w :: ws, ts⟩) (before : ∀ t ∈ ts, w ≤ t.weight) :
    Takes last ⟨w :: ws, ts⟩ (leaf w) ⟨ws, ts⟩ := by
  obtain ⟨ge, pos⟩ := ordered.leavesGe w List.mem_cons_self
  obtain ⟨first, rest⟩ := List.pairwise_cons.mp ordered.leavesSorted
  constructor
  · exact ge
  · constructor
    · exact rest
    · exact ordered.treesSorted
    · exact fun v mem => ⟨first v mem, (ordered.leavesGe v (List.mem_cons_of_mem _ mem)).2⟩
    · intro t mem
      have bound := (ordered.treesGe t mem).2
      exact ⟨before t mem, Nat.le_trans bound (Nat.mul_le_mul_left 2 ge)⟩
    · intro t mem
      obtain ⟨double, positive, children⟩ := ordered.doubling t mem
      exact ⟨double, positive, children.mono ge⟩
  · exact fun s mem => mem
  · exact ⟨trivial, pos, trivial⟩

theorem takes_tree {last : Nat} {ws : List Nat} {t : CodeTree} {ts : List CodeTree}
    (ordered : Ordered last ⟨ws, t :: ts⟩) (before : ∀ w ∈ ws, t.weight ≤ w) :
    Takes last ⟨ws, t :: ts⟩ t ⟨ws, ts⟩ := by
  obtain ⟨ge, _⟩ := ordered.treesGe t List.mem_cons_self
  obtain ⟨first, rest⟩ := List.pairwise_cons.mp ordered.treesSorted
  constructor
  · exact ge
  · constructor
    · exact ordered.leavesSorted
    · exact rest
    · exact fun w mem => ⟨before w mem, (ordered.leavesGe w mem).2⟩
    · intro s mem
      have bound := (ordered.treesGe s (List.mem_cons_of_mem _ mem)).2
      exact ⟨first s.weight (List.mem_map_of_mem mem),
        Nat.le_trans bound (Nat.mul_le_mul_left 2 ge)⟩
    · intro s mem
      obtain ⟨double, positive, children⟩ := ordered.doubling s (List.mem_cons_of_mem _ mem)
      exact ⟨double, positive, children.mono ge⟩
  · exact fun s mem => List.mem_cons_of_mem _ mem
  · exact ordered.doubling t List.mem_cons_self

theorem least_takes {last : Nat} {q q' : Queues} {t : CodeTree} (ordered : Ordered last q)
    (taken : least q = some (t, q')) : Takes last q t q' := by
  match q, taken with
  | ⟨w :: ws, []⟩, taken =>
    obtain ⟨rfl, rfl⟩ := Prod.mk.inj (Option.some.inj taken)
    exact takes_leaf ordered (fun t mem => by cases mem)
  | ⟨[], s :: ts⟩, taken =>
    obtain ⟨rfl, rfl⟩ := Prod.mk.inj (Option.some.inj taken)
    exact takes_tree ordered (fun w mem => by cases mem)
  | ⟨w :: ws, s :: ts⟩, taken =>
    rw [least] at taken
    split at taken
    · rename_i lighter
      obtain ⟨rfl, rfl⟩ := Prod.mk.inj (Option.some.inj taken)
      refine takes_tree ordered fun v mem => ?_
      rcases List.mem_cons.mp mem with rfl | mem
      · exact Nat.le_of_lt lighter
      · have := (List.pairwise_cons.mp ordered.leavesSorted).1 v mem
        omega
    · rename_i heavier
      obtain ⟨rfl, rfl⟩ := Prod.mk.inj (Option.some.inj taken)
      refine takes_leaf ordered fun t mem => ?_
      rcases List.mem_cons.mp mem with rfl | mem
      · exact Nat.le_of_not_lt heavier
      · have := (List.pairwise_cons.mp ordered.treesSorted).1 t.weight (List.mem_map_of_mem mem)
        omega

theorem merge_ordered {last : Nat} {q q' : Queues} (ordered : Ordered last q)
    (merged : merge q = some q') : ∃ last', Ordered last' q' := by
  obtain ⟨a, qa, b, qb, takenA, takenB, rfl⟩ := merge_some merged
  have ta := least_takes ordered takenA
  have tb := least_takes ta.ordered takenB
  have weights : b.weight ≤ (node a b).weight ∧ (node a b).weight ≤ 2 * b.weight := by
    have := tb.ge
    simp only [weight]
    omega
  have lighter : ∀ s ∈ qb.trees, s.weight ≤ (node a b).weight := by
    intro s mem
    have := (ordered.treesGe s (ta.trees s (tb.trees s mem))).2
    have := ta.ge
    have := tb.ge
    simp only [weight]
    omega
  refine ⟨b.weight, tb.ordered.leavesSorted, ?_, tb.ordered.leavesGe, ?_, ?_⟩
  · rw [List.map_append, List.pairwise_append]
    refine ⟨tb.ordered.treesSorted, List.pairwise_singleton _ _, ?_⟩
    intro v hv u hu
    obtain ⟨s, mem, rfl⟩ := List.mem_map.mp hv
    rw [List.map_cons, List.map_nil, List.mem_singleton] at hu
    rw [hu]
    exact lighter s mem
  · intro t mem
    rcases List.mem_append.mp mem with mem | mem
    · exact tb.ordered.treesGe t mem
    · rw [List.mem_singleton.mp mem]
      exact weights
  · intro t mem
    rcases List.mem_append.mp mem with mem | mem
    · exact tb.ordered.doubling t mem
    · rw [List.mem_singleton.mp mem]
      obtain ⟨doubleA, posA, childrenA⟩ := ta.doubling
      obtain ⟨doubleB, posB, childrenB⟩ := tb.doubling
      exact ⟨⟨doubleA, doubleB, childrenA.mono (Nat.le_trans ta.ge tb.ge), childrenB⟩,
        ⟨posA, posB⟩, tb.ge, Nat.le_refl _⟩

theorem merges_ordered {k last : Nat} {q q' : Queues} (ordered : Ordered last q)
    (merged : merges k q = some q') : ∃ last', Ordered last' q' := by
  induction k generalizing last q with
  | zero =>
    obtain rfl := Option.some.inj merged
    exact ⟨last, ordered⟩
  | succ k ih =>
    obtain ⟨qm, first, rest⟩ := Option.bind_eq_some_iff.mp merged
    obtain ⟨last', ordered'⟩ := merge_ordered ordered first
    exact ih ordered' rest

theorem huffman_doubling {weights : List Nat} {t : CodeTree} (sorted : weights.Pairwise (· ≤ ·))
    (positive : ∀ w ∈ weights, 0 < w) (built : huffman weights = some t) :
    t.weight = weights.sum ∧ t.Doubling ∧ t.Positive := by
  unfold huffman at built
  split at built
  · rename_i u merged
    obtain rfl := Option.some.inj built
    obtain ⟨last, ordered⟩ := merges_ordered (start_ordered sorted positive) merged
    obtain ⟨doubling, pos, _⟩ := ordered.doubling u List.mem_cons_self
    exact ⟨by simpa [Queues.total] using merges_total merged, doubling, pos⟩
  · rename_i w merged
    obtain rfl := Option.some.inj built
    obtain ⟨last, ordered⟩ := merges_ordered (start_ordered sorted positive) merged
    obtain ⟨_, pos⟩ := ordered.leavesGe w List.mem_cons_self
    exact ⟨by simpa [Queues.total, weight] using merges_total merged, trivial, pos⟩
  · cases built

/-- A Huffman tree weighs what its leaves weigh, and is not deep. -/
theorem huffman_spec {weights : List Nat} {t : CodeTree} (sorted : weights.Pairwise (· ≤ ·))
    (positive : ∀ w ∈ weights, 0 < w) (built : huffman weights = some t) :
    t.weight = weights.sum ∧ 2 ^ (t.height / 2) ≤ t.weight := by
  obtain ⟨weight, doubling, pos⟩ := huffman_doubling sorted positive built
  exact ⟨weight, pow_half_height_le doubling pos⟩

end TFTP.HuffmanTree
