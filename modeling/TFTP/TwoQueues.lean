import TFTP.CodeLengths
import Mathlib.Data.List.Sort

/-!
# The array and the two queues

Phase 1 of `generateHuffmanCodes`, watched: the nodes it makes, as trees over the
frequencies the leaves came in with, and the weights it stores for them. The weights pass
through an int, so they are the trees' weights modulo `2 ^ 32`; and while they are exact,
the trees are those of the two queues.
-/

namespace TFTP.TwoQueues

open HuffmanTree HuffmanTree.CodeTree ParentPointers CodeLengths

structure Watched where
  state : Building
  made : List CodeTree
  stored : List Int
  deriving DecidableEq, Repr

/-- The tree that `take` takes. -/
def taken (freq : List Nat) (made : List CodeTree) (s : Building) : Option CodeTree := do
  if ← takesRoot freq.length made.length s then made[s.root]? else (freq[s.leaf]?).map leaf

/-- `makeNode`, with the node and the weight in `A[next]`. -/
def watchNode (freq : List Nat) (w : Watched) (next : Nat) : Option Watched := do
  let s := { w.state with sum := 0 }
  let l ← taken freq w.made s
  let s ← take freq.length next s
  let r ← taken freq w.made s
  let s ← makeNode freq.length w.state next
  let weight ← s.A[next]?
  return ⟨s, w.made ++ [node l r], w.stored ++ [weight]⟩

def watched (freq : List Nat) : Option Watched :=
  (List.range (freq.length - 1)).foldlM (watchNode freq) ⟨⟨freq.map Int.ofNat, 0, 0, 0⟩, [], []⟩

/-- The depths of the leaves, the deepest first. -/
def deepestFirst (t : CodeTree) : List Nat := (t.depths 0).insertionSort (· ≥ ·)

/-- Every weight that phase 1 stores is the sum of the frequencies below its node. -/
def WeightsExact (freq : List Nat) : Prop :=
  ∃ w, watched freq = some w ∧ w.stored = w.made.map fun t => (t.weight : Int)

section Rounds

variable {freq : List Nat} {made : List CodeTree} {parents : List Nat} {k : Nat} {s : Building}

/-- Whichever queue the program takes from, nothing is lost. -/
theorem take_taken (holds : Holds freq made parents k s) (room : made.length + k < freq.length) :
    ∃ t parents' s', taken freq made s = some t ∧ take freq.length made.length s = some s' ∧
      Takes freq made parents k s t parents' s' ∧
      t.weight + (queues freq made s').total = (queues freq made s).total := by
  rcases takesRoot_cases holds room with ⟨cond, t, first, _⟩ | ⟨cond, w, first, _⟩
  · obtain ⟨s', run, root, leaf, takes⟩ := takeRoot_takes holds first (by omega)
    refine ⟨t, _, s', ?_, ?_, takes, ?_⟩
    · simp only [taken, cond]
      exact first
    · simp only [take, cond]
      exact run
    · rw [queues, queues, root, leaf, drop_eq_cons first]
      simp only [Queues.total, List.map_cons, List.sum_cons]
      omega
  · obtain ⟨s', run, root, leaf, takes⟩ := takeLeaf_takes holds first
    refine ⟨_, _, s', ?_, ?_, takes, ?_⟩
    · simp only [taken, cond]
      change (freq[s.leaf]?).map CodeTree.leaf = _
      rw [first]
      rfl
    · simp only [take, cond]
      exact run
    · rw [queues, queues, root, leaf, drop_eq_cons first]
      simp only [Queues.total, weight, List.sum_cons]
      omega

theorem watchNode_spec (holds : Holds freq made parents 0 s) (room : made.length + 1 < freq.length)
    (stored : List Int) : ∃ node parents' s',
      makeNode freq.length s made.length = some s' ∧
      watchNode freq ⟨s, made, stored⟩ made.length =
        some ⟨s', made ++ [node], stored ++ [toInt node.weight]⟩ ∧
      Holds freq (made ++ [node]) parents' 0 s' ∧
      (queues freq (made ++ [node]) s').total = (queues freq made s).total ∧
      node.weight ≤ (queues freq made s).total ∧ s'.root ≤ made.length := by
  have start : Holds freq made parents 0 { s with sum := 0 } := { holds with }
  obtain ⟨l, parents₁, s₁, first, run₁, takes₁, total₁⟩ := take_taken start (by omega)
  obtain ⟨r, parents₂, s₂, second, run₂, takes₂, total₂⟩ := take_taken takes₁.holds room
  have holds₂ := takes₂.holds
  have inside : made.length < s₂.A.length := by
    rw [holds₂.length]
    omega
  have run : makeNode freq.length s made.length =
      some { s₂ with A := s₂.A.set made.length s₂.sum } := by
    simp only [makeNode, run₁, run₂, store_eq inside, bind, Option.bind_some, pure]
  have weight : s₂.sum = toInt (node l r).weight := by
    rw [takes₂.sum, takes₁.sum, Int.zero_add, toInt_toInt_add, ← Int.natCast_add]
    rfl
  have before : (node l r).weight + (queues freq made s₂).total = (queues freq made s).total := by
    have same : (queues freq made { s with sum := 0 }).total = (queues freq made s).total := rfl
    rw [← same, ← total₁, ← total₂, CodeTree.weight, Nat.add_assoc]
  refine ⟨node l r, parents₂, _, run, ?_, node_holds holds₂ weight inside, ?_, by omega,
    holds₂.root_le⟩
  · have read : (s₂.A.set made.length s₂.sum)[made.length]? = some s₂.sum :=
      List.getElem?_set_self inside
    simp only [watchNode, first, run₁, second, run, read, bind, Option.bind_some, pure]
    rw [weight]
  · simp only [queues, List.drop_append_of_le_length holds₂.root_le, Queues.total,
      List.map_append, List.sum_append, List.map_cons, List.map_nil, List.sum_singleton] at before ⊢
    omega

end Rounds

/-- After `k` rounds: the weights stored are those of the trees as ints, the trees and
leaves that wait weigh what the input weighs, and the last tree waits. -/
structure Follows (freq : List Nat) (k : Nat) (w : Watched) : Prop where
  rounds : (List.range k).foldlM (makeNode freq.length) ⟨freq.map Int.ofNat, 0, 0, 0⟩ =
    some w.state
  length : w.made.length = k
  stored : w.stored = w.made.map fun t => toInt t.weight
  holds : ∃ parents, Holds freq w.made parents 0 w.state
  waits : w.state.root ≤ k - 1
  total : (queues freq w.made w.state).total = freq.sum
  le : ∀ t ∈ w.made, t.weight ≤ freq.sum

theorem watched_follows (freq : List Nat) {k : Nat} (lt : k < freq.length) :
    ∃ w, (List.range k).foldlM (watchNode freq) ⟨⟨freq.map Int.ofNat, 0, 0, 0⟩, [], []⟩ = some w ∧
      Follows freq k w := by
  induction k with
  | zero =>
    refine ⟨_, rfl, rfl, rfl, rfl, ⟨[], start_holds freq⟩, Nat.le_refl _, rfl, ?_⟩
    intro t mem
    cases mem
  | succ k ih =>
    obtain ⟨⟨s, made, stored⟩, run, follows⟩ := ih (Nat.lt_of_succ_lt lt)
    obtain ⟨parents, holds⟩ := follows.holds
    have length : made.length = k := follows.length
    have room : made.length + 1 < freq.length := by omega
    obtain ⟨node, parents', s', made', watched', holds', total, le, waits⟩ :=
      watchNode_spec holds room stored
    rw [length] at made' watched'
    have weighs : (queues freq (made ++ [node]) s').total = freq.sum := by
      rw [total]
      exact follows.total
    refine ⟨⟨s', made ++ [node], stored ++ [toInt node.weight]⟩, ?_, ?_, ?_, ?_, ⟨_, holds'⟩,
      ?_, weighs, ?_⟩
    · rw [List.range_succ, List.foldlM_append, run]
      simp only [List.foldlM_cons, List.foldlM_nil, watched', bind, Option.bind_some, pure]
    · rw [List.range_succ, List.foldlM_append, follows.rounds]
      simp only [List.foldlM_cons, List.foldlM_nil, made', bind, Option.bind_some, pure]
    · rw [List.length_append, length]
      rfl
    · simp only [List.map_append, List.map_cons, List.map_nil, ← follows.stored]
    · rw [length] at waits
      exact waits
    · intro t mem
      rcases List.mem_append.mp mem with old | new
      · exact follows.le t old
      · rw [List.mem_singleton.mp new, ← weighs, total]
        exact le

/-- Phase 1 as it is, and the trees it makes. -/
theorem phase1_watched {freq : List Nat} (two : 2 ≤ freq.length) :
    ∃ w, watched freq = some w ∧ phase1 (freq.map Int.ofNat) = some w.state.A ∧
      w.stored = (w.made.map fun t => toInt t.weight) ∧ (∀ t ∈ w.made, t.weight ≤ freq.sum) ∧
      ∃ t ∈ w.made, t.weight = freq.sum := by
  obtain ⟨w, run, follows⟩ := watched_follows freq (k := freq.length - 1) (by omega)
  refine ⟨w, run, ?_, follows.stored, follows.le, ?_⟩
  · simp only [phase1, List.length_map, follows.rounds, bind, Option.bind_some, pure]
  · obtain ⟨parents, holds⟩ := follows.holds
    have length := follows.length
    have count := holds.count
    have leafLe := holds.leaf_le
    have waits := follows.waits
    have last : w.state.root < w.made.length := by omega
    have leaves : freq.drop w.state.leaf = [] := List.drop_eq_nil_of_le (by omega)
    have tree : w.made.drop w.state.root = [w.made[w.state.root]] := by
      rw [List.drop_eq_getElem_cons last, List.drop_eq_nil_of_le (by omega)]
    refine ⟨_, List.getElem_mem last, ?_⟩
    rw [← follows.total, queues, leaves, tree]
    simp only [Queues.total, List.map_cons, List.map_nil, List.sum_nil, List.sum_singleton,
      Nat.zero_add]

/-- The int that a sum passes through holds it if and only if it is below `2 ^ 31`. -/
theorem toInt_eq_iff {w : Nat} : toInt w = w ↔ w < 2 ^ 31 := by
  constructor
  · intro same
    have := Int.bmod_lt (x := w) (m := 2 ^ 32) (by decide)
    rw [toInt] at same
    omega
  · exact toInt_eq

theorem weights_exact_iff {freq : List Nat} (two : 2 ≤ freq.length) :
    WeightsExact freq ↔ freq.sum < 2 ^ 31 := by
  obtain ⟨w, run, _, stored, le, t, mem, total⟩ := phase1_watched two
  constructor
  · rintro ⟨w', run', exact⟩
    obtain rfl : w = w' := Option.some.inj (run.symm.trans run')
    rw [stored] at exact
    have same := List.map_inj_left.mp exact t mem
    rw [total] at same
    exact toInt_eq_iff.mp same
  · intro small
    refine ⟨w, run, ?_⟩
    rw [stored]
    apply List.map_congr_left
    intro u made
    exact toInt_eq (Nat.lt_of_le_of_lt (le u made) small)

theorem weights_exact_iff_million : WeightsExact [1, 1000000] ↔ [1, 1000000].sum < 2 ^ 31 :=
  weights_exact_iff (by decide)

/-- Two bytes, each `2 ^ 30` times: the weight of their node is stored as `-2 ^ 31`. -/
theorem gibibytes_wrapped : [2 ^ 30, 2 ^ 30].Pairwise (· ≤ ·) ∧ (∀ w ∈ [2 ^ 30, 2 ^ 30], 0 < w) ∧
    [2 ^ 30, 2 ^ 30].sum < 2 ^ 63 ∧ ¬ WeightsExact [2 ^ 30, 2 ^ 30] := by
  refine ⟨by decide, by decide, by decide, ?_⟩
  rintro ⟨w, run, exact⟩
  have wrapped : watched [2 ^ 30, 2 ^ 30] = some
      ⟨⟨[-2 ^ 31, 0], 0, 2, -2 ^ 31⟩, [node (leaf (2 ^ 30)) (leaf (2 ^ 30))], [-2 ^ 31]⟩ := by
    decide
  obtain rfl := Option.some.inj (wrapped.symm.trans run)
  revert exact
  decide

/-- The lengths left in the array are the leaf depths of the two queues' tree. -/
theorem codeLengths_huffman {freq : List Nat} (two : 2 ≤ freq.length) (small : freq.sum < 2 ^ 31) :
    ∃ t, huffman freq = some t ∧
      codeLengths (freq.map Int.ofNat) = some ((deepestFirst t).map Int.ofNat) := by
  obtain ⟨t, depths, run, sorted, perm, _, exact⟩ := codeLengths_depths two
  refine ⟨t, exact small, ?_⟩
  have same : depths = deepestFirst t :=
    List.Perm.eq_of_pairwise' (r := (· ≥ ·)) sorted (List.pairwise_insertionSort _ _)
      (perm.trans (List.perm_insertionSort _ _).symm)
  rw [run, same]

theorem codeLengths_huffman_five : ∃ t, huffman [1, 1, 2, 3, 5] = some t ∧
    codeLengths ([1, 1, 2, 3, 5].map Int.ofNat) = some ((deepestFirst t).map Int.ofNat) :=
  codeLengths_huffman (by decide) (by decide)

end TFTP.TwoQueues
