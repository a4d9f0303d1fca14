import TFTP.Library.ParentPointers
import Mathlib.Data.List.Count

/-!
# Code lengths in one array

The first two phases of `generateHuffmanCodes`. Phase 1 holds, in one vector, leaves that
wait, weights of inner nodes that wait and parent pointers of the nodes already taken.
Phase 2 reads the pointers from the left, level by level, and writes the depths of the
leaves from the right. Frequencies are longs, and their sums pass through an int.
-/

namespace TFTP.CodeLengths

open HuffmanTree ParentPointers

/-- An assignment to an element; outside the vector it has no meaning. -/
def store {α : Type} (A : List α) (i : Nat) (v : α) : Option (List α) :=
  if i < A.length then some (A.set i v) else none

/-- A number stored in a 32-bit int. -/
def toInt (x : Int) : Int := x.bmod (2 ^ 32)

structure Building where
  A : List Int
  root : Nat
  leaf : Nat
  sum : Int
  deriving DecidableEq, Repr

/-- `leaf>=n || (root<next && A[root]<A[leaf])` -/
def takesRoot (n next : Nat) (s : Building) : Option Bool :=
  if n ≤ s.leaf then some true
  else if s.root < next then do
    let r ← s.A[s.root]?
    let l ← s.A[s.leaf]?
    return r < l
  else some false

def takeRoot (next : Nat) (s : Building) : Option Building := do
  let w ← s.A[s.root]?
  let A ← store s.A s.root (next : Int)
  return { s with A, root := s.root + 1, sum := toInt (s.sum + w) }

/-- `if(leaf > next) A[leaf] = 0;` -/
def clearLeaf (next : Nat) (s : Building) : Option (List Int) :=
  if s.leaf > next then store s.A s.leaf 0 else some s.A

def takeLeaf (next : Nat) (s : Building) : Option Building := do
  let w ← s.A[s.leaf]?
  let A ← clearLeaf next s
  return { s with A, leaf := s.leaf + 1, sum := toInt (s.sum + w) }

def take (n next : Nat) (s : Building) : Option Building := do
  if ← takesRoot n next s then takeRoot next s else takeLeaf next s

/-- One round of the outer loop: two trees are taken, and their sum is stored. -/
def makeNode (n : Nat) (s : Building) (next : Nat) : Option Building := do
  let s ← take n next { s with sum := 0 }
  let s ← take n next s
  let A ← store s.A next s.sum
  return { s with A }

def phase1 (A : List Int) : Option (List Int) := do
  let s ← (List.range (A.length - 1)).foldlM (makeNode A.length) ⟨A, 0, 0, 0⟩
  return s.A

/-- `for(k=level_top; k>0 && A[k-1]>=level_top; k--) {}` from some `k` on. -/
def scan (A : List Int) (levelTop : Int) : Nat → Option Nat
  | 0 => some 0
  | k + 1 => do
    let parent ← A[k]?
    if levelTop ≤ parent then scan A levelTop k else some (k + 1)

def nextTop (A : List Int) (levelTop : Int) : Option Int :=
  if 0 < levelTop then (scan A levelTop levelTop.toNat).map Int.ofNat else some levelTop

/-- `for(j=0; j<leaves_at_level; j++) A[--i] = depth;` -/
def setDepths (depth : Int) : Nat → List Int × Nat → Option (List Int × Nat)
  | 0, s => some s
  | _ + 1, (_, 0) => none
  | leaves + 1, (A, i + 1) => do
    let A ← store A i depth
    setDepths depth leaves (A, i)

structure Levels where
  A : List Int
  i : Nat
  levelTop : Int
  depth : Int
  totalNodesAtLevel : Int
  deriving DecidableEq, Repr

def level (s : Levels) : Option Levels := do
  let k ← nextTop s.A s.levelTop
  let internalNodesAtLevel := s.levelTop - k
  let leavesAtLevel := s.totalNodesAtLevel - internalNodesAtLevel
  let (A, i) ← setDepths s.depth leavesAtLevel.toNat (s.A, s.i)
  return ⟨A, i, k, s.depth + 1, internalNodesAtLevel * 2⟩

/-- `while(i > 0)` for at most `fuel` rounds. -/
def levels : Nat → Levels → Option Levels
  | 0, _ => none
  | fuel + 1, s => if 0 < s.i then (level s).bind (levels fuel) else some s

def phase2 (A : List Int) : Option (List Int) := do
  let s ← levels (A.length + 1) ⟨A, A.length, A.length - 2, 1, 2⟩
  return s.A

def codeLengths (A : List Int) : Option (List Int) := (phase1 A).bind phase2

theorem store_eq {α : Type} {A : List α} {i : Nat} (lt : i < A.length) (v : α) :
    store A i v = some (A.set i v) := if_pos lt

theorem getElem?_set_other {α : Type} {A : List α} {i j : Nat} (ne : j ≠ i) (v : α) :
    (A.set i v)[j]? = A[j]? := List.getElem?_set_ne (Ne.symm ne)

/-- Whatever the weights: of the `nodes` made, the first ones have been overwritten with
their parents, and `taken` trees of the next node have been chosen. -/
structure Shaped (n nodes : Nat) (parents : List Nat) (taken : Nat) (s : Building) : Prop where
  length : s.A.length = n
  root : s.root = parents.length
  count : s.root + s.leaf = 2 * nodes + taken
  root_le : s.root ≤ nodes
  leaf_le : s.leaf ≤ n
  pointers : ∀ (j p : Nat), parents[j]? = some p → s.A[j]? = some (p : Int)

section Regions

variable {n nodes taken : Nat} {parents : List Nat} {s : Building}

/-- A write behind the pointers leaves them. -/
theorem Shaped.pointers_set (shaped : Shaped n nodes parents taken s) {i : Nat} (le : s.root ≤ i)
    (v : Int) {j p : Nat} (here : parents[j]? = some p) : (s.A.set i v)[j]? = some (p : Int) := by
  obtain ⟨lt, _⟩ := List.getElem?_eq_some_iff.mp here
  rw [← shaped.root] at lt
  rw [getElem?_set_other (Nat.ne_of_lt (Nat.lt_of_lt_of_le lt le))]
  exact shaped.pointers j p here

theorem takeRoot_shaped (shaped : Shaped n nodes parents taken s) (waits : s.root < nodes)
    (room : nodes < n) : ∃ w s', s.A[s.root]? = some w ∧ takeRoot nodes s = some s' ∧
      s' = ⟨s.A.set s.root nodes, s.root + 1, s.leaf, toInt (s.sum + w)⟩ ∧
      Shaped n nodes (parents ++ [nodes]) (taken + 1) s' := by
  have inside : s.root < s.A.length := by
    rw [shaped.length]
    omega
  obtain ⟨w, read⟩ : ∃ w, s.A[s.root]? = some w := ⟨_, List.getElem?_eq_getElem inside⟩
  refine ⟨_, _, read, ?_, rfl, ?_⟩
  · simp only [takeRoot, read, store_eq inside]
    rfl
  · constructor
    · rw [List.length_set]
      exact shaped.length
    · rw [List.length_append, shaped.root]
      rfl
    · have := shaped.count
      simp only
      omega
    · exact waits
    · exact shaped.leaf_le
    · intro j p here
      rw [List.getElem?_append] at here
      split at here
      · rename_i old
        rw [← shaped.root] at old
        rw [getElem?_set_other (Nat.ne_of_lt old)]
        exact shaped.pointers j p here
      · obtain ⟨lt, eq⟩ := List.getElem?_eq_some_iff.mp here
        rw [List.length_singleton] at lt
        have new : j = s.root := by
          rw [shaped.root]
          omega
        rw [List.getElem_singleton] at eq
        rw [new, List.getElem?_set_self inside, eq]

theorem takeLeaf_shaped (shaped : Shaped n nodes parents taken s) (waits : s.leaf < n) :
    ∃ w A s', s.A[s.leaf]? = some w ∧ takeLeaf nodes s = some s' ∧
      s' = ⟨A, s.root, s.leaf + 1, toInt (s.sum + w)⟩ ∧
      (∀ j, j ≠ s.leaf ∨ j < nodes → A[j]? = s.A[j]?) ∧ Shaped n nodes parents (taken + 1) s' := by
  have inside : s.leaf < s.A.length := by
    rw [shaped.length]
    exact waits
  obtain ⟨w, read⟩ : ∃ w, s.A[s.leaf]? = some w := ⟨_, List.getElem?_eq_getElem inside⟩
  -- Clearing the leaf touches no pointer and no weight: it stands behind the nodes.
  obtain ⟨A, cleared, length, same⟩ : ∃ A, clearLeaf nodes s = some A ∧
      A.length = s.A.length ∧ ∀ j, j ≠ s.leaf ∨ j < nodes → A[j]? = s.A[j]? := by
    unfold clearLeaf
    split
    · rename_i behind
      refine ⟨_, store_eq inside 0, List.length_set, ?_⟩
      intro j other
      exact getElem?_set_other (by omega) 0
    · exact ⟨s.A, rfl, rfl, fun j _ => rfl⟩
  refine ⟨_, A, _, read, ?_, rfl, same, ?_⟩
  · simp only [takeLeaf, read, cleared]
    rfl
  · constructor
    · rw [← shaped.length]
      exact length
    · exact shaped.root
    · have := shaped.count
      simp only
      omega
    · exact shaped.root_le
    · exact waits
    · intro j p here
      obtain ⟨lt, _⟩ := List.getElem?_eq_some_iff.mp here
      rw [← shaped.root] at lt
      rw [same j (Or.inr (Nat.lt_of_lt_of_le lt shaped.root_le))]
      exact shaped.pointers j p here

/-- The sum goes where neither a pointer nor a waiting leaf stands. -/
theorem node_shaped (shaped : Shaped n nodes parents 2 s) (v : Int) :
    Shaped n (nodes + 1) parents 0 { s with A := s.A.set nodes v } where
  length := by rw [List.length_set]; exact shaped.length
  root := shaped.root
  count := shaped.count
  root_le := Nat.le_succ_of_le shaped.root_le
  leaf_le := shaped.leaf_le
  pointers := fun _ _ here => shaped.pointers_set shaped.root_le v here

end Regions

/-- Of the nodes `made`, the first ones have parents and the others wait; `taken` trees
of the next node have been chosen. -/
structure Holds (freq : List Nat) (made : List CodeTree) (parents : List Nat) (taken : Nat)
    (s : Building) : Prop where
  length : s.A.length = freq.length
  root : s.root = parents.length
  count : s.root + s.leaf = 2 * made.length + taken
  root_le : s.root ≤ made.length
  leaf_le : s.leaf ≤ freq.length
  pointers : ∀ (j p : Nat), parents[j]? = some p → s.A[j]? = some (p : Int)
  weights : ∀ (j : Nat) (t : CodeTree), s.root ≤ j → made[j]? = some t →
    s.A[j]? = some (toInt t.weight)
  waiting : ∀ (j w : Nat), s.leaf ≤ j → freq[j]? = some w → s.A[j]? = some (w : Int)

/-- The queues that wait in the array. -/
def queues (freq : List Nat) (made : List CodeTree) (s : Building) : Queues :=
  ⟨freq.drop s.leaf, made.drop s.root⟩

section Rounds

variable {freq : List Nat} {made : List CodeTree} {parents : List Nat} {taken : Nat} {s : Building}

theorem toInt_eq {w : Nat} (lt : w < 2 ^ 31) : toInt w = w := by
  apply Int.bmod_eq_of_le
  · omega
  · omega

theorem toInt_add_toInt (x y : Int) : toInt (x + toInt y) = toInt (x + y) :=
  Int.add_bmod_bmod

theorem toInt_toInt_add (x y : Int) : toInt (toInt x + y) = toInt (x + y) :=
  Int.bmod_add_bmod

/-- What it is to take the tree `t`. -/
structure Takes (freq : List Nat) (made : List CodeTree) (parents : List Nat) (taken : Nat)
    (s : Building) (t : CodeTree) (parents' : List Nat) (s' : Building) : Prop where
  picked : Picked made parents t parents'
  holds : Holds freq made parents' (taken + 1) s'
  sum : s'.sum = toInt (s.sum + t.weight)

theorem Holds.shaped (holds : Holds freq made parents taken s) :
    Shaped freq.length made.length parents taken s where
  length := holds.length
  root := holds.root
  count := holds.count
  root_le := holds.root_le
  leaf_le := holds.leaf_le
  pointers := holds.pointers

theorem Shaped.holds (shaped : Shaped freq.length made.length parents taken s)
    (weights : ∀ (j : Nat) (t : CodeTree), s.root ≤ j → made[j]? = some t →
      s.A[j]? = some (toInt t.weight))
    (waiting : ∀ (j w : Nat), s.leaf ≤ j → freq[j]? = some w → s.A[j]? = some (w : Int)) :
    Holds freq made parents taken s :=
  { shaped with weights, waiting }

theorem takeRoot_takes (holds : Holds freq made parents taken s) {t : CodeTree}
    (first : made[s.root]? = some t) (room : made.length < freq.length) :
    ∃ s', takeRoot made.length s = some s' ∧ s'.root = s.root + 1 ∧ s'.leaf = s.leaf ∧
      Takes freq made parents taken s t (parents ++ [made.length]) s' := by
  obtain ⟨before, _⟩ := List.getElem?_eq_some_iff.mp first
  obtain ⟨w, s', read, run, rfl, shaped⟩ := takeRoot_shaped holds.shaped before room
  have weight := holds.weights s.root t (Nat.le_refl _) first
  have same : w = toInt t.weight := Option.some.inj (read.symm.trans weight)
  refine ⟨_, run, rfl, rfl, ?_, shaped.holds ?_ ?_, ?_⟩
  · rw [holds.root] at first
    exact Picked.tree t first
  · intro j u later here
    rw [getElem?_set_other (Nat.ne_of_gt later)]
    exact holds.weights j u (Nat.le_of_lt later) here
  · intro j w later here
    have ne : j ≠ s.root := by
      have := holds.count
      simp only at later
      omega
    rw [getElem?_set_other ne]
    exact holds.waiting j w later here
  · simp only [same]
    exact toInt_add_toInt _ _

theorem takeLeaf_takes (holds : Holds freq made parents taken s) {w : Nat}
    (first : freq[s.leaf]? = some w) :
    ∃ s', takeLeaf made.length s = some s' ∧ s'.root = s.root ∧ s'.leaf = s.leaf + 1 ∧
      Takes freq made parents taken s (CodeTree.leaf w) parents s' := by
  obtain ⟨inside, _⟩ := List.getElem?_eq_some_iff.mp first
  obtain ⟨v, A, s', read, run, rfl, same, shaped⟩ := takeLeaf_shaped holds.shaped inside
  have weight := holds.waiting s.leaf w (Nat.le_refl _) first
  obtain rfl : v = w := Option.some.inj (read.symm.trans weight)
  refine ⟨_, run, rfl, rfl, Picked.leaf w, shaped.holds ?_ ?_, rfl⟩
  · intro j u later here
    obtain ⟨lt, _⟩ := List.getElem?_eq_some_iff.mp here
    rw [same j (Or.inr lt)]
    exact holds.weights j u later here
  · intro j v later here
    rw [same j (Or.inl (Nat.ne_of_gt later))]
    exact holds.waiting j v (Nat.le_of_lt later) here

theorem drop_eq_cons {α : Type} {xs : List α} {i : Nat} {x : α} (here : xs[i]? = some x) :
    xs.drop i = x :: xs.drop (i + 1) := by
  obtain ⟨lt, rfl⟩ := List.getElem?_eq_some_iff.mp here
  exact List.drop_eq_getElem_cons lt

/-- The program's choice is that of the two queues while their weights fit into an int. -/
theorem takesRoot_cases (holds : Holds freq made parents taken s)
    (room : made.length + taken < freq.length) :
    (takesRoot freq.length made.length s = some true ∧ ∃ t, made[s.root]? = some t ∧
      ((queues freq made s).total < 2 ^ 31 →
        least (queues freq made s) = some (t, ⟨freq.drop s.leaf, made.drop (s.root + 1)⟩))) ∨
    (takesRoot freq.length made.length s = some false ∧ ∃ w, freq[s.leaf]? = some w ∧
      ((queues freq made s).total < 2 ^ 31 → least (queues freq made s) =
        some (CodeTree.leaf w, ⟨freq.drop (s.leaf + 1), made.drop s.root⟩))) := by
  have count := holds.count
  have rootLe := holds.root_le
  have leafLe := holds.leaf_le
  rcases Nat.lt_or_ge s.leaf freq.length with leaf | none
  · obtain ⟨w, waits⟩ : ∃ w, freq[s.leaf]? = some w := ⟨_, List.getElem?_eq_getElem leaf⟩
    have leafWeight := holds.waiting s.leaf w (Nat.le_refl _) waits
    rcases Nat.lt_or_ge s.root made.length with root | none
    · obtain ⟨t, first⟩ : ∃ t, made[s.root]? = some t := ⟨_, List.getElem?_eq_getElem root⟩
      have rootWeight := holds.weights s.root t (Nat.le_refl _) first
      have cond : takesRoot freq.length made.length s =
          some (decide (toInt t.weight < (w : Int))) := by
        simp only [takesRoot, Nat.not_le.mpr leaf, root, rootWeight, leafWeight, if_false, if_true]
        rfl
      have heads : queues freq made s =
          ⟨w :: freq.drop (s.leaf + 1), t :: made.drop (s.root + 1)⟩ := by
        rw [queues, drop_eq_cons waits, drop_eq_cons first]
      have exact : (queues freq made s).total < 2 ^ 31 → toInt t.weight = (t.weight : Int) := by
        intro small
        apply toInt_eq
        rw [heads] at small
        simp only [Queues.total, List.map_cons, List.sum_cons] at small
        omega
      by_cases lighter : toInt t.weight < (w : Int)
      · refine Or.inl ⟨by rw [cond, decide_eq_true lighter], t, first, fun small => ?_⟩
        rw [exact small] at lighter
        rw [heads, least, if_pos (Int.ofNat_lt.mp lighter), ← drop_eq_cons waits]
      · refine Or.inr ⟨by rw [cond, decide_eq_false lighter], w, waits, fun small => ?_⟩
        rw [exact small] at lighter
        rw [heads, least, if_neg (fun lt => lighter (Int.ofNat_lt.mpr lt)), ← drop_eq_cons first]
    · refine Or.inr ⟨?_, w, waits, fun small => ?_⟩
      · simp only [takesRoot, Nat.not_le.mpr leaf, Nat.not_lt.mpr none, if_false]
      · rw [queues, drop_eq_cons waits, List.drop_eq_nil_of_le none]
        rfl
  · have root : s.root < made.length := by omega
    obtain ⟨t, first⟩ : ∃ t, made[s.root]? = some t := ⟨_, List.getElem?_eq_getElem root⟩
    refine Or.inl ⟨?_, t, first, fun small => ?_⟩
    · simp only [takesRoot, none, if_true]
    · rw [queues, drop_eq_cons first, List.drop_eq_nil_of_le none]
      rfl

theorem take_takes (holds : Holds freq made parents taken s)
    (room : made.length + taken < freq.length) :
    ∃ t parents' s', take freq.length made.length s = some s' ∧
      Takes freq made parents taken s t parents' s' ∧
      ((queues freq made s).total < 2 ^ 31 →
        least (queues freq made s) = some (t, queues freq made s')) := by
  rcases takesRoot_cases holds room with ⟨cond, t, first, agrees⟩ | ⟨cond, w, first, agrees⟩
  · obtain ⟨s', run, root, leaf, takes⟩ := takeRoot_takes holds first (by omega)
    refine ⟨t, _, s', ?_, takes, ?_⟩
    · simp only [take, cond]
      exact run
    · rw [queues, queues, root, leaf]
      exact agrees
  · obtain ⟨s', run, root, leaf, takes⟩ := takeLeaf_takes holds first
    refine ⟨_, _, s', ?_, takes, ?_⟩
    · simp only [take, cond]
      exact run
    · rw [queues, queues, root, leaf]
      exact agrees

/-- The sum goes where neither a pointer, nor a weight, nor a waiting leaf stands. -/
theorem node_holds (holds : Holds freq made parents 2 s) {node : CodeTree}
    (weight : s.sum = toInt node.weight) (inside : made.length < s.A.length) :
    Holds freq (made ++ [node]) parents 0 { s with A := s.A.set made.length s.sum } := by
  have shaped := node_shaped holds.shaped s.sum
  have longer : (made ++ [node]).length = made.length + 1 := List.length_append
  rw [← longer] at shaped
  refine shaped.holds ?_ ?_
  · intro j t later here
    rw [List.getElem?_append] at here
    split at here
    · rename_i old
      rw [getElem?_set_other (Nat.ne_of_lt old)]
      exact holds.weights j t later here
    · obtain ⟨lt, eq⟩ := List.getElem?_eq_some_iff.mp here
      rw [List.length_singleton] at lt
      have new : j = made.length := by omega
      rw [List.getElem_singleton] at eq
      rw [new, List.getElem?_set_self inside, weight, eq]
  · intro j w later here
    have count := holds.count
    have rootLe := holds.root_le
    rw [getElem?_set_other (by simp only at later; omega)]
    exact holds.waiting j w later here

theorem makeNode_spec (holds : Holds freq made parents 0 s) (linked : Linked made parents)
    (room : made.length + 1 < freq.length) :
    ∃ node parents' s', makeNode freq.length s made.length = some s' ∧
      Holds freq (made ++ [node]) parents' 0 s' ∧ Linked (made ++ [node]) parents' ∧
      ((queues freq made s).total < 2 ^ 31 →
        merge (queues freq made s) = some (queues freq (made ++ [node]) s')) := by
  have start : Holds freq made parents 0 { s with sum := 0 } := { holds with }
  obtain ⟨l, parents₁, s₁, run₁, takes₁, agrees₁⟩ := take_takes start (by omega)
  obtain ⟨r, parents₂, s₂, run₂, takes₂, agrees₂⟩ := take_takes takes₁.holds room
  have holds₂ := takes₂.holds
  have inside : made.length < s₂.A.length := by
    rw [holds₂.length]
    omega
  have run : makeNode freq.length s made.length =
      some { s₂ with A := s₂.A.set made.length s₂.sum } := by
    simp only [makeNode, run₁, run₂, store_eq inside, bind, Option.bind_some, pure]
  have weight : s₂.sum = toInt (CodeTree.node l r).weight := by
    rw [takes₂.sum, takes₁.sum, Int.zero_add, toInt_toInt_add, ← Int.natCast_add]
    rfl
  refine ⟨CodeTree.node l r, parents₂, _, run, node_holds holds₂ weight inside,
    linked.add takes₁.picked takes₂.picked, ?_⟩
  intro small
  have first : least (queues freq made s) = some (l, queues freq made s₁) := agrees₁ small
  have second := agrees₂ (by have := least_total first; omega)
  rw [merge, first]
  simp only [second]
  rw [queues, queues, List.drop_append_of_le_length holds₂.root_le]

end Rounds

/-- What phase 1 leaves: the pointers of all nodes but the last, which is the tree. -/
structure Built (freq : List Nat) (A : List Int) (made : List CodeTree) (parents : List Nat)
    (t : CodeTree) : Prop where
  linked : Linked made parents
  length : A.length = freq.length
  pointed : parents.length + 2 = freq.length
  all : made.length = parents.length + 1
  last : made[parents.length]? = some t
  pointers : ∀ (j p : Nat), parents[j]? = some p → A[j]? = some (p : Int)

theorem Shaped.built {freq : List Nat} {made : List CodeTree} {parents : List Nat} {s : Building}
    (shaped : Shaped freq.length made.length parents 0 s) (linked : Linked made parents)
    (two : 2 ≤ freq.length) (all : made.length = freq.length - 1) :
    ∃ t, Built freq s.A made parents t := by
  have count := shaped.count
  have root := shaped.root
  have leafLe := shaped.leaf_le
  have fewer : parents.length < made.length := by
    have := childrenBefore_lt linked (a := made.length) (by omega)
    rw [childrenBefore_all linked.bounded] at this
    exact this
  exact ⟨made[parents.length], linked, shaped.length, by omega, by omega,
    List.getElem?_eq_getElem fewer, shaped.pointers⟩

theorem start_holds (freq : List Nat) : Holds freq [] [] 0 ⟨freq.map Int.ofNat, 0, 0, 0⟩ where
  length := List.length_map _
  root := rfl
  count := rfl
  root_le := Nat.le_refl _
  leaf_le := Nat.zero_le _
  pointers := fun j p h => by cases h
  weights := fun j t _ h => by cases h
  waiting := fun j w _ h => by simp only [List.getElem?_map, h]; rfl

theorem rounds_hold (freq : List Nat) {k : Nat} (le : k < freq.length) :
    ∃ made parents s,
      (List.range k).foldlM (makeNode freq.length) ⟨freq.map Int.ofNat, 0, 0, 0⟩ = some s ∧
      made.length = k ∧ Holds freq made parents 0 s ∧ Linked made parents ∧
      (freq.sum < 2 ^ 31 → merges k ⟨freq, []⟩ = some (queues freq made s)) := by
  induction k with
  | zero =>
    refine ⟨[], [], _, rfl, rfl, start_holds freq, linked_nil, fun _ => ?_⟩
    rfl
  | succ k ih =>
    obtain ⟨made, parents, s, run, length, holds, linked, agrees⟩ := ih (Nat.lt_of_succ_lt le)
    obtain ⟨node, parents', s', step, holds', linked', merged⟩ :=
      makeNode_spec holds linked (by omega)
    refine ⟨_, _, s', ?_, ?_, holds', linked', fun small => ?_⟩
    · rw [List.range_succ, List.foldlM_append, run]
      rw [length] at step
      simp only [List.foldlM_cons, List.foldlM_nil, step, bind, Option.bind_some, pure]
    · rw [List.length_append, length]
      rfl
    · have before := agrees small
      have total : (queues freq made s).total = freq.sum := by
        rw [merges_total before]
        rfl
      rw [merges_succ, before]
      exact merged (by rw [total]; exact small)

/-- Phase 1 builds a tree; it is the Huffman tree when the total fits into an int. -/
theorem phase1_built {freq : List Nat} (two : 2 ≤ freq.length) :
    ∃ A made parents t, phase1 (freq.map Int.ofNat) = some A ∧ Built freq A made parents t ∧
      (freq.sum < 2 ^ 31 → huffman freq = some t) := by
  obtain ⟨made, parents, s, run, length, holds, linked, agrees⟩ :=
    rounds_hold freq (k := freq.length - 1) (by omega)
  obtain ⟨t, built⟩ := holds.shaped.built linked two length
  have count := holds.count
  have root := holds.root
  have pointed := built.pointed
  have last := built.last
  refine ⟨s.A, made, parents, t, ?_, built, fun small => ?_⟩
  · simp only [phase1, List.length_map, run]
    rfl
  · have leaves : freq.drop s.leaf = [] := List.drop_eq_nil_of_le (by omega)
    have tree : made.drop s.root = [t] := by
      rw [← root] at last
      rw [drop_eq_cons last, List.drop_eq_nil_of_le (by omega)]
    rw [huffman, agrees small, queues, leaves, tree]

theorem scan_eq {A : List Int} {parents : List Nat} (sorted : parents.Pairwise (· ≤ ·)) {a k : Nat}
    (pointers : ∀ (j p : Nat), j < a → parents[j]? = some p → A[j]? = some (p : Int))
    (ka : k ≤ a) (le : a ≤ parents.length) (ge : childrenBefore parents a ≤ k) :
    scan A a k = some (childrenBefore parents a) := by
  induction k with
  | zero => rw [scan, Nat.le_zero.mp ge]
  | succ k ih =>
    obtain ⟨p, here⟩ : ∃ p, parents[k]? = some p :=
      ⟨_, List.getElem?_eq_getElem (Nat.lt_of_lt_of_le ka le)⟩
    have place := lt_childrenBefore_iff sorted here (a := a)
    have read := pointers k p ka here
    by_cases later : a ≤ p
    · have cond : (a : Int) ≤ p := Int.ofNat_le.mpr later
      simp only [scan, read, bind, Option.bind_some, cond, if_true]
      exact ih (Nat.le_of_lt ka) (by omega)
    · have cond : ¬ (a : Int) ≤ p := fun le => later (Int.ofNat_le.mp le)
      simp only [scan, read, bind, Option.bind_some, cond, if_false]
      congr 1
      omega

theorem setDepths_eq (depth : Int) {m i : Nat} {A : List Int} (le : m ≤ i) (inside : i ≤ A.length) :
    ∃ A', setDepths depth m (A, i) = some (A', i - m) ∧ A'.length = A.length ∧
      (∀ j, j < i - m → A'[j]? = A[j]?) ∧ A'.drop (i - m) = List.replicate m depth ++ A.drop i := by
  induction m generalizing i A with
  | zero => exact ⟨A, rfl, rfl, fun j _ => rfl, rfl⟩
  | succ m ih =>
    obtain ⟨i, rfl⟩ : ∃ i', i = i' + 1 := ⟨i - 1, by omega⟩
    have room : i < A.length := inside
    obtain ⟨A', run, length, same, suffix⟩ :=
      ih (A := A.set i depth) (i := i) (by omega) (by rw [List.length_set]; omega)
    have shift : i + 1 - (m + 1) = i - m := by omega
    refine ⟨A', ?_, ?_, ?_, ?_⟩
    · simp only [setDepths, store_eq room, bind, Option.bind_some]
      rw [run, shift]
    · rw [length, List.length_set]
    · intro j lt
      rw [shift] at lt
      rw [same j lt, getElem?_set_other (by omega)]
    · have here : (A.set i depth).drop i = depth :: A.drop (i + 1) := by
        rw [drop_eq_cons (List.getElem?_set_self room), List.drop_set_of_lt (Nat.lt_succ_self i)]
      rw [shift, suffix, here, List.replicate_succ', List.append_assoc]
      rfl

/-- Before the round for depth `d + 1`: the entries behind `i` are the depths up to `d`
in nonincreasing order, and every pointer still needed stands before `i`. -/
structure AtLevel (parents : List Nat) (t : CodeTree) (n d : Nat) (s : Levels) : Prop where
  length : s.A.length = n
  pointers : ∀ (j p : Nat), j < levelTop parents d → parents[j]? = some p →
    s.A[j]? = some (p : Int)
  top : s.levelTop = levelTop parents d
  i : s.i = levelTop parents d + 2 * t.innerAt d
  inside : s.i ≤ n
  depth : s.depth = (d + 1 : Nat)
  total : s.totalNodesAtLevel = (2 * t.innerAt d : Nat)
  written : ∃ depths : List Nat, s.A.drop s.i = depths.map Int.ofNat ∧
    depths.Pairwise (· ≥ ·) ∧ ∀ e, depths.count e = if e ≤ d then t.leavesAt e else 0

section Levels

variable {freq : List Nat} {A : List Int} {made : List CodeTree} {parents : List Nat} {t : CodeTree}

theorem nextTop_eq (linked : Linked made parents) {B : List Int} {d : Nat}
    (pointers : ∀ (j p : Nat), j < levelTop parents d → parents[j]? = some p →
      B[j]? = some (p : Int)) :
    nextTop B (levelTop parents d) = some (levelTop parents (d + 1) : Int) := by
  have le := levelTop_le parents d
  unfold nextTop
  split
  · rename_i pos
    have lt := childrenBefore_lt linked (a := levelTop parents d) (Int.natCast_pos.mp pos)
    rw [Int.toNat_natCast, scan_eq linked.sorted pointers (Nat.le_refl _) le (Nat.le_of_lt lt),
      levelTop_succ]
    rfl
  · rename_i none
    have zero : levelTop parents d = 0 := by omega
    have below := levelTop_succ parents d
    rw [zero] at below ⊢
    rw [below]
    have : childrenBefore parents 0 = 0 := by simp [childrenBefore]
    rw [this]

theorem start_atLevel (built : Built freq A made parents t) :
    AtLevel parents t freq.length 0 ⟨A, A.length, A.length - 2, 1, 2⟩ := by
  have length := built.length
  have pointed := built.pointed
  have root := innerAt_zero built.linked built.last
  have top : levelTop parents 0 = parents.length := rfl
  have leaf := t.leavesAt_zero_add
  constructor
  · exact length
  · intro j p _ here
    exact built.pointers j p here
  · simp only [top]
    omega
  · simp only [top, root]
    omega
  · exact Nat.le_of_eq length
  · rfl
  · rw [root]
    rfl
  · refine ⟨[], by simp only [List.drop_length, List.map_nil], List.Pairwise.nil, fun e => ?_⟩
    split
    · obtain rfl : e = 0 := by omega
      rw [List.count_nil]
      omega
    · rfl

theorem level_atLevel (built : Built freq A made parents t) {d : Nat} {s : Levels}
    (at_ : AtLevel parents t freq.length d s) :
    ∃ s', level s = some s' ∧ AtLevel parents t freq.length (d + 1) s' := by
  have inner := innerAt_succ built.linked built.last built.all d
  have both := t.leavesAt_succ_add d
  have top := nextTop_eq built.linked at_.pointers
  obtain ⟨depths, suffix, sorted, counts⟩ := at_.written
  have i := at_.i
  have inside := at_.inside
  have leaves : (s.totalNodesAtLevel - (s.levelTop - levelTop parents (d + 1))).toNat =
      t.leavesAt (d + 1) := by
    rw [at_.total, at_.top]
    omega
  obtain ⟨A', run, length, same, written⟩ := setDepths_eq s.depth (A := s.A)
    (m := t.leavesAt (d + 1)) (i := s.i) (by omega) (by rw [at_.length]; exact inside)
  refine ⟨⟨A', s.i - t.leavesAt (d + 1), levelTop parents (d + 1), s.depth + 1,
    (s.levelTop - levelTop parents (d + 1)) * 2⟩, ?_, ?_⟩
  · rw [← at_.top] at top
    simp only [level, top, bind, Option.bind_some, leaves, run, pure]
  · constructor
    · rw [length, at_.length]
    · intro j p lt here
      rw [same j (by omega)]
      exact at_.pointers j p (by omega) here
    · rfl
    · simp only
      omega
    · simp only
      omega
    · simp only [at_.depth]
      omega
    · simp only [at_.top]
      omega
    · refine ⟨List.replicate (t.leavesAt (d + 1)) (d + 1) ++ depths, ?_, ?_, ?_⟩
      · rw [written, suffix, at_.depth, List.map_append, List.map_replicate]
        rfl
      · refine List.pairwise_append.mpr
          ⟨List.pairwise_replicate.mpr (Or.inr (Nat.le_refl _)), sorted, ?_⟩
        intro e new f old
        rw [List.eq_of_mem_replicate new]
        have positive := List.count_pos_iff.mpr old
        rw [counts f] at positive
        split at positive
        · omega
        · cases positive
      · intro e
        rw [List.count_append, List.count_replicate, counts e]
        rcases Nat.lt_trichotomy e (d + 1) with lt | rfl | gt
        · rw [if_neg (by simp only [beq_iff_eq]; omega), if_pos (by omega), if_pos (by omega),
            Nat.zero_add]
        · rw [if_pos (by simp only [beq_self_eq_true]), if_neg (by omega),
            if_pos (Nat.le_refl _), Nat.add_zero]
        · rw [if_neg (by simp only [beq_iff_eq]; omega), if_neg (by omega), if_neg (by omega)]

theorem levels_run (built : Built freq A made parents t) {fuel d : Nat} {s : Levels}
    (at_ : AtLevel parents t freq.length d s) (enough : levelTop parents d + 2 ≤ fuel) :
    ∃ e s', levels fuel s = some s' ∧ s'.i = 0 ∧ AtLevel parents t freq.length e s' := by
  induction fuel generalizing d s with
  | zero => omega
  | succ fuel ih =>
    have i := at_.i
    by_cases more : 0 < s.i
    · obtain ⟨s', step, next⟩ := level_atLevel built at_
      have run : levels (fuel + 1) s = levels fuel s' := by
        rw [levels, if_pos more, step]
        rfl
      rw [run]
      have below := levelTop_succ parents d
      have inner := innerAt_succ built.linked built.last built.all d
      rcases Nat.eq_zero_or_pos (levelTop parents d) with top | pos
      · -- No inner node is left below this level, so the leaves are all written.
        have done : s'.i = 0 := by
          have := next.i
          omega
        obtain ⟨fuel, rfl⟩ : ∃ f, fuel = f + 1 := ⟨fuel - 1, by omega⟩
        refine ⟨d + 1, s', ?_, done, next⟩
        rw [levels, if_neg (by omega)]
      · have lt := childrenBefore_lt built.linked pos
        exact ih next (by omega)
    · refine ⟨d, s, ?_, by omega, at_⟩
      rw [levels, if_neg more]

/-- Phase 2 ends, and leaves the depths of the tree's leaves in nonincreasing order. -/
theorem phase2_depths (built : Built freq A made parents t) :
    ∃ depths : List Nat, phase2 A = some (depths.map Int.ofNat) ∧
      depths.Pairwise (· ≥ ·) ∧ depths.Perm (t.depths 0) ∧ depths.length = freq.length := by
  have pointed := built.pointed
  have length := built.length
  have enough : levelTop parents 0 + 2 ≤ A.length + 1 := by
    have := levelTop_le parents 0
    omega
  obtain ⟨d, s, run, done, at_⟩ := levels_run built (start_atLevel built) enough
  obtain ⟨depths, written, sorted, counts⟩ := at_.written
  have i := at_.i
  rw [done, List.drop_zero] at written
  refine ⟨depths, ?_, sorted, ?_, ?_⟩
  · simp only [phase2, run, bind, Option.bind_some, pure, written]
  · apply List.perm_iff_count.mpr
    intro e
    have count := t.count_depths 0 e
    rw [Nat.zero_add] at count
    rw [count, counts e]
    split
    · rfl
    · rename_i below
      exact (t.leavesAt_below (d := d) (by omega) (by omega)).symm
  · rw [← at_.length, written, List.length_map]

end Levels

/-- The array ends with the depths of the tree behind it, deepest first. -/
theorem codeLengths_depths {freq : List Nat} (two : 2 ≤ freq.length) :
    ∃ t, ∃ depths : List Nat, codeLengths (freq.map Int.ofNat) = some (depths.map Int.ofNat) ∧
      depths.Pairwise (· ≥ ·) ∧ depths.Perm (t.depths 0) ∧ depths.length = freq.length ∧
      (freq.sum < 2 ^ 31 → huffman freq = some t) := by
  obtain ⟨A, made, parents, t, run, built, exact⟩ := phase1_built two
  obtain ⟨depths, run', sorted, perm, length⟩ := phase2_depths built
  refine ⟨t, depths, ?_, sorted, perm, length, exact⟩
  rw [codeLengths, run]
  exact run'

example : codeLengths [1, 1, 2, 3, 5] = some [4, 4, 3, 2, 1] := by decide

end TFTP.CodeLengths
