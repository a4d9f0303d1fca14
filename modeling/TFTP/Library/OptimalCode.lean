import TFTP.Library.HuffmanTree
import Mathlib.InformationTheory.Coding.KraftMcMillan

/-!
# Huffman trees are optimal

A code is judged here by its weights and lengths alone. The lengths of a prefix-free code
have a Kraft sum of at most one. Under that bound the two least weights may be given the
two greatest lengths, and those two made equal, so both weights can be merged into one;
no assignment of lengths then costs less than the tree that the merges build.
-/

namespace TFTP.OptimalCode

open HuffmanTree HuffmanTree.CodeTree InformationTheory

/-- The lengths fit into the unit interval, measured in units of some depth. -/
def Kraft (ls : List Nat) : Prop :=
  ∃ m, (∀ l ∈ ls, l ≤ m) ∧ (ls.map fun l => 2 ^ (m - l)).sum ≤ 2 ^ m

/-- The sum of weights times lengths. -/
def total (pairs : List (Nat × Nat)) : Nat := (pairs.map fun p => p.1 * p.2).sum

@[simp] theorem total_cons (p : Nat × Nat) (pairs : List (Nat × Nat)) :
    total (p :: pairs) = p.1 * p.2 + total pairs := rfl

theorem total_perm {ps qs : List (Nat × Nat)} (perm : ps.Perm qs) : total ps = total qs :=
  (perm.map _).sum_nat

theorem Kraft.perm {ls ks : List Nat} (kraft : Kraft ls) (perm : ls.Perm ks) : Kraft ks := by
  obtain ⟨m, deep, room⟩ := kraft
  refine ⟨m, fun k mem => deep k (perm.mem_iff.mpr mem), ?_⟩
  exact (perm.map _).sum_nat ▸ room

/-- A least weight can be given a greatest length, and the others keep the rest. -/
theorem exchange {a l : Nat} {ws ls : List Nat} {pairs : List (Nat × Nat)}
    (weights : (pairs.map Prod.fst).Perm (a :: ws)) (lengths : (pairs.map Prod.snd).Perm (l :: ls))
    (light : ∀ w ∈ ws, a ≤ w) (deep : ∀ k ∈ ls, k ≤ l) :
    ∃ rest : List (Nat × Nat), (rest.map Prod.fst).Perm ws ∧ (rest.map Prod.snd).Perm ls ∧
      a * l + total rest ≤ total pairs := by
  obtain ⟨x, mem⟩ : ∃ x, (a, x) ∈ pairs := by
    simpa using weights.mem_iff.mpr List.mem_cons_self
  have split := List.perm_cons_erase mem
  have weights' := ((split.map Prod.fst).symm.trans weights).cons_inv
  have lengths' := (split.map Prod.snd).symm.trans lengths
  rw [total_perm split, total_cons]
  by_cases same : x = l
  · subst same
    exact ⟨_, weights', lengths'.cons_inv, Nat.le_refl _⟩
  · have found : l ∈ (pairs.erase (a, x)).map Prod.snd := by
      rcases List.mem_cons.mp (lengths'.mem_iff.mpr List.mem_cons_self) with here | later
      · exact absurd here.symm same
      · exact later
    obtain ⟨w, mem'⟩ : ∃ w, (w, l) ∈ pairs.erase (a, x) := by simpa using found
    have split' := List.perm_cons_erase mem'
    refine ⟨(w, x) :: (pairs.erase (a, x)).erase (w, l), ?_, ?_, ?_⟩
    · exact (split'.map Prod.fst).symm.trans weights'
    · have swapped : (x :: l :: _).Perm (l :: ls) :=
        ((split'.map Prod.snd).cons x).symm.trans lengths'
      exact ((List.Perm.swap x l _).trans swapped).cons_inv
    · have lighter : a ≤ w :=
        light w (weights'.mem_iff.mp (List.mem_map_of_mem (f := Prod.fst) mem'))
      have shorter : x ≤ l := by
        rcases List.mem_cons.mp (lengths'.mem_iff.mp List.mem_cons_self) with here | later
        · exact Nat.le_of_eq here
        · exact deep x later
      have swap := mul_add_mul_le_mul_add_mul lighter shorter
      rw [total_perm split', total_cons, total_cons]
      simp only
      omega

/-- No pairing costs less than weights that ascend beside lengths that descend. -/
theorem zip_le {ws ls : List Nat} {pairs : List (Nat × Nat)}
    (weights : (pairs.map Prod.fst).Perm ws) (lengths : (pairs.map Prod.snd).Perm ls)
    (ascending : ws.Pairwise (· ≤ ·)) (descending : ls.Pairwise (· ≥ ·)) :
    (List.zipWith (· * ·) ws ls).sum ≤ total pairs := by
  induction ws generalizing ls pairs with
  | nil => exact Nat.zero_le _
  | cons a ws ih =>
    cases ls with
    | nil => exact Nat.zero_le _
    | cons l ls =>
      obtain ⟨light, ascending⟩ := List.pairwise_cons.mp ascending
      obtain ⟨deep, descending⟩ := List.pairwise_cons.mp descending
      obtain ⟨rest, weights', lengths', le⟩ := exchange weights lengths light deep
      have below := ih weights' lengths' ascending descending
      rw [List.zipWith_cons_cons, List.sum_cons]
      omega

/-- The two greatest lengths are made equal and joined one level up. -/
theorem Kraft.join {l k : Nat} {rest : List Nat} (kraft : Kraft (l :: k :: rest)) (le : k ≤ l)
    (deep : ∀ x ∈ rest, x ≤ k) : 0 < k ∧ Kraft ((k - 1) :: rest) := by
  obtain ⟨m, below, room⟩ := kraft
  have lm := below l List.mem_cons_self
  have unit : ∀ x, x ≤ k → 2 ^ (m - x) = 2 ^ (m - k) * 2 ^ (k - x) := by
    intro x xk
    rw [← Nat.pow_add]
    congr 1
    omega
  have others : (rest.map fun x => 2 ^ (m - x)).sum =
      2 ^ (m - k) * (rest.map fun x => 2 ^ (k - x)).sum := by
    rw [← List.sum_map_mul_left]
    exact congrArg List.sum (List.map_congr_left fun x mem => unit x (deep x mem))
  have whole : 2 ^ m = 2 ^ (m - k) * 2 ^ k := by simpa using unit 0 (Nat.zero_le k)
  simp only [List.map_cons, List.sum_cons, others] at room
  -- The length `l` takes up less than one unit of depth `k`, and whatever it takes counts.
  have counts : 0 < 2 ^ (m - l) := Nat.two_pow_pos _
  have strict : 1 + (rest.map fun x => 2 ^ (k - x)).sum < 2 ^ k := by
    apply Nat.lt_of_mul_lt_mul_left (a := 2 ^ (m - k))
    rw [← whole, Nat.mul_add, Nat.mul_one]
    omega
  have pos : 0 < k := by
    apply Nat.pos_of_ne_zero
    rintro rfl
    omega
  refine ⟨pos, k, ?_, ?_⟩
  · intro x mem
    rcases List.mem_cons.mp mem with rfl | mem
    · exact Nat.sub_le k 1
    · exact deep x mem
  · have two : 2 ^ (k - (k - 1)) = 2 := by
      rw [show k - (k - 1) = 1 by omega, Nat.pow_one]
    rw [List.map_cons, List.sum_cons, two]
    omega

/-- No lengths with a Kraft sum of at most one cost less. -/
def LowerBound (weights : List Nat) (c : Nat) : Prop :=
  ∀ pairs : List (Nat × Nat), (pairs.map Prod.fst).Perm weights → Kraft (pairs.map Prod.snd) →
    c ≤ total pairs

/-- Two least weights may be merged: every code of the others costs their sum more. -/
theorem LowerBound.split {a b c : Nat} {ws : List Nat} (bound : LowerBound ((a + b) :: ws) c)
    (ab : a ≤ b) (light : ∀ w ∈ ws, b ≤ w) : LowerBound (a :: b :: ws) (c + (a + b)) := by
  intro pairs weights kraft
  let sorted := (pairs.map Prod.snd).insertionSort (· ≥ ·)
  have perm : (pairs.map Prod.snd).Perm sorted := (List.perm_insertionSort _ _).symm
  have descending : sorted.Pairwise (· ≥ ·) := List.pairwise_insertionSort _ _
  have size : sorted.length = ws.length + 2 := by
    rw [← perm.length_eq, List.length_map, ← List.length_map (f := Prod.fst), weights.length_eq]
    rfl
  match lengths : sorted with
  | [] => cases size
  | [_] => cases size
  | l :: k :: ls =>
    obtain ⟨deepest, below⟩ := List.pairwise_cons.mp descending
    obtain ⟨deep, _⟩ := List.pairwise_cons.mp below
    obtain ⟨pairs₁, weights₁, lengths₁, le₁⟩ := exchange weights perm (by
      intro w mem
      rcases List.mem_cons.mp mem with rfl | mem
      · exact ab
      · exact Nat.le_trans ab (light w mem)) deepest
    obtain ⟨pairs₂, weights₂, lengths₂, le₂⟩ := exchange weights₁ lengths₁ light deep
    have kl : k ≤ l := deepest k List.mem_cons_self
    obtain ⟨pos, joined⟩ := (kraft.perm perm).join kl deep
    have least := bound ((a + b, k - 1) :: pairs₂) (weights₂.cons _)
      (joined.perm (lengths₂.cons (k - 1)).symm)
    have deeper : a * k ≤ a * l := Nat.mul_le_mul_left a kl
    obtain ⟨k, rfl⟩ : ∃ j, k = j + 1 := ⟨k - 1, by omega⟩
    rw [total_cons] at least
    simp only [Nat.add_sub_cancel] at least
    have level : (a + b) * k + (a + b) = a * (k + 1) + b * (k + 1) := by ring
    omega

/-- No word of the list is a prefix of another one. -/
def PrefixFree (words : List (List Bool)) : Prop :=
  words.Pairwise fun c d => ¬ c <+: d ∧ ¬ d <+: c

section Words

variable {words : List (List Bool)}

theorem PrefixFree.eq_of_prefix (free : PrefixFree words) {c d : List Bool} (hc : c ∈ words)
    (hd : d ∈ words) (isPrefix : c <+: d) : c = d := by
  by_contra other
  have symmetric : Std.Symm fun c d : List Bool => ¬ c <+: d ∧ ¬ d <+: c :=
    ⟨fun _ _ apart => ⟨apart.2, apart.1⟩⟩
  exact (List.Pairwise.forall free hc hd other).1 isPrefix

theorem PrefixFree.ne_nil (free : PrefixFree words) (more : 1 < words.length) :
    ∀ w ∈ words, w ≠ [] := by
  rintro w mem rfl
  match words, more with
  | c :: d :: rest, _ =>
    have here := free.eq_of_prefix mem List.mem_cons_self (List.nil_prefix)
    have there := free.eq_of_prefix mem (List.mem_cons_of_mem _ List.mem_cons_self)
      (List.nil_prefix)
    have apart := (List.pairwise_cons.mp free).1 d List.mem_cons_self
    rw [← here, ← there] at apart
    exact apart.1 (List.prefix_refl [])

theorem PrefixFree.uniquelyDecodable (free : PrefixFree words) (more : 1 < words.length) :
    UniquelyDecodable {w | w ∈ words} := by
  have full := free.ne_nil more
  intro as
  induction as with
  | nil =>
    rintro bs _ inB same
    cases bs with
    | nil => rfl
    | cons b bs =>
      have none := List.append_eq_nil_iff.mp same.symm
      exact absurd none.1 (full b (inB b List.mem_cons_self))
  | cons a as ih =>
    rintro bs inA inB same
    cases bs with
    | nil =>
      have none := List.append_eq_nil_iff.mp same
      exact absurd none.1 (full a (inA a List.mem_cons_self))
    | cons b bs =>
      rw [List.flatten_cons, List.flatten_cons] at same
      have ha := inA a List.mem_cons_self
      have hb := inB b List.mem_cons_self
      have first : a = b := by
        rcases List.prefix_or_prefix_of_prefix (List.prefix_append a as.flatten)
          (same ▸ List.prefix_append b bs.flatten) with ab | ba
        · exact free.eq_of_prefix ha hb ab
        · exact (free.eq_of_prefix hb ha ba).symm
      subst first
      rw [ih bs (fun w mem => inA w (List.mem_cons_of_mem _ mem))
        (fun w mem => inB w (List.mem_cons_of_mem _ mem)) (List.append_cancel_left same)]

theorem PrefixFree.kraft (free : PrefixFree words) (more : 1 < words.length) :
    Kraft (words.map List.length) := by
  have distinct : words.Nodup := by
    refine free.imp ?_
    rintro c d apart rfl
    exact apart.1 (List.prefix_refl c)
  have decodable : UniquelyDecodable ((words.toFinset : Finset (List Bool)) : Set (List Bool)) := by
    rw [List.coe_toFinset]
    exact free.uniquelyDecodable more
  have bound := kraft_mcmillan_inequality decodable
  rw [List.sum_toFinset _ distinct, Fintype.card_bool] at bound
  have deep : ∀ l ∈ words.map List.length, l ≤ (words.map List.length).sum :=
    fun l mem => List.le_sum_of_mem mem
  refine ⟨(words.map List.length).sum, deep, ?_⟩
  generalize (words.map List.length).sum = m at deep
  have units : (((words.map List.length).map fun l => 2 ^ (m - l)).sum : Nat) =
      (2 : ℝ) ^ m * (words.map fun w => (1 / ((2 : Nat) : ℝ)) ^ w.length).sum := by
    rw [Nat.cast_list_sum, ← List.sum_map_mul_left, List.map_map, List.map_map]
    refine congrArg List.sum (List.map_congr_left fun w mem => ?_)
    have le := deep w.length (List.mem_map_of_mem mem)
    simp only [Function.comp_apply, Nat.cast_pow, Nat.cast_ofNat, one_div, inv_pow]
    exact pow_sub₀ _ two_ne_zero le
  have scaled : (((words.map List.length).map fun l => 2 ^ (m - l)).sum : Nat) ≤
      ((2 ^ m : Nat) : ℝ) := by
    rw [units, Nat.cast_pow, Nat.cast_ofNat]
    exact mul_le_of_le_one_right (by positivity) bound
  exact Nat.cast_le.mp scaled

end Words

/-- The weights of the leaves, from left to right. -/
def leafWeights : CodeTree → List Nat
  | leaf w => [w]
  | node l r => leafWeights l ++ leafWeights r

/-- The weights of the inner nodes together. -/
def cost : CodeTree → Nat
  | leaf _ => 0
  | node l r => cost l + cost r + (l.weight + r.weight)

theorem leafWeights_length (t : CodeTree) (d : Nat) :
    (leafWeights t).length = (t.depths d).length := by
  induction t generalizing d with
  | leaf w => rfl
  | node l r ihl ihr =>
    rw [leafWeights, CodeTree.depths, List.length_append, List.length_append, ihl (d + 1),
      ihr (d + 1)]

theorem total_append (ps qs : List (Nat × Nat)) : total (ps ++ qs) = total ps + total qs := by
  rw [total, List.map_append, List.sum_append]
  rfl

/-- The inner nodes weigh what the leaves cost at their depths. -/
theorem total_leaves (t : CodeTree) (d : Nat) :
    total ((leafWeights t).zip (t.depths d)) = cost t + t.weight * d := by
  induction t generalizing d with
  | leaf w => simp [leafWeights, CodeTree.depths, total, cost, CodeTree.weight]
  | node l r ihl ihr =>
    rw [leafWeights, CodeTree.depths, List.zip_append (leafWeights_length l (d + 1)), total_append,
      ihl, ihr, cost, CodeTree.weight]
    ring

/-- Everything that waits in the two queues. -/
def forest (q : Queues) : List CodeTree := q.leaves.map leaf ++ q.trees

theorem least_forest {q q' : Queues} {t : CodeTree} (taken : least q = some (t, q')) :
    (forest q).Perm (t :: forest q') := by
  match q, taken with
  | ⟨w :: ws, []⟩, taken =>
    obtain ⟨rfl, rfl⟩ := Prod.mk.inj (Option.some.inj taken)
    exact List.Perm.refl _
  | ⟨[], s :: ts⟩, taken =>
    obtain ⟨rfl, rfl⟩ := Prod.mk.inj (Option.some.inj taken)
    exact List.Perm.refl _
  | ⟨w :: ws, s :: ts⟩, taken =>
    rw [least] at taken
    split at taken
    · obtain ⟨rfl, rfl⟩ := Prod.mk.inj (Option.some.inj taken)
      exact List.perm_middle
    · obtain ⟨rfl, rfl⟩ := Prod.mk.inj (Option.some.inj taken)
      exact List.Perm.refl _

theorem ordered_forest {last : Nat} {q : Queues} (ordered : Ordered last q) :
    ∀ s ∈ forest q, last ≤ s.weight := by
  intro s mem
  rcases List.mem_append.mp mem with mem | mem
  · obtain ⟨w, waits, rfl⟩ := List.mem_map.mp mem
    exact (ordered.leavesGe w waits).1
  · exact (ordered.treesGe s mem).1

/-- A merge takes two least trees and puts one in their place. -/
theorem merge_forest {last : Nat} {q q' : Queues} (ordered : Ordered last q)
    (merged : merge q = some q') : ∃ a b rest, (forest q).Perm (a :: b :: rest) ∧
      (forest q').Perm (node a b :: rest) ∧ a.weight ≤ b.weight ∧
      ∀ s ∈ rest, b.weight ≤ s.weight := by
  obtain ⟨a, qa, b, qb, takenA, takenB, rfl⟩ := merge_some merged
  have ta := least_takes ordered takenA
  have tb := least_takes ta.ordered takenB
  refine ⟨a, b, forest qb, ?_, ?_, tb.ge, ordered_forest tb.ordered⟩
  · exact (least_forest takenA).trans ((least_forest takenB).cons a)
  · simp only [forest, ← List.append_assoc]
    exact List.perm_append_singleton _ _

/-- What the merges so far have cost is a lower bound, given one for what is left. -/
theorem merges_lowerBound {k last c : Nat} {q q' : Queues} (ordered : Ordered last q)
    (merged : merges k q = some q') (bound : LowerBound ((forest q').map weight) c) :
    ∃ s, ((forest q').map cost).sum = ((forest q).map cost).sum + s ∧
      LowerBound ((forest q).map weight) (c + s) ∧
      ((forest q').flatMap leafWeights).Perm ((forest q).flatMap leafWeights) := by
  induction k generalizing last q with
  | zero =>
    obtain rfl := Option.some.inj merged
    exact ⟨0, rfl, bound, List.Perm.refl _⟩
  | succ k ih =>
    obtain ⟨qm, first, later⟩ := Option.bind_eq_some_iff.mp merged
    obtain ⟨last', ordered'⟩ := merge_ordered ordered first
    obtain ⟨s, costs, bound', leaves⟩ := ih ordered' later
    obtain ⟨a, b, rest, before, after, ab, light⟩ := merge_forest ordered first
    refine ⟨s + (a.weight + b.weight), ?_, ?_, ?_⟩
    · have old := (before.map cost).sum_nat
      have new := (after.map cost).sum_nat
      simp only [List.map_cons, List.sum_cons, cost] at old new
      omega
    · have joined : LowerBound ((a.weight + b.weight) :: rest.map weight) (c + s) :=
        fun pairs weights => bound' pairs (weights.trans (after.map weight).symm)
      have split := joined.split ab (by
        intro w mem
        obtain ⟨t, waits, rfl⟩ := List.mem_map.mp mem
        exact light t waits)
      intro pairs weights
      rw [← Nat.add_assoc]
      exact split pairs (weights.trans (before.map weight))
    · have old := before.flatMap_right leafWeights
      have new := after.flatMap_right leafWeights
      simp only [List.flatMap_cons, leafWeights, List.append_assoc] at old new
      exact leaves.trans (new.trans old.symm)

/-- A Huffman tree has the given weights at its leaves, and no code with a Kraft sum of at
most one costs less. -/
theorem huffman_optimal {weights : List Nat} {t : CodeTree} (sorted : weights.Pairwise (· ≤ ·))
    (positive : ∀ w ∈ weights, 0 < w) (built : huffman weights = some t) :
    LowerBound weights (cost t) ∧ (leafWeights t).Perm weights := by
  have ordered := start_ordered sorted positive
  have start : forest ⟨weights, []⟩ = weights.map leaf := List.append_nil _
  have same : (weights.map leaf).map weight = weights := by
    rw [List.map_map]
    exact List.map_id'' (fun _ => rfl) weights
  have none : ((weights.map leaf).map cost).sum = 0 := by
    rw [List.map_map]
    simp [Function.comp_def, cost]
  have leaves : (weights.map leaf).flatMap leafWeights = weights := by
    rw [List.flatMap_map]
    exact List.flatMap_singleton' weights
  have trivially : ∀ ws, LowerBound ws 0 := fun ws pairs _ _ => Nat.zero_le _
  unfold huffman at built
  split at built
  · rename_i u merged
    obtain rfl := Option.some.inj built
    obtain ⟨s, costs, bound, perm⟩ := merges_lowerBound ordered merged (trivially _)
    rw [start] at costs bound perm
    rw [none] at costs
    rw [same] at bound
    rw [leaves] at perm
    simp only [forest, List.map_nil, List.nil_append, List.map_cons, List.sum_singleton,
      List.flatMap_singleton] at costs perm
    rw [costs]
    exact ⟨by simpa using bound, perm⟩
  · rename_i w merged
    obtain rfl := Option.some.inj built
    obtain ⟨s, costs, bound, perm⟩ := merges_lowerBound ordered merged (trivially _)
    rw [start, leaves] at perm
    exact ⟨trivially _, by simpa [forest, leafWeights] using perm⟩
  · cases built

/-- Words of one length are a code, too. -/
theorem LowerBound.fixed {weights : List Nat} {c b : Nat} (bound : LowerBound weights c)
    (few : weights.length ≤ 2 ^ b) : c ≤ weights.sum * b := by
  have firsts : ((weights.map fun w => (w, b)).map Prod.fst) = weights := by
    rw [List.map_map]
    exact List.map_id'' (fun _ => rfl) weights
  have cost : total (weights.map fun w => (w, b)) = weights.sum * b := by
    have scaled := List.sum_map_mul_right weights id b
    rw [List.map_id] at scaled
    rw [total, List.map_map]
    exact scaled
  rw [← cost]
  apply bound
  · rw [firsts]
  · refine ⟨b, fun l mem => ?_, ?_⟩
    · obtain ⟨p, there, rfl⟩ := List.mem_map.mp mem
      obtain ⟨w, _, rfl⟩ := List.mem_map.mp there
      exact Nat.le_refl b
    · rw [List.map_map, List.map_map]
      simpa [Function.comp_def] using few

end TFTP.OptimalCode
