import TFTP.CodeLengths

/-!
# Depths over pointers

Phase 2 of `generateHuffmanCodes` writes the depths from the right into the vector whose
parent pointers it still reads from the left. What it reads and writes is recorded here,
in order. The pointers that are needed always stand before the depths: a level begins
with as many inner nodes above it as it has, and every one of them has two children.
-/

namespace TFTP.DepthsInPlace

open HuffmanTree ParentPointers CodeLengths

inductive Event where
  | read (index : Nat)
  | leavesAtLevel (count : Int)
  | assign (index : Nat)
  deriving DecidableEq, Repr

def scanEvents (A : List Int) (levelTop : Int) : Nat → List Event
  | 0 => []
  | k + 1 => .read k ::
    match A[k]? with
    | some parent => if levelTop ≤ parent then scanEvents A levelTop k else []
    | none => []

def setDepthsEvents : Nat → Nat → List Event
  | 0, _ => []
  | _ + 1, 0 => []
  | leaves + 1, i + 1 => .assign i :: setDepthsEvents leaves i

/-- What `level` does, in order. -/
def levelEvents (s : Levels) : List Event :=
  (if 0 < s.levelTop then scanEvents s.A s.levelTop s.levelTop.toNat else []) ++
    match nextTop s.A s.levelTop with
    | some k =>
      let leavesAtLevel := s.totalNodesAtLevel - (s.levelTop - k)
      .leavesAtLevel leavesAtLevel :: setDepthsEvents leavesAtLevel.toNat s.i
    | none => []

/-- What `levels` does, in order. -/
def events : Nat → Levels → List Event
  | 0, _ => []
  | fuel + 1, s =>
    if 0 < s.i then levelEvents s ++ ((level s).map (events fuel)).getD [] else []

def start (A : List Int) : Levels := ⟨A, A.length, A.length - 2, 1, 2⟩

def assigned (es : List Event) : List Nat :=
  es.filterMap fun
    | .assign i => some i
    | _ => none

/-- With `i` entries still to assign: pointers are read below `top`, each entry is assigned
once, no count of leaves is negative, and what has been assigned is not read. -/
structure Orderly (top i : Nat) (es : List Event) : Prop where
  reads : ∀ j, .read j ∈ es → j < top
  assigned : assigned es = (List.range i).reverse
  counts : ∀ count, .leavesAtLevel count ∈ es → 0 ≤ count
  kept : es.Pairwise fun e f => ∀ j, e = .assign j → f ≠ .read j

theorem mem_scanEvents {A : List Int} {levelTop : Int} {k : Nat} {e : Event}
    (mem : e ∈ scanEvents A levelTop k) : ∃ j < k, e = .read j := by
  induction k with
  | zero => cases mem
  | succ k ih =>
    rcases List.mem_cons.mp mem with rfl | mem
    · exact ⟨k, Nat.lt_succ_self k, rfl⟩
    · have below : e ∈ scanEvents A levelTop k := by
        split at mem
        · split at mem
          · exact mem
          · cases mem
        · cases mem
      obtain ⟨j, lt, eq⟩ := ih below
      exact ⟨j, Nat.lt_succ_of_lt lt, eq⟩

theorem mem_setDepthsEvents {m i : Nat} {e : Event} (mem : e ∈ setDepthsEvents m i) :
    ∃ j, i - m ≤ j ∧ e = .assign j := by
  induction m generalizing i with
  | zero => cases mem
  | succ m ih =>
    cases i with
    | zero => cases mem
    | succ i =>
      rcases List.mem_cons.mp mem with rfl | mem
      · exact ⟨i, by omega, rfl⟩
      · obtain ⟨j, le, eq⟩ := ih mem
        exact ⟨j, by omega, eq⟩

theorem assigned_setDepthsEvents {m i : Nat} (le : m ≤ i) :
    assigned (setDepthsEvents m i) ++ (List.range (i - m)).reverse = (List.range i).reverse := by
  induction m generalizing i with
  | zero => rfl
  | succ m ih =>
    obtain ⟨i, rfl⟩ : ∃ i', i = i' + 1 := ⟨i - 1, by omega⟩
    have shift : i + 1 - (m + 1) = i - m := by omega
    have rest := ih (Nat.le_of_succ_le_succ le)
    rw [shift, List.range_succ, List.reverse_concat, ← rest]
    rfl

theorem assigned_append (es fs : List Event) : assigned (es ++ fs) = assigned es ++ assigned fs :=
  List.filterMap_append

theorem assigned_scanEvents (A : List Int) (levelTop : Int) (k : Nat) :
    assigned (scanEvents A levelTop k) = [] := by
  apply List.filterMap_eq_nil_iff.mpr
  intro e mem
  obtain ⟨j, _, rfl⟩ := mem_scanEvents mem
  rfl

section Level

variable {A : List Int} {top m i : Nat}

theorem mem_levelEvents {e : Event}
    (mem : e ∈ scanEvents A top top ++ .leavesAtLevel m :: setDepthsEvents m i) :
    (∃ j < top, e = .read j) ∨ e = .leavesAtLevel m ∨ ∃ j, i - m ≤ j ∧ e = .assign j := by
  rcases List.mem_append.mp mem with scanned | mem
  · exact Or.inl (mem_scanEvents scanned)
  · rcases List.mem_cons.mp mem with count | written
    · exact Or.inr (Or.inl count)
    · exact Or.inr (Or.inr (mem_setDepthsEvents written))

/-- Within a level everything is read before anything is assigned. -/
theorem levelEvents_kept :
    (scanEvents A top top ++ .leavesAtLevel m :: setDepthsEvents m i).Pairwise
      fun e f => ∀ j, e = .assign j → f ≠ .read j := by
  refine List.pairwise_append.mpr ⟨?_, ?_, ?_⟩
  · apply List.pairwise_of_forall_mem_list
    rintro e mem f - j rfl
    obtain ⟨_, _, eq⟩ := mem_scanEvents mem
    cases eq
  · apply List.pairwise_of_forall_mem_list
    rintro e - f mem j - rfl
    rcases List.mem_cons.mp mem with eq | mem
    · cases eq
    · obtain ⟨_, _, eq⟩ := mem_setDepthsEvents mem
      cases eq
  · rintro e mem f - j rfl
    obtain ⟨_, _, eq⟩ := mem_scanEvents mem
    cases eq

/-- One level, before the levels below it. -/
theorem Orderly.level {below : Nat} {rest : List Event} (orderly : Orderly below (i - m) rest)
    (le : m ≤ i) (less : below ≤ top) (fits : below ≤ i - m) :
    Orderly top i
      ((scanEvents A top top ++ .leavesAtLevel m :: setDepthsEvents m i) ++ rest) where
  reads := by
    intro j mem
    rcases List.mem_append.mp mem with mem | mem
    · rcases mem_levelEvents mem with ⟨_, lt, eq⟩ | eq | ⟨_, _, eq⟩
      · cases eq
        exact lt
      · cases eq
      · cases eq
    · exact Nat.lt_of_lt_of_le (orderly.reads j mem) less
  assigned := by
    rw [assigned_append, assigned_append, assigned_scanEvents, List.nil_append, orderly.assigned]
    exact assigned_setDepthsEvents le
  counts := by
    intro count mem
    rcases List.mem_append.mp mem with mem | mem
    · rcases mem_levelEvents mem with ⟨_, _, eq⟩ | eq | ⟨_, _, eq⟩
      · cases eq
      · cases eq
        exact Int.natCast_nonneg m
      · cases eq
    · exact orderly.counts count mem
  kept := by
    refine List.pairwise_append.mpr ⟨levelEvents_kept, orderly.kept, ?_⟩
    rintro e mem f mem' j rfl rfl
    have read := orderly.reads j mem'
    rcases mem_levelEvents mem with ⟨_, _, eq⟩ | eq | ⟨_, ge, eq⟩
    · cases eq
    · cases eq
    · cases eq
      omega

end Level

theorem orderly_nil (top : Nat) : Orderly top 0 [] where
  reads := fun _ mem => by cases mem
  assigned := rfl
  counts := fun _ mem => by cases mem
  kept := List.Pairwise.nil

section Run

variable {freq : List Nat} {A : List Int} {made : List CodeTree} {parents : List Nat} {t : CodeTree}

theorem levelEvents_eq (built : Built freq A made parents t) {d : Nat} {s : Levels}
    (at_ : AtLevel parents t freq.length d s) :
    levelEvents s = scanEvents s.A (levelTop parents d) (levelTop parents d) ++
      .leavesAtLevel (t.leavesAt (d + 1)) :: setDepthsEvents (t.leavesAt (d + 1)) s.i := by
  have inner := innerAt_succ built.linked built.last built.all d
  have both := t.leavesAt_succ_add d
  have top := nextTop_eq built.linked at_.pointers
  have leaves : s.totalNodesAtLevel - (s.levelTop - (levelTop parents (d + 1) : Int)) =
      (t.leavesAt (d + 1) : Nat) := by
    rw [at_.total, at_.top]
    omega
  have scanned : (if 0 < s.levelTop then scanEvents s.A s.levelTop s.levelTop.toNat else []) =
      scanEvents s.A (levelTop parents d) (levelTop parents d) := by
    rw [at_.top, Int.toNat_natCast]
    split
    · rfl
    · rename_i none
      have zero : levelTop parents d = 0 := by omega
      rw [zero]
      rfl
  rw [← at_.top] at top
  simp only [levelEvents, scanned, top, leaves, Int.toNat_natCast]

/-- The loop ends with every entry assigned, whatever round it is in. -/
theorem events_run (built : Built freq A made parents t) {fuel d : Nat} {s : Levels}
    (at_ : AtLevel parents t freq.length d s) (enough : levelTop parents d + 2 ≤ fuel) :
    ∃ s', levels fuel s = some s' ∧ s'.i = 0 ∧
      Orderly (levelTop parents d) s.i (events fuel s) := by
  induction fuel generalizing d s with
  | zero => omega
  | succ fuel ih =>
    have i := at_.i
    by_cases more : 0 < s.i
    · obtain ⟨s₁, step, next⟩ := level_atLevel built at_
      have below := levelTop_succ parents d
      have inner := innerAt_succ built.linked built.last built.all d
      have both := t.leavesAt_succ_add d
      have left := next.i
      have run : levels (fuel + 1) s = levels fuel s₁ := by
        rw [levels, if_pos more, step]
        rfl
      have recorded : events (fuel + 1) s = levelEvents s ++ events fuel s₁ := by
        rw [events, if_pos more, step]
        rfl
      have rest : ∃ s', levels fuel s₁ = some s' ∧ s'.i = 0 ∧
          Orderly (levelTop parents (d + 1)) s₁.i (events fuel s₁) := by
        rcases Nat.eq_zero_or_pos (levelTop parents d) with top | pos
        · -- No inner node is left below this level, so the leaves are all written.
          have done : s₁.i = 0 := by omega
          obtain ⟨fuel, rfl⟩ : ∃ f, fuel = f + 1 := ⟨fuel - 1, by omega⟩
          refine ⟨s₁, ?_, done, ?_⟩
          · rw [levels, if_neg (by omega)]
          · rw [done, events, if_neg (by omega)]
            exact orderly_nil _
        · have lt := childrenBefore_lt built.linked pos
          exact ih next (by omega)
      obtain ⟨s', run', done, orderly⟩ := rest
      refine ⟨s', by rw [run, run'], done, ?_⟩
      have shift : s₁.i = s.i - t.leavesAt (d + 1) := by omega
      rw [shift] at orderly
      rw [recorded, levelEvents_eq built at_]
      exact orderly.level (by omega) (by omega) (by omega)
    · have done : s.i = 0 := by omega
      refine ⟨s, ?_, done, ?_⟩
      · rw [levels, if_neg more]
      · rw [events, if_neg more, done]
        exact orderly_nil _

end Run

section Rounds

variable {n nodes taken : Nat} {made : List CodeTree} {parents : List Nat} {s : Building}

/-- The weights decide which tree is taken, but not whether there is one. -/
theorem takesRoot_shaped (shaped : Shaped n nodes parents taken s) (room : nodes + taken < n) :
    (takesRoot n nodes s = some true ∧ s.root < nodes) ∨
      (takesRoot n nodes s = some false ∧ s.leaf < n) := by
  have count := shaped.count
  have rootLe := shaped.root_le
  have length := shaped.length
  rcases Nat.lt_or_ge s.leaf n with leaf | none
  · rcases Nat.lt_or_ge s.root nodes with root | none
    · have readRoot := List.getElem?_eq_getElem (l := s.A) (i := s.root) (by omega)
      have readLeaf := List.getElem?_eq_getElem (l := s.A) (i := s.leaf) (by omega)
      have cond : takesRoot n nodes s = some (decide (s.A[s.root] < s.A[s.leaf])) := by
        simp only [takesRoot, Nat.not_le.mpr leaf, root, readRoot, readLeaf, if_false, if_true]
        rfl
      rw [cond]
      by_cases lighter : s.A[s.root] < s.A[s.leaf]
      · exact Or.inl ⟨congrArg some (decide_eq_true lighter), root⟩
      · exact Or.inr ⟨congrArg some (decide_eq_false lighter), leaf⟩
    · refine Or.inr ⟨?_, leaf⟩
      simp only [takesRoot, Nat.not_le.mpr leaf, Nat.not_lt.mpr none, if_false]
  · refine Or.inl ⟨?_, by omega⟩
    simp only [takesRoot, none, if_true]

/-- The trees behind the array, with nothing known of their leaves. -/
theorem take_shaped (shaped : Shaped n made.length parents taken s)
    (room : made.length + taken < n) : ∃ t parents' s', take n made.length s = some s' ∧
      Picked made parents t parents' ∧ Shaped n made.length parents' (taken + 1) s' := by
  rcases takesRoot_shaped shaped room with ⟨cond, waits⟩ | ⟨cond, waits⟩
  · obtain ⟨w, s', _, run, _, shaped'⟩ := takeRoot_shaped shaped waits (by omega)
    refine ⟨made[s.root], _, s', ?_, ?_, shaped'⟩
    · simp only [take, cond]
      exact run
    · apply Picked.tree
      rw [← shaped.root]
      exact List.getElem?_eq_getElem waits
  · obtain ⟨w, A, s', _, run, _, _, shaped'⟩ := takeLeaf_shaped shaped waits
    refine ⟨CodeTree.leaf 0, _, s', ?_, Picked.leaf 0, shaped'⟩
    simp only [take, cond]
    exact run

theorem makeNode_shaped (shaped : Shaped n made.length parents 0 s) (linked : Linked made parents)
    (room : made.length + 1 < n) : ∃ node parents' s', makeNode n s made.length = some s' ∧
      Shaped n (made ++ [node]).length parents' 0 s' ∧ Linked (made ++ [node]) parents' := by
  have start : Shaped n made.length parents 0 { s with sum := 0 } := { shaped with }
  obtain ⟨l, parents₁, s₁, run₁, left, shaped₁⟩ := take_shaped start (by omega)
  obtain ⟨r, parents₂, s₂, run₂, right, shaped₂⟩ := take_shaped shaped₁ room
  have inside : made.length < s₂.A.length := by
    rw [shaped₂.length]
    omega
  refine ⟨CodeTree.node l r, parents₂, { s₂ with A := s₂.A.set made.length s₂.sum }, ?_, ?_,
    linked.add left right⟩
  · simp only [makeNode, run₁, run₂, store_eq inside, bind, Option.bind_some, pure]
  · rw [List.length_append]
    exact node_shaped shaped₂ s₂.sum

theorem rounds_shaped (A : List Int) {k : Nat} (lt : k < A.length) : ∃ made parents s,
    (List.range k).foldlM (makeNode A.length) ⟨A, 0, 0, 0⟩ = some s ∧ made.length = k ∧
      Shaped A.length made.length parents 0 s ∧ Linked made parents := by
  induction k with
  | zero =>
    refine ⟨[], [], _, rfl, rfl, ?_, linked_nil⟩
    exact ⟨rfl, rfl, rfl, Nat.le_refl _, Nat.zero_le _, fun _ _ here => by cases here⟩
  | succ k ih =>
    obtain ⟨made, parents, s, run, length, shaped, linked⟩ := ih (Nat.lt_of_succ_lt lt)
    obtain ⟨node, parents', s', step, shaped', linked'⟩ :=
      makeNode_shaped shaped linked (by omega)
    refine ⟨_, _, s', ?_, ?_, shaped', linked'⟩
    · rw [List.range_succ, List.foldlM_append, run]
      rw [length] at step
      simp only [List.foldlM_cons, List.foldlM_nil, step, bind, Option.bind_some, pure]
    · rw [List.length_append, length]
      rfl

end Rounds

/-- Any longs make a tree; only its shape matters from here on. -/
theorem phase1_shaped {A₀ : List Int} (two : 2 ≤ A₀.length) : ∃ A made parents t,
    phase1 A₀ = some A ∧ Built (List.replicate A₀.length 0) A made parents t := by
  obtain ⟨made, parents, s, run, length, shaped, linked⟩ :=
    rounds_shaped A₀ (k := A₀.length - 1) (by omega)
  have same : (List.replicate A₀.length 0).length = A₀.length := List.length_replicate
  rw [← same] at shaped two length
  obtain ⟨t, built⟩ := shaped.built linked two length
  refine ⟨s.A, made, parents, t, ?_, built⟩
  simp only [phase1, run, bind, Option.bind_some, pure]

example : (phase1 [1, 1, 1, 1]).map (fun A => events 5 (start A)) = some
    [.read 1, .read 0, .leavesAtLevel 0, .leavesAtLevel 4,
      .assign 3, .assign 2, .assign 1, .assign 0] := by
  decide

end TFTP.DepthsInPlace
