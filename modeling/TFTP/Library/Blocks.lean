import Mathlib.Data.List.Basic

/-!
# A sequence cut into blocks of one size

Blocks are counted from 1. Every block but the last has the full size, and a block
below the full size is the end of the sequence.
-/

namespace TFTP.Blocks

universe u
variable {α : Type u}

def nth (size : Nat) (xs : List α) (b : Nat) : List α := (xs.drop ((b - 1) * size)).take size

/-- Blocks 1 to `k`, in order. -/
def first (size : Nat) (xs : List α) (k : Nat) : List (List α) :=
  (List.range k).map fun i => nth size xs (i + 1)

theorem nth_length (size : Nat) (xs : List α) (b : Nat) :
    (nth size xs b).length = min size (xs.length - (b - 1) * size) := by
  simp [nth]

theorem nth_length_le (size : Nat) (xs : List α) (b : Nat) : (nth size xs b).length ≤ size := by
  rw [nth_length]
  exact Nat.min_le_left _ _

theorem first_succ (size : Nat) (xs : List α) (k : Nat) :
    first size xs (k + 1) = first size xs k ++ [nth size xs (k + 1)] := by
  simp [first, List.range_succ]

@[simp] theorem first_zero (size : Nat) (xs : List α) : first size xs 0 = [] := rfl

@[simp] theorem first_length (size : Nat) (xs : List α) (k : Nat) :
    (first size xs k).length = k := by
  simp [first]

theorem first_flatten (size : Nat) (xs : List α) (k : Nat) :
    (first size xs k).flatten = xs.take (k * size) := by
  induction k with
  | zero => simp
  | succ k ih =>
    rw [first_succ, List.flatten_append, ih, List.flatten_cons, List.flatten_nil, List.append_nil,
      nth, Nat.add_sub_cancel, Nat.succ_mul, List.take_add]

/-- A block below the full size completes the sequence. -/
theorem first_flatten_of_short {size : Nat} {xs : List α} {k : Nat}
    (short : (nth size xs (k + 1)).length < size) : (first size xs (k + 1)).flatten = xs := by
  rw [first_flatten, List.take_of_length_le]
  rw [nth_length, Nat.add_sub_cancel] at short
  rw [Nat.succ_mul]
  omega

/-- The number of nonempty blocks of a sequence. -/
def count (size length : Nat) : Nat := (length + size - 1) / size

/-- All nonempty blocks of a sequence. -/
def whole (size : Nat) (xs : List α) : List (List α) := first size xs (count size xs.length)

theorem count_eq_of_last {size length b : Nat} (below : b * size < length)
    (reach : length ≤ (b + 1) * size) : count size length = b + 1 := by
  have split : (b + 1) * size = b * size + size := Nat.succ_mul b size
  refine Nat.div_eq_of_lt_le ?_ ?_
  · omega
  · rw [Nat.succ_mul]
    omega

theorem count_mul {size : Nat} (pos : 0 < size) (b : Nat) : count size (b * size) = b := by
  refine Nat.div_eq_of_lt_le ?_ ?_
  · omega
  · rw [Nat.succ_mul]
    omega

theorem whole_flatten {size : Nat} (pos : 0 < size) (xs : List α) :
    (whole size xs).flatten = xs := by
  rw [whole, first_flatten, List.take_of_length_le]
  have parts := Nat.div_add_mod (xs.length + size - 1) size
  have rest := Nat.mod_lt (xs.length + size - 1) pos
  rw [count, Nat.mul_comm]
  omega

/-- Exactly one part, the last, stays below the full size. -/
def ShortEnded (size : Nat) (parts : List (List α)) : Prop :=
  ∃ init last, parts = init ++ [last] ∧ last.length < size ∧ ∀ p ∈ init, p.length = size

theorem whole_shortEnded_iff {size : Nat} (pos : 0 < size) (xs : List α) :
    ShortEnded size (whole size xs) ↔ xs.length % size ≠ 0 := by
  have parts := Nat.div_add_mod' xs.length size
  have rest := Nat.mod_lt xs.length pos
  constructor
  · rintro ⟨init, last, split, short, _⟩ even
    rw [even, Nat.add_zero] at parts
    have blocks : count size xs.length = xs.length / size := by
      rw [← parts, count_mul pos, Nat.mul_div_cancel _ pos]
    cases n : xs.length / size with
    | zero =>
      rw [whole, blocks, n, first_zero] at split
      simp at split
    | succ b =>
      rw [whole, blocks, n, first_succ] at split
      have same := (List.append_inj' split rfl).2
      rw [List.cons.injEq] at same
      rw [← same.1, nth_length, Nat.add_sub_cancel] at short
      rw [n, Nat.succ_mul] at parts
      omega
  · intro odd
    have blocks : count size xs.length = xs.length / size + 1 := by
      refine count_eq_of_last (by omega) ?_
      rw [Nat.succ_mul]
      omega
    refine ⟨first size xs (xs.length / size), nth size xs (xs.length / size + 1), ?_, ?_, ?_⟩
    · rw [whole, blocks, first_succ]
    · rw [nth_length, Nat.add_sub_cancel]
      omega
    · intro p hp
      obtain ⟨i, hi, rfl⟩ := List.mem_map.mp hp
      have before : (i + 1) * size ≤ xs.length / size * size :=
        Nat.mul_le_mul_right _ (List.mem_range.mp hi)
      rw [Nat.succ_mul] at before
      rw [nth_length, Nat.add_sub_cancel]
      omega

end TFTP.Blocks
