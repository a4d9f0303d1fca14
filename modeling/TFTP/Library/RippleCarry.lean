import TFTP.Library.PrefixCode

/-!
# Ripple-carry addition

Binary numbers are lists of digits, highest first. They are added from the right end, one
full adder a place, and a carry out of the highest place becomes a further digit. Leading
zeros stay: the sum is as long as the longer number, or one digit longer.
-/

namespace TFTP.RippleCarry

open PrefixCode

/-- One place: the carry into it and the digits below it, for two further digits. -/
def fullAdder (pair : Bool × Bool) (s : Bool × List Bool) : Bool × List Bool :=
  (Bool.atLeastTwo pair.1 pair.2 s.1, (pair.1 ^^ pair.2 ^^ s.1) :: s.2)

def ripple (pairs : List (Bool × Bool)) : Bool × List Bool :=
  pairs.foldr fullAdder (false, [])

/-- The digits of the sum, with the carry in front. -/
def sum (pairs : List (Bool × Bool)) : List Bool :=
  if (ripple pairs).1 then true :: (ripple pairs).2 else (ripple pairs).2

/-- Two numbers place by place, the shorter one filled up with zeros. -/
def align (a b : List Bool) : List (Bool × Bool) :=
  (List.replicate (b.length - a.length) false ++ a).zip
    (List.replicate (a.length - b.length) false ++ b)

def add (a b : List Bool) : List Bool := sum (align a b)

example : add [true, true] [true] = [true, false, false] := by decide

/-- The number that digits spell. -/
def value : List Bool → Nat
  | [] => 0
  | b :: bits => b.toNat * 2 ^ bits.length + value bits

theorem value_lt (bits : List Bool) : value bits < 2 ^ bits.length := by
  induction bits with
  | nil => decide
  | cons b bits ih =>
    have digit := Nat.mul_le_mul_right (2 ^ bits.length) b.toNat_le
    rw [value, List.length_cons, Nat.pow_succ]
    omega

theorem value_zeros (k : Nat) (bits : List Bool) :
    value (List.replicate k false ++ bits) = value bits := by
  induction k with
  | zero => rfl
  | succ k ih =>
    rw [List.replicate_succ, List.cons_append, value, ih, Bool.toNat_false, Nat.zero_mul,
      Nat.zero_add]

theorem value_concat (bits : List Bool) (b : Bool) :
    value (bits ++ [b]) = 2 * value bits + b.toNat := by
  induction bits with
  | nil => simp [value]
  | cons c bits ih =>
    rw [List.cons_append, value, ih, value, List.length_append, List.length_singleton]
    ring

/-- Digits are the binary digits of the number they spell. -/
theorem digits_value (bits : List Bool) : digits bits.length (value bits) = bits := by
  induction bits using List.reverseRecOn with
  | nil => rfl
  | append_singleton bits b ih =>
    have half : (2 * value bits + b.toNat) / 2 = value bits := by
      have := b.toNat_le
      omega
    have last : decide ((2 * value bits + b.toNat) % 2 = 1) = b := by
      cases b <;> simp
    rw [List.length_append, List.length_singleton, value_concat, digits, half, ih, last]

theorem value_digits {len v : Nat} (lt : v < 2 ^ len) : value (digits len v) = v := by
  have spelled := digits_value (digits len v)
  have bound := value_lt (digits len v)
  rw [digits_length] at spelled bound
  exact digits_inj bound lt spelled

theorem fullAdder_value (x y c : Bool) :
    2 * (Bool.atLeastTwo x y c).toNat + (x ^^ y ^^ c).toNat = x.toNat + y.toNat + c.toNat := by
  revert x y c
  decide

theorem ripple_length (pairs : List (Bool × Bool)) : (ripple pairs).2.length = pairs.length := by
  induction pairs with
  | nil => rfl
  | cons pair pairs ih => exact congrArg Nat.succ ih

/-- A carry counts as much as a digit in front of those already added. -/
theorem ripple_value (pairs : List (Bool × Bool)) :
    (ripple pairs).1.toNat * 2 ^ pairs.length + value (ripple pairs).2 =
      value (pairs.map Prod.fst) + value (pairs.map Prod.snd) := by
  induction pairs with
  | nil => rfl
  | cons pair pairs ih =>
    obtain ⟨x, y⟩ := pair
    have place := congrArg (· * 2 ^ pairs.length) (fullAdder_value x y (ripple pairs).1)
    have step : ripple ((x, y) :: pairs) = fullAdder (x, y) (ripple pairs) := rfl
    simp only [step, fullAdder, value, ripple_length, List.map_cons, List.length_map,
      List.length_cons, Nat.pow_succ]
    simp only [Nat.add_mul] at place
    calc (Bool.atLeastTwo x y (ripple pairs).1).toNat * (2 ^ pairs.length * 2) +
          ((x ^^ y ^^ (ripple pairs).1).toNat * 2 ^ pairs.length + value (ripple pairs).2)
        = x.toNat * 2 ^ pairs.length + y.toNat * 2 ^ pairs.length +
            ((ripple pairs).1.toNat * 2 ^ pairs.length + value (ripple pairs).2) := by
          rw [← Nat.add_assoc, ← Nat.add_assoc, ← place]
          ring
      _ = x.toNat * 2 ^ pairs.length + value (pairs.map Prod.fst) +
            (y.toNat * 2 ^ pairs.length + value (pairs.map Prod.snd)) := by
          rw [ih]
          ring

theorem sum_value (pairs : List (Bool × Bool)) :
    value (sum pairs) = value (pairs.map Prod.fst) + value (pairs.map Prod.snd) := by
  rw [← ripple_value, sum]
  cases (ripple pairs).1 with
  | false => simp
  | true => simp [value, ripple_length]

/-- A carry is left exactly if the places do not hold the sum. -/
theorem sum_length (pairs : List (Bool × Bool)) :
    (sum pairs).length = pairs.length + if 2 ^ pairs.length ≤ value (sum pairs) then 1 else 0 := by
  have bound := value_lt (ripple pairs).2
  have length := ripple_length pairs
  rw [length] at bound
  rw [sum]
  cases (ripple pairs).1 with
  | false =>
    rw [if_neg Bool.false_ne_true, if_neg (by omega), length]
    rfl
  | true =>
    have carried : 2 ^ pairs.length ≤ value (true :: (ripple pairs).2) := by
      rw [value, length, Bool.toNat_true, Nat.one_mul]
      exact Nat.le_add_right _ _
    rw [if_pos rfl, if_pos carried, List.length_cons, length]

theorem sum_length_le (pairs : List (Bool × Bool)) : (sum pairs).length ≤ pairs.length + 1 := by
  rw [sum_length]
  split_ifs <;> omega

section Aligned

variable (a b : List Bool)

theorem align_length : (align a b).length = max a.length b.length := by
  simp only [align, List.length_zip, List.length_append, List.length_replicate]
  omega

theorem value_align_fst : value ((align a b).map Prod.fst) = value a := by
  rw [align, List.map_fst_zip, value_zeros]
  simp only [List.length_append, List.length_replicate]
  omega

theorem value_align_snd : value ((align a b).map Prod.snd) = value b := by
  rw [align, List.map_snd_zip, value_zeros]
  simp only [List.length_append, List.length_replicate]
  omega

theorem add_value : value (add a b) = value a + value b := by
  rw [add, sum_value, value_align_fst, value_align_snd]

theorem add_length :
    (add a b).length = max a.length b.length +
      if 2 ^ max a.length b.length ≤ value a + value b then 1 else 0 := by
  rw [← add_value, ← align_length, add, sum_length]

end Aligned

/-- Counting up within a word keeps its length. -/
theorem add_one {len v : Nat} (pos : 0 < len) (room : v + 1 < 2 ^ len) :
    add (digits len v) [true] = digits len (v + 1) := by
  have spelled : value (add (digits len v) [true]) = v + 1 := by
    rw [add_value, value_digits (Nat.lt_of_succ_lt room)]
    rfl
  have width : max (digits len v).length [true].length = len := by
    rw [digits_length, List.length_singleton]
    exact Nat.max_eq_left pos
  have length : (add (digits len v) [true]).length = len := by
    rw [add_length, ← add_value, spelled, width, if_neg (Nat.not_le_of_lt room), Nat.add_zero]
  rw [← digits_value (add (digits len v) [true]), spelled, length]

end TFTP.RippleCarry
