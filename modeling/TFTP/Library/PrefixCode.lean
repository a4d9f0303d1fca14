import Mathlib.Data.List.Basic
import Mathlib.Data.List.Infix
import Mathlib.Tactic.Ring

/-!
# Canonical prefix codes

Code words of nondecreasing length, each one more than the word before it, filled up with
zeros to its own length. A word of length `l` and value `v` covers the numbers from
`v * 2 ^ (m - l)` on that share its first digits, and while the lengths fit into the unit
interval these ranges do not meet. A greedy decoder then reads every message back, and
reads trailing zeros as repetitions of the all-zero word.
-/

namespace TFTP.PrefixCode

/-- The last `len` binary digits of a number, highest first. -/
def digits : Nat → Nat → List Bool
  | 0, _ => []
  | len + 1, v => digits len (v / 2) ++ [decide (v % 2 = 1)]

@[simp] theorem digits_length (len v : Nat) : (digits len v).length = len := by
  induction len generalizing v with
  | zero => rfl
  | succ len ih => rw [digits, List.length_append, ih, List.length_singleton]

theorem digits_zero (len : Nat) : digits len 0 = List.replicate len false := by
  induction len with
  | zero => rfl
  | succ len ih =>
    rw [digits, Nat.zero_div, ih, List.replicate_succ']
    rfl

theorem digits_shift (len k v : Nat) :
    digits (len + k) (v * 2 ^ k) = digits len v ++ List.replicate k false := by
  induction k with
  | zero => simp
  | succ k ih =>
    have half : v * 2 ^ (k + 1) / 2 = v * 2 ^ k := by
      rw [Nat.pow_succ, ← Nat.mul_assoc, Nat.mul_div_cancel _ (by decide)]
    have even : v * 2 ^ (k + 1) % 2 = 0 := by
      rw [Nat.pow_succ, ← Nat.mul_assoc, Nat.mul_mod_left]
    rw [← Nat.add_assoc, digits, half, ih, even, List.append_assoc, List.replicate_succ']
    rfl

theorem digits_add (len k v : Nat) :
    digits (len + k) v = digits len (v / 2 ^ k) ++ digits k v := by
  induction k generalizing v with
  | zero => simp [digits]
  | succ k ih =>
    rw [← Nat.add_assoc, digits, ih, Nat.div_div_eq_div_mul, ← Nat.pow_succ', digits,
      List.append_assoc]

theorem digits_inj {len v w : Nat} (hv : v < 2 ^ len) (hw : w < 2 ^ len)
    (same : digits len v = digits len w) : v = w := by
  induction len generalizing v w with
  | zero => omega
  | succ len ih =>
    rw [Nat.pow_succ] at hv hw
    obtain ⟨high, low⟩ := List.append_inj' same rfl
    have halves := ih (by omega) (by omega) high
    have last : (v % 2 = 1) ↔ (w % 2 = 1) := by
      simpa using List.head_eq_of_cons_eq low
    omega

/-- A word is a prefix of another only if it is its leading part. -/
theorem prefix_digits {a b v w : Nat} (hv : v < 2 ^ a) (hw : w < 2 ^ b)
    (isPrefix : digits a v <+: digits b w) : a ≤ b ∧ v = w / 2 ^ (b - a) := by
  have le : a ≤ b := by simpa using isPrefix.length_le
  refine ⟨le, ?_⟩
  obtain ⟨k, rfl⟩ := Nat.exists_eq_add_of_le le
  have leading : digits a v = digits a (w / 2 ^ k) := by
    rw [digits_add] at isPrefix
    have first := List.prefix_append (digits a (w / 2 ^ k)) (digits k w)
    exact List.IsPrefix.eq_of_length
      (List.prefix_of_prefix_length_le isPrefix first (by simp)) (by simp)
  rw [Nat.add_sub_cancel_left]
  refine digits_inj hv ?_ leading
  rw [Nat.div_lt_iff_lt_mul (Nat.two_pow_pos k), ← Nat.pow_add]
  exact hw

/-- The words part at a digit, where the lesser number has a zero. -/
theorem digits_part {len v w : Nat} (lt : v < w) (hw : w < 2 ^ len) :
    ∃ p x y, digits len v = p ++ false :: x ∧ digits len w = p ++ true :: y := by
  induction len generalizing v w with
  | zero => omega
  | succ len ih =>
    rw [Nat.pow_succ] at hw
    rcases Nat.lt_or_ge (v / 2) (w / 2) with less | ge
    · obtain ⟨p, x, y, hv, hw⟩ := ih less (by omega)
      refine ⟨p, x ++ [decide (v % 2 = 1)], y ++ [decide (w % 2 = 1)], ?_, ?_⟩
      · rw [digits, hv, List.append_assoc]
        rfl
      · rw [digits, hw, List.append_assoc]
        rfl
    · have half : v / 2 = w / 2 := by omega
      have even : ¬ v % 2 = 1 := by omega
      have odd : w % 2 = 1 := by omega
      refine ⟨digits len (w / 2), [], [], ?_, ?_⟩
      · rw [digits, half, decide_eq_false even]
      · rw [digits, decide_eq_true odd]

/-- A code word by its length and value. -/
structure Word where
  length : Nat
  value : Nat
  deriving DecidableEq, Repr

def Word.bits (w : Word) : List Bool := digits w.length w.value

/-- The word after `w` for the length `l`. -/
def Word.next (w : Word) (l : Nat) : Word := ⟨l, (w.value + 1) * 2 ^ (l - w.length)⟩

def wordsFrom (w : Word) : List Nat → List Word
  | [] => [w]
  | l :: ls => w :: wordsFrom (w.next l) ls

def words : List Nat → List Word
  | [] => []
  | l :: ls => wordsFrom ⟨l, 0⟩ ls

/-- The range of `c` ends before that of `d` begins. -/
structure Word.Before (c d : Word) : Prop where
  length_le : c.length ≤ d.length
  value_le : (c.value + 1) * 2 ^ (d.length - c.length) ≤ d.value

def Word.Valid (w : Word) : Prop := w.value < 2 ^ w.length

theorem Word.before_next {w : Word} {l : Nat} (le : w.length ≤ l) : w.Before (w.next l) :=
  ⟨le, Nat.le_refl _⟩

theorem Word.Before.trans {b c d : Word} (bc : b.Before c) (cd : c.Before d) : b.Before d := by
  refine ⟨Nat.le_trans bc.length_le cd.length_le, ?_⟩
  have split : d.length - b.length = (c.length - b.length) + (d.length - c.length) := by
    have := bc.length_le
    have := cd.length_le
    omega
  calc (b.value + 1) * 2 ^ (d.length - b.length)
      = (b.value + 1) * 2 ^ (c.length - b.length) * 2 ^ (d.length - c.length) := by
        rw [split, Nat.pow_add, Nat.mul_assoc]
    _ ≤ (c.value + 1) * 2 ^ (d.length - c.length) :=
        Nat.mul_le_mul_right _ (Nat.le_succ_of_le bc.value_le)
    _ ≤ d.value := cd.value_le

/-- Words in this order are not prefixes of each other. -/
theorem Word.Before.not_prefix {c d : Word} (before : c.Before d) (hc : c.Valid) (hd : d.Valid) :
    ¬ c.bits <+: d.bits ∧ ¬ d.bits <+: c.bits := by
  have less := before.value_le
  constructor
  · intro isPrefix
    obtain ⟨_, leading⟩ := prefix_digits hc hd isPrefix
    have := (Nat.le_div_iff_mul_le (Nat.two_pow_pos _)).mpr less
    omega
  · intro isPrefix
    obtain ⟨shorter, leading⟩ := prefix_digits hd hc isPrefix
    have same : d.length = c.length := Nat.le_antisymm shorter before.length_le
    rw [same, Nat.sub_self] at leading less
    omega

/-- The later word is greater at the first digit where the two part. -/
theorem Word.Before.part {c d : Word} (before : c.Before d) (hd : d.Valid) :
    ∃ p x y, c.bits = p ++ false :: x ∧ d.bits = p ++ true :: y := by
  obtain ⟨k, same⟩ := Nat.exists_eq_add_of_le before.length_le
  have less := before.value_le
  rw [same, Nat.add_sub_cancel_left] at less
  have lt : c.value < d.value / 2 ^ k := (Nat.le_div_iff_mul_le (Nat.two_pow_pos _)).mpr less
  have room : d.value / 2 ^ k < 2 ^ c.length := by
    rw [Nat.div_lt_iff_lt_mul (Nat.two_pow_pos k), ← Nat.pow_add, ← same]
    exact hd
  obtain ⟨p, x, y, hc, hp⟩ := digits_part lt room
  refine ⟨p, x, y ++ digits k d.value, hc, ?_⟩
  rw [Word.bits, same, digits_add, hp, List.append_assoc]
  rfl

theorem before_of_mem {w : Word} {l : Nat} {ls : List Nat} (sorted : (l :: ls).Pairwise (· ≤ ·))
    (le : w.length ≤ l) : ∀ d ∈ wordsFrom (w.next l) ls, w.Before d := by
  induction ls generalizing w l with
  | nil =>
    intro d mem
    rw [List.mem_singleton.mp mem]
    exact Word.before_next le
  | cons k ls ih =>
    obtain ⟨first, rest⟩ := List.pairwise_cons.mp sorted
    intro d mem
    rcases List.mem_cons.mp mem with rfl | mem
    · exact Word.before_next le
    · exact (Word.before_next le).trans (ih rest (first k List.mem_cons_self) d mem)

theorem wordsFrom_before {w : Word} {ls : List Nat} (sorted : (w.length :: ls).Pairwise (· ≤ ·)) :
    (wordsFrom w ls).Pairwise Word.Before := by
  induction ls generalizing w with
  | nil => exact List.pairwise_singleton _ _
  | cons l ls ih =>
    obtain ⟨first, rest⟩ := List.pairwise_cons.mp sorted
    exact List.pairwise_cons.mpr
      ⟨before_of_mem rest (first l List.mem_cons_self), ih (w := w.next l) rest⟩

theorem map_length_wordsFrom (w : Word) (ls : List Nat) :
    (wordsFrom w ls).map Word.length = w.length :: ls := by
  induction ls generalizing w with
  | nil => rfl
  | cons l ls ih => rw [wordsFrom, List.map_cons, ih, Word.next]

@[simp] theorem map_length_words (ls : List Nat) : (words ls).map Word.length = ls := by
  cases ls with
  | nil => rfl
  | cons l ls => exact map_length_wordsFrom _ _

/-- What is left of the unit interval, in units of depth `m`. -/
structure Fits (m : Nat) (w : Word) (ls : List Nat) : Prop where
  deep : ∀ l ∈ w.length :: ls, l ≤ m
  room : w.value * 2 ^ (m - w.length) + ((w.length :: ls).map fun l => 2 ^ (m - l)).sum ≤ 2 ^ m

/-- The range of the first word and those of the others, against the unit interval. -/
theorem Fits.ranges {m : Nat} {w : Word} {ls : List Nat} (fits : Fits m w ls) :
    (w.value + 1) * 2 ^ (m - w.length) + (ls.map fun l => 2 ^ (m - l)).sum ≤
      2 ^ w.length * 2 ^ (m - w.length) := by
  have room := fits.room
  rw [← Nat.pow_add, Nat.add_sub_cancel' (fits.deep w.length List.mem_cons_self)]
  rw [List.map_cons, List.sum_cons] at room
  rw [Nat.add_mul, Nat.one_mul]
  omega

theorem Fits.next {m : Nat} {w : Word} {l : Nat} {ls : List Nat} (fits : Fits m w (l :: ls))
    (le : w.length ≤ l) : Fits m (w.next l) ls := by
  refine ⟨fun k mem => fits.deep k (List.mem_cons_of_mem _ mem), ?_⟩
  have lm := fits.deep l (List.mem_cons_of_mem _ List.mem_cons_self)
  have ranges := fits.ranges
  have value : (w.next l).value * 2 ^ (m - l) = (w.value + 1) * 2 ^ (m - w.length) := by
    rw [Word.next, Nat.mul_assoc, ← Nat.pow_add]
    congr 2
    omega
  rw [← Nat.pow_add, Nat.add_sub_cancel' (fits.deep w.length List.mem_cons_self)] at ranges
  rw [show (w.next l).length = l from rfl, value]
  exact ranges

theorem Fits.valid {m : Nat} {w : Word} {ls : List Nat} (fits : Fits m w ls) : w.Valid := by
  have within : (w.value + 1) * 2 ^ (m - w.length) ≤ 2 ^ w.length * 2 ^ (m - w.length) :=
    Nat.le_trans (Nat.le_add_right _ _) fits.ranges
  exact Nat.le_of_mul_le_mul_right within (Nat.two_pow_pos _)

/-- The word before another one can be counted up without a carry out of its first digit. -/
theorem Fits.no_carry {m : Nat} {w : Word} {l : Nat} {ls : List Nat} (fits : Fits m w (l :: ls)) :
    w.value + 1 < 2 ^ w.length := by
  have unit := Nat.two_pow_pos (m - l)
  have ranges := fits.ranges
  rw [List.map_cons, List.sum_cons] at ranges
  apply Nat.lt_of_mul_lt_mul_right (a := 2 ^ (m - w.length))
  omega

theorem fits_zero {m l : Nat} {ls : List Nat} (deep : ∀ k ∈ l :: ls, k ≤ m)
    (kraft : ((l :: ls).map fun k => 2 ^ (m - k)).sum ≤ 2 ^ m) : Fits m ⟨l, 0⟩ ls := by
  refine ⟨deep, ?_⟩
  rw [Nat.zero_mul, Nat.zero_add]
  exact kraft

theorem wordsFrom_valid {m : Nat} {w : Word} {ls : List Nat} (fits : Fits m w ls)
    (sorted : (w.length :: ls).Pairwise (· ≤ ·)) : ∀ d ∈ wordsFrom w ls, d.Valid := by
  induction ls generalizing w with
  | nil =>
    intro d mem
    rw [List.mem_singleton.mp mem]
    exact fits.valid
  | cons l ls ih =>
    obtain ⟨first, rest⟩ := List.pairwise_cons.mp sorted
    intro d mem
    rcases List.mem_cons.mp mem with rfl | mem
    · exact fits.valid
    · exact ih (fits.next (first l List.mem_cons_self)) rest d mem

/-- Two different words of a list that fits are not prefixes of each other. -/
theorem words_prefixFree {m : Nat} {ls : List Nat} (sorted : ls.Pairwise (· ≤ ·))
    (deep : ∀ l ∈ ls, l ≤ m) (kraft : (ls.map fun l => 2 ^ (m - l)).sum ≤ 2 ^ m) :
    (words ls).Pairwise fun c d => ¬ c.bits <+: d.bits ∧ ¬ d.bits <+: c.bits := by
  cases ls with
  | nil => exact List.Pairwise.nil
  | cons l ls =>
    have valid := wordsFrom_valid (fits_zero deep kraft) sorted
    refine (wordsFrom_before (w := ⟨l, 0⟩) sorted).imp_of_mem ?_
    intro c d hc hd before
    exact before.not_prefix (valid c hc) (valid d hd)

/-- Canonical words ascend: they get no shorter, and each is greater than those before. -/
theorem words_ascend {m : Nat} {ls : List Nat} (sorted : ls.Pairwise (· ≤ ·))
    (deep : ∀ l ∈ ls, l ≤ m) (kraft : (ls.map fun l => 2 ^ (m - l)).sum ≤ 2 ^ m) :
    (words ls).Pairwise fun c d => c.length ≤ d.length ∧
      ∃ p x y, c.bits = p ++ false :: x ∧ d.bits = p ++ true :: y := by
  cases ls with
  | nil => exact List.Pairwise.nil
  | cons l ls =>
    have valid := wordsFrom_valid (fits_zero deep kraft) sorted
    refine (wordsFrom_before (w := ⟨l, 0⟩) sorted).imp_of_mem ?_
    rintro c d _ hd before
    exact ⟨before.length_le, before.part (valid d hd)⟩

section Decoding

variable {β σ : Type}

/-- Symbols are appended to a current word until it is a code word. -/
def decode (lookup : List β → Option σ) : List β → List β → List σ
  | _, [] => []
  | current, b :: input =>
    match lookup (current ++ [b]) with
    | some s => s :: decode lookup [] input
    | none => decode lookup (current ++ [b]) input

/-- A code word is found, and none of its proper prefixes is. -/
structure Spells (lookup : List β → Option σ) (s : σ) (word : List β) : Prop where
  ne_nil : word ≠ []
  found : lookup word = some s
  early : ∀ p, p <+: word → p ≠ word → lookup p = none

variable {lookup : List β → Option σ}

theorem decode_rest {s : σ} {word : List β} (spells : Spells lookup s word) {current rest : List β}
    (whole : current ++ rest = word) (more : rest ≠ []) (input : List β) :
    decode lookup current (rest ++ input) = s :: decode lookup [] input := by
  induction rest generalizing current with
  | nil => exact absurd rfl more
  | cons b rest ih =>
    have whole' : (current ++ [b]) ++ rest = word := by
      rw [List.append_assoc]
      exact whole
    cases rest with
    | nil =>
      rw [List.append_nil] at whole'
      simp only [List.cons_append, List.nil_append, decode, whole', spells.found]
    | cons c rest =>
      have early : lookup (current ++ [b]) = none := by
        refine spells.early _ ⟨c :: rest, whole'⟩ ?_
        intro same
        rw [same] at whole'
        exact List.cons_ne_nil c rest (List.append_right_eq_self.mp whole')
      rw [List.cons_append, decode, early]
      exact ih whole' (List.cons_ne_nil c rest)

theorem decode_word {s : σ} {word : List β} (spells : Spells lookup s word) (input : List β) :
    decode lookup [] (word ++ input) = s :: decode lookup [] input :=
  decode_rest spells rfl spells.ne_nil input

theorem decode_message {code : σ → List β} {message : List σ}
    (spells : ∀ s ∈ message, Spells lookup s (code s)) (input : List β) :
    decode lookup [] (message.flatMap code ++ input) = message ++ decode lookup [] input := by
  induction message with
  | nil => rfl
  | cons s message ih =>
    rw [List.flatMap_cons, List.append_assoc, decode_word (spells s List.mem_cons_self),
      ih fun t mem => spells t (List.mem_cons_of_mem _ mem)]
    rfl

/-- Part of a word decodes to nothing. -/
theorem decode_part {s : σ} {word : List β} (spells : Spells lookup s word)
    {current rest : List β} (part : current ++ rest <+: word) (short : current ++ rest ≠ word) :
    decode lookup current rest = [] := by
  induction rest generalizing current with
  | nil => rfl
  | cons b rest ih =>
    have whole : (current ++ [b]) ++ rest = current ++ b :: rest := List.append_assoc _ _ _
    have early : lookup (current ++ [b]) = none := by
      refine spells.early _ ((List.prefix_append _ rest).trans (whole ▸ part)) ?_
      intro same
      have longer := part.length_le
      rw [← whole, same, List.length_append] at longer
      have none : rest = [] := List.eq_nil_of_length_eq_zero (by omega)
      rw [none, ← same] at short
      exact short rfl
    rw [decode, early]
    exact ih (whole ▸ part) (whole ▸ short)

/-- Padding with the symbol of a uniform word decodes to repetitions of its meaning. -/
theorem decode_padding {s : σ} {z : β} {l : Nat} (spells : Spells lookup s (List.replicate l z))
    (p : Nat) : decode lookup [] (List.replicate p z) = List.replicate (p / l) s := by
  have pos : 0 < l := by
    rcases Nat.eq_zero_or_pos l with rfl | pos
    · exact absurd rfl spells.ne_nil
    · exact pos
  induction p using Nat.strongRecOn with
  | ind p ih =>
    rcases Nat.lt_or_ge p l with short | enough
    · rw [Nat.div_eq_of_lt short]
      refine decode_part spells ?_ ?_
      · refine ⟨List.replicate (l - p) z, ?_⟩
        rw [List.nil_append, List.replicate_append_replicate,
          Nat.add_sub_cancel' (Nat.le_of_lt short)]
      · intro same
        have := congrArg List.length same
        simp at this
        omega
    · have split : List.replicate p z = List.replicate l z ++ List.replicate (p - l) z := by
        rw [List.replicate_append_replicate, Nat.add_sub_cancel' enough]
      rw [split, decode_word spells, ih (p - l) (by omega), ← List.replicate_succ,
        Nat.div_eq_sub_div pos enough]

end Decoding

end TFTP.PrefixCode
