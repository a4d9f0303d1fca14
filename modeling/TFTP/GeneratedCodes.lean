import TFTP.HuffmanCodes
import TFTP.Library.OptimalCode

/-!
# What the generated codes are worth

For every vector of positive frequencies the codes are prefix-free, fill the unit interval
and stand in canonical order, whatever the int accumulator has made of the sums. While the
sums fit into the int, and the frequencies come in order, no prefix-free code is shorter.
-/

namespace TFTP.GeneratedCodes

open HuffmanTree PrefixCode CodeLengths HuffmanCodes OptimalCode

def codeOf (codes : CodeMap) (b : Int8) : List UInt8 := codes.getD b []

/-- A complete and canonical prefix code for the chars of `B`, and for no others. -/
structure Complete (B : List Int8) (codes : CodeMap) : Prop where
  keys : ∀ b, b ∈ codes ↔ b ∈ B
  digits : ∀ b ∈ B, codeOf codes b ≠ [] ∧ ∀ c ∈ codeOf codes b, c = shuniya ∨ c = one
  prefixFree : ∀ b ∈ B, ∀ b' ∈ B, b ≠ b' → ¬ codeOf codes b <+: codeOf codes b'
  kraft : (B.map fun b => (1 / 2 : ℚ) ^ (codeOf codes b).length).sum = 1
  canonical : (B.reverse.map (codeOf codes)).Pairwise fun c d => c.length ≤ d.length ∧ c < d

/-- The bits of all chars, each as often as its frequency says. -/
def encodedLength (A : List Int) (B : List Int8) (size : Int8 → Nat) : Int :=
  (List.zipWith (fun a b => a * (size b : Int)) A B).sum

theorem codeOf_map {B : List Int8} {ws : List Word} {codes : CodeMap} (found : Codes B ws codes) :
    B.map (codeOf codes) = ws.map fun w => chars w.bits := by
  apply List.ext_getElem
  · rw [List.length_map, List.length_map, found.length]
  · intro i lt lt'
    rw [List.length_map] at lt lt'
    have pair : (B[i], ws[i]) ∈ B.zip ws := by
      rw [← List.getElem_zip (h := by rw [List.length_zip]; omega)]
      exact List.getElem_mem _
    rw [List.getElem_map, List.getElem_map, codeOf, Std.TreeMap.getD_eq_getD_getElem?,
      found.found _ pair]
    rfl

theorem codes_keys {B : List Int8} {ws : List Word} {codes : CodeMap} (found : Codes B ws codes)
    (b : Int8) : b ∈ codes ↔ b ∈ B := by
  rw [Std.TreeMap.mem_iff_isSome_getElem?]
  constructor
  · intro there
    by_contra absent
    rw [found.others b absent] at there
    cases there
  · intro mem
    obtain ⟨w, _, code⟩ := found.word mem
    rw [code]
    rfl

theorem chars_lt (p x y : List Bool) : chars (p ++ false :: x) < chars (p ++ true :: y) := by
  induction p with
  | nil => exact List.cons_lt_cons_iff.mpr (Or.inl (by decide))
  | cons b p ih => exact List.cons_lt_cons_iff.mpr (Or.inr ⟨rfl, ih⟩)

theorem sum_half_pow {ls : List Nat} {m : Nat} (deep : ∀ l ∈ ls, l ≤ m)
    (full : (ls.map fun l => 2 ^ (m - l)).sum = 2 ^ m) :
    (ls.map fun l => (1 / 2 : ℚ) ^ l).sum = 1 := by
  have units : ((ls.map fun l => 2 ^ (m - l)).sum : Nat) =
      (2 : ℚ) ^ m * (ls.map fun l => (1 / 2 : ℚ) ^ l).sum := by
    rw [Nat.cast_list_sum, ← List.sum_map_mul_left, List.map_map]
    refine congrArg List.sum (List.map_congr_left fun l mem => ?_)
    simp only [Function.comp_apply, Nat.cast_pow, Nat.cast_ofNat, one_div, inv_pow]
    exact pow_sub₀ _ two_ne_zero (deep l mem)
  rw [full, Nat.cast_pow, Nat.cast_ofNat] at units
  exact (mul_eq_left₀ (pow_ne_zero m two_ne_zero)).mp units.symm

/-- Frequencies without a sign. -/
theorem map_toNat {A : List Int} (positive : ∀ a ∈ A, 0 < a) :
    (A.map Int.toNat).map Int.ofNat = A := by
  rw [List.map_map]
  refine (List.map_congr_left ?_).trans (List.map_id A)
  intro a mem
  exact Int.toNat_of_nonneg (Int.le_of_lt (positive a mem))

section Complete

variable {B : List Int8} {codes : CodeMap} {depths : List Nat}

theorem codeOf_word (found : Codes B.reverse (words depths) codes) {b : Int8} (mem : b ∈ B) :
    ∃ w ∈ words depths, codeOf codes b = chars w.bits := by
  have there := List.mem_map_of_mem (f := codeOf codes) (List.mem_reverse.mpr mem)
  rw [codeOf_map found] at there
  obtain ⟨w, mem', same⟩ := List.mem_map.mp there
  exact ⟨w, mem', same.symm⟩

theorem codeOf_apart (found : Codes B.reverse (words depths) codes)
    (prefixFree : (words depths).Pairwise fun c d => ¬ c.bits <+: d.bits ∧ ¬ d.bits <+: c.bits)
    {b b' : Int8} (hb : b ∈ B) (hb' : b' ∈ B) (other : b ≠ b') :
    ¬ codeOf codes b <+: codeOf codes b' := by
  have apart : (B.reverse.map (codeOf codes)).Pairwise fun c d => ¬ c <+: d ∧ ¬ d <+: c := by
    rw [codeOf_map found]
    refine List.pairwise_map.mpr (prefixFree.imp ?_)
    rintro c d ⟨cd, dc⟩
    exact ⟨fun isPrefix => cd <| chars_prefix isPrefix, fun isPrefix => dc <| chars_prefix isPrefix⟩
  have symmetric : Std.Symm fun b b' : Int8 =>
      ¬ codeOf codes b <+: codeOf codes b' ∧ ¬ codeOf codes b' <+: codeOf codes b :=
    ⟨fun _ _ both => ⟨both.2, both.1⟩⟩
  exact (List.Pairwise.forall (List.pairwise_map.mp apart) (List.mem_reverse.mpr hb)
    (List.mem_reverse.mpr hb') other).1

theorem codeOf_lengths (found : Codes B.reverse (words depths) codes) :
    B.reverse.map (fun b => (codeOf codes b).length) = depths := by
  have lengths := congrArg (List.map List.length) (codeOf_map found)
  rw [List.map_map, List.map_map] at lengths
  rw [← map_length_words depths]
  refine Eq.trans lengths (List.map_congr_left ?_)
  intro w _
  simp [Word.bits]

/-- Canonical words for the leaf depths of a tree are a complete code. -/
theorem complete_of_depths {t : CodeTree} (found : Codes B.reverse (words depths) codes)
    (sorted : depths.Pairwise (· ≤ ·)) (perm : depths.Perm (t.depths 0)) (more : 1 < depths.length)
    (prefixFree : (words depths).Pairwise fun c d => ¬ c.bits <+: d.bits ∧ ¬ d.bits <+: c.bits) :
    Complete B codes := by
  obtain ⟨deep, full⟩ := depths_fit perm
  constructor
  · intro b
    rw [codes_keys found, List.mem_reverse]
  · intro b mem
    obtain ⟨w, mem', same⟩ := codeOf_word found mem
    constructor
    · intro none
      have short := List.mem_map_of_mem (f := Word.length) mem'
      rw [map_length_words] at short
      have pos := CodeTree.depths_pos (perm.length_eq ▸ more) w.length (perm.mem_iff.mp short)
      have zero := congrArg List.length (same.symm.trans none)
      rw [chars_length, Word.bits, digits_length, List.length_nil] at zero
      omega
    · intro c digit
      rw [same] at digit
      obtain ⟨bit, _, rfl⟩ := List.mem_map.mp digit
      cases bit with
      | false => exact Or.inl rfl
      | true => exact Or.inr rfl
  · intro b hb b' hb' other
    exact codeOf_apart found prefixFree hb hb' other
  · have halves := sum_half_pow deep full
    rw [← codeOf_lengths found, List.map_map] at halves
    exact ((List.reverse_perm B).symm.map _).sum_eq.trans halves
  · rw [codeOf_map found]
    refine List.pairwise_map.mpr ((words_ascend sorted deep (Nat.le_of_eq full)).imp ?_)
    rintro c d ⟨le, p, x, y, hc, hd⟩
    constructor
    · simpa [Word.bits] using le
    · rw [hc, hd]
      exact chars_lt p x y

end Complete

/-- Any positive frequencies give a complete and canonical code. -/
theorem codes_complete {A : List Int} {B : List Int8} (two : 2 ≤ A.length)
    (length : B.length = A.length) (positive : ∀ a ∈ A, 0 < a) (distinct : B.Nodup) :
    ∃ codes, generateHuffmanCodes A B = some codes ∧ Complete B codes := by
  have size : (A.map Int.toNat).length = A.length := List.length_map _
  obtain ⟨t, depths, codes, run, sorted, perm, found, prefixFree, _⟩ :=
    generateHuffmanCodes_eq (show 2 ≤ (A.map Int.toNat).length by omega) (by omega) distinct
  rw [map_toNat positive] at run
  have more : 1 < depths.length := by
    rw [← codeOf_lengths found, List.length_map, List.length_reverse]
    omega
  exact ⟨codes, run, complete_of_depths found sorted perm more prefixFree⟩

/-- Three frequencies whose sum is too great for an int. -/
theorem codes_complete_wrapped : ∃ codes,
    generateHuffmanCodes [2000000000, 2000000000, 3000000000] [97, 98, 99] = some codes ∧
      Complete [97, 98, 99] codes :=
  codes_complete (by decide) (by decide) (by decide) (by decide)

/-- The encoded length in natural numbers. -/
theorem encodedLength_codes {A : List Int} {B : List Int8} {size : Int8 → Nat}
    (positive : ∀ a ∈ A, 0 < a) :
    encodedLength A B size = (List.zipWith (· * ·) (A.map Int.toNat) (B.map size)).sum := by
  induction A generalizing B with
  | nil => rfl
  | cons a A ih =>
    cases B with
    | nil => rfl
    | cons b B =>
      have first := Int.toNat_of_nonneg (Int.le_of_lt (positive a List.mem_cons_self))
      have rest := ih (B := B) fun a mem => positive a (List.mem_cons_of_mem _ mem)
      rw [encodedLength] at rest
      rw [encodedLength, List.map_cons, List.map_cons, List.zipWith_cons_cons,
        List.zipWith_cons_cons, List.sum_cons, List.sum_cons, rest, Nat.cast_add, Nat.cast_mul,
        first]

theorem zipWith_eq_total (ws ls : List Nat) :
    (List.zipWith (· * ·) ws ls).sum = total (ws.zip ls) := by
  rw [total, List.map_zip_eq_zipWith]
  rfl

/-- No prefix-free code of the chars is shorter on the frequencies. -/
theorem codes_optimal {A : List Int} {B : List Int8} (two : 2 ≤ A.length)
    (length : B.length = A.length) (positive : ∀ a ∈ A, 0 < a) (sorted : A.Pairwise (· ≤ ·))
    (small : A.sum < 2 ^ 31) (distinct : B.Nodup) :
    ∃ codes, generateHuffmanCodes A B = some codes ∧ ∀ other : Int8 → List Bool,
      (∀ b ∈ B, ∀ b' ∈ B, b ≠ b' → ¬ other b <+: other b') →
      encodedLength A B (fun b => (codeOf codes b).length) ≤
        encodedLength A B (fun b => (other b).length) := by
  have size : (A.map Int.toNat).length = A.length := List.length_map _
  obtain ⟨t, depths, codes, run, ascending, perm, found, prefixFree, exact⟩ :=
    generateHuffmanCodes_eq (show 2 ≤ (A.map Int.toNat).length by omega) (by omega) distinct
  rw [map_toNat positive] at run
  have sum : ((A.map Int.toNat).sum : Int) = A.sum := by
    conv_rhs => rw [← map_toNat positive]
    exact Nat.cast_list_sum _
  have built := exact (by omega)
  have weightsSorted : (A.map Int.toNat).Pairwise (· ≤ ·) :=
    List.pairwise_map.mpr (sorted.imp Int.toNat_le_toNat)
  have weightsPos : ∀ w ∈ A.map Int.toNat, 0 < w := by
    intro w mem
    obtain ⟨a, there, rfl⟩ := List.mem_map.mp mem
    have := positive a there
    omega
  obtain ⟨least, leaves⟩ := huffman_optimal weightsSorted weightsPos built
  refine ⟨codes, run, ?_⟩
  intro other free
  rw [encodedLength_codes positive, encodedLength_codes positive]
  apply Int.ofNat_le.mpr
  have lengths := codeOf_lengths found
  rw [List.map_reverse] at lengths
  have descending : (B.map fun b => (codeOf codes b).length) = depths.reverse := by
    rw [← lengths, List.reverse_reverse]
  calc (List.zipWith (· * ·) (A.map Int.toNat) (B.map fun b => (codeOf codes b).length)).sum
      ≤ total ((leafWeights t).zip (t.depths 0)) := by
        rw [descending]
        apply zip_le
        · rw [List.map_fst_zip (Nat.le_of_eq (leafWeights_length t 0))]
          exact leaves
        · rw [List.map_snd_zip (Nat.le_of_eq (leafWeights_length t 0).symm)]
          exact perm.symm.trans (List.reverse_perm depths).symm
        · exact weightsSorted
        · exact List.pairwise_reverse.mpr ascending
    _ = cost t := by
        rw [total_leaves, Nat.mul_zero, Nat.add_zero]
    _ ≤ (List.zipWith (· * ·) (A.map Int.toNat) (B.map fun b => (other b).length)).sum := by
        rw [zipWith_eq_total]
        have lengthB : (B.map fun b => (other b).length).length = (A.map Int.toNat).length := by
          rw [List.length_map, List.length_map, length]
        apply least
        · rw [List.map_fst_zip (Nat.le_of_eq lengthB.symm)]
        · rw [List.map_snd_zip (Nat.le_of_eq lengthB)]
          have words : PrefixFree (B.map other) := by
            refine List.pairwise_map.mpr (distinct.imp_of_mem ?_)
            intro b b' hb hb' ne
            exact ⟨free b hb b' hb' ne, free b' hb' b hb (Ne.symm ne)⟩
          have kraft := words.kraft (by rw [List.length_map]; omega)
          rwa [List.map_map] at kraft

/-- Another code for three chars is no shorter. -/
theorem codes_optimal_three : ∃ codes,
    generateHuffmanCodes [1, 2, 4] [97, 98, 99] = some codes ∧ ∀ other : Int8 → List Bool,
      (∀ b ∈ [97, 98, 99], ∀ b' ∈ [97, 98, 99], b ≠ b' → ¬ other b <+: other b') →
      encodedLength [1, 2, 4] [97, 98, 99] (fun b => (codeOf codes b).length) ≤
        encodedLength [1, 2, 4] [97, 98, 99] (fun b => (other b).length) :=
  codes_optimal (by decide) (by decide) (by decide) (by decide) (by decide) (by decide)

end TFTP.GeneratedCodes
