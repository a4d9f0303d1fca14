import TFTP.Compression
import Mathlib.Algebra.BigOperators.Group.Finset.Basic
import Mathlib.Data.List.Dedup

/-!
# What comes back from a compressed file

The receiver decodes the packed bits to their end, also the unused bits of the last byte.
Those are zeros, and the shortest code is all zeros, so a file gains bytes exactly when
the unused bits are as many as that code has.
-/

namespace TFTP.Lossless

open HuffmanTree PrefixCode CodeLengths HuffmanCodes Compression

/-- How often each byte of the file occurs, rarest first. -/
def byteCounts (file : List UInt8) : List Nat :=
  (file.dedup.map fun c => file.count c).insertionSort (· ≤ ·)

/-- The leaf depths of the Huffman tree of the byte counts, shallowest first. -/
def leafDepths (file : List UInt8) : List Nat :=
  match huffman (byteCounts file) with
  | some t => (t.depths 0).insertionSort (· ≤ ·)
  | none => []

/-- The bits of all bytes when more frequent bytes stand on shallower leaves. -/
def bitCount (file : List UInt8) : Nat :=
  (List.zipWith (· * ·) (byteCounts file).reverse (leafDepths file)).sum

def shallowest (file : List UInt8) : Nat := (leafDepths file).headD 0

/-- The map counts what the function counts, and has no entry for zero. -/
def Counts (frequency : Std.TreeMap Int8 Nat compare) (count : Int8 → Nat) : Prop :=
  ∀ c, frequency[c]? = if count c = 0 then none else some (count c)

theorem foldl_counts {frequency : Std.TreeMap Int8 Nat compare} {count : Int8 → Nat}
    (counts : Counts frequency count) (file : List UInt8) :
    Counts (file.foldl
      (fun frequency ch => frequency.insert ch.toInt8 (frequency.getD ch.toInt8 0 + 1)) frequency)
      (fun c => count c + (file.map UInt8.toInt8).count c) := by
  induction file generalizing frequency count with
  | nil => exact counts
  | cons ch file ih =>
    have step : Counts (frequency.insert ch.toInt8 (frequency.getD ch.toInt8 0 + 1))
        (fun c => count c + if ch.toInt8 == c then 1 else 0) := by
      intro c
      rw [Std.TreeMap.getElem?_insert]
      by_cases same : ch.toInt8 = c
      · subst same
        have old : frequency.getD ch.toInt8 0 = count ch.toInt8 := by
          rw [Std.TreeMap.getD_eq_getD_getElem?, counts]
          split
          · rename_i none
            exact none.symm
          · rfl
        rw [if_pos Std.ReflCmp.compare_self, old]
        simp
      · rw [if_neg (fun eq => same (Std.LawfulEqCmp.compare_eq_iff_eq.mp eq)), counts]
        simp [same]
    have total : (fun c => count c + ((ch :: file).map UInt8.toInt8).count c) = fun c =>
        (count c + if ch.toInt8 == c then 1 else 0) + (file.map UInt8.toInt8).count c := by
      funext c
      rw [List.map_cons, List.count_cons]
      omega
    rw [total]
    exact ih step

theorem toInt8_injective : Function.Injective UInt8.toInt8 := by
  intro a b same
  rw [← UInt8.toUInt8_toInt8 a, same, UInt8.toUInt8_toInt8]

theorem count_toInt8 (file : List UInt8) (c : UInt8) :
    (file.map UInt8.toInt8).count c.toInt8 = file.count c :=
  List.count_map_of_injective _ _ toInt8_injective _

theorem getElem?_countFrequency (file : List UInt8) (c : Int8) : (countFrequency file)[c]? =
    if (file.map UInt8.toInt8).count c = 0 then none
    else some ((file.map UInt8.toInt8).count c) := by
  have start : Counts ∅ fun _ => 0 := fun c => by simp
  have counts : Counts (countFrequency file) _ := foldl_counts start file
  simpa only [Nat.zero_add] using counts c

theorem insertPair_perm (pair : Nat × Int8) (pairs : List (Nat × Int8)) :
    (insertPair pair pairs).Perm (pair :: pairs) := by
  induction pairs with
  | nil => exact List.Perm.refl _
  | cons p pairs ih =>
    rw [insertPair]
    split
    · exact List.Perm.refl _
    · exact (ih.cons p).trans (List.Perm.swap pair p pairs)

/-- The order by counts, and among equal counts by chars. -/
def Below (p q : Nat × Int8) : Prop := p.1 < q.1 ∨ p.1 = q.1 ∧ p.2 < q.2

theorem Below.le {p q : Nat × Int8} (below : Below p q) : p.1 ≤ q.1 := by
  rcases below with less | ⟨same, _⟩
  · exact Nat.le_of_lt less
  · exact Nat.le_of_eq same

/-- A pair whose char is greater than all others goes behind those with the same count. -/
theorem insertPair_sorted (pair : Nat × Int8) {pairs : List (Nat × Int8)}
    (sorted : pairs.Pairwise Below) (greater : ∀ p ∈ pairs, p.2 < pair.2) :
    (insertPair pair pairs).Pairwise Below := by
  induction pairs with
  | nil => exact List.pairwise_singleton _ _
  | cons p pairs ih =>
    obtain ⟨first, rest⟩ := List.pairwise_cons.mp sorted
    rw [insertPair]
    split
    · rename_i less
      refine List.pairwise_cons.mpr ⟨fun q mem => Or.inl ?_, sorted⟩
      rcases List.mem_cons.mp mem with rfl | mem
      · exact less
      · exact Nat.lt_of_lt_of_le less (first q mem).le
    · rename_i notLess
      refine List.pairwise_cons.mpr ⟨fun q mem => ?_, ih rest ?_⟩
      · rcases List.mem_cons.mp ((insertPair_perm pair pairs).mem_iff.mp mem) with rfl | mem
        · rcases Nat.eq_or_lt_of_le (Nat.le_of_not_lt notLess) with same | less
          · exact Or.inr ⟨same, greater p List.mem_cons_self⟩
          · exact Or.inl less
        · exact first q mem
      · intro q mem
        exact greater q (List.mem_cons_of_mem p mem)

/-- The entries come in the order of their chars. -/
theorem foldl_insertPair {entries : List (Int8 × Nat)} {pairs : List (Nat × Int8)}
    (ascending : entries.Pairwise fun e f => e.1 < f.1) (sorted : pairs.Pairwise Below)
    (greater : ∀ e ∈ entries, ∀ p ∈ pairs, p.2 < e.1) :
    (entries.foldl (fun sorted pair => insertPair (pair.2, pair.1) sorted) pairs).Pairwise Below ∧
      (entries.foldl (fun sorted pair => insertPair (pair.2, pair.1) sorted) pairs).Perm
        (entries.map Prod.swap ++ pairs) := by
  induction entries generalizing pairs with
  | nil => exact ⟨sorted, List.Perm.refl _⟩
  | cons entry entries ih =>
    obtain ⟨first, rest⟩ := List.pairwise_cons.mp ascending
    have inserted := insertPair_perm (entry.2, entry.1) pairs
    obtain ⟨sorted', perm⟩ := ih rest
      (insertPair_sorted (entry.2, entry.1) sorted (greater entry List.mem_cons_self)) (by
        intro e he p hp
        rcases List.mem_cons.mp (inserted.mem_iff.mp hp) with rfl | hp
        · exact first e he
        · exact greater e (List.mem_cons_of_mem _ he) p hp)
    refine ⟨sorted', perm.trans ?_⟩
    exact (inserted.append_left _).trans List.perm_middle

/-- The pairs of counts and chars that `deflate` passes on. -/
def sortedPairs (file : List UInt8) : List (Nat × Int8) :=
  sortedOnBasisOfFrequency (countFrequency file)

theorem foldl_countFrequency (file : List UInt8) : (sortedPairs file).Pairwise Below ∧
    (sortedPairs file).Perm ((countFrequency file).toList.map Prod.swap) := by
  have ascending : (countFrequency file).toList.Pairwise fun e f => e.1 < f.1 :=
    Std.TreeMap.ordered_keys_toList.imp Std.compare_eq_lt.mp
  have folded := foldl_insertPair ascending List.Pairwise.nil fun _ _ _ mem => nomatch mem
  rwa [List.append_nil] at folded

theorem sortedPairs_sorted (file : List UInt8) : (sortedPairs file).Pairwise Below :=
  (foldl_countFrequency file).1

/-- Every byte of the file is paired with its count. -/
theorem sortedPairs_perm (file : List UInt8) :
    (sortedPairs file).Perm (file.dedup.map fun c => (file.count c, c.toInt8)) := by
  have perm := (foldl_countFrequency file).2
  refine perm.trans ?_
  have keys : (countFrequency file).toList.Nodup :=
    List.Nodup.of_map Prod.fst (toList_keys_nodup _)
  rw [List.perm_ext_iff_of_nodup]
  · rintro ⟨n, c⟩
    have entry : (n, c) ∈ (countFrequency file).toList.map Prod.swap ↔
        (countFrequency file)[c]? = some n := by
      rw [← Std.TreeMap.mem_toList_iff_getElem?_eq_some, List.mem_map]
      constructor
      · rintro ⟨⟨d, m⟩, mem, same⟩
        cases same
        exact mem
      · intro mem
        exact ⟨(c, n), mem, rfl⟩
    rw [entry, getElem?_countFrequency, List.mem_map]
    constructor
    · intro found
      split at found
      · cases found
      · rename_i some
        obtain ⟨b, mem, rfl⟩ := List.mem_map.mp (List.count_pos_iff.mp (Nat.pos_of_ne_zero some))
        obtain rfl := Option.some.inj found
        exact ⟨b, List.mem_dedup.mpr mem, by rw [count_toInt8]⟩
    · rintro ⟨b, mem, same⟩
      obtain ⟨rfl, rfl⟩ := Prod.mk.inj same
      have pos := List.count_pos_iff.mpr (List.mem_dedup.mp mem)
      rw [count_toInt8, if_neg (Nat.ne_of_gt pos)]
  · exact keys.map Prod.swap_injective
  · refine List.Nodup.map ?_ (List.nodup_dedup file)
    intro c d same
    exact toInt8_injective (Prod.mk.inj same).2

theorem sortedPairs_counts (file : List UInt8) :
    (sortedPairs file).map (·.1) = byteCounts file := by
  refine List.Perm.eq_of_pairwise' (r := (· ≤ ·)) ?_ (List.pairwise_insertionSort _ _) ?_
  · exact List.pairwise_map.mpr ((sortedPairs_sorted file).imp Below.le)
  · refine ((sortedPairs_perm file).map _).trans ?_
    rw [List.map_map]
    exact (List.perm_insertionSort _ _).symm

theorem sortedPairs_nodup (file : List UInt8) : ((sortedPairs file).map (·.2)).Nodup := by
  have perm := (sortedPairs_perm file).map (·.2)
  rw [List.map_map] at perm
  exact perm.nodup_iff.mpr ((List.nodup_dedup file).map toInt8_injective)

theorem mem_sortedPairs (file : List UInt8) {c : UInt8} (mem : c ∈ file) :
    c.toInt8 ∈ (sortedPairs file).map (·.2) := by
  have perm := (sortedPairs_perm file).map (·.2)
  rw [List.map_map] at perm
  exact perm.mem_iff.mpr (List.mem_map_of_mem (f := UInt8.toInt8) (List.mem_dedup.mpr mem))

theorem byteCounts_sorted (file : List UInt8) : (byteCounts file).Pairwise (· ≤ ·) :=
  List.pairwise_insertionSort _ _

theorem byteCounts_pos (file : List UInt8) : ∀ n ∈ byteCounts file, 0 < n := by
  intro n mem
  obtain ⟨c, found, rfl⟩ := List.mem_map.mp ((List.mem_insertionSort _).mp mem)
  exact List.count_pos_iff.mpr (List.mem_dedup.mp found)

theorem byteCounts_sum (file : List UInt8) : (byteCounts file).sum = file.length := by
  rw [byteCounts, (List.perm_insertionSort _ _).sum_nat, List.sum_map_count_dedup_eq_length]

theorem byteCounts_length {file : List UInt8} (two : ∃ a ∈ file, ∃ b ∈ file, a ≠ b) :
    2 ≤ (byteCounts file).length := by
  obtain ⟨a, ha, b, hb, ne⟩ := two
  have pair : [a, b] ⊆ file.dedup := by
    intro c mem
    rcases List.mem_cons.mp mem with rfl | mem
    · exact List.mem_dedup.mpr ha
    · rw [List.mem_singleton.mp mem]
      exact List.mem_dedup.mpr hb
  have distinct : [a, b].Nodup := List.nodup_cons.mpr ⟨by simpa using ne, List.nodup_singleton b⟩
  have le := (List.subperm_of_subset distinct pair).length_le
  rw [byteCounts, List.length_insertionSort, List.length_map]
  exact le

/-- Every char has a short code, and no code is a prefix of another char's code. -/
structure Decodable (map : CodeMap) : Prop where
  short : ∀ (k : Int8) (code : List UInt8), map[k]? = some code → Short code
  prefixFree : ∀ (k : Int8) (code : List UInt8) (l : Int8) (other : List UInt8),
    map[k]? = some code → map[l]? = some other → code <+: other → k = l

/-- A coded char stands beside its word. -/
theorem codes_word {B : List Int8} {ws : List Word} {map : CodeMap} (codes : Codes B ws map)
    {k : Int8} {code : List UInt8} (found : map[k]? = some code) :
    ∃ i : Nat, ∃ w : Word, B[i]? = some k ∧ ws[i]? = some w ∧ code = chars w.bits := by
  have mem : k ∈ B := by
    by_contra absent
    rw [codes.others k absent] at found
    cases found
  obtain ⟨i, lt, rfl⟩ := List.getElem_of_mem mem
  have lt' : i < ws.length := codes.length ▸ lt
  have pair : (B[i], ws[i]) ∈ B.zip ws := by
    rw [← List.getElem_zip (h := by rw [List.length_zip]; omega)]
    exact List.getElem_mem _
  have known := codes.found _ pair
  rw [found] at known
  exact ⟨i, ws[i], List.getElem?_eq_getElem lt, List.getElem?_eq_getElem lt',
    Option.some.inj known⟩

theorem codes_decodable {B : List Int8} {ws : List Word} {map : CodeMap} (codes : Codes B ws map)
    (prefixFree : ws.Pairwise fun c d => ¬ c.bits <+: d.bits ∧ ¬ d.bits <+: c.bits)
    (short : ∀ w ∈ ws, 0 < w.length ∧ w.length < 254) : Decodable map := by
  constructor
  · intro k code found
    obtain ⟨i, w, _, word, rfl⟩ := codes_word codes found
    obtain ⟨pos, lt⟩ := short w (List.mem_of_getElem? word)
    have length : (chars w.bits).length = w.length := by
      rw [chars_length, Word.bits, digits_length]
    constructor
    · intro none
      rw [none, List.length_nil] at length
      omega
    · intro c mem
      obtain ⟨b, _, rfl⟩ := List.mem_map.mp mem
      cases b with
      | false => exact Or.inl rfl
      | true => exact Or.inr rfl
    · rw [length]
      exact lt
  · intro k code l other foundK foundL isPrefix
    obtain ⟨i, v, atK, wordK, rfl⟩ := codes_word codes foundK
    obtain ⟨j, w, atL, wordL, rfl⟩ := codes_word codes foundL
    obtain ⟨hi, rfl⟩ := List.getElem?_eq_some_iff.mp wordK
    obtain ⟨hj, rfl⟩ := List.getElem?_eq_some_iff.mp wordL
    have bits := chars_prefix isPrefix
    have apart := List.pairwise_iff_getElem.mp prefixFree
    rcases Nat.lt_trichotomy i j with before | rfl | behind
    · exact absurd bits (apart i j hi hj before).1
    · rw [atK] at atL
      exact Option.some.inj atL
    · exact absurd bits (apart j i hj hi behind).2

/-- The reversed map finds a code, and nothing before the code is complete. -/
theorem Decodable.spells {map : CodeMap} (decodable : Decodable map) {k : Int8}
    {code : List UInt8} (found : map[k]? = some code) :
    Spells (fun text => (reverseValue map)[text]?) k code := by
  have distinct : ((map.toList.map Prod.swap).map Prod.fst).Nodup := by
    rw [List.map_map]
    refine List.Nodup.map_on ?_ ?_
    · rintro ⟨k, code⟩ memK ⟨l, other⟩ memL same
      obtain rfl : code = other := same
      have first := Std.TreeMap.mem_toList_iff_getElem?_eq_some.mp memK
      have second := Std.TreeMap.mem_toList_iff_getElem?_eq_some.mp memL
      rw [decodable.prefixFree k code l code first second (List.prefix_refl code)]
    · exact List.Nodup.of_map Prod.fst (toList_keys_nodup map)
  have known : ∀ (l : Int8) (other : List UInt8), map[l]? = some other →
      (reverseValue map)[other]? = some l := by
    intro l other entry
    have mem := Std.TreeMap.mem_toList_iff_getElem?_eq_some.mpr entry
    exact getElem?_insertMany_of_mem (p := (other, l)) ∅ distinct
      (List.mem_map_of_mem (f := Prod.swap) mem)
  constructor
  · exact (decodable.short k code found).ne_nil
  · exact known k code found
  · intro p isPrefix shorter
    rw [reverseValue, getElem?_insertMany_of_not_mem ∅]
    · exact Std.TreeMap.getElem?_emptyc
    · intro mem
      rw [List.map_map] at mem
      obtain ⟨⟨l, other⟩, entry, same⟩ := List.mem_map.mp mem
      obtain rfl : other = p := same
      have foundL := Std.TreeMap.mem_toList_iff_getElem?_eq_some.mp entry
      have char := decodable.prefixFree l other k code foundL found isPrefix
      rw [← char, foundL] at found
      exact shorter (Option.some.inj found)

/-- The chars of the file, most frequent first. -/
def alphabet (file : List UInt8) : List Int8 := ((sortedPairs file).map (·.2)).reverse

/-- The code map of a file goes with the leaf depths of its Huffman tree. -/
structure Coded (file : List UInt8) (map : CodeMap) : Prop where
  run : generateHuffmanCodes ((sortedPairs file).map fun pair => Int.ofNat pair.1)
    ((sortedPairs file).map (·.2)) = some map
  codes : Codes (alphabet file) (words (leafDepths file)) map
  decodable : Decodable map

theorem alphabet_length (file : List UInt8) :
    (alphabet file).length = (byteCounts file).length := by
  rw [alphabet, List.length_reverse, ← sortedPairs_counts, List.length_map, List.length_map]

/-- Any two distinct bytes are enough for a file to be given codes. -/
theorem file_generated {file : List UInt8} (two : ∃ a ∈ file, ∃ b ∈ file, a ≠ b) :
    ∃ t, ∃ depths : List Nat, ∃ map,
      generateHuffmanCodes ((sortedPairs file).map fun pair => Int.ofNat pair.1)
        ((sortedPairs file).map (·.2)) = some map ∧
      depths.Pairwise (· ≤ ·) ∧ depths.Perm (t.depths 0) ∧
      Codes (alphabet file) (words depths) map ∧
      (words depths).Pairwise (fun c d => ¬ c.bits <+: d.bits ∧ ¬ d.bits <+: c.bits) ∧
      (file.length < 2 ^ 31 → huffman (byteCounts file) = some t) := by
  obtain ⟨t, depths, map, run, sorted, perm, codes, prefixFree, exact⟩ :=
    generateHuffmanCodes_eq (byteCounts_length two) (List.length_reverse.symm.trans
      (alphabet_length file)) (sortedPairs_nodup file)
  rw [← sortedPairs_counts, List.map_map] at run
  rw [byteCounts_sum] at exact
  exact ⟨t, depths, map, run, sorted, perm, codes, prefixFree, exact⟩

theorem file_coded {file : List UInt8} (two : ∃ a ∈ file, ∃ b ∈ file, a ≠ b)
    (small : file.length < 2 ^ 31) : ∃ map, Coded file map := by
  obtain ⟨t, depths, map, run, sorted, perm, codes, prefixFree, exact⟩ := file_generated two
  have tree := exact small
  have same : leafDepths file = depths := by
    rw [leafDepths, tree]
    refine List.Perm.eq_of_pairwise' (r := (· ≤ ·)) (List.pairwise_insertionSort _ _) sorted ?_
    exact (List.perm_insertionSort _ _).trans perm.symm
  have height : t.height < 62 := by
    obtain ⟨weight, bound⟩ := huffman_spec (byteCounts_sorted file) (byteCounts_pos file) tree
    rw [weight, byteCounts_sum] at bound
    have := (Nat.pow_lt_pow_iff_right (by decide)).mp (Nat.lt_of_le_of_lt bound small)
    omega
  have short : ∀ w ∈ words depths, 0 < w.length ∧ w.length < 254 := by
    intro w mem
    have depth : w.length ∈ depths := by
      have := List.mem_map_of_mem (f := Word.length) mem
      rwa [map_length_words] at this
    have leaf := perm.mem_iff.mp depth
    have le := t.depths_le_height 0 _ leaf
    refine ⟨CodeTree.depths_pos ?_ _ leaf, by omega⟩
    have length := codes.length
    have := congrArg List.length (map_length_words depths)
    rw [List.length_map] at this
    rw [this, perm.length_eq, alphabet_length] at length
    rw [← length]
    exact byteCounts_length two
  rw [← same] at codes
  exact ⟨map, run, codes, codes_decodable codes (same ▸ prefixFree) (same ▸ short)⟩

section Coded

variable {file : List UInt8} {map : CodeMap}

/-- The bits of a byte's code. -/
def codeBits (map : CodeMap) (c : UInt8) : List Bool :=
  (map.getD c.toInt8 []).map fun k => decide (k = one)

theorem codeBits_chars (bits : List Bool) :
    (chars bits).map (fun k => decide (k = one)) = bits := by
  rw [chars, List.map_map]
  have inverse : ∀ b, decide (bitChar b = one) = b := by decide
  exact List.map_id'' inverse bits

theorem codeBits_eq {c : UInt8} {bits : List Bool} (found : map[c.toInt8]? = some (chars bits)) :
    codeBits map c = bits := by
  rw [codeBits, Std.TreeMap.getD_eq_getD_getElem?, found]
  exact codeBits_chars bits

theorem Coded.found (coded : Coded file map) {c : UInt8} (mem : c ∈ file) :
    map[c.toInt8]? = some (chars (codeBits map c)) := by
  obtain ⟨w, _, found⟩ := coded.codes.word (List.mem_reverse.mpr (mem_sortedPairs file mem))
  rw [codeBits_eq found]
  exact found

theorem sum_map_dedup (file : List UInt8) (g : UInt8 → Nat) :
    (file.map g).sum = (file.dedup.map fun c => file.count c * g c).sum := by
  have counted := Finset.sum_list_map_count file g
  have spread := List.sum_toFinset (fun c => file.count c * g c) (List.nodup_dedup file)
  have same : file.dedup.toFinset = file.toFinset := by
    ext c
    rw [List.mem_toFinset, List.mem_toFinset, List.mem_dedup]
  rw [counted, ← spread, same]
  rfl

theorem sum_map_zip (pairs : List (Nat × Int8)) (ws : List Word) (size : Int8 → Nat)
    (length : (pairs.map (·.2)).length = ws.length)
    (sizes : ∀ x ∈ (pairs.map (·.2)).zip ws, size x.1 = x.2.length) :
    (pairs.map fun p => p.1 * size p.2).sum =
      (List.zipWith (· * ·) (pairs.map (·.1)) (ws.map Word.length)).sum := by
  induction pairs generalizing ws with
  | nil => rfl
  | cons p pairs ih =>
    cases ws with
    | nil => cases length
    | cons w ws =>
      have first := sizes (p.2, w) List.mem_cons_self
      have rest := ih ws (Nat.succ.inj length) fun x mem => sizes x (List.mem_cons_of_mem _ mem)
      simp only [List.map_cons, List.zipWith_cons_cons, List.sum_cons, rest]
      rw [← first]

/-- The packed bits of a file number as many as its Huffman tree says. -/
theorem Coded.bits_length (coded : Coded file map) :
    (file.flatMap (codeBits map)).length = bitCount file := by
  have perm := (sortedPairs_perm file).map fun p => p.1 * (map.getD p.2 []).length
  rw [List.map_map] at perm
  have reversed : ((sortedPairs file).reverse.map (·.2)) = alphabet file := List.map_reverse
  have sizes := sum_map_zip (sortedPairs file).reverse (words (leafDepths file))
    (fun c => (map.getD c []).length)
    (by rw [reversed]; exact coded.codes.length) (by
      intro x mem
      rw [reversed] at mem
      have found := coded.codes.found x mem
      rw [Std.TreeMap.getD_eq_getD_getElem?, found, Option.getD_some, chars_length, Word.bits,
        digits_length])
  have counts : (sortedPairs file).reverse.map (·.1) = (byteCounts file).reverse := by
    rw [List.map_reverse, sortedPairs_counts]
  rw [map_length_words, counts] at sizes
  calc (file.flatMap (codeBits map)).length
      = (file.map fun c => (map.getD c.toInt8 []).length).sum := by
        rw [List.length_flatMap]
        simp only [codeBits, List.length_map]
    _ = (file.dedup.map fun c => file.count c * (map.getD c.toInt8 []).length).sum :=
        sum_map_dedup file _
    _ = ((sortedPairs file).map fun p => p.1 * (map.getD p.2 []).length).sum := perm.sum_nat.symm
    _ = ((sortedPairs file).reverse.map fun p => p.1 * (map.getD p.2 []).length).sum :=
        ((List.reverse_perm _).map _).sum_nat.symm
    _ = bitCount file := sizes

/-- The first char of the alphabet has the all-zero code of the shallowest leaf. -/
theorem Coded.zeros (coded : Coded file map) (ne : alphabet file ≠ []) :
    ∃ k rest, alphabet file = k :: rest ∧
      map[k]? = some (List.replicate (shallowest file) shuniya) := by
  have length := coded.codes.length
  have found := coded.codes.found
  rw [shallowest]
  cases first : alphabet file with
  | nil => exact absurd first ne
  | cons k rest =>
    rw [first] at length found
    cases depths : leafDepths file with
    | nil =>
      rw [depths] at length
      cases length
    | cons l ls =>
      rw [depths] at found
      have head : ∃ ws, words (l :: ls) = ⟨l, 0⟩ :: ws := by
        cases ls with
        | nil => exact ⟨_, rfl⟩
        | cons m ls => exact ⟨_, rfl⟩
      obtain ⟨ws, head⟩ := head
      have known := found (k, ⟨l, 0⟩) (by
        rw [head]
        exact List.mem_cons_self)
      rw [Word.bits, digits_zero, chars_replicate] at known
      exact ⟨k, rest, rfl, known⟩

/-- The receiver's copy of the map has the same codes. -/
theorem getElem?_copy (map : CodeMap) (k : Int8) :
    ((∅ : CodeMap).insertMany map.toList)[k]? = map[k]? := by
  cases found : map[k]? with
  | some code =>
    exact getElem?_insertMany_of_mem (p := (k, code)) ∅ (toList_keys_nodup map)
      (Std.TreeMap.mem_toList_iff_getElem?_eq_some.mpr found)
  | none =>
    rw [getElem?_insertMany_of_not_mem ∅, Std.TreeMap.getElem?_emptyc]
    intro mem
    obtain ⟨⟨l, code⟩, entry, rfl⟩ := List.mem_map.mp mem
    rw [Std.TreeMap.mem_toList_iff_getElem?_eq_some.mp entry] at found
    cases found

theorem Decodable.copy (decodable : Decodable map) :
    Decodable ((∅ : CodeMap).insertMany map.toList) := by
  constructor
  · intro k code found
    rw [getElem?_copy] at found
    exact decodable.short k code found
  · intro k code l other foundK foundL
    rw [getElem?_copy] at foundK foundL
    exact decodable.prefixFree k code l other foundK foundL

/-- Padded codes are read as the file and repetitions of the char of the zero code. -/
theorem inflate_padded (decodable : Decodable map) {code : UInt8 → List Bool}
    (found : ∀ c ∈ file, map[c.toInt8]? = some (chars (code c))) {k : Int8} {l : Nat}
    (zeros : map[k]? = some (List.replicate l shuniya)) (p : Nat) :
    inflate (chars (file.flatMap code ++ List.replicate p false)) map =
      file ++ List.replicate (p / l) k.toUInt8 := by
  have text : chars (file.flatMap code ++ List.replicate p false) =
      (file.map UInt8.toInt8).flatMap (fun c => map.getD c []) ++ List.replicate p shuniya := by
    rw [chars_append, chars_replicate]
    congr 1
    rw [List.flatMap_map, chars, List.map_flatMap]
    apply List.flatMap_congr
    intro c mem
    rw [Std.TreeMap.getD_eq_getD_getElem?, found c mem]
    rfl
  have spells : ∀ c ∈ file.map UInt8.toInt8,
      Spells (fun text => (reverseValue map)[text]?) c (map.getD c []) := by
    intro k mem
    obtain ⟨c, inFile, rfl⟩ := List.mem_map.mp mem
    have value : map.getD c.toInt8 [] = chars (code c) := by
      rw [Std.TreeMap.getD_eq_getD_getElem?, found c inFile]
      rfl
    rw [value]
    exact decodable.spells (found c inFile)
  rw [inflate_eq_decode, text, decode_message spells, decode_padding (decodable.spells zeros),
    List.map_append, List.map_map, List.map_replicate]
  congr 1
  exact List.map_id'' UInt8.toUInt8_toInt8 file

theorem Coded.deflate_eq (coded : Coded file map) : deflate file =
    some (combineBinaryFiles (encodeMapToBinaryFile map) (packFile map file).2) := by
  obtain ⟨unchanged, _⟩ := readBinaryFile_packFile fun c (mem : c ∈ file) => coded.found mem
  have run := coded.run
  simp only [sortedPairs] at run
  simp only [deflate, run, bind, Option.bind_some, unchanged]
  rfl

/-- The receiver gets the file and what it reads into the unused bits. -/
theorem Coded.decompress_eq (coded : Coded file map) {k : Int8} {l : Nat}
    (zeros : map[k]? = some (List.replicate l shuniya)) :
    decompress (combineBinaryFiles (encodeMapToBinaryFile map) (packFile map file).2) =
      some (file ++ List.replicate (unused (bitCount file) / l) k.toUInt8) := by
  have short : ∀ entry ∈ map.toList, Short entry.2 := by
    rintro ⟨k, code⟩ mem
    exact coded.decodable.short k code (Std.TreeMap.mem_toList_iff_getElem?_eq_some.mp mem)
  have undelimited : Undelimited (encodeMapToBinaryFile map) := encode_undelimited short
  have separated := separate_combine undelimited (packFile map file).2
  have decoded := decode_encode fun entry mem => (short entry mem).writable
  obtain ⟨_, bits⟩ := readBinaryFile_packFile fun c (mem : c ∈ file) => coded.found mem
  have copied : ∀ c ∈ file, ((∅ : CodeMap).insertMany map.toList)[c.toInt8]? =
      some (chars (codeBits map c)) := by
    intro c mem
    rw [getElem?_copy]
    exact coded.found mem
  have inflated := inflate_padded coded.decodable.copy copied
    (by rw [getElem?_copy]; exact zeros) (unused (bitCount file))
  rw [coded.bits_length] at bits
  simp only [decompress, separated, decoded, bind, Option.bind_some, pure, bits, inflated]

end Coded

/-- The file comes back followed by as many copies of one byte as shortest codes fit into
the unused bits. -/
theorem roundTrip_eq {file : List UInt8} (two : ∃ a ∈ file, ∃ b ∈ file, a ≠ b)
    (small : file.length < 2 ^ 31) : 0 < shallowest file ∧ ∃ c : UInt8, roundTrip file =
      some (file ++ List.replicate (unused (bitCount file) / shallowest file) c) := by
  obtain ⟨map, coded⟩ := file_coded two small
  obtain ⟨a, ha, _⟩ := two
  have ne : alphabet file ≠ [] :=
    List.ne_nil_of_mem (List.mem_reverse.mpr (mem_sortedPairs file ha))
  obtain ⟨k, rest, _, zeros⟩ := coded.zeros ne
  constructor
  · have code := (coded.decodable.short k _ zeros).ne_nil
    rcases Nat.eq_zero_or_pos (shallowest file) with none | pos
    · rw [none] at code
      exact absurd rfl code
    · exact pos
  · refine ⟨k.toUInt8, ?_⟩
    rw [roundTrip, coded.deflate_eq, Option.bind_some]
    exact coded.decompress_eq zeros

/-- A file comes back unchanged if and only if the shortest code has more bits than the last
byte leaves unused. -/
theorem roundTrip_iff {file : List UInt8} (two : ∃ a ∈ file, ∃ b ∈ file, a ≠ b)
    (small : file.length < 2 ^ 31) :
    roundTrip file = some file ↔ unused (bitCount file) < shallowest file := by
  obtain ⟨pos, c, back⟩ := roundTrip_eq two small
  rw [back]
  constructor
  · intro same
    have none : List.replicate (unused (bitCount file) / shallowest file) c = [] :=
      List.append_right_eq_self.mp (Option.some.inj same)
    rw [List.replicate_eq_nil_iff] at none
    exact (Nat.div_eq_zero_iff_lt pos).mp none
  · intro fewer
    rw [Nat.div_eq_of_lt fewer, List.replicate_zero, List.append_nil]

theorem roundTrip_iff_whole_byte : roundTrip [97, 98, 97, 98, 97, 98, 97, 98] =
    some [97, 98, 97, 98, 97, 98, 97, 98] :=
  (roundTrip_iff ⟨97, by decide, 98, by decide, by decide⟩ (by decide)).mpr (by decide)

/-- Two bytes come back as eight. -/
theorem two_bytes_gain_six : ¬ ∀ file : List UInt8, (∃ a ∈ file, ∃ b ∈ file, a ≠ b) →
    file.length < 2 ^ 31 → roundTrip file = some file := by
  intro right
  have back : roundTrip [97, 98] = some [97, 98, 98, 98, 98, 98, 98, 98] := by decide
  have same := right [97, 98] ⟨97, by decide, 98, by decide, by decide⟩ (by decide)
  rw [back] at same
  exact absurd same (by decide)

end TFTP.Lossless
