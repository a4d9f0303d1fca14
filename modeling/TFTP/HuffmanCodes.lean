import TFTP.CodeLengths
import TFTP.Library.RippleCarry
import TFTP.Library.Octets
import Mathlib.Data.Fintype.Card
import Std.Data.TreeMap

/-!
# Code strings

The rest of `generateHuffmanCodes`: both vectors are reversed, the first code is a row of
zeros, and every further code is the one before it, counted up by `addBinary` and filled
up with zeros. Strings are lists of their chars, and a `char` that is a map key is signed.
-/

namespace TFTP.HuffmanCodes

open HuffmanTree PrefixCode RippleCarry CodeLengths

def swap {α : Type} (vec : List α) (i j : Nat) : Option (List α) := do
  let x ← vec[i]?
  let y ← vec[j]?
  return (vec.set i y).set j x

/-- The loop of `reverseVector`, for at most `fuel` rounds. -/
def reverseLoop {α : Type} : Nat → Nat → Nat → List α → Option (List α)
  | 0, _, _, _ => none
  | fuel + 1, start, stop, vec =>
    if start < stop then (swap vec start stop).bind (reverseLoop fuel (start + 1) (stop - 1))
    else some vec

/-- The last index of an empty vector is the greatest `size_t`. -/
def lastIndex (size : Nat) : Nat := if size = 0 then 2 ^ 64 - 1 else size - 1

def reverseVector {α : Type} (vec : List α) : Option (List α) :=
  reverseLoop (vec.length + 1) 0 (lastIndex vec.length) vec

def shuniya : UInt8 := 48

def one : UInt8 := 49

/-- `a[i] - '0'` -/
def digitOf (c : UInt8) : Int := c.toInt8.toInt - 48

/-- `std::to_string` -/
def decimal (x : Int) : List UInt8 := Octets.text (toString x)

def addDigits (digits : UInt8 × UInt8) (s : Int × List UInt8) : Int × List UInt8 :=
  let sum := digitOf digits.1 + digitOf digits.2 + s.1
  (sum.tdiv 2, decimal (sum.tmod 2) ++ s.2)

/-- The loop index is an int, and the loop runs from what `a.length() - 1` leaves in it. -/
def addBinary (a b : List UInt8) : List UInt8 :=
  let a := List.replicate (b.length - a.length) shuniya ++ a
  let b := List.replicate (a.length - b.length) shuniya ++ b
  let i := toInt ((a.length : Int) - 1)
  let (carry, result) := ((a.zip b).take (i + 1).toNat).foldr addDigits (0, [])
  if 0 < carry then one :: result else result

def nextCode (previous : List UInt8) (length : Int) : List UInt8 :=
  let temp := addBinary previous [one]
  temp ++ List.replicate (length - temp.length).toNat shuniya

/-- The codes pushed after `code` for the other lengths. -/
def codesFrom : List UInt8 → List Int → List (List UInt8)
  | code, [] => [code]
  | code, l :: A => code :: codesFrom (nextCode code l) A

def huffmanCodes : List Int → Option (List (List UInt8))
  | [] => none
  | l :: A => some (codesFrom (List.replicate l.toNat shuniya) A)

abbrev CodeMap := Std.TreeMap Int8 (List UInt8) compare

/-- `for (i < B.size()) codeWordLength[B[i]] = huffmanCodes[i];` -/
def setCodes : List Int8 → List (List UInt8) → CodeMap → Option CodeMap
  | [], _, map => some map
  | _ :: _, [], _ => none
  | b :: B, code :: codes, map => setCodes B codes (map.insert b code)

def generateHuffmanCodes (A : List Int) (B : List Int8) : Option CodeMap := do
  let A ← codeLengths A
  let A ← reverseVector A
  let B ← reverseVector B
  let codes ← huffmanCodes A
  setCodes B codes ∅

section Reversing

variable {α : Type}

theorem getElem?_swapped {vec : List α} {i j : Nat} (hi : i < vec.length)
    (hj : j < vec.length) :
    ∃ vec', swap vec i j = some vec' ∧ vec'.length = vec.length ∧
      vec'[i]? = vec[j]? ∧ vec'[j]? = vec[i]? ∧ ∀ k, k ≠ i → k ≠ j → vec'[k]? = vec[k]? := by
  have readI := List.getElem?_eq_getElem hi
  have readJ := List.getElem?_eq_getElem hj
  refine ⟨(vec.set i vec[j]).set j vec[i], ?_, ?_, ?_, ?_, ?_⟩
  · simp only [swap, readI, readJ]
    rfl
  · rw [List.length_set, List.length_set]
  · by_cases same : i = j
    · subst same
      rw [List.getElem?_set_self (by rw [List.length_set]; exact hi), readI]
    · rw [getElem?_set_other same, List.getElem?_set_self hi, readJ]
  · rw [List.getElem?_set_self (by rw [List.length_set]; exact hj), readI]
  · intro k notI notJ
    rw [getElem?_set_other notJ, getElem?_set_other notI]

/-- Outside `start..stop` the vector is reversed, inside it is as before. -/
theorem reverseLoop_eq {original vec : List α} {fuel start stop : Nat}
    (length : vec.length = original.length) (sum : start + stop + 1 = original.length)
    (le : start ≤ stop + 1) (enough : stop + 1 < start + fuel)
    (outside : ∀ k, k < start ∨ stop < k → vec[k]? = original.reverse[k]?)
    (inside : ∀ k, start ≤ k → k ≤ stop → vec[k]? = original[k]?) :
    reverseLoop fuel start stop vec = some original.reverse := by
  induction fuel generalizing start stop vec with
  | zero => omega
  | succ fuel ih =>
    by_cases more : start < stop
    · obtain ⟨vec', swapped, length', atStart, atStop, others⟩ :=
        getElem?_swapped (show start < vec.length by omega)
          (show stop < vec.length by omega)
      rw [reverseLoop, if_pos more, swapped]
      have mirror : ∀ k, k < original.length →
          original.reverse[k]? = original[original.length - 1 - k]? :=
        fun k lt => List.getElem?_reverse lt
      refine ih (by rw [length', length]) (by omega) (by omega) (by omega) ?_ ?_
      · intro k out
        by_cases first : k = start
        · rw [first, atStart, inside stop (by omega) (Nat.le_refl _), mirror start (by omega)]
          congr 1
          omega
        · by_cases last : k = stop
          · rw [last, atStop, inside start (Nat.le_refl _) (by omega), mirror stop (by omega)]
            congr 1
            omega
          · rw [others k first last]
            exact outside k (by omega)
      · intro k ge le
        rw [others k (by omega) (by omega)]
        exact inside k (by omega) (by omega)
    · rw [reverseLoop, if_neg more]
      congr 1
      apply List.ext_getElem?
      intro k
      by_cases middle : start ≤ k ∧ k ≤ stop
      · rw [inside k middle.1 middle.2, List.getElem?_reverse (by omega)]
        congr 1
        omega
      · exact outside k (by omega)

theorem reverseVector_eq {vec : List α} (ne : vec ≠ []) :
    reverseVector vec = some vec.reverse := by
  have pos := List.length_pos_iff.mpr ne
  have last : lastIndex vec.length = vec.length - 1 := if_neg (by omega)
  rw [reverseVector, last]
  apply reverseLoop_eq rfl
  · omega
  · omega
  · omega
  · intro k out
    have room : vec.length ≤ k := by omega
    rw [List.getElem?_eq_none room, List.getElem?_eq_none (by rw [List.length_reverse]; exact room)]
  · intro k _ _
    rfl

end Reversing

def bitChar (b : Bool) : UInt8 := if b then one else shuniya

/-- The chars of a bit string. -/
def chars (bits : List Bool) : List UInt8 := bits.map bitChar

theorem chars_append (a b : List Bool) : chars (a ++ b) = chars a ++ chars b := List.map_append

@[simp] theorem chars_length (bits : List Bool) : (chars bits).length = bits.length :=
  List.length_map _

theorem chars_replicate (n : Nat) : chars (List.replicate n false) = List.replicate n shuniya := by
  rw [chars, List.map_replicate]
  rfl

theorem chars_prefix {a b : List Bool} (isPrefix : chars a <+: chars b) : a <+: b := by
  have injective : ∀ x y, bitChar x = bitChar y → x = y := by decide
  exact (List.prefix_map_iff_of_injective fun x y => injective x y).mp isPrefix

theorem addDigits_bits (x y c : Bool) (result : List UInt8) :
    addDigits (bitChar x, bitChar y) ((c.toNat : Int), result) =
      (((Bool.atLeastTwo x y c).toNat : Int), bitChar (x ^^ y ^^ c) :: result) := by
  have all : ∀ x y c : Bool, addDigits (bitChar x, bitChar y) ((c.toNat : Int), []) =
      (((Bool.atLeastTwo x y c).toNat : Int), [bitChar (x ^^ y ^^ c)]) := by decide
  obtain ⟨carry, digit⟩ := Prod.mk.inj (all x y c)
  rw [List.append_nil] at digit
  simp only [addDigits, carry, digit]
  rfl

/-- The loop is a ripple-carry adder on chars. -/
theorem foldr_addDigits (pairs : List (Bool × Bool)) :
    (pairs.map (Prod.map bitChar bitChar)).foldr addDigits (0, []) =
      (((ripple pairs).1.toNat : Int), chars (ripple pairs).2) := by
  induction pairs with
  | nil => rfl
  | cons pair pairs ih =>
    rw [List.map_cons, List.foldr_cons, ih]
    exact addDigits_bits pair.1 pair.2 _ _

theorem chars_sum (pairs : List (Bool × Bool)) :
    (if (0 : Int) < ((ripple pairs).1.toNat : Int) then one :: chars (ripple pairs).2
      else chars (ripple pairs).2) = chars (RippleCarry.sum pairs) := by
  rw [RippleCarry.sum]
  cases (ripple pairs).1 with
  | false => rfl
  | true => rfl

/-- The number of places that the loop adds, for strings of `n` chars. -/
def places (n : Nat) : Nat := (toInt ((n : Int) - 1) + 1).toNat

theorem addBinary_chars (a b : List Bool) :
    addBinary (chars a) (chars b) =
      chars (RippleCarry.sum ((align a b).take (places (max a.length b.length)))) := by
  have width : (List.replicate (b.length - a.length) shuniya ++ chars a).length =
      max a.length b.length := by
    rw [List.length_append, List.length_replicate, chars_length]
    omega
  have fill : max a.length b.length - b.length = a.length - b.length := by omega
  have aligned : (List.replicate (b.length - a.length) shuniya ++ chars a).zip
      (List.replicate (a.length - b.length) shuniya ++ chars b) =
      (align a b).map (Prod.map bitChar bitChar) := by
    rw [← chars_replicate, ← chars_replicate, ← chars_append, ← chars_append]
    exact List.zip_map
  have index : (toInt ((max a.length b.length : Nat) - 1) + 1).toNat =
      places (max a.length b.length) := rfl
  rw [← chars_sum]
  simp only [addBinary, chars_length, width, fill, aligned, index, ← List.map_take,
    foldr_addDigits]

/-- Up to 2^31 places the index holds, and every place is added. -/
theorem places_of_le {n : Nat} (short : n ≤ 2 ^ 31) : places n = n := by
  unfold places toInt
  rw [Int.bmod_eq_of_le]
  all_goals omega

theorem addBinary_short {a b : List Bool} (short : max a.length b.length ≤ 2 ^ 31) :
    addBinary (chars a) (chars b) = chars (add a b) := by
  rw [addBinary_chars, places_of_le short, List.take_of_length_le (Nat.le_of_eq (align_length a b)),
    add]

theorem addBinary_one {len v : Nat} (pos : 0 < len) (short : len ≤ 2 ^ 31)
    (room : v + 1 < 2 ^ len) :
    addBinary (chars (digits len v)) [one] = chars (digits len (v + 1)) := by
  rw [← add_one pos room]
  refine addBinary_short (b := [true]) ?_
  rw [digits_length]
  exact Nat.max_le.mpr ⟨short, by decide⟩

theorem nextCode_eq {w : Word} {l : Nat} (pos : 0 < w.length) (short : w.length ≤ 2 ^ 31)
    (le : w.length ≤ l) (room : w.value + 1 < 2 ^ w.length) :
    nextCode (chars w.bits) (l : Int) = chars (w.next l).bits := by
  have fill :
      ((l : Int) - (chars (digits w.length (w.value + 1))).length).toNat = l - w.length := by
    rw [chars_length, digits_length]
    omega
  have shift := digits_shift w.length (l - w.length) (w.value + 1)
  rw [Nat.add_sub_cancel' le] at shift
  simp only [nextCode, Word.bits, addBinary_one pos short room, fill, Word.next, shift,
    chars_append, chars_replicate]

theorem codesFrom_eq {m : Nat} {w : Word} {ls : List Nat} (pos : 0 < w.length)
    (short : ∀ l ∈ w.length :: ls, l ≤ 2 ^ 31) (sorted : (w.length :: ls).Pairwise (· ≤ ·))
    (fits : Fits m w ls) :
    codesFrom (chars w.bits) (ls.map Int.ofNat) = (wordsFrom w ls).map fun w => chars w.bits := by
  induction ls generalizing w with
  | nil => rfl
  | cons l ls ih =>
    obtain ⟨first, rest⟩ := List.pairwise_cons.mp sorted
    have le := first l List.mem_cons_self
    rw [List.map_cons, codesFrom, wordsFrom, List.map_cons]
    congr 1
    have here := short w.length List.mem_cons_self
    rw [Int.ofNat_eq_natCast, nextCode_eq pos here le fits.no_carry]
    exact ih (Nat.lt_of_lt_of_le pos le) (fun l mem => short l (List.mem_cons_of_mem _ mem)) rest
      (fits.next le)

/-- The strings of `generateHuffmanCodes` are the canonical words of its lengths. -/
theorem huffmanCodes_eq {m : Nat} {ls : List Nat} (ne : ls ≠ []) (pos : ∀ l ∈ ls, 0 < l)
    (short : ∀ l ∈ ls, l ≤ 2 ^ 31) (sorted : ls.Pairwise (· ≤ ·)) (deep : ∀ l ∈ ls, l ≤ m)
    (kraft : (ls.map fun l => 2 ^ (m - l)).sum ≤ 2 ^ m) :
    huffmanCodes (ls.map Int.ofNat) = some ((words ls).map fun w => chars w.bits) := by
  cases ls with
  | nil => exact absurd rfl ne
  | cons l ls =>
    have zeros : List.replicate (Int.ofNat l).toNat shuniya = chars (Word.mk l 0).bits := by
      rw [Word.bits, digits_zero, chars_replicate]
      rfl
    rw [List.map_cons, huffmanCodes, zeros, codesFrom_eq (w := ⟨l, 0⟩)
      (pos l List.mem_cons_self) short sorted (fits_zero deep kraft)]
    rfl

section Maps

variable {α β : Type} {cmp : α → α → Ordering} [Std.TransCmp cmp]

theorem toList_keys_nodup (map : Std.TreeMap α β cmp) : (map.toList.map Prod.fst).Nodup := by
  rw [Std.TreeMap.map_fst_toList_eq_keys]
  exact Std.TreeMap.nodup_keys

variable [Std.LawfulEqCmp cmp] [DecidableEq α]

theorem getElem?_insertMany_of_mem (map : Std.TreeMap α β cmp) {pairs : List (α × β)}
    (distinct : (pairs.map Prod.fst).Nodup) {p : α × β} (mem : p ∈ pairs) :
    (map.insertMany pairs)[p.1]? = some p.2 := by
  refine Std.TreeMap.getElem?_insertMany_list_of_mem Std.ReflCmp.compare_self ?_ mem
  refine (List.pairwise_map.mp distinct).imp ?_
  intro p q ne same
  exact ne (Std.LawfulEqCmp.compare_eq_iff_eq.mp same)

theorem getElem?_insertMany_of_not_mem (map : Std.TreeMap α β cmp) {pairs : List (α × β)} {a : α}
    (absent : a ∉ pairs.map Prod.fst) : (map.insertMany pairs)[a]? = map[a]? := by
  apply Std.TreeMap.getElem?_insertMany_list_of_contains_eq_false
  rw [List.contains_eq_mem]
  exact decide_eq_false absent

end Maps

theorem setCodes_eq {B : List Int8} {codes : List (List UInt8)} (length : B.length = codes.length)
    (map : CodeMap) : setCodes B codes map = some (map.insertMany (B.zip codes)) := by
  induction B generalizing codes map with
  | nil => rfl
  | cons b B ih =>
    cases codes with
    | nil => cases length
    | cons code codes =>
      rw [setCodes, ih (Nat.succ.inj length), List.zip_cons_cons, Std.TreeMap.insertMany_cons]

/-- The chars of `B` have the words `ws` as codes, and no other char has a code. -/
structure Codes (B : List Int8) (ws : List Word) (map : CodeMap) : Prop where
  length : B.length = ws.length
  found : ∀ p ∈ B.zip ws, map[p.1]? = some (chars p.2.bits)
  others : ∀ b, b ∉ B → map[b]? = none

/-- Every char has a word. -/
theorem Codes.word {B : List Int8} {ws : List Word} {map : CodeMap} (codes : Codes B ws map)
    {b : Int8} (mem : b ∈ B) : ∃ w ∈ ws, map[b]? = some (chars w.bits) := by
  obtain ⟨i, lt, rfl⟩ := List.getElem_of_mem mem
  have lt' : i < ws.length := codes.length ▸ lt
  have pair : (B[i], ws[i]) ∈ B.zip ws := by
    rw [← List.getElem_zip (h := by rw [List.length_zip]; omega)]
    exact List.getElem_mem _
  exact ⟨ws[i], List.getElem_mem lt', codes.found _ pair⟩

def codeMap (B : List Int8) (ws : List Word) : CodeMap :=
  (∅ : CodeMap).insertMany (B.zip (ws.map fun w => chars w.bits))

theorem codeMap_codes {B : List Int8} {ws : List Word} (length : B.length = ws.length)
    (distinct : B.Nodup) : Codes B ws (codeMap B ws) := by
  have keys : (B.zip (ws.map fun w => chars w.bits)).map Prod.fst = B := by
    rw [List.map_fst_zip]
    rw [List.length_map]
    exact Nat.le_of_eq length
  constructor
  · exact length
  · intro p mem
    refine getElem?_insertMany_of_mem (p := (p.1, chars p.2.bits)) ∅ ?_ ?_
    · rw [keys]
      exact distinct
    · rw [List.zip_map_right]
      exact List.mem_map_of_mem (f := fun q : Int8 × Word => (q.1, chars q.2.bits)) mem
  · intro b absent
    rw [codeMap, getElem?_insertMany_of_not_mem ∅ (by rw [keys]; exact absent),
      Std.TreeMap.getElem?_emptyc]

/-- The leaf depths of a tree fill the unit interval. -/
theorem depths_fit {t : CodeTree} {ls : List Nat} (perm : ls.Perm (t.depths 0)) :
    (∀ l ∈ ls, l ≤ t.height) ∧ (ls.map fun l => 2 ^ (t.height - l)).sum = 2 ^ t.height := by
  have deep : ∀ l ∈ ls, l ≤ t.height := by
    intro l mem
    have := t.depths_le_height 0 l (perm.mem_iff.mp mem)
    omega
  refine ⟨deep, ?_⟩
  rw [(perm.map _).sum_nat]
  exact t.kraft fun d mem => deep d (perm.mem_iff.mpr mem)

/-- A char has 256 values. -/
theorem length_le_of_nodup {B : List Int8} (distinct : B.Nodup) : B.length ≤ 256 := by
  have injective : Function.Injective fun b : Int8 => b.toBitVec.toFin := by
    intro b c same
    exact Int8.toBitVec_inj.mp (BitVec.toFin_inj.mp same)
  have bound := (distinct.map injective).length_le_card
  rw [List.length_map, Fintype.card_fin] at bound
  exact bound

/-- The leaf depths of a tree, in nondecreasing order, are the lengths of its codes. -/
theorem huffmanCodes_depths {t : CodeTree} {ls : List Nat} (sorted : ls.Pairwise (· ≤ ·))
    (perm : ls.Perm (t.depths 0)) (more : 1 < ls.length) (short : ls.length ≤ 2 ^ 31) :
    huffmanCodes (ls.map Int.ofNat) = some ((words ls).map fun w => chars w.bits) ∧
      (words ls).Pairwise fun c d => ¬ c.bits <+: d.bits ∧ ¬ d.bits <+: c.bits := by
  have pos : ∀ l ∈ ls, 0 < l := by
    intro l mem
    exact CodeTree.depths_pos (perm.length_eq ▸ more) l (perm.mem_iff.mp mem)
  obtain ⟨deep, kraft⟩ := depths_fit perm
  have ne : ls ≠ [] := by
    rintro rfl
    cases more
  have shallow : ∀ l ∈ ls, l ≤ 2 ^ 31 := by
    intro l mem
    have := t.depths_lt_length 0 l (perm.mem_iff.mp mem)
    rw [← perm.length_eq] at this
    omega
  exact ⟨huffmanCodes_eq ne pos shallow sorted deep (Nat.le_of_eq kraft),
    words_prefixFree sorted deep (Nat.le_of_eq kraft)⟩

theorem generateHuffmanCodes_eq {freq : List Nat} {B : List Int8} (two : 2 ≤ freq.length)
    (length : B.length = freq.length) (distinct : B.Nodup) :
    ∃ t, ∃ depths : List Nat, ∃ map, generateHuffmanCodes (freq.map Int.ofNat) B = some map ∧
      depths.Pairwise (· ≤ ·) ∧ depths.Perm (t.depths 0) ∧
      Codes B.reverse (words depths) map ∧
      (words depths).Pairwise (fun c d => ¬ c.bits <+: d.bits ∧ ¬ d.bits <+: c.bits) ∧
      (freq.sum < 2 ^ 31 → huffman freq = some t) := by
  obtain ⟨t, depths, run, sorted, perm, size, exact⟩ := codeLengths_depths two
  have perm' : depths.reverse.Perm (t.depths 0) := (List.reverse_perm depths).trans perm
  have sorted' : depths.reverse.Pairwise (· ≤ ·) := List.pairwise_reverse.mpr sorted
  have count : depths.reverse.length = freq.length := by rw [List.length_reverse, size]
  have alphabet := length_le_of_nodup distinct
  obtain ⟨assigned, prefixFree⟩ := huffmanCodes_depths sorted' perm' (by omega) (by omega)
  have reversedA : reverseVector (depths.map Int.ofNat) = some (depths.map Int.ofNat).reverse := by
    apply reverseVector_eq
    intro none
    have := congrArg List.length none
    rw [List.length_map, List.length_nil] at this
    omega
  have reversedB : reverseVector B = some B.reverse := by
    apply reverseVector_eq
    intro none
    rw [none, List.length_nil] at length
    omega
  have same : B.reverse.length = (words depths.reverse).length := by
    have := congrArg List.length (map_length_words depths.reverse)
    rw [List.length_map] at this
    rw [this, List.length_reverse, count, length]
  have set : setCodes B.reverse ((words depths.reverse).map fun w => chars w.bits) ∅ =
      some (codeMap B.reverse (words depths.reverse)) :=
    setCodes_eq (by rw [List.length_map]; exact same) ∅
  refine ⟨t, depths.reverse, codeMap B.reverse (words depths.reverse), ?_, sorted', perm',
    codeMap_codes same (List.nodup_reverse.mpr distinct), prefixFree, exact⟩
  rw [← List.map_reverse] at reversedA
  simp only [generateHuffmanCodes, run, reversedA, reversedB, assigned, set, bind,
    Option.bind_some]

example : (generateHuffmanCodes [1, 2, 4] [7, 8, 9]).map (·.toList) =
    some [(7, [49, 49]), (8, [49, 48]), (9, [48])] := by decide

end TFTP.HuffmanCodes
