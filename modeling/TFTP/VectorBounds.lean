import TFTP.DecodedSuffix

/-!
# Indices into the vectors of frequencies and chars

An index outside its vector ends `generateHuffmanCodes` with no result. Two frequencies are
enough for every index to stay inside, whatever they are. With one, the second of the two
leaves that phase 2 expects below the root is written in front of the vector; with none,
the last index of the empty vector is the greatest `size_t`.
-/

namespace TFTP.VectorBounds

open CodeLengths HuffmanCodes Compression Lossless DecodedSuffix

/-- `generateHuffmanCodes` and `reverseVector` stay inside their vectors. -/
def IndicesInBounds (file : List UInt8) : Prop := ∃ codes, fileCodes file = some codes

/-- `std::swap(vec[start], vec[end])` on an empty vector. -/
theorem reverse_empty {α : Type} : reverseVector ([] : List α) = none := rfl

/-- `A[--i] = depth` with `i` at 0. -/
theorem setDepths_before_first (depth : Int) (m : Nat) (A : List Int) :
    setDepths depth (m + 1) (A, 0) = none := rfl

theorem no_frequency (B : List Int8) : generateHuffmanCodes [] B = none := by
  have lengths : codeLengths [] = some [] := rfl
  simp only [generateHuffmanCodes, lengths, reverse_empty, bind, Option.bind_some,
    Option.bind_none]

theorem one_frequency (a : Int) (B : List Int8) : generateHuffmanCodes [a] B = none := by
  have first : setDepths 1 2 ([a], 1) = none := by
    rw [setDepths, store_eq (Nat.lt_succ_self 0)]
    exact setDepths_before_first 1 0 ([a].set 0 1)
  have top : nextTop [a] (-1) = some (-1) := rfl
  have leaves : ((2 : Int) - (-1 - -1)).toNat = 2 := rfl
  have round : level ⟨[a], 1, -1, 1, 2⟩ = none := by
    simp only [level, top, leaves, first, bind, Option.bind_some, Option.bind_none]
  have rounds : levels ([a].length + 1) ⟨[a], [a].length, [a].length - 2, 1, 2⟩ = none := by
    change levels 2 ⟨[a], 1, -1, 1, 2⟩ = none
    rw [levels, if_pos (Nat.lt_succ_self 0), round, Option.bind_none]
  have lengths : codeLengths [a] = none := by
    change phase2 [a] = none
    simp only [phase2, rounds, bind, Option.bind_none]
  simp only [generateHuffmanCodes, lengths, bind, Option.bind_none]

theorem more_frequencies {file : List UInt8} (two : ∃ a ∈ file, ∃ b ∈ file, a ≠ b) :
    IndicesInBounds file := by
  obtain ⟨_, _, codes, run, _⟩ := file_generated two
  exact ⟨codes, run⟩

theorem distinct_of_in_bounds {file : List UInt8} (inside : IndicesInBounds file) :
    ∃ a ∈ file, ∃ b ∈ file, a ≠ b := by
  obtain ⟨codes, run⟩ := inside
  change generateHuffmanCodes ((sortedPairs file).map fun pair => Int.ofNat pair.1)
    ((sortedPairs file).map (·.2)) = some codes at run
  match pairs : sortedPairs file with
  | [] =>
    rw [pairs, List.map_nil, no_frequency] at run
    cases run
  | [p] =>
    rw [pairs, List.map_singleton, one_frequency] at run
    cases run
  | p :: q :: rest =>
    have distinct := sortedPairs_nodup file
    obtain ⟨a, ha, rfl⟩ := (mem_sortedPairs_iff file p).mp (by simp [pairs])
    obtain ⟨b, hb, rfl⟩ := (mem_sortedPairs_iff file q).mp (by simp [pairs])
    refine ⟨a, ha, b, hb, ?_⟩
    rintro rfl
    rw [pairs] at distinct
    exact (List.nodup_cons.mp distinct).1 List.mem_cons_self

/-- Compressing a file stays inside all vectors if and only if the file has at least two
distinct bytes. -/
theorem indices_in_bounds_iff (file : List UInt8) :
    IndicesInBounds file ↔ ∃ a ∈ file, ∃ b ∈ file, a ≠ b :=
  ⟨distinct_of_in_bounds, more_frequencies⟩

/-- The empty file. -/
theorem empty_file_out_of_bounds : ¬ ∀ file, IndicesInBounds file := by
  intro inside
  obtain ⟨a, mem, _⟩ := distinct_of_in_bounds (inside [])
  cases mem

end TFTP.VectorBounds
