import Mathlib.Data.List.Induction
import TFTP.Library.Simulation

/-!
# Loops that lose patience

A patient reactor counts its silent inputs down from a limit and starts again with every
other one. It gives up at exactly the inputs that end a row of as many silent ones as the
limit says.
-/

namespace TFTP.Runs

universe u v w

variable {State : Type u} {Input : Type v} {Output : Type w}

/-- The length of the row of silent inputs at the end. -/
def lull (silent : Input → Bool) (es : List Input) : Nat := (es.reverse.takeWhile silent).length

section Lull

variable {silent : Input → Bool} {e : Input}

@[simp] theorem lull_nil : lull silent [] = 0 := rfl

theorem lull_silent (quiet : silent e = true) (es : List Input) :
    lull silent (es ++ [e]) = lull silent es + 1 := by
  simp [lull, quiet]

theorem lull_other (heard : silent e = false) (es : List Input) :
    lull silent (es ++ [e]) = 0 := by
  simp [lull, heard]

end Lull

structure Patient (R : Reactor State Input Output) (limit : Nat) where
  silent : Input → Bool
  left : State → Nat
  gaveUp : State → Prop
  stops : ∀ s, gaveUp s → R.running s = false
  restores : ∀ s e, R.running s = true → silent e = false → ¬ gaveUp (R.react s e).1 ∧
    (R.running (R.react s e).1 = true → left (R.react s e).1 = limit)
  counts : ∀ s e, R.running s = true → silent e = true → 1 < left s → ¬ gaveUp (R.react s e).1 ∧
    (R.running (R.react s e).1 = true → left (R.react s e).1 = left s - 1)
  quits : ∀ s e, R.running s = true → silent e = true → left s = 1 → gaveUp (R.react s e).1

namespace Patient

variable {R : Reactor State Input Output} {limit : Nat} (P : Patient R limit)

/-- A loop that goes on has some patience left, and not more than it started with. -/
theorem kept {s : State} (live : R.running s = true) (some_left : 0 < P.left s)
    (within : P.left s ≤ limit) (e : Input) (again : R.running (R.react s e).1 = true) :
    0 < P.left (R.react s e).1 ∧ P.left (R.react s e).1 ≤ limit ∧
      (P.silent e = true → P.left (R.react s e).1 < P.left s) := by
  cases silent : P.silent e with
  | false =>
    rw [(P.restores s e live silent).2 again]
    exact ⟨by omega, Nat.le_refl limit, by simp⟩
  | true =>
    by_cases last : P.left s = 1
    · have gone := P.stops _ (P.quits s e live silent last)
      exact absurd (gone.symm.trans again) Bool.false_ne_true
    · rw [(P.counts s e live silent (by omega)).2 again]
      exact ⟨by omega, by omega, fun _ => by omega⟩

section Runs

variable {s : State}

theorem feed_snoc_live (es : List Input) (e : Input) (live : R.running (R.feed s es).1 = true) :
    (R.feed s (es ++ [e])).1 = (R.react (R.feed s es).1 e).1 := by
  rw [R.feed_append, R.feed_cons live, R.feed_nil]

theorem feed_snoc_stopped (es : List Input) (e : Input)
    (stopped : R.running (R.feed s es).1 = false) :
    (R.feed s (es ++ [e])).1 = (R.feed s es).1 := by
  rw [R.feed_append, R.feed_stopped stopped]

variable (start : P.left s = limit) (pos : 0 < limit)
include start pos

/-- What patience is left is what the last row of silent inputs has not used up. -/
theorem left_add_lull (es : List Input) (live : R.running (R.feed s es).1 = true) :
    0 < P.left (R.feed s es).1 ∧ P.left (R.feed s es).1 + lull P.silent es = limit := by
  induction es using List.reverseRecOn with
  | nil => exact ⟨by simpa [start] using pos, by simpa using start⟩
  | append_singleton es e ih =>
    cases before : R.running (R.feed s es).1 with
    | false =>
      rw [feed_snoc_stopped es e before] at live
      exact absurd (before.symm.trans live) Bool.false_ne_true
    | true =>
      obtain ⟨some_left, all⟩ := ih before
      rw [feed_snoc_live es e before] at live ⊢
      cases silent : P.silent e with
      | false =>
        rw [(P.restores _ e before silent).2 live, lull_other silent]
        exact ⟨pos, rfl⟩
      | true =>
        rw [lull_silent silent]
        by_cases last : P.left (R.feed s es).1 = 1
        · have gone := P.stops _ (P.quits _ e before silent last)
          exact absurd (gone.symm.trans live) Bool.false_ne_true
        · rw [(P.counts _ e before silent (by omega)).2 live]
          exact ⟨by omega, by omega⟩

/-- A loop gives up where it meets the last of as many silent inputs in a row as its limit
says, and nowhere else. -/
theorem gaveUp_iff (fresh : ¬ P.gaveUp s) (es : List Input) :
    P.gaveUp (R.feed s es).1 ↔ ∃ before e after, es = before ++ e :: after ∧
      R.running (R.feed s before).1 = true ∧ lull P.silent (before ++ [e]) = limit := by
  induction es using List.reverseRecOn with
  | nil => exact iff_of_false fresh (by simp)
  | append_singleton es e ih =>
    cases live : R.running (R.feed s es).1 with
    | false =>
      rw [feed_snoc_stopped es e live, ih]
      constructor
      · rintro ⟨before, e', after, rfl, running, row⟩
        exact ⟨before, e', after ++ [e], by simp, running, row⟩
      · rintro ⟨before, e', after, split, running, row⟩
        rcases List.eq_nil_or_concat after with rfl | ⟨after', e'', rfl⟩
        · obtain ⟨rfl, _⟩ := List.append_inj' split rfl
          exact absurd (live.symm.trans running) Bool.false_ne_true
        · rw [List.concat_eq_append, ← List.cons_append, ← List.append_assoc] at split
          exact ⟨before, e', after', (List.append_inj' split rfl).1, running, row⟩
    | true =>
      have not_yet : ¬ ∃ before e after, es = before ++ e :: after ∧
          R.running (R.feed s before).1 = true ∧ lull P.silent (before ++ [e]) = limit := by
        rw [← ih]
        intro gone
        exact absurd ((P.stops _ gone).symm.trans live) Bool.false_ne_true
      have here : (∃ before e' after, es ++ [e] = before ++ e' :: after ∧
          R.running (R.feed s before).1 = true ∧ lull P.silent (before ++ [e']) = limit) ↔
          lull P.silent (es ++ [e]) = limit := by
        constructor
        · rintro ⟨before, e', after, split, running, row⟩
          rcases List.eq_nil_or_concat after with rfl | ⟨after', e'', rfl⟩
          · rw [split]
            exact row
          · rw [List.concat_eq_append, ← List.cons_append, ← List.append_assoc] at split
            exact absurd ⟨before, e', after', (List.append_inj' split rfl).1, running, row⟩ not_yet
        · exact fun row => ⟨es, e, [], rfl, live, row⟩
      obtain ⟨some_left, all⟩ := P.left_add_lull start pos es live
      rw [here, feed_snoc_live es e live]
      cases silent : P.silent e with
      | false =>
        rw [lull_other silent]
        exact iff_of_false (P.restores _ e live silent).1 (by omega)
      | true =>
        rw [lull_silent silent]
        by_cases last : P.left (R.feed s es).1 = 1
        · exact iff_of_true (P.quits _ e live silent last) (by omega)
        · exact iff_of_false (P.counts _ e live silent (by omega)).1 (by omega)

end Runs

end Patient

end TFTP.Runs
