import Mathlib.Algebra.Group.Nat.Defs
import Mathlib.Data.List.Basic

/-!
# Machines, runs and reactive loops

A machine takes an action where it is enabled. A reactor is a loop that consumes
one input per turn, emits outputs, and ignores every input once it has stopped.
Safety of a run is derived from a preserved predicate, once and for all.
-/

namespace TFTP.Runs

universe u v w

structure Machine (State : Type u) (Action : Type v) where
  enabled : State → Action → Prop
  step : State → Action → State

variable {State : Type u} {Action : Type v}

/-- A finite run, with its actions in the order taken. -/
inductive Run (M : Machine State Action) : State → List Action → State → Prop
  | refl (s : State) : Run M s [] s
  | snoc {s t : State} {acts : List Action} {a : Action} :
      Run M s acts t → M.enabled t a → Run M s (acts ++ [a]) (M.step t a)

/-- The same machine, restricted to the steps that meet a condition. -/
def Machine.restrict (M : Machine State Action) (C : State → Action → Prop) :
    Machine State Action where
  enabled := fun s a => M.enabled s a ∧ C s a
  step := M.step

theorem Run.invariant {M : Machine State Action} {P : State → Prop}
    (preserved : ∀ s a, M.enabled s a → P s → P (M.step s a))
    {s t : State} {acts : List Action} (run : Run M s acts t) (start : P s) : P t := by
  induction run with
  | refl => exact start
  | snoc _ he ih => exact preserved _ _ he ih

/-- An invariant that also speaks of the actions taken so far. -/
theorem Run.history {M : Machine State Action} {s : State} {P : List Action → State → Prop}
    (start : P [] s)
    (preserved : ∀ acts t a, M.enabled t a → P acts t → P (acts ++ [a]) (M.step t a))
    {t : State} {acts : List Action} (run : Run M s acts t) : P acts t := by
  induction run with
  | refl => exact start
  | snoc _ he ih => exact preserved _ _ _ he ih

/-- A run is one of the restricted machine if its end tells that every step met the
condition. -/
theorem Run.restrict {M : Machine State Action} {C : State → Action → Prop} {Good : State → Prop}
    {s t : State} {acts : List Action} (run : Run M s acts t)
    (met : ∀ acts t a, Run M s acts t → M.enabled t a → Good (M.step t a) → C t a ∧ Good t)
    (good : Good t) : Run (M.restrict C) s acts t := by
  induction run with
  | refl => exact .refl _
  | snoc before enabled ih =>
    obtain ⟨condition, good'⟩ := met _ _ _ before enabled good
    exact .snoc (ih good') ⟨enabled, condition⟩

/-- A run of the restricted machine is a run. -/
theorem Run.unrestrict {M : Machine State Action} {C : State → Action → Prop} {s t : State}
    {acts : List Action} (run : Run (M.restrict C) s acts t) : Run M s acts t := by
  induction run with
  | refl => exact .refl _
  | snoc _ enabled ih => exact .snoc ih enabled.1

/-- A map that takes enabled steps to enabled steps takes runs to runs. -/
theorem Run.map {State' : Type w} {M : Machine State Action} {N : Machine State' Action}
    (f : State → State') (simulates : ∀ s a, M.enabled s a →
      N.enabled (f s) a ∧ N.step (f s) a = f (M.step s a))
    {s t : State} {acts : List Action} (run : Run M s acts t) : Run N (f s) acts (f t) := by
  induction run with
  | refl => exact .refl _
  | snoc _ enabled ih =>
    obtain ⟨enabled', same⟩ := simulates _ _ enabled
    rw [← same]
    exact .snoc ih enabled'

theorem Run.trans {M : Machine State Action} {s t r : State} {as bs : List Action}
    (first : Run M s as t) (second : Run M t bs r) : Run M s (as ++ bs) r := by
  induction second with
  | refl => simpa using first
  | snoc _ he ih => simpa [List.append_assoc] using Run.snoc ih he

/-- If no run is longer than a bound, some run cannot go on. -/
theorem Run.maximal {M : Machine State Action} {s : State} {bound : Nat}
    (bounded : ∀ acts t, Run M s acts t → acts.length ≤ bound) :
    ∃ acts t, Run M s acts t ∧ ∀ a, ¬ M.enabled t a := by
  have reached : ∀ n, ∃ acts t, Run M s acts t ∧ (acts.length = n ∨ ∀ a, ¬ M.enabled t a) := by
    intro n
    induction n with
    | zero => exact ⟨[], s, .refl s, Or.inl rfl⟩
    | succ n ih =>
      obtain ⟨acts, t, run, length | stuck⟩ := ih
      · by_cases more : ∃ a, M.enabled t a
        · obtain ⟨a, enabled⟩ := more
          exact ⟨_, _, run.snoc enabled, Or.inl (by simp [length])⟩
        · exact ⟨acts, t, run, Or.inr (not_exists.mp more)⟩
      · exact ⟨acts, t, run, Or.inr stuck⟩
  obtain ⟨acts, t, run, length | stuck⟩ := reached (bound + 1)
  · exact absurd (bounded acts t run) (by omega)
  · exact ⟨acts, t, run, stuck⟩

/-- If from every state of a kind some run leads to the goal or to such a state of lower
rank, the goal can be reached from it. -/
theorem Run.reaches {M : Machine State Action} {P Q : State → Prop} (rank : State → Nat)
    (onward : ∀ s, P s → ∃ acts t, Run M s acts t ∧ (Q t ∨ (P t ∧ rank t < rank s)))
    {s : State} (start : P s) : ∃ acts t, Run M s acts t ∧ Q t := by
  induction bound : rank s using Nat.strongRecOn generalizing s with
  | ind n ih =>
    subst bound
    obtain ⟨acts, t, run, goal | ⟨again, less⟩⟩ := onward s start
    · exact ⟨acts, t, run, goal⟩
    · obtain ⟨acts', u, run', goal⟩ := ih (rank t) less again rfl
      exact ⟨acts ++ acts', u, run.trans run', goal⟩

/-- If from every state of a kind that is not at rank 0 one action leads to such a state of
the next lower rank, rank 0 is reached in as many actions. -/
theorem Run.descends {M : Machine State Action} {P : State → Prop} (rank : State → Nat)
    (onward : ∀ s, P s → rank s ≠ 0 →
      ∃ a, M.enabled s a ∧ P (M.step s a) ∧ rank (M.step s a) + 1 = rank s)
    {s : State} (start : P s) :
    ∃ acts t, Run M s acts t ∧ acts.length = rank s ∧ P t ∧ rank t = 0 := by
  induction bound : rank s generalizing s with
  | zero => exact ⟨[], s, .refl s, rfl, start, bound⟩
  | succ n ih =>
    obtain ⟨a, enabled, again, less⟩ := onward s start (by omega)
    obtain ⟨acts, t, run, length, good, ended⟩ := ih again (by omega)
    exact ⟨[a] ++ acts, t, (Run.snoc (.refl s) enabled).trans run, by simp [length], good, ended⟩

/-- A condition that is never regained held all along, and a potential that grows by at most
one while it holds needs as many actions as it has grown. -/
theorem Run.climbs {M : Machine State Action} {Good : State → Prop} (potential : State → Nat)
    (before : ∀ s a, M.enabled s a → Good (M.step s a) →
      Good s ∧ potential (M.step s a) ≤ potential s + 1)
    {s t : State} {acts : List Action} (run : Run M s acts t) (good : Good t) :
    Good s ∧ potential t ≤ potential s + acts.length := by
  induction run with
  | refl => exact ⟨good, Nat.le_refl _⟩
  | snoc _ enabled ih =>
    obtain ⟨good', once⟩ := before _ _ enabled good
    obtain ⟨first, most⟩ := ih good'
    refine ⟨first, ?_⟩
    rw [List.length_append, List.length_singleton]
    omega

/-- A cost that falls from action to action, but for those that open a new phase and may
multiply it, bounds the length of a run: there is room for each phase to multiply what the
phases before it have left. -/
theorem Run.phases {M : Machine State Action} {P : State → Prop} (phase cost : State → Nat)
    {c : Nat} (pos : 0 < c)
    (onward : ∀ s a, M.enabled s a → P s → P (M.step s a) ∧
      (phase (M.step s a) = phase s ∧ cost (M.step s a) < cost s ∨
        phase (M.step s a) < phase s ∧ cost (M.step s a) + 1 < c * (cost s + 1)))
    {s t : State} {acts : List Action} (run : Run M s acts t) (start : P s) :
    P t ∧ acts.length + c ^ phase t * (cost t + 1) ≤ c ^ phase s * (cost s + 1) := by
  induction run with
  | refl => exact ⟨start, by simp⟩
  | @snoc t acts a _ enabled ih =>
    obtain ⟨good, most⟩ := ih
    obtain ⟨good', within | ⟨later, multiplied⟩⟩ := onward t a enabled good
    · refine ⟨good', ?_⟩
      obtain ⟨same, less⟩ := within
      have room : c ^ phase t * (cost (M.step t a) + 1) + c ^ phase t ≤
          c ^ phase t * (cost t + 1) := by
        rw [← Nat.mul_succ]
        exact Nat.mul_le_mul_left _ (by omega)
      have one : 0 < c ^ phase t := Nat.pow_pos pos
      rw [List.length_append, List.length_singleton, same]
      omega
    · refine ⟨good', ?_⟩
      have room : c ^ phase (M.step t a) * (cost (M.step t a) + 1) + c ^ phase (M.step t a) ≤
          c ^ phase t * (cost t + 1) := by
        calc c ^ phase (M.step t a) * (cost (M.step t a) + 1) + c ^ phase (M.step t a)
          _ = c ^ phase (M.step t a) * (cost (M.step t a) + 1 + 1) := (Nat.mul_succ _ _).symm
          _ ≤ c ^ phase (M.step t a) * (c * (cost t + 1)) := Nat.mul_le_mul_left _ multiplied
          _ = c ^ (phase (M.step t a) + 1) * (cost t + 1) := by rw [Nat.pow_succ, Nat.mul_assoc]
          _ ≤ c ^ phase t * (cost t + 1) :=
            Nat.mul_le_mul_right _ (Nat.pow_le_pow_right pos later)
      have one : 0 < c ^ phase (M.step t a) := Nat.pow_pos pos
      rw [List.length_append, List.length_singleton]
      omega

/-- States from which a run leads to one of their kind again have runs of any length. -/
theorem Run.endless {M : Machine State Action} {P : State → Prop}
    (again : ∀ s, P s → ∃ acts t, Run M s acts t ∧ acts ≠ [] ∧ P t) {s : State} (start : P s)
    (n : Nat) : ∃ acts t, Run M s acts t ∧ n ≤ acts.length ∧ P t := by
  induction n with
  | zero => exact ⟨[], s, .refl s, Nat.zero_le _, start⟩
  | succ n ih =>
    obtain ⟨acts, t, run, long, good⟩ := ih
    obtain ⟨acts', u, run', some_more, good'⟩ := again t good
    have more : 0 < acts'.length := List.length_pos_of_ne_nil some_more
    exact ⟨acts ++ acts', u, run.trans run', by rw [List.length_append]; omega, good'⟩

variable {Input : Type v} {Output : Type w}

structure Reactor (State : Type u) (Input : Type v) (Output : Type w) where
  running : State → Bool
  react : State → Input → State × List Output

namespace Reactor
variable (R : Reactor State Input Output)

/-- The state reached and everything emitted on a sequence of inputs. -/
def feed : State → List Input → State × List Output
  | s, [] => (s, [])
  | s, e :: es =>
    if R.running s then
      ((feed (R.react s e).1 es).1, (R.react s e).2 ++ (feed (R.react s e).1 es).2)
    else (s, [])

/-- The turns taken on a sequence of inputs: each state with the input it met. -/
def turns : State → List Input → List (State × Input)
  | _, [] => []
  | s, e :: es => if R.running s then (s, e) :: turns (R.react s e).1 es else []

@[simp] theorem feed_nil (s : State) : R.feed s [] = (s, []) := rfl

theorem feed_cons {s : State} (live : R.running s = true) (e : Input) (es : List Input) :
    R.feed s (e :: es) =
      ((R.feed (R.react s e).1 es).1, (R.react s e).2 ++ (R.feed (R.react s e).1 es).2) := by
  simp [feed, live]

theorem feed_stopped {s : State} (stopped : R.running s = false) (es : List Input) :
    R.feed s es = (s, []) := by
  cases es with
  | nil => rfl
  | cons e es => simp [feed, stopped]

/-- What a turn preserves of the state and of everything emitted so far. -/
theorem feed_history {P : State → List Output → Prop}
    (step : ∀ s out e, R.running s = true → P s out → P (R.react s e).1 (out ++ (R.react s e).2))
    {s : State} {out : List Output} (start : P s out) (es : List Input) :
    P (R.feed s es).1 (out ++ (R.feed s es).2) := by
  induction es generalizing s out with
  | nil =>
    rw [feed_nil, List.append_nil]
    exact start
  | cons e es ih =>
    cases live : R.running s with
    | false =>
      rw [R.feed_stopped live, List.append_nil]
      exact start
    | true =>
      rw [R.feed_cons live, ← List.append_assoc]
      exact ih (step s out e live start)

section Filtered

variable (own : Input → Bool) (shows : Output → Bool) (Rel : List Input → State → State → Prop)

/-- Inputs that show nothing and leave related states related can be left out. The
relation speaks of the inputs that are still to come. -/
theorem feed_filter (stops : ∀ es s t, Rel es s t → R.running s = R.running t)
    (skips : ∀ e es s t, own e = false → R.running s = true → Rel (e :: es) s t →
      Rel es (R.react s e).1 t ∧ (R.react s e).2.filter shows = [])
    (keeps : ∀ e es s t, own e = true → R.running s = true → Rel (e :: es) s t →
      Rel es (R.react s e).1 (R.react t e).1 ∧
        (R.react s e).2.filter shows = (R.react t e).2.filter shows)
    {es : List Input} {s t : State} (related : Rel es s t) :
    (∃ rest, Rel rest (R.feed s es).1 (R.feed t (es.filter own)).1) ∧
      (R.feed s es).2.filter shows = (R.feed t (es.filter own)).2.filter shows := by
  induction es generalizing s t with
  | nil => exact ⟨⟨[], related⟩, rfl⟩
  | cons e es ih =>
    have same := stops _ s t related
    cases live : R.running s with
    | false =>
      rw [R.feed_stopped live, R.feed_stopped (same.symm.trans live)]
      exact ⟨⟨_, related⟩, rfl⟩
    | true =>
      rw [R.feed_cons live]
      cases kept : own e with
      | false =>
        obtain ⟨related', silent⟩ := skips e es s t kept live related
        rw [List.filter_cons_of_neg (by rw [kept]; exact Bool.false_ne_true), List.filter_append,
          silent, List.nil_append]
        exact ih related'
      | true =>
        obtain ⟨related', shown⟩ := keeps e es s t kept live related
        obtain ⟨final, rest⟩ := ih related'
        rw [List.filter_cons_of_pos kept, R.feed_cons (same.symm.trans live), List.filter_append,
          List.filter_append, shown, rest]
        exact ⟨final, rfl⟩

end Filtered

end Reactor

end TFTP.Runs
