import TFTP.Library.Runs

/-!
# Outputs of runs, simulations and components

A trace lists what each action of a run puts out. A simulation takes the runs of one
machine to runs of another, action by action, with the same trace. A component is a
part of a machine that hears only the actions addressed to it: over any run it does what
it would do alone.
-/

namespace TFTP.Runs

universe u u' v v' w x y

variable {State : Type u} {State' : Type u'} {Action : Type v} {Action' : Type v'}
  {Output : Type w}

/-- What the actions put out, one entry for each action. -/
def Machine.trace (M : Machine State Action) (out : State → Action → Output) :
    State → List Action → List Output
  | _, [] => []
  | s, a :: acts => out s a :: M.trace out (M.step s a) acts

theorem Run.after {M : Machine State Action} {s t : State} {acts : List Action}
    (run : Run M s acts t) : acts.foldl M.step s = t := by
  induction run with
  | refl => rfl
  | snoc _ _ ih => rw [List.foldl_append, ih, List.foldl_cons, List.foldl_nil]

theorem Machine.trace_append (M : Machine State Action) (out : State → Action → Output) (s : State)
    (as bs : List Action) :
    M.trace out s (as ++ bs) = M.trace out s as ++ M.trace out (as.foldl M.step s) bs := by
  induction as generalizing s with
  | nil => rfl
  | cons a as ih => rw [List.cons_append, trace, trace, ih, List.foldl_cons, List.cons_append]

theorem Run.trace_snoc {M : Machine State Action} {s t : State} {acts : List Action}
    (run : Run M s acts t) (out : State → Action → Output) (a : Action) :
    M.trace out s (acts ++ [a]) = M.trace out s acts ++ [out t a] := by
  rw [M.trace_append, run.after]
  rfl

/-- An action becomes an action of the other machine; related states put out the same and
stay related. -/
structure Simulation (M : Machine State Action) (N : Machine State' Action')
    (out : State → Action → Output) (out' : State' → Action' → Output) where
  rel : State → State' → Prop
  act : State → Action → Action'
  enabled : ∀ s t a, rel s t → M.enabled s a → N.enabled t (act s a)
  step : ∀ s t a, rel s t → M.enabled s a → rel (M.step s a) (N.step t (act s a))
  output : ∀ s t a, rel s t → M.enabled s a → out s a = out' t (act s a)

/-- Every run of the simulated machine is one of the other, with the same trace. -/
theorem Simulation.run {M : Machine State Action} {N : Machine State' Action'}
    {out : State → Action → Output} {out' : State' → Action' → Output}
    (sim : Simulation M N out out') {s s' : State} {t : State'} {acts : List Action}
    (related : sim.rel s t) (run : Run M s acts s') :
    ∃ t', Run N t (M.trace sim.act s acts) t' ∧ sim.rel s' t' ∧
      M.trace out s acts = N.trace out' t (M.trace sim.act s acts) := by
  induction run with
  | refl => exact ⟨t, .refl t, related, rfl⟩
  | snoc before enabled ih =>
    obtain ⟨t', run', related', same⟩ := ih
    refine ⟨_, ?_, sim.step _ _ _ related' enabled, ?_⟩
    · rw [before.trace_snoc]
      exact run'.snoc (sim.enabled _ _ _ related' enabled)
    · rw [before.trace_snoc, before.trace_snoc, run'.trace_snoc, same,
        sim.output _ _ _ related' enabled]

/-- Where every action stays what it is, so does the run. -/
theorem Machine.trace_same (M : Machine State Action) (s : State) (acts : List Action) :
    M.trace (fun _ a => a) s acts = acts := by
  induction acts generalizing s with
  | nil => rfl
  | cons a acts ih => rw [trace, ih]

/-- What a machine does to a part of its state is what another machine does; actions that
do nothing to it have no counterpart. -/
structure Projection (M : Machine State Action) (N : Machine State' Action') where
  view : State → State'
  act : State → Action → Option Action'
  enabled : ∀ s a b, M.enabled s a → act s a = some b → N.enabled (view s) b
  step : ∀ s a b, M.enabled s a → act s a = some b → view (M.step s a) = N.step (view s) b
  still : ∀ s a, M.enabled s a → act s a = none → view (M.step s a) = view s

/-- The counterparts of the actions of a run. -/
def Projection.acts {M : Machine State Action} {N : Machine State' Action'} (P : Projection M N)
    (s : State) (acts : List Action) : List Action' := (M.trace P.act s acts).filterMap id

theorem Projection.acts_snoc {M : Machine State Action} {N : Machine State' Action'}
    (P : Projection M N) {s t : State} {acts : List Action} (run : Run M s acts t) (a : Action) :
    P.acts s (acts ++ [a]) = P.acts s acts ++ (P.act t a).toList := by
  rw [Projection.acts, run.trace_snoc, List.filterMap_append]
  cases same : P.act t a with
  | none => simp [Projection.acts]
  | some b => simp [Projection.acts]

/-- The part goes through a run of the other machine. -/
theorem Projection.run {M : Machine State Action} {N : Machine State' Action'}
    (P : Projection M N) {s t : State} {acts : List Action} (run : Run M s acts t) :
    Run N (P.view s) (P.acts s acts) (P.view t) := by
  induction run with
  | refl => exact .refl _
  | @snoc t acts a before enabled ih =>
    rw [P.acts_snoc before]
    cases moves : P.act t a with
    | none =>
      rw [P.still t a enabled moves, Option.toList_none, List.append_nil]
      exact ih
    | some b =>
      rw [P.step t a b enabled moves]
      exact ih.snoc (P.enabled t a b enabled moves)

variable {Local : Type x} {Input : Type y}

theorem Reactor.feed_append (R : Reactor Local Input Output) (l : Local) (as bs : List Input) :
    R.feed l (as ++ bs) =
      ((R.feed (R.feed l as).1 bs).1, (R.feed l as).2 ++ (R.feed (R.feed l as).1 bs).2) := by
  induction as generalizing l with
  | nil => simp
  | cons e as ih =>
    cases live : R.running l with
    | false => simp [R.feed_stopped live]
    | true => simp [R.feed_cons live, ih]

/-- A part of the machine that behaves as a reactor: `own` picks the actions addressed to
it with the input they carry, and the others leave it as it is. -/
structure Component (M : Machine State Action) (R : Reactor Local Input Output)
    (out : State → Action → List Output) where
  own : Action → Option Input
  shows : State → Local → Prop
  hears : ∀ s l a e, shows s l → M.enabled s a → own a = some e →
    R.running l = true ∧ shows (M.step s a) (R.react l e).1 ∧ out s a = (R.react l e).2
  ignores : ∀ s l a, shows s l → M.enabled s a → own a = none →
    shows (M.step s a) l

namespace Component

variable {M : Machine State Action} {R : Reactor Local Input Output}
  {out : State → Action → List Output}

/-- What the component puts out when the machine takes an action. -/
def emits (C : Component M R out) (s : State) (a : Action) : List Output :=
  if (C.own a).isSome then out s a else []

/-- Over a run of the whole machine the component does what the reactor does alone with
the inputs addressed to it. -/
theorem alone (C : Component M R out) {s t : State} {acts : List Action} {l : Local}
    (run : Run M s acts t) (shown : C.shows s l) :
    C.shows t (R.feed l (acts.filterMap C.own)).1 ∧
      (M.trace C.emits s acts).flatten = (R.feed l (acts.filterMap C.own)).2 := by
  induction run with
  | refl => exact ⟨shown, rfl⟩
  | @snoc t acts a before enabled ih =>
    obtain ⟨now, same⟩ := ih
    rw [before.trace_snoc, List.flatten_append, same, List.filterMap_append, R.feed_append]
    cases addressed : C.own a with
    | none =>
      have silent : C.emits t a = [] := by simp [emits, addressed]
      have nothing : [a].filterMap C.own = [] := by simp [addressed]
      rw [silent, nothing, R.feed_nil]
      exact ⟨C.ignores _ _ _ now enabled addressed, rfl⟩
    | some e =>
      obtain ⟨live, next, puts⟩ := C.hears _ _ _ _ now enabled addressed
      have emitted : C.emits t a = out t a := by simp [emits, addressed]
      have one : [a].filterMap C.own = [e] := by simp [addressed]
      rw [emitted, one, R.feed_cons live, R.feed_nil, puts]
      exact ⟨next, by simp⟩

end Component

end TFTP.Runs
