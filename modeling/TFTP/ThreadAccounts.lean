import TFTP.WorkerThreads

/-!
# What becomes of the threads

A scan joins the threads that have finished and keeps those that work. The final loop waits
for every thread in the map, but the main loop may be in its receive call at that time: a
request that still comes in is given a thread that nobody waits for.
-/

namespace TFTP.ThreadAccounts

open Runs WorkerThreads

theorem mem_flagged {t : System} (inv : Inv t) (w : Nat) :
    w ∈ (flagged t).map Prod.fst ↔ w ∈ t.clientThreads ∧ w ∈ t.finished := by
  constructor
  · intro mem
    obtain ⟨⟨k, entry⟩, found, rfl⟩ := List.mem_map.mp mem
    obtain ⟨there, completed⟩ := List.mem_filter.mp found
    have value := Std.TreeMap.mem_toList_iff_getElem?_eq_some.mp there
    obtain ⟨_, _, _, flag⟩ := inv.entries k entry value
    refine ⟨Std.TreeMap.mem_iff_isSome_getElem?.mpr ?_, flag.mp completed⟩
    rw [value]
    rfl
  · rintro ⟨mem, finished⟩
    obtain ⟨entry, value⟩ := Option.isSome_iff_exists.mp
      (Std.TreeMap.mem_iff_isSome_getElem?.mp mem)
    obtain ⟨_, _, _, flag⟩ := inv.entries w entry value
    refine List.mem_map.mpr ⟨(w, entry), List.mem_filter.mpr ⟨?_, flag.mpr finished⟩, rfl⟩
    exact Std.TreeMap.mem_toList_iff_getElem?_eq_some.mpr value

/-- The pair of a thread that works is in the map as soon as it is stored. -/
theorem mem_clientThreads {t : System} (inv : Inv t) {w : Nat} (works : w ∉ t.finished) :
    w ∈ t.clientThreads ↔ Stored t w := by
  rw [Std.TreeMap.mem_iff_isSome_getElem?]
  constructor
  · intro mem
    obtain ⟨entry, value⟩ := Option.isSome_iff_exists.mp mem
    refine ⟨(inv.entries w entry value).2.1, fun storing => ?_⟩
    have absent := (inv.pending w storing).2.2.1
    rw [absent] at value
    cases value
  · intro stored
    obtain ⟨entry, value⟩ := inv.stored w stored (inv.unjoined works)
    rw [value]
    rfl

theorem scan_keeps {t : System} (inv : Inv t) (w : Nat) :
    w ∈ (scanned t).clientThreads ↔ Stored t w ∧ w ∉ t.finished := by
  have value : (scanned t).clientThreads[w]? =
      if w ∈ (flagged t).map Prod.fst then none else t.clientThreads[w]? :=
    getElem?_erased _ t.clientThreads w
  rw [Std.TreeMap.mem_iff_isSome_getElem?, value]
  by_cases finished : w ∈ t.finished
  · refine iff_of_false (fun kept => ?_) fun works => works.2 finished
    split at kept
    · cases kept
    · rename_i apart
      exact apart ((mem_flagged inv w).mpr ⟨Std.TreeMap.mem_iff_isSome_getElem?.mpr kept, finished⟩)
  · have apart : w ∉ (flagged t).map Prod.fst := fun mem => finished ((mem_flagged inv w).mp mem).2
    rw [if_neg apart, ← Std.TreeMap.mem_iff_isSome_getElem?, mem_clientThreads inv finished]
    exact (and_iff_left finished).symm

theorem foldl_join_frame (pairs : List (Nat × Entry)) (t : System) :
    (pairs.foldl join t).mainLoop = t.mainLoop ∧ (pairs.foldl join t).started = t.started ∧
      (pairs.foldl join t).finished = t.finished ∧
      (pairs.foldl join t).destroyTFTPServer = t.destroyTFTPServer := by
  induction pairs generalizing t with
  | nil => exact ⟨rfl, rfl, rfl, rfl⟩
  | cons pair pairs ih =>
    obtain ⟨mainLoop, started, finished, down⟩ := ih (join t pair)
    have one : (join t pair).mainLoop = t.mainLoop ∧ (join t pair).started = t.started ∧
        (join t pair).finished = t.finished ∧
        (join t pair).destroyTFTPServer = t.destroyTFTPServer := by
      unfold join
      split <;> exact ⟨rfl, rfl, rfl, rfl⟩
    exact ⟨mainLoop.trans one.1, started.trans one.2.1, finished.trans one.2.2.1,
      down.trans one.2.2.2⟩

theorem scanned_stored (t : System) (w : Nat) : Stored (scanned t) w ↔ Stored t w := by
  obtain ⟨mainLoop, started, _⟩ := foldl_join_frame (flagged t) t
  simp only [Stored, scanned, mainLoop, started]

/-- Behind a scan exactly the finished threads are joined. -/
theorem scan_joins {t : System} (inv : Inv t) (w : Nat) :
    some w ∈ (scanned t).joins ↔ Stored t w ∧ w ∈ t.finished := by
  have after := scanned_inv inv
  have same : (scanned t).finished = t.finished := (foldl_join_frame (flagged t) t).2.2.1
  constructor
  · intro mem
    obtain ⟨v, finished, equal⟩ := after.joined _ mem
    obtain rfl := Option.some.inj equal
    rw [same] at finished
    refine ⟨(scanned_stored t w).mp ⟨after.finished w (same ▸ finished), fun storing => ?_⟩,
      finished⟩
    exact (after.pending w storing).2.2.2 mem
  · rintro ⟨stored, finished⟩
    by_contra unjoined
    obtain ⟨entry, value⟩ := after.stored w ((scanned_stored t w).mpr stored) unjoined
    have kept : w ∈ (scanned t).clientThreads := by
      rw [Std.TreeMap.mem_iff_isSome_getElem?, value]
      rfl
    exact ((scan_keeps inv w).mp kept).2 finished

/-- The thread that the final loop has not seen, if there is one. -/
structure Closing (t : System) (last : Option Nat) : Prop where
  down : t.destroyTFTPServer = true
  others : ∀ w ∈ t.started, some w ∈ t.joins ∨ last = some w
  receiving : t.mainLoop = .receiving → last = none
  storing : ∀ w, t.mainLoop = .storing w → last = some w

theorem shutDown_closing {t : System} (inv : Inv t) (down : t.destroyTFTPServer = true)
    (over_ : ∀ pair ∈ t.clientThreads.toList, ∀ w, pair.2.thread = some w → w ∈ t.finished) :
    ∃ last, Closing (shutDown t) last := by
  obtain ⟨mainLoop, started, _, still⟩ := foldl_join_frame t.clientThreads.toList t
  have after := shutDown_inv inv over_
  have seen : ∀ w ∈ (shutDown t).started, (shutDown t).mainLoop ≠ .storing w →
      some w ∈ (shutDown t).joins := by
    intro w mem stored
    by_contra unjoined
    obtain ⟨entry, value⟩ := after.stored w ⟨mem, stored⟩ unjoined
    rw [shutDown, Std.TreeMap.getElem?_emptyc] at value
    cases value
  by_cases pending : ∃ v, (shutDown t).mainLoop = .storing v
  · obtain ⟨v, place⟩ := pending
    refine ⟨some v, still.trans down, fun w mem => ?_, fun other => ?_, fun w same => ?_⟩
    · by_cases last : v = w
      · exact Or.inr (congrArg some last)
      · refine Or.inl (seen w mem ?_)
        rw [place]
        exact fun same => last (MainLoop.storing.inj same)
    · cases place.symm.trans other
    · exact congrArg some (MainLoop.storing.inj (place.symm.trans same))
  · refine ⟨none, still.trans down, fun w mem => Or.inl (seen w mem ?_), fun _ => rfl, ?_⟩
    · exact fun same => pending ⟨w, same⟩
    · exact fun w same => absurd ⟨w, same⟩ pending

theorem Closing.ends {t t' : System} {last : Option Nat} (before : Closing t last)
    (down : t'.destroyTFTPServer = t.destroyTFTPServer) (started : t'.started = t.started)
    (joins : t'.joins = t.joins) (head : t'.mainLoop = .head) : Closing t' last where
  down := down.trans before.down
  others := by
    rw [started, joins]
    exact before.others
  receiving := fun other => by cases head.symm.trans other
  storing := fun w other => by cases head.symm.trans other

/-- Behind the final loop the main loop ends its turn, and begins no other one. -/
theorem step_closing {t : System} {a : Action} (enabled : Enabled t a) (inv : Inv t)
    (closing : t.destroyer = .done → ∃ last, Closing t last)
    (done : (step t a).destroyer = .done) : ∃ last, Closing (step t a) last := by
  obtain ⟨_, able⟩ := enabled
  cases a with
  | signal =>
    obtain ⟨last, before⟩ := closing done
    exact ⟨last, { before with down := rfl }⟩
  | listen =>
    obtain ⟨last, before⟩ := closing done
    cases able.2.symm.trans before.down
  | ignore =>
    obtain ⟨last, before⟩ := closing done
    exact ⟨last, before.ends rfl rfl rfl rfl⟩
  | reject =>
    obtain ⟨last, before⟩ := closing done
    exact ⟨last, before.ends rfl rfl rfl rfl⟩
  | create =>
    obtain ⟨last, before⟩ := closing done
    refine ⟨some (9800 + t.nextClientId), before.down, fun w mem => ?_,
      fun other => (by cases other), fun w same => congrArg some (MainLoop.storing.inj same)⟩
    rcases List.mem_append.mp mem with old | new
    · refine (before.others w old).imp_right fun same => ?_
      rw [before.receiving able] at same
      cases same
    · exact Or.inr (congrArg some (List.mem_singleton.mp new).symm)
  | store =>
    obtain ⟨w, storing⟩ := able
    simp only [step, storing] at done ⊢
    obtain ⟨last, before⟩ := closing done
    exact ⟨last, before.ends rfl rfl rfl rfl⟩
  | finish w =>
    obtain ⟨last, before⟩ := closing done
    exact ⟨last, before.down, before.others, before.receiving, before.storing⟩
  | check =>
    simp only [step] at done ⊢
    split at done
    · rename_i down
      rw [if_pos down]
      exact shutDown_closing inv down (able.2 down)
    · cases done
  | scan => cases done

theorem run_closing {acts : List Action} {t : System}
    (run : Run (machine.restrict Orderly) start acts t) :
    Inv t ∧ (t.destroyer = .done → ∃ last, Closing t last) := by
  refine run.invariant (P := fun t => Inv t ∧ (t.destroyer = .done → ∃ last, Closing t last))
    (fun u a enabled kept => ?_) ⟨start_inv, fun done => by cases done⟩
  exact ⟨step_inv u a enabled kept.1, step_closing enabled.1 kept.1 kept.2⟩

/-- Where threads set their flags behind the stores of their pairs: no thread is joined twice
or while it works; a scan joins all that have finished and leaves exactly the others in the
map; and in the end all threads but one at most have been joined. -/
theorem threads_accounted {acts : List Action} {t : System}
    (run : Run (machine.restrict Orderly) start acts t) :
    t.joins.Nodup ∧ (∀ thread ∈ t.joins, ∃ w ∈ t.finished, thread = some w) ∧
      (t.destroyer = .sleeping → ∀ w,
        (some w ∈ (step t .scan).joins ↔ Stored t w ∧ w ∈ t.finished) ∧
          (w ∈ (step t .scan).clientThreads ↔ Stored t w ∧ w ∉ t.finished)) ∧
      (t.destroyer = .done → ∀ v ∈ t.started, ∀ w ∈ t.started,
        some v ∉ t.joins → some w ∉ t.joins → v = w) := by
  obtain ⟨inv, closing⟩ := run_closing run
  refine ⟨inv.once, inv.joined, fun _ w => ⟨scan_joins inv w, scan_keeps inv w⟩, ?_⟩
  intro done v mem w mem' unjoined unjoined'
  obtain ⟨last, closed⟩ := closing done
  have first := (closed.others v mem).resolve_left unjoined
  have second := (closed.others w mem').resolve_left unjoined'
  exact Option.some.inj (first.symm.trans second)

/-- A request that comes in while the server goes down. -/
def late : System := step (step (step (step start .listen) .signal) .check) .create

theorem threads_accounted_late : 9801 ∈ late.started ∧ some 9801 ∉ late.joins ∧
    ∀ w ∈ late.started, some w ∉ late.joins → w = 9801 := by
  have listening : Run (machine.restrict Orderly) start ([] ++ [.listen]) (step start .listen) :=
    .snoc (.refl start) ⟨⟨rfl, rfl, rfl⟩, trivial⟩
  have closing : Run (machine.restrict Orderly) start ([] ++ [.listen] ++ [.signal] ++ [.check])
      (step (step (step start .listen) .signal) .check) := by
    refine .snoc (a := Action.check)
      (.snoc (a := Action.signal) listening ⟨⟨rfl, trivial⟩, trivial⟩)
      ⟨⟨rfl, rfl, fun _ pair mem => ?_⟩, trivial⟩
    cases mem
  have number : 9800 + (step (step (step start .listen) .signal) .check).nextClientId < 2 ^ 31 := by
    decide
  have run : Run (machine.restrict Orderly) start
      ([] ++ [.listen] ++ [.signal] ++ [.check] ++ [.create]) late :=
    .snoc (a := Action.create) closing ⟨⟨by decide, by decide⟩, number⟩
  obtain ⟨_, _, _, last⟩ := threads_accounted run
  have here : 9801 ∈ late.started := by decide
  have alone : some 9801 ∉ late.joins := by decide
  exact ⟨here, alone, fun w mem unjoined => last (by decide) w mem 9801 here unjoined alone⟩

end TFTP.ThreadAccounts
