import Std.Data.TreeMap.Lemmas
import Mathlib.Algebra.Group.Nat.Defs
import Mathlib.Data.List.Nodup
import TFTP.Library.Runs

/-!
# Threads and their completion flags

The main loop creates a thread and then stores it in `clientThreads` with a flag that is
false; the thread sets the flag when its work is done; a third thread joins what is flagged,
and in the end everything. The map has no lock: the steps are taken to be atomic here, in
any order. `operator[]` makes an entry with an empty thread where there is none, and `join`
on a thread that is empty or joined already throws, which nobody catches.
-/

namespace TFTP.WorkerThreads

open Runs

/-- `std::tuple<std::thread, bool>`; a thread is told by its number, an empty one by `none`. -/
structure Entry where
  thread : Option Nat
  completed : Bool
  deriving DecidableEq, Repr

inductive MainLoop where
  | head
  | receiving
  | storing (clientId : Nat)
  deriving DecidableEq, Repr

inductive Destroyer where
  | checking
  | sleeping
  | done
  deriving DecidableEq, Repr

/-- Nothing is promised once an `int` has overflowed. -/
inductive Life where
  | up
  | terminated
  | undefined
  deriving DecidableEq, Repr

/-- `joins` tells the threads that `join` was called on. -/
structure System where
  nextClientId : Nat
  mainLoop : MainLoop
  destroyer : Destroyer
  destroyTFTPServer : Bool
  clientThreads : Std.TreeMap Nat Entry
  started : List Nat
  finished : List Nat
  joins : List (Option Nat)
  life : Life

def start : System := ⟨1, .head, .checking, false, ∅, [], [], [], .up⟩

/-- `ignore` is a turn of the main loop that uses no number, and `reject` one that refuses
the mode of a request after it has used one. `finish` sets the flag of a thread. -/
inductive Action where
  | signal
  | listen
  | ignore
  | reject
  | create
  | store
  | finish (clientId : Nat)
  | check
  | scan
  deriving DecidableEq, Repr

/-- The final loop waits in `join` for threads that still work. -/
def Enabled (t : System) (a : Action) : Prop :=
  t.life = .up ∧
    match a with
    | .signal => True
    | .listen => t.mainLoop = .head ∧ t.destroyTFTPServer = false
    | .ignore => t.mainLoop = .receiving
    | .reject => t.mainLoop = .receiving
    | .create => t.mainLoop = .receiving
    | .store => ∃ clientId, t.mainLoop = .storing clientId
    | .finish clientId => clientId ∈ t.started ∧ clientId ∉ t.finished
    | .check => t.destroyer = .checking ∧ (t.destroyTFTPServer = true →
        ∀ pair ∈ t.clientThreads.toList, ∀ w, pair.2.thread = some w → w ∈ t.finished)
    | .scan => t.destroyer = .sleeping

/-- `9800 + nextClientId++`. -/
def takeNumber (t : System) : System :=
  { t with
    nextClientId := t.nextClientId + 1
    life := if 9800 + t.nextClientId < 2 ^ 31 then t.life else .undefined }

/-- `clientThreads[clientId] = std::make_tuple(std::thread(...), false)`. -/
def storePair (t : System) (clientId : Nat) : System :=
  { t with
    mainLoop := .head
    clientThreads := t.clientThreads.insert clientId ⟨some clientId, false⟩
    life := if (t.clientThreads[clientId]?.bind Entry.thread).isSome then .terminated
      else t.life }

/-- `std::get<1>(clientThreads[clientId]) = true`. -/
def setFlag (t : System) (clientId : Nat) : System :=
  { t with
    clientThreads := t.clientThreads.insert clientId
      { t.clientThreads.getD clientId ⟨none, false⟩ with completed := true }
    finished := t.finished ++ [clientId] }

def join (t : System) (pair : Nat × Entry) : System :=
  if t.life = .up then
    { t with
      joins := t.joins ++ [pair.2.thread]
      life := if pair.2.thread = none ∨ pair.2.thread ∈ t.joins then .terminated else .up }
  else t

/-- The entries that a scan finds flagged. -/
def flagged (t : System) : List (Nat × Entry) :=
  t.clientThreads.toList.filter fun pair => pair.2.completed

def erased (keyToDelete : List Nat) (clientThreads : Std.TreeMap Nat Entry) :
    Std.TreeMap Nat Entry :=
  keyToDelete.foldl (fun clientThreads value => clientThreads.erase value) clientThreads

def scanned (t : System) : System :=
  { (flagged t).foldl join t with
    clientThreads := erased ((flagged t).map Prod.fst) t.clientThreads
    destroyer := .checking }

def shutDown (t : System) : System :=
  { t.clientThreads.toList.foldl join t with
    clientThreads := ∅
    destroyer := .done }

def step (t : System) : Action → System
  | .signal => { t with destroyTFTPServer := true }
  | .listen => { t with mainLoop := .receiving }
  | .ignore => { t with mainLoop := .head }
  | .reject => { takeNumber t with mainLoop := .head }
  | .create =>
    { takeNumber t with
      mainLoop := .storing (9800 + t.nextClientId)
      started := t.started ++ [9800 + t.nextClientId] }
  | .store =>
    match t.mainLoop with
    | .storing clientId => storePair t clientId
    | _ => t
  | .finish clientId => setFlag t clientId
  | .check => if t.destroyTFTPServer then shutDown t else { t with destroyer := .sleeping }
  | .scan => scanned t

def machine : Machine System Action := ⟨Enabled, step⟩

/-- The thread's pair is in the map, or has been. -/
def Stored (t : System) (w : Nat) : Prop := w ∈ t.started ∧ t.mainLoop ≠ .storing w

/-- No completion is lost, and every `join` was called on a thread that was started and not
joined before. -/
structure Kept (t : System) : Prop where
  up : t.life = .up
  flags : ∀ w ∈ t.finished, Stored t w → some w ∉ t.joins →
    ∃ entry, t.clientThreads[w]? = some entry ∧ entry.completed = true
  joined : ∀ thread ∈ t.joins, ∃ w ∈ t.started, thread = some w
  once : t.joins.Nodup

/-- A thread sets its flag behind the store of its pair, and numbers stay in the range of
`int`. -/
def Orderly (t : System) : Action → Prop
  | .reject => 9800 + t.nextClientId < 2 ^ 31
  | .create => 9800 + t.nextClientId < 2 ^ 31
  | .finish clientId => t.mainLoop ≠ .storing clientId
  | _ => True

theorem getElem?_erased (keyToDelete : List Nat) (clientThreads : Std.TreeMap Nat Entry) (k : Nat) :
    (erased keyToDelete clientThreads)[k]? =
      if k ∈ keyToDelete then none else clientThreads[k]? := by
  induction keyToDelete generalizing clientThreads with
  | nil => rfl
  | cons value rest ih =>
    rw [erased, List.foldl_cons]
    refine (ih (clientThreads.erase value)).trans ?_
    rw [Std.TreeMap.getElem?_erase]
    simp only [Std.LawfulEqCmp.compare_eq_iff_eq, List.mem_cons]
    by_cases here : k ∈ rest
    · simp only [here, or_true, if_true]
    · by_cases same : value = k
      · simp only [same, true_or, if_true, ite_self]
      · simp only [here, Ne.symm same, same, or_false, if_false]

/-- Entries that hold their own threads, none of them joined, are joined without harm. -/
theorem foldl_join {t : System} (up : t.life = .up) {pairs : List (Nat × Entry)}
    (own : ∀ pair ∈ pairs, pair.2.thread = some pair.1 ∧ some pair.1 ∉ t.joins)
    (distinct : (pairs.map Prod.fst).Nodup) :
    pairs.foldl join t = { t with joins := t.joins ++ pairs.map fun pair => some pair.1 } := by
  induction pairs generalizing t with
  | nil => rw [List.foldl_nil, List.map_nil, List.append_nil]
  | cons pair pairs ih =>
    obtain ⟨thread, fresh⟩ := own pair List.mem_cons_self
    obtain ⟨new, rest⟩ := List.nodup_cons.mp distinct
    have harmless : ¬ (pair.2.thread = none ∨ pair.2.thread ∈ t.joins) := by
      rw [thread]
      rintro (empty | again)
      · cases empty
      · exact fresh again
    have joined : join t pair = { t with joins := t.joins ++ [some pair.1] } := by
      rw [join, if_pos up, if_neg harmless, thread, ← up]
    rw [List.foldl_cons, joined, ih]
    · simp only [List.map_cons, List.append_assoc, List.singleton_append]
    · exact up
    · intro other mem
      obtain ⟨thread', fresh'⟩ := own other (List.mem_cons_of_mem _ mem)
      refine ⟨thread', fun again => ?_⟩
      rcases List.mem_append.mp again with before | now
      · exact fresh' before
      · have same : other.1 = pair.1 := Option.some.inj (List.mem_singleton.mp now)
        exact new (same ▸ List.mem_map_of_mem mem)
    · exact rest

/-- Every entry holds its own thread, and is flagged when that thread has finished; every
pair that has been stored is in the map until its thread is joined. -/
structure Inv (t : System) : Prop where
  up : t.life = .up
  below : ∀ w ∈ t.started, w < 9800 + t.nextClientId
  finished : ∀ w ∈ t.finished, w ∈ t.started
  pending : ∀ w, t.mainLoop = .storing w →
    w ∈ t.started ∧ w ∉ t.finished ∧ t.clientThreads[w]? = none ∧ some w ∉ t.joins
  entries : ∀ (k : Nat) (entry : Entry), t.clientThreads[k]? = some entry →
    entry.thread = some k ∧ k ∈ t.started ∧ some k ∉ t.joins ∧
      (entry.completed = true ↔ k ∈ t.finished)
  stored : ∀ w, Stored t w → some w ∉ t.joins → ∃ entry, t.clientThreads[w]? = some entry
  joined : ∀ thread ∈ t.joins, ∃ w ∈ t.finished, thread = some w
  once : t.joins.Nodup

theorem Inv.kept {t : System} (inv : Inv t) : Kept t where
  up := inv.up
  flags := by
    intro w finished stored unjoined
    obtain ⟨entry, found⟩ := inv.stored w stored unjoined
    obtain ⟨_, _, _, flag⟩ := inv.entries w entry found
    exact ⟨entry, found, flag.mpr finished⟩
  joined := by
    intro thread mem
    obtain ⟨w, finished, same⟩ := inv.joined thread mem
    exact ⟨w, inv.finished w finished, same⟩
  once := inv.once

theorem Inv.unjoined {t : System} (inv : Inv t) {w : Nat} (unfinished : w ∉ t.finished) :
    some w ∉ t.joins := by
  intro mem
  obtain ⟨v, finished, same⟩ := inv.joined _ mem
  rw [Option.some.inj same] at unfinished
  exact unfinished finished

theorem start_inv : Inv start where
  up := rfl
  below := fun w mem => by cases mem
  finished := fun w mem => by cases mem
  pending := fun w storing => by cases storing
  entries := fun k entry found => by
    rw [start, Std.TreeMap.getElem?_emptyc] at found
    cases found
  stored := fun w stored => by cases stored.1
  joined := fun thread mem => by cases mem
  once := List.nodup_nil

theorem Inv.moved {t : System} (inv : Inv t) {m : MainLoop}
    (idle : ∀ w, t.mainLoop ≠ .storing w) (idle' : ∀ w, m ≠ .storing w) :
    Inv { t with mainLoop := m } where
  up := inv.up
  below := inv.below
  finished := inv.finished
  pending := fun w storing => absurd storing (idle' w)
  entries := inv.entries
  stored := fun w stored unjoined => inv.stored w ⟨stored.1, idle w⟩ unjoined
  joined := inv.joined
  once := inv.once

theorem Inv.numbered {t : System} (inv : Inv t) (bound : 9800 + t.nextClientId < 2 ^ 31) :
    Inv (takeNumber t) where
  up := by
    rw [takeNumber, if_pos bound]
    exact inv.up
  below := fun w mem => Nat.lt_succ_of_lt (inv.below w mem)
  finished := inv.finished
  pending := inv.pending
  entries := inv.entries
  stored := inv.stored
  joined := inv.joined
  once := inv.once

/-- A new thread has a number that nobody has had. -/
theorem create_inv {t : System} (inv : Inv t) (bound : 9800 + t.nextClientId < 2 ^ 31)
    (idle : ∀ w, t.mainLoop ≠ .storing w) : Inv (step t .create) := by
  have fresh : 9800 + t.nextClientId ∉ t.started := fun mem => Nat.lt_irrefl _ (inv.below _ mem)
  have numbered := inv.numbered bound
  constructor
  · exact numbered.up
  · intro w mem
    rcases List.mem_append.mp mem with old | new
    · exact numbered.below w old
    · rw [List.mem_singleton.mp new]
      exact Nat.lt_succ_self _
  · exact fun w mem => List.mem_append_left _ (inv.finished w mem)
  · intro w storing
    obtain rfl : 9800 + t.nextClientId = w := MainLoop.storing.inj storing
    have unfinished := fun mem => fresh (inv.finished _ mem)
    refine ⟨List.mem_append_right _ List.mem_cons_self, unfinished, ?_, inv.unjoined unfinished⟩
    by_contra some_
    obtain ⟨entry, found⟩ := Option.ne_none_iff_exists'.mp some_
    exact fresh (inv.entries _ entry found).2.1
  · intro k entry found
    obtain ⟨thread, started, rest⟩ := inv.entries k entry found
    exact ⟨thread, List.mem_append_left _ started, rest⟩
  · rintro w ⟨mem, other⟩ unjoined
    rcases List.mem_append.mp mem with old | new
    · exact inv.stored w ⟨old, idle w⟩ unjoined
    · exact absurd (congrArg MainLoop.storing (List.mem_singleton.mp new).symm) other
  · exact inv.joined
  · exact inv.once

theorem storePair_inv {t : System} (inv : Inv t) {w : Nat} (storing : t.mainLoop = .storing w) :
    Inv (storePair t w) := by
  obtain ⟨started, unfinished, absent, unjoined⟩ := inv.pending w storing
  have found : ∀ k : Nat, (storePair t w).clientThreads[k]? =
      if w = k then some ⟨some w, false⟩ else t.clientThreads[k]? := by
    intro k
    simp only [storePair, Std.TreeMap.getElem?_insert, Std.LawfulEqCmp.compare_eq_iff_eq]
  constructor
  · simp only [storePair, absent, Option.bind_none, Option.isSome_none]
    exact inv.up
  · exact inv.below
  · exact inv.finished
  · exact fun v other => by cases other
  · intro k entry here
    rw [found] at here
    split at here
    · rename_i same
      subst same
      obtain rfl := Option.some.inj here
      exact ⟨rfl, started, unjoined, iff_of_false Bool.false_ne_true unfinished⟩
    · exact inv.entries k entry here
  · rintro v ⟨mem, _⟩ unjoined'
    rw [found]
    split
    · exact ⟨_, rfl⟩
    · rename_i other
      refine inv.stored v ⟨mem, fun again => other ?_⟩ unjoined'
      exact MainLoop.storing.inj (storing.symm.trans again)
  · exact inv.joined
  · exact inv.once

theorem setFlag_inv {t : System} (inv : Inv t) {w : Nat} (started : w ∈ t.started)
    (unfinished : w ∉ t.finished) (orderly : t.mainLoop ≠ .storing w) : Inv (setFlag t w) := by
  have unjoined := inv.unjoined unfinished
  obtain ⟨own, present⟩ := inv.stored w ⟨started, orderly⟩ unjoined
  have found : ∀ k : Nat, (setFlag t w).clientThreads[k]? =
      if w = k then some { own with completed := true } else t.clientThreads[k]? := by
    intro k
    simp only [setFlag, Std.TreeMap.getElem?_insert, Std.LawfulEqCmp.compare_eq_iff_eq,
      Std.TreeMap.getD_eq_getD_getElem?, present, Option.getD_some]
  have finished : ∀ v, v ∈ (setFlag t w).finished ↔ v ∈ t.finished ∨ v = w := by
    intro v
    simp only [setFlag, List.mem_append, List.mem_singleton]
  constructor
  · exact inv.up
  · exact inv.below
  · intro v mem
    rcases (finished v).mp mem with old | rfl
    · exact inv.finished v old
    · exact started
  · intro v storing
    obtain ⟨started', unfinished', absent, unjoined'⟩ := inv.pending v storing
    have other : w ≠ v := fun same => orderly (same ▸ storing)
    refine ⟨started', fun mem => ?_, ?_, unjoined'⟩
    · exact ((finished v).mp mem).elim unfinished' (Ne.symm other)
    · rw [found, if_neg other]
      exact absent
  · intro k entry here
    rw [found] at here
    split at here
    · rename_i same
      subst same
      obtain rfl := Option.some.inj here
      obtain ⟨thread, _⟩ := inv.entries w own present
      exact ⟨thread, started, unjoined, iff_of_true rfl ((finished w).mpr (Or.inr rfl))⟩
    · rename_i other
      obtain ⟨thread, started', unjoined', flag⟩ := inv.entries k entry here
      refine ⟨thread, started', unjoined', flag.trans ?_⟩
      rw [finished]
      exact (or_iff_left (Ne.symm other)).symm
  · intro v stored unjoined'
    rw [found]
    split
    · exact ⟨_, rfl⟩
    · exact inv.stored v stored unjoined'
  · intro thread mem
    obtain ⟨v, over_, same⟩ := inv.joined thread mem
    exact ⟨v, List.mem_append_left _ over_, same⟩
  · exact inv.once

/-- Entries of finished threads are joined and leave the map. -/
theorem Inv.joinAll {t : System} (inv : Inv t) {pairs : List (Nat × Entry)}
    (here : ∀ pair ∈ pairs, t.clientThreads[pair.1]? = some pair.2)
    (over_ : ∀ pair ∈ pairs, pair.1 ∈ t.finished) (distinct : (pairs.map Prod.fst).Nodup)
    {clientThreads : Std.TreeMap Nat Entry} (left : ∀ k : Nat, clientThreads[k]? =
      if k ∈ pairs.map Prod.fst then none else t.clientThreads[k]?) (destroyer : Destroyer) :
    Inv { pairs.foldl join t with clientThreads, destroyer } := by
  have own : ∀ pair ∈ pairs, pair.2.thread = some pair.1 ∧ some pair.1 ∉ t.joins := by
    intro pair mem
    obtain ⟨thread, _, unjoined, _⟩ := inv.entries pair.1 pair.2 (here pair mem)
    exact ⟨thread, unjoined⟩
  have remains : ∀ (k : Nat) (entry : Entry), clientThreads[k]? = some entry →
      k ∉ pairs.map Prod.fst ∧ t.clientThreads[k]? = some entry := by
    intro k entry found
    rw [left] at found
    split at found
    · cases found
    · rename_i apart
      exact ⟨apart, found⟩
  have joined : ∀ k : Nat, some k ∈ t.joins ++ (pairs.map fun pair => some pair.1) ↔
      some k ∈ t.joins ∨ k ∈ pairs.map Prod.fst := by
    intro k
    simp only [List.mem_append, List.mem_map, Option.some.injEq]
  rw [foldl_join inv.up own distinct]
  constructor
  · exact inv.up
  · exact inv.below
  · exact inv.finished
  · intro w storing
    obtain ⟨started, unfinished, absent, unjoined⟩ := inv.pending w storing
    have apart : w ∉ pairs.map Prod.fst := by
      intro mem
      obtain ⟨pair, mem, same⟩ := List.mem_map.mp mem
      exact unfinished (same ▸ over_ pair mem)
    refine ⟨started, unfinished, ?_, fun mem => ?_⟩
    · rw [left, if_neg apart]
      exact absent
    · rcases (joined w).mp mem with before | now
      · exact unjoined before
      · exact apart now
  · intro k entry found
    obtain ⟨apart, found⟩ := remains k entry found
    obtain ⟨thread, started, unjoined, flag⟩ := inv.entries k entry found
    refine ⟨thread, started, fun mem => ?_, flag⟩
    rcases (joined k).mp mem with before | now
    · exact unjoined before
    · exact apart now
  · intro w stored unjoined
    obtain ⟨before, apart⟩ := not_or.mp ((joined w).not.mp unjoined)
    obtain ⟨entry, found⟩ := inv.stored w stored before
    refine ⟨entry, ?_⟩
    rw [left, if_neg apart]
    exact found
  · intro thread mem
    rcases List.mem_append.mp mem with before | now
    · exact inv.joined thread before
    · obtain ⟨pair, mem, same⟩ := List.mem_map.mp now
      exact ⟨pair.1, over_ pair mem, same.symm⟩
  · refine List.nodup_append.mpr ⟨inv.once, ?_, ?_⟩
    · have injective : Function.Injective (some : Nat → Option Nat) :=
        fun _ _ same => Option.some.inj same
      have mapped := distinct.map injective
      rw [List.map_map] at mapped
      exact mapped
    · rintro thread before thread' now rfl
      obtain ⟨pair, mem, same⟩ := List.mem_map.mp now
      exact (own pair mem).2 (same ▸ before)

theorem toList_distinct (clientThreads : Std.TreeMap Nat Entry) :
    (clientThreads.toList.map Prod.fst).Nodup := by
  rw [Std.TreeMap.map_fst_toList_eq_keys]
  exact Std.TreeMap.nodup_keys

theorem scanned_inv {t : System} (inv : Inv t) : Inv (scanned t) := by
  have here : ∀ pair ∈ flagged t, t.clientThreads[pair.1]? = some pair.2 := fun pair mem =>
    Std.TreeMap.mem_toList_iff_getElem?_eq_some.mp (List.mem_of_mem_filter mem)
  refine inv.joinAll here ?_ ?_ ?_ _
  · intro pair mem
    obtain ⟨_, _, _, flag⟩ := inv.entries pair.1 pair.2 (here pair mem)
    exact flag.mp (List.mem_filter.mp mem).2
  · exact (toList_distinct t.clientThreads).sublist (List.filter_sublist.map Prod.fst)
  · exact getElem?_erased _ t.clientThreads

theorem shutDown_inv {t : System} (inv : Inv t) (over_ : ∀ pair ∈ t.clientThreads.toList,
    ∀ w, pair.2.thread = some w → w ∈ t.finished) : Inv (shutDown t) := by
  have here : ∀ pair ∈ t.clientThreads.toList, t.clientThreads[pair.1]? = some pair.2 :=
    fun pair mem => Std.TreeMap.mem_toList_iff_getElem?_eq_some.mp mem
  refine inv.joinAll here ?_ (toList_distinct t.clientThreads) ?_ _
  · intro pair mem
    exact over_ pair mem pair.1 (inv.entries pair.1 pair.2 (here pair mem)).1
  · intro k
    rw [Std.TreeMap.getElem?_emptyc]
    split
    · rfl
    · rename_i apart
      cases found : t.clientThreads[k]? with
      | none => rfl
      | some entry =>
        have mem := Std.TreeMap.mem_toList_iff_getElem?_eq_some.mpr found
        exact absurd (List.mem_map_of_mem (f := Prod.fst) mem) apart

theorem step_inv (t : System) (a : Action) (enabled : (machine.restrict Orderly).enabled t a)
    (inv : Inv t) : Inv (step t a) := by
  obtain ⟨⟨_, able⟩, orderly⟩ := enabled
  have receiving : t.mainLoop = .receiving → ∀ w, t.mainLoop ≠ .storing w := by
    intro at_ w storing
    cases at_.symm.trans storing
  cases a with
  | signal => exact { inv with }
  | listen =>
    refine inv.moved (fun w storing => ?_) fun w other => by cases other
    cases able.1.symm.trans storing
  | ignore => exact inv.moved (receiving able) fun w other => by cases other
  | reject =>
    exact (inv.numbered orderly).moved (receiving able) fun w other => by cases other
  | create => exact create_inv inv orderly (receiving able)
  | store =>
    obtain ⟨w, storing⟩ := able
    simp only [step, storing]
    exact storePair_inv inv storing
  | finish w => exact setFlag_inv inv able.1 able.2 orderly
  | check =>
    simp only [step]
    split
    · rename_i down
      exact shutDown_inv inv (able.2 down)
    · exact { inv with }
  | scan => exact scanned_inv inv

theorem run_inv {acts : List Action} {t : System}
    (run : Run (machine.restrict Orderly) start acts t) : Inv t :=
  run.invariant step_inv start_inv

/-- In a run where every thread sets its flag behind the store of its pair, nothing is lost
in any state. -/
theorem completions_kept {acts : List Action} {t : System}
    (run : Run (machine.restrict Orderly) start acts t) : Kept t :=
  (run_inv run).kept

/-- The main loop and the first thread, whose number is 9801. -/
def created : System := step (step start .listen) .create

theorem created_run : Run (machine.restrict Orderly) start [.listen, .create] created := by
  have empty : Run (machine.restrict Orderly) start [] start := .refl start
  have listening : Run (machine.restrict Orderly) start [.listen] (step start .listen) :=
    empty.snoc (a := Action.listen) ⟨⟨rfl, rfl, rfl⟩, trivial⟩
  have number : 9800 + (step start .listen).nextClientId < 2 ^ 31 := by decide
  exact listening.snoc (a := Action.create) ⟨⟨rfl, rfl⟩, number⟩

theorem completions_kept_joined :
    Kept (step (step (step (step created .store) (.finish 9801)) .check) .scan) := by
  have apart : (step created .store).mainLoop ≠ .storing 9801 := by decide
  refine completions_kept (.snoc (a := Action.scan) (.snoc (a := Action.check)
    (.snoc (a := Action.finish 9801) (.snoc (a := Action.store) created_run ?_) ?_) ?_) ?_)
  · exact ⟨⟨by decide, 9801, rfl⟩, trivial⟩
  · exact ⟨⟨by decide +kernel, by decide, by decide⟩, apart⟩
  · exact ⟨⟨by decide +kernel, by decide, fun down => by cases down⟩, trivial⟩
  · exact ⟨⟨by decide +kernel, by decide⟩, trivial⟩

/-- The first step out of order loses something: a number outside of `int` at once, and a
flag set too early when the main loop stores its pair over it. -/
theorem disorder_loses {acts : List Action} {t : System} {a : Action}
    (run : Run (machine.restrict Orderly) start acts t) (enabled : Enabled t a)
    (disorderly : ¬ Orderly t a) :
    ∃ more u, Run machine start (acts ++ a :: more) u ∧ ¬ Kept u := by
  have inv := run_inv run
  have before : Run machine start (acts ++ [a]) (step t a) := .snoc run.unrestrict enabled
  have number : (a = .reject ∨ a = .create) → ¬ 9800 + t.nextClientId < 2 ^ 31 →
      ¬ Kept (step t a) := by
    rintro (rfl | rfl) over_ kept
    · have up := kept.up
      simp only [step, takeNumber, if_neg over_] at up
      cases up
    · have up := kept.up
      simp only [step, takeNumber, if_neg over_] at up
      cases up
  cases a with
  | reject => exact ⟨[], _, before, number (Or.inl rfl) disorderly⟩
  | create => exact ⟨[], _, before, number (Or.inr rfl) disorderly⟩
  | finish w =>
    have storing : t.mainLoop = .storing w := not_not.mp disorderly
    obtain ⟨started, _, _, unjoined⟩ := inv.pending w storing
    have next : step (step t (.finish w)) .store = storePair (setFlag t w) w := by
      simp only [step, setFlag, storing]
    refine ⟨[.store], step (step t (.finish w)) .store, ?_, fun kept => ?_⟩
    · rw [List.append_cons]
      exact .snoc before ⟨inv.up, w, storing⟩
    · rw [next] at kept
      obtain ⟨entry, found, flag⟩ := kept.flags w (List.mem_append_right _ List.mem_cons_self)
        ⟨started, fun other => by cases other⟩ unjoined
      simp only [storePair, Std.TreeMap.getElem?_insert_self, Option.some.injEq] at found
      rw [← found] at flag
      cases flag
  | signal => exact absurd trivial disorderly
  | listen => exact absurd trivial disorderly
  | ignore => exact absurd trivial disorderly
  | store => exact absurd trivial disorderly
  | check => exact absurd trivial disorderly
  | scan => exact absurd trivial disorderly

/-- The flag of thread 9801, set before its pair is stored: the pair is stored over it, or
a scan joins the empty thread of the entry that `operator[]` has made. -/
theorem early_flag : (∃ acts t, Run machine start acts t ∧ ¬ Kept t) ∧
    ∃ acts t, Run machine start acts t ∧ none ∈ t.joins ∧ t.life = .terminated := by
  have early : Enabled created (.finish 9801) := ⟨by decide, by decide, by decide⟩
  have run : Run machine start [.listen, .create] created := created_run.unrestrict
  constructor
  · obtain ⟨more, t, run, lost⟩ := disorder_loses created_run early fun later => later rfl
    exact ⟨_, t, run, lost⟩
  · refine ⟨_, step (step (step created (.finish 9801)) .check) .scan,
      .snoc (a := Action.scan) (.snoc (a := Action.check)
        (.snoc (a := Action.finish 9801) run early) ?_) ?_, ?_, ?_⟩
    · exact ⟨by decide, by decide, fun down => by cases down⟩
    · exact ⟨by decide, by decide⟩
    · decide +kernel
    · decide +kernel

end TFTP.WorkerThreads
