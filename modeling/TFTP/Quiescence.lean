import TFTP.Patience
import TFTP.ReaderCounts

/-!
# When the network falls silent

Nothing but timeouts reaches the threads any more. Each of them is left after five of them at
most, no name and no file changes meanwhile, and in the end nobody reads: whatever is
registered can be deleted.
-/

namespace TFTP.Quiescence

open Octets Packet Sockets FileSystem Runs Server

/-- How many timeouts in a row the thread can still bear. -/
def patience : Handler → Nat
  | .reading _ _ loop => loop.retry
  | .writing _ _ _ loop => loop.retry
  | .listing _ loop => loop.retry
  | _ => 0

/-- A thread between two receive calls is in its loop, which has some patience left. -/
def Waits : Handler → Prop
  | .reading _ _ loop => loop.status = .sending ∧ 0 < loop.retry ∧ loop.retry ≤ maxRetry
  | .writing _ _ _ loop => loop.status = .receiving ∧ 0 < loop.retry ∧ loop.retry ≤ maxRetry
  | .listing _ loop => loop.status = .sending ∧ 0 < loop.retry ∧ loop.retry ≤ maxRetry
  | _ => True

theorem patience_le {h : Handler} (waits : Waits h) :
    patience h ≤ if h.active then maxRetry else 0 := by
  cases h with
  | reading filename client loop => exact waits.2.2
  | writing filename client inode loop => exact waits.2.2
  | listing client loop => exact waits.2.2
  | done => exact Nat.le_refl 0
  | undefined => exact Nat.le_refl 0

theorem afterRead_waits (shared : Shared) (filename : Name) (client : Addr)
    (turn : SendLoop × List Effect)
    (loop : turn.1.status = .sending → 0 < turn.1.retry ∧ turn.1.retry ≤ maxRetry) :
    Waits (afterRead shared filename client turn).handler := by
  unfold afterRead
  split
  · rename_i live
    exact ⟨live, loop live⟩
  · trivial

theorem afterList_waits (shared : Shared) (client : Addr) (accesses : List Access)
    (turn : SendLoop × List Effect)
    (loop : turn.1.status = .sending → 0 < turn.1.retry ∧ turn.1.retry ≤ maxRetry) :
    Waits (afterList shared client accesses turn).handler := by
  simp only [afterList]
  split
  · rename_i live
    exact ⟨live, loop live⟩
  · trivial

theorem sendTop_waits (m : Manner) (client : Addr) (file : Option (List UInt8)) (io : LocalIO)
    (ackBuffer : Buffer 4) : 0 < (sendTop m client file io (.start ackBuffer)).1.retry ∧
      (sendTop m client file io (.start ackBuffer)).1.retry ≤ maxRetry := by
  rw [Patience.Server.sendTop_retry]
  exact ⟨(by decide : 0 < maxRetry), Nat.le_refl maxRetry⟩

theorem begin_waits (shared : Shared) (client : Addr) (ackBuffer : Buffer 4) (env : Environment)
    (r : Request) : Waits (begin shared client ackBuffer env r).handler := by
  cases r with
  | read filename =>
    simp only [begin, handleReadRequest]
    split
    · exact afterRead_waits _ _ _ _ fun _ => sendTop_waits readManner client _ env.io ackBuffer
    · trivial
  | write filename =>
    rcases handleWriteRequest_cases shared filename client env with
      ⟨done, _⟩ | ⟨disk, inode, _, _, writing, _⟩
    · simp only [begin, done]
      trivial
    · simp only [begin, writing]
      exact ⟨rfl, by decide, Nat.le_refl maxRetry⟩
  | delete filename =>
    simp only [begin, handleDeleteRequest_done]
    trivial
  | list =>
    simp only [begin, handleLSRequest]
    split
    · trivial
    · exact afterList_waits _ _ _ _ fun _ => sendTop_waits listManner client _ env.io ackBuffer

/-- A turn leaves the loop or leaves some patience, less of it behind a timeout. -/
structure Spent (e : Recv) (before : Nat) (h : Handler) : Prop where
  waits : Waits h
  less : e = .timeout → h.active → patience h < before

theorem send_spent (m : Manner) (client : Addr) (file : Option (List UInt8)) {loop : SendLoop}
    (e : Recv) (io : LocalIO) (live : loop.status = .sending) (some_left : 0 < loop.retry)
    (within : loop.retry ≤ maxRetry)
    (again : (sendStep m client file loop e io).1.status = .sending) :
    0 < (sendStep m client file loop e io).1.retry ∧
      (sendStep m client file loop e io).1.retry ≤ maxRetry ∧
      (e = .timeout → (sendStep m client file loop e io).1.retry < loop.retry) := by
  obtain ⟨left, bound, less⟩ := (Patience.Server.patientSend m client file).kept
    (decide_eq_true live) some_left within (e, io) (decide_eq_true again)
  exact ⟨left, bound, fun silent => less (by rw [silent]; rfl)⟩

theorem advance_spent (shared : Shared) (e : Recv) (env : Environment) {h : Handler}
    (waits : Waits h) : Spent e (patience h) (advance shared e env h).handler := by
  cases h with
  | reading filename client loop =>
    obtain ⟨live, some_left, within⟩ := waits
    have spent := send_spent readManner client (contentAt shared env (filePath filename)) e env.io
      live some_left within
    refine ⟨afterRead_waits _ _ _ _ fun again => ⟨(spent again).1, (spent again).2.1⟩, ?_⟩
    simp only [advance, readTurn, afterRead]
    split
    · rename_i again
      exact fun silent _ => (spent again).2.2 silent
    · exact fun _ active => by cases active
  | writing filename client inode loop =>
    obtain ⟨live, some_left, within⟩ := waits
    have spent := (Patience.Server.patientWrite client).kept (s := loop) (decide_eq_true live)
      some_left within (e, env.io)
    simp only [advance, writeTurn]
    split
    · rename_i again
      obtain ⟨left, bound, less⟩ := spent (decide_eq_true again)
      exact ⟨⟨again, left, bound⟩, fun silent _ => less (by rw [silent]; rfl)⟩
    · exact ⟨trivial, fun _ active => (by cases active)⟩
    · exact ⟨trivial, fun _ active => (by cases active)⟩
  | listing client loop =>
    obtain ⟨live, some_left, within⟩ := waits
    have spent := send_spent listManner client (contentAt shared env lsPath) e env.io live
      some_left within
    refine ⟨afterList_waits _ _ _ _ fun again => ⟨(spent again).1, (spent again).2.1⟩, ?_⟩
    simp only [advance, listTurn, afterList]
    split
    · rename_i again
      exact fun silent _ => (spent again).2.2 silent
    · exact fun _ active => by cases active
  | done => exact ⟨trivial, fun _ active => (by cases active)⟩
  | undefined => exact ⟨trivial, fun _ active => (by cases active)⟩

def AllWait (s : State) : Prop := ∀ h ∈ s.handlers, Waits h

theorem step_waits (s : State) (a : Action) (enabled : Enabled s a) (all : AllWait s) :
    AllWait (step s a) := by
  intro h mem
  cases a with
  | request r client ackBuffer env =>
    rcases List.mem_append.mp mem with old | new
    · exact all h old
    · rw [List.mem_singleton.mp new]
      exact begin_waits s.shared client ackBuffer env r
  | turn i e env =>
    obtain ⟨before, entry, _⟩ := enabled.2
    rcases List.mem_or_eq_of_mem_set mem with old | new
    · exact all h old
    · rw [new, turnOf_turn entry]
      exact (advance_spent s.shared e env (all before (List.mem_of_getElem? entry))).waits

/-- Nothing but timeouts. -/
def silence : Machine State Action :=
  machine.restrict fun _ a => ∃ i env, a = .turn i .timeout env

/-- A silent turn stores nothing and ends in order. -/
theorem silent_turn (shared : Shared) (env : Environment) {h : Handler} (waits : Waits h) :
    (advance shared .timeout env h).shared.disk = shared.disk ∧
      ((advance shared .timeout env h).shared.files = shared.files ∨
        ∃ filename client loop, h = .reading filename client loop ∧
          (advance shared .timeout env h).shared.files =
            addReaders shared.files filename (-1)) ∧
      (h ≠ .undefined → (advance shared .timeout env h).handler ≠ .undefined) := by
  cases h with
  | reading filename client loop =>
    simp only [advance, readTurn, afterRead]
    split
    · simp
    · exact ⟨rfl, Or.inr ⟨filename, client, loop, rfl, rfl⟩, by simp⟩
  | writing filename client inode loop =>
    have live := waits.1
    have same : (writeStep client loop .timeout env.io).1.status ≠ .received ∧
        (writeStep client loop .timeout env.io).1.status ≠ .undefined := by
      simp only [writeStep]
      split <;> simp [live]
    simp only [advance, writeTurn, same.1, if_false]
    refine ⟨by simp [writeStep, writes], Or.inl trivial, fun _ => ?_⟩
    split
    · simp
    · rename_i damaged
      exact absurd damaged same.2
    · simp
  | listing client loop =>
    simp only [advance, listTurn, afterList]
    split <;> simp
  | done => exact ⟨rfl, Or.inl rfl, fun _ => by simp [advance]⟩
  | undefined => exact ⟨rfl, Or.inl rfl, fun sound => absurd rfl sound⟩

/-- What a silent network leaves as it was. -/
structure Still (s t : State) : Prop where
  disk : t.shared.disk = s.shared.disk
  names : ∀ f, f ∈ t.shared.files ↔ f ∈ s.shared.files
  sound : .undefined ∉ t.handlers

def total (s : State) : Nat := (s.handlers.map patience).sum

theorem total_set {handlers : List Handler} {i : Nat} {before : Handler}
    (entry : handlers[i]? = some before) (h : Handler) :
    ((handlers.set i h).map patience).sum + patience before =
      (handlers.map patience).sum + patience h := by
  induction handlers generalizing i with
  | nil => cases entry
  | cons first rest ih =>
    cases i with
    | zero =>
      obtain rfl : first = before := Option.some.inj entry
      simp only [List.set_cons_zero, List.map_cons, List.sum_cons]
      omega
    | succ i =>
      have tail := ih (i := i) entry
      simp only [List.set_cons_succ, List.map_cons, List.sum_cons]
      omega

theorem total_le {s : State} (all : AllWait s) :
    total s ≤ maxRetry * s.handlers.countP Handler.active := by
  obtain ⟨shared, handlers⟩ := s
  simp only [total, AllWait] at all ⊢
  induction handlers with
  | nil => exact Nat.zero_le _
  | cons h rest ih =>
    have bound := patience_le (all h List.mem_cons_self)
    have others := ih fun h mem => all h (List.mem_cons_of_mem _ mem)
    rw [List.map_cons, List.sum_cons, List.countP_cons]
    cases active : h.active with
    | true =>
      rw [active, if_pos rfl] at bound
      rw [if_pos rfl, Nat.mul_succ]
      omega
    | false =>
      rw [active, if_neg Bool.false_ne_true] at bound
      rw [if_neg Bool.false_ne_true, Nat.add_zero]
      omega

/-- How far a silent run has come from `s`. -/
structure Silent (s t : State) (turns : Nat) : Prop where
  still : Still s t
  all : AllWait t
  counts : ReaderCounts.Exact t
  spent : turns + total t ≤ total s

theorem Silent.turn {s t : State} {turns : Nat} (silent : Silent s t turns) {a : Action}
    (enabled : silence.enabled t a) : Silent s (step t a) (turns + 1) := by
  obtain ⟨enabled, i, env, rfl⟩ := enabled
  obtain ⟨before, entry, active⟩ := enabled.2
  have mem : before ∈ t.handlers := List.mem_of_getElem? entry
  have waits := silent.all before mem
  obtain ⟨disk, names, sound⟩ := silent_turn t.shared env waits
  have turn := turnOf_turn entry .timeout env
  refine ⟨⟨?_, fun f => ?_, ?_⟩, step_waits t _ enabled silent.all,
    ReaderCounts.step_exact t _ enabled silent.counts, ?_⟩
  · simp only [step, turn]
    exact disk.trans silent.still.disk
  · simp only [step, turn]
    rw [← silent.still.names f]
    rcases names with same | ⟨filename, client, loop, rfl, fewer⟩
    · rw [same]
    · have one : 0 < ReaderCounts.readers filename t.handlers :=
        List.countP_pos_iff.mpr ⟨_, mem, by simp [ReaderCounts.reads]⟩
      have listed := (silent.counts filename).2 (Int.ofNat_lt.mpr one)
      rw [fewer, mem_addReaders]
      exact or_iff_right_of_imp fun same => same ▸ listed
  · simp only [step, turn]
    intro damaged
    rcases List.mem_or_eq_of_mem_set damaged with old | new
    · exact silent.still.sound old
    · exact sound (fun was => silent.still.sound (was ▸ mem)) new.symm
  · have sum := total_set entry (advance t.shared .timeout env before).handler
    have less : patience (advance t.shared .timeout env before).handler < patience before := by
      have spent := advance_spent t.shared .timeout env waits
      cases again : (advance t.shared .timeout env before).handler.active with
      | true => exact spent.less rfl again
      | false =>
        have left := patience_le spent.waits
        rw [again, if_neg Bool.false_ne_true] at left
        have some_left : 0 < patience before := by
          cases before with
          | reading filename client loop => exact waits.2.1
          | writing filename client inode loop => exact waits.2.1
          | listing client loop => exact waits.2.1
          | done => cases active
          | undefined => cases active
        omega
    have bound := silent.spent
    simp only [total, step, turn] at bound ⊢
    omega

/-- Nobody reads, and what lies on the disk can be deleted. -/
structure Quiet (t : State) : Prop where
  idle : ∀ h ∈ t.handlers, h = .done
  unread : ∀ f ∈ t.shared.files, t.shared.files[f]? = some 0
  deletable : ∀ f ∈ t.shared.files, t.shared.disk.entries (resolve (filePath f)) ≠ none →
    ∀ client env, env.existsThrows = false → env.removeThrows = false →
      ReaderCounts.Acknowledged client (handleDeleteRequest t.shared f client env)

theorem Silent.quiet {s t : State} {turns : Nat} (silent : Silent s t turns)
    (stuck : ∀ a, ¬ silence.enabled t a) : Quiet t := by
  have idle : ∀ h ∈ t.handlers, h = .done := by
    intro h mem
    obtain ⟨i, entry⟩ := List.getElem?_of_mem mem
    have inactive : ¬ h.active := fun active =>
      stuck (.turn i .timeout .ok) ⟨⟨silent.still.sound, h, entry, active⟩, i, .ok, rfl⟩
    cases h with
    | reading filename client loop => exact absurd rfl inactive
    | writing filename client inode loop => exact absurd rfl inactive
    | listing client loop => exact absurd rfl inactive
    | done => rfl
    | undefined => exact absurd mem silent.still.sound
  have unread : ∀ f ∈ t.shared.files, t.shared.files[f]? = some 0 := by
    intro f listed
    have nobody : ReaderCounts.readers f t.handlers = 0 :=
      List.countP_eq_zero.mpr fun h mem => by simp [idle h mem, ReaderCounts.reads]
    have count : t.shared.files.getD f 0 = (ReaderCounts.readers f t.handlers : Int) :=
      (silent.counts f).1
    rw [nobody, Std.TreeMap.getD_eq_getD_getElem?] at count
    cases entry : t.shared.files[f]? with
    | none =>
      rw [Std.TreeMap.mem_iff_isSome_getElem?, entry] at listed
      cases listed
    | some n =>
      rw [entry] at count
      exact congrArg some count
  refine ⟨idle, unread, fun f listed there client env exists_ remove => ?_⟩
  have free : canDelete f t.shared.files = true :=
    (ReaderCounts.canDelete_iff f t.shared.files).mpr (unread f listed)
  have present : (t.shared.disk.entries (resolve (filePath f))).isNone = false := by
    simpa [← Option.isSome_iff_ne_none] using there
  simp [ReaderCounts.Acknowledged, handleDeleteRequest, fileExists_iff.mpr listed, free, exists_,
    remove, present]

end TFTP.Quiescence
