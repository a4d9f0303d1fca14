import TFTP.ClientLoops
import TFTP.Library.Patience
import TFTP.ServerLoops

/-!
# Five timeouts in a row

Every loop of the server and of the client winds its retry counter up at whatever it
receives and counts it down at a timeout. Each of them gives up at the fifth timeout in a
row and at no other moment.
-/

namespace TFTP.Patience

open Octets Packet Sockets Runs

def timedOut : Recv × LocalIO → Bool
  | (.timeout, _) => true
  | (.datagram _ _, _) => false

/-- A loop that winds its counter up at a datagram and down at a timeout, and is left when the
counter comes to 0. -/
def countdown {State : Type} (R : Reactor State (Recv × LocalIO) Effect) (retry : State → Nat)
    (exhausted : State → Prop) (stops : ∀ s, exhausted s → R.running s = false)
    (datagram : ∀ s src d io, R.running s = true →
      ¬ exhausted (R.react s (.datagram src d, io)).1 ∧
        retry (R.react s (.datagram src d, io)).1 = maxRetry)
    (timeout : ∀ s io, R.running s = true →
      (exhausted (R.react s (.timeout, io)).1 ↔ retry s - 1 = 0) ∧
        retry (R.react s (.timeout, io)).1 = retry s - 1) : Patient R maxRetry where
  silent := timedOut
  left := retry
  gaveUp := exhausted
  stops := stops
  restores := fun s e live heard => by
    obtain ⟨_ | ⟨src, d⟩, io⟩ := e
    · cases heard
    · exact (datagram s src d io live).imp_right fun full _ => full
  counts := fun s e live silent more => by
    obtain ⟨_ | ⟨src, d⟩, io⟩ := e
    · obtain ⟨left, fewer⟩ := timeout s io live
      exact ⟨fun gone => absurd (left.mp gone) (by omega), fun _ => fewer⟩
    · cases silent
  quits := fun s e live silent last => by
    obtain ⟨_ | ⟨src, d⟩, io⟩ := e
    · exact (timeout s io live).1.mpr (by omega)
    · cases silent

/-- A loop whose retry counter tells how many timeouts came last, and which is exhausted
behind the fifth in a row. -/
structure GivesUp {State : Type} (R : Reactor State (Recv × LocalIO) Effect) (s : State)
    (retry : State → Nat) (exhausted : State → Prop) : Prop where
  retry : ∀ es, R.running (R.feed s es).1 = true →
    retry (R.feed s es).1 + lull timedOut es = maxRetry
  exhausted : ∀ es, exhausted (R.feed s es).1 ↔ ∃ before e after, es = before ++ e :: after ∧
    R.running (R.feed s before).1 = true ∧ lull timedOut (before ++ [e]) = maxRetry

theorem givesUp {State : Type} {R : Reactor State (Recv × LocalIO) Effect}
    (P : Patient R maxRetry) (silent : P.silent = timedOut) {s : State}
    (start : P.left s = maxRetry) (fresh : ¬ P.gaveUp s) : GivesUp R s P.left P.gaveUp where
  retry := fun es live => silent ▸ (P.left_add_lull start (by decide) es live).2
  exhausted := fun es => silent ▸ P.gaveUp_iff start (by decide) fresh es

namespace Server

open TFTP.Server

theorem writeStep_restores (client : Addr) {s : WriteLoop} (src : Addr) (d : List UInt8)
    (io : LocalIO) (live : s.status = .receiving) :
    (writeStep client s (.datagram src d) io).1.status ≠ .exhausted ∧
      (writeStep client s (.datagram src d) io).1.retry = maxRetry := by
  have cap : ¬ received 516 d > 516 := Nat.not_lt.mpr (received_le 516 d)
  simp only [writeStep, cap, if_false]
  split_ifs <;> simp [live]

def patientWrite (client : Addr) : Patient (writeReactor client) maxRetry :=
  countdown (writeReactor client) WriteLoop.retry (·.status = .exhausted)
    (fun s gone => by simp [writeReactor, gone])
    (fun s src d io live => writeStep_restores client src d io (of_decide_eq_true live))
    fun s io live => by
      have live := of_decide_eq_true live
      simp only [writeReactor, writeStep]
      split_ifs with last <;> simp [live, last]

theorem sendTop_retry (m : Manner) (client : Addr) (file : Option (List UInt8)) (io : LocalIO)
    (s : SendLoop) : (sendTop m client file io s).1.retry = s.retry := by
  simp only [sendTop]
  split_ifs <;> rfl

theorem sendTop_going (m : Manner) (client : Addr) (file : Option (List UInt8)) (io : LocalIO)
    {s : SendLoop} (more : s.retry ≠ 0) (live : s.status = .sending) :
    (sendTop m client file io s).1.status ≠ .exhausted := by
  simp only [sendTop, more, if_false]
  split_ifs <;> simp [live]

theorem sendStep_restores (m : Manner) (client : Addr) (file : Option (List UInt8))
    {s : SendLoop} (src : Addr) (d : List UInt8) (io : LocalIO) (live : s.status = .sending) :
    (sendStep m client file s (.datagram src d) io).1.status ≠ .exhausted ∧
      (sendStep m client file s (.datagram src d) io).1.retry = maxRetry := by
  have cap : ¬ received 4 d > maxPacketSize :=
    Nat.not_lt.mpr (Nat.le_trans (received_le 4 d) (by decide))
  have full : maxRetry ≠ 0 := by decide
  by_cases reads : ackOpcodeAt (s.ackBuffer.fill d) = 4 ∧
      ackBlockNumberAt (s.ackBuffer.fill d) = s.blockNumber
  · rw [sendStep_ack m client file src io reads.1 reads.2]
    split
    · simp
    · exact ⟨sendTop_going m client file io full live, sendTop_retry m client file io _⟩
  · simp only [sendStep, cap, if_false, not_and_or.mp reads, if_true]
    exact ⟨sendTop_going m client file io full live, sendTop_retry m client file io _⟩

def patientSend (m : Manner) (client : Addr) (file : Option (List UInt8)) :
    Patient (sendReactor m client file) maxRetry :=
  countdown (sendReactor m client file) SendLoop.retry (·.status = .exhausted)
    (fun s gone => by simp [sendReactor, gone])
    (fun s src d io live => sendStep_restores m client file src d io (of_decide_eq_true live))
    fun s io live => by
      refine ⟨⟨fun gone => ?_, fun last => ?_⟩, sendTop_retry m client file io _⟩
      · by_contra more
        exact sendTop_going m client file io (s := { s with retry := s.retry - 1 }) more
          (of_decide_eq_true live) gone
      · simp [sendReactor, sendStep, sendTop, last]

end Server

namespace Client

open TFTP.Client

theorem readStep_restores (member : Addr) {s : ReadLoop} (src : Addr) (d : List UInt8)
    (io : LocalIO) (live : s.status = .receiving) :
    (readStep member s (.datagram src d) io).1.status ≠ .exhausted ∧
      (readStep member s (.datagram src d) io).1.retry = maxRetry := by
  have cap : ¬ received 516 d > maxPacketSize := Nat.not_lt.mpr (received_le 516 d)
  simp only [readStep, cap, if_false]
  split
  · simp [live]
  · split_ifs <;> simp [live]

def patientRead (member : Addr) : Patient (readReactor member) maxRetry :=
  countdown (readReactor member) ReadLoop.retry (·.status = .exhausted)
    (fun s gone => by simp [readReactor, gone])
    (fun s src d io live => readStep_restores member src d io (of_decide_eq_true live))
    fun s io live => by
      have live := of_decide_eq_true live
      simp only [readReactor, readStep]
      split_ifs with last <;> simp [live, last]

theorem writeStep_restores (file : Option (List UInt8)) {s : WriteLoop} (src : Addr)
    (d : List UInt8) (io : LocalIO) (live : s.status = .sending) :
    (writeStep file s (.datagram src d) io).1.status ≠ .exhausted ∧
      (writeStep file s (.datagram src d) io).1.retry = maxRetry := by
  have cap : ¬ received 516 d > maxPacketSize := Nat.not_lt.mpr (received_le 516 d)
  simp only [writeStep, cap, if_false]
  split
  · simp [live]
  · simp only [writeNext]
    split_ifs <;> simp [live]

def patientWrite (file : Option (List UInt8)) : Patient (writeReactor file) maxRetry :=
  countdown (writeReactor file) WriteLoop.retry (·.status = .exhausted)
    (fun s gone => by simp [writeReactor, gone])
    (fun s src d io live => writeStep_restores file src d io (of_decide_eq_true live))
    fun s io live => by
      have live := of_decide_eq_true live
      simp only [writeReactor, writeStep]
      split_ifs with last <;> simp [live, last]

theorem listStep_restores (serverAddress : Addr) {s : ListLoop} (src : Addr) (d : List UInt8)
    (io : LocalIO) (live : s.status = .receiving) :
    (listStep serverAddress s (.datagram src d) io).1.status ≠ .exhausted ∧
      (listStep serverAddress s (.datagram src d) io).1.retry = maxRetry := by
  have cap : ¬ received 516 d > maxPacketSize := Nat.not_lt.mpr (received_le 516 d)
  simp only [listStep, cap, if_false]
  split_ifs <;> simp [live]

def patientList (serverAddress : Addr) : Patient (listReactor serverAddress) maxRetry :=
  countdown (listReactor serverAddress) ListLoop.retry (·.status = .exhausted)
    (fun s gone => by simp [listReactor, gone])
    (fun s src d io live => listStep_restores serverAddress src d io (of_decide_eq_true live))
    fun s io live => by
      have live := of_decide_eq_true live
      simp only [listReactor, listStep]
      split_ifs with last <;> simp [live, last]

def deleteReactor (serverAddress : Addr) : Reactor DeleteLoop (Recv × LocalIO) Effect where
  running := fun s => decide (s.status = .waiting)
  react := fun s e => deleteStep serverAddress s e.1

theorem deleteStep_restores (serverAddress : Addr) {s : DeleteLoop} (src : Addr) (d : List UInt8)
    (live : s.status = .waiting) :
    (deleteStep serverAddress s (.datagram src d)).1.status ≠ .exhausted ∧
      (deleteStep serverAddress s (.datagram src d)).1.retry = maxRetry := by
  have cap : ¬ received 516 d > maxPacketSize := Nat.not_lt.mpr (received_le 516 d)
  simp only [deleteStep, cap, if_false]
  split_ifs <;> simp [live]

def patientDelete (serverAddress : Addr) : Patient (deleteReactor serverAddress) maxRetry :=
  countdown (deleteReactor serverAddress) DeleteLoop.retry (·.status = .exhausted)
    (fun s gone => by simp [deleteReactor, gone])
    (fun s src d io live => deleteStep_restores serverAddress src d (of_decide_eq_true live))
    fun s io live => by
      have live := of_decide_eq_true live
      simp only [deleteReactor, deleteStep]
      split_ifs with last <;> simp [live, last]

end Client

/-- Every loop of the server and of the client, on any sequence of datagrams, timeouts and
local failures, is exhausted at the fifth timeout in a row and at no other moment. -/
theorem loops_give_up :
    (∀ client, GivesUp (Server.writeReactor client) .start Server.WriteLoop.retry
        (·.status = .exhausted)) ∧
      (∀ m client file io ackBuffer, GivesUp (Server.sendReactor m client file)
        (Server.sendTop m client file io (.start ackBuffer)).1 Server.SendLoop.retry
        (·.status = .exhausted)) ∧
      (∀ member listening, GivesUp (Client.readReactor member) (.start listening)
        Client.ReadLoop.retry (·.status = .exhausted)) ∧
      (∀ file listening, GivesUp (Client.writeReactor file) (.start listening)
        Client.WriteLoop.retry (·.status = .exhausted)) ∧
      (∀ listening recievedBuffer, GivesUp (Client.listReactor listening) (.start recievedBuffer)
        Client.ListLoop.retry (·.status = .exhausted)) ∧
      ∀ listening recievedBuffer, GivesUp (Client.deleteReactor listening) (.start recievedBuffer)
        Client.DeleteLoop.retry (·.status = .exhausted) := by
  refine ⟨fun client => ?_, fun m client file io ackBuffer => ?_, fun member listening => ?_,
    fun file listening => ?_, fun listening recievedBuffer => ?_,
    fun listening recievedBuffer => ?_⟩
  · exact givesUp (Server.patientWrite client) rfl rfl fun gone => by cases gone
  · refine givesUp (Server.patientSend m client file) rfl ?_ ?_
    · exact Server.sendTop_retry m client file io _
    · exact Server.sendTop_going m client file io (by decide : maxRetry ≠ 0) rfl
  · exact givesUp (Client.patientRead member) rfl rfl fun gone => by cases gone
  · exact givesUp (Client.patientWrite file) rfl rfl fun gone => by cases gone
  · exact givesUp (Client.patientList listening) rfl rfl fun gone => by cases gone
  · exact givesUp (Client.patientDelete listening) rfl rfl fun gone => by cases gone

end TFTP.Patience
