import TFTP.ServerLoops
import TFTP.ClientLoops

/-!
# Datagrams of every length

A receive call overwrites only the front of the buffer, so a header byte belongs to
the current datagram only if the datagram is long enough. A turn is harmless when
every header byte it consults was received in that turn and every payload length lies
between zero and the bytes behind the header. Four loops are checked, over whole
sequences of datagrams and timeouts and from every state of their variables.
-/

namespace TFTP.MalformedDatagrams

open Octets Packet Sockets Runs

/-- One effect against the number of bytes its turn received. -/
def Fits (readBytes : Nat) : Effect → Prop
  | .examine i => i < readBytes
  | .payload len => 0 ≤ len ∧ len ≤ (readBytes : Int) - 4
  | .write bytes => bytes.length + 4 ≤ readBytes
  | .send _ _ => True

def Harmless (readBytes : Nat) (effects : List Effect) : Prop := ∀ e ∈ effects, Fits readBytes e

/-- What `recvfrom` returned; a turn that timed out has no bytes to offer. -/
def readBytesOf : Recv → Nat
  | .timeout => 0
  | .datagram _ d => received 516 d

def HarmlessRun {State : Type} (R : Reactor State (Recv × LocalIO) Effect) (s : State)
    (es : List (Recv × LocalIO)) : Prop :=
  ∀ t e, (t, e) ∈ R.turns s es → Harmless (readBytesOf e.1) (R.react t e).2

/-- A condition on every datagram a run meets, and on the state that meets it. -/
def MetBy {State : Type} (R : Reactor State (Recv × LocalIO) Effect)
    (C : State → Recv → Prop) (s : State) (es : List (Recv × LocalIO)) : Prop :=
  ∀ t e, (t, e) ∈ R.turns s es → C t e.1

/-- A datagram has the whole header, or it ends behind an opcode that makes the loop
turn away before the number and the payload. -/
def Sufficient (continues : UInt16 → Prop) (d : List UInt8) : Prop :=
  4 ≤ d.length ∨ (2 ≤ d.length ∧ ¬ continues (opcodeOf d))

/-- `handleWriteRequest` looks at every datagram. -/
def ServerWriteSized (_ : Server.WriteLoop) : Recv → Prop
  | .timeout => True
  | .datagram _ d => Sufficient (· = 3) d

/-- `handleRRQRequest` looks at a datagram once its source is verified. -/
def ClientReadSized (s : Client.ReadLoop) : Recv → Prop
  | .timeout => True
  | .datagram src d => Client.verifySource s.serverAddress s.initialPacket src = none ∨
      Sufficient (fun op => op = opcodeError ∨ op = opcodeData) d

def ClientWriteSized (s : Client.WriteLoop) : Recv → Prop
  | .timeout => True
  | .datagram src d => Client.verifySource s.serverAddress s.initialPacket src = none ∨
      Sufficient (fun op => op = opcodeError ∨ op = opcodeAck) d

/-- `handleLSRequest` of the client tests the IP address only. -/
def ClientListSized (serverAddress : Addr) (_ : Client.ListLoop) : Recv → Prop
  | .timeout => True
  | .datagram src d => src.ip ≠ serverAddress.ip ∨ Sufficient (· = opcodeData) d

@[simp] theorem harmless_nil (n : Nat) : Harmless n [] := by simp [Harmless]

@[simp] theorem harmless_append (n : Nat) (xs ys : List Effect) :
    Harmless n (xs ++ ys) ↔ Harmless n xs ∧ Harmless n ys := List.forall_mem_append

@[simp] theorem harmless_cons (n : Nat) (e : Effect) (es : List Effect) :
    Harmless n (e :: es) ↔ Fits n e ∧ Harmless n es := List.forall_mem_cons

@[simp] theorem harmless_examineOpcode (n : Nat) : Harmless n examineOpcode ↔ 2 ≤ n := by
  simp [examineOpcode, Fits]
  omega

@[simp] theorem harmless_examineNumber (n : Nat) : Harmless n examineNumber ↔ 4 ≤ n := by
  simp [examineNumber, Fits]
  omega

@[simp] theorem fits_sendError (n : Nat) (dst : Addr) (code : UInt16) (msg : String) :
    Fits n (sendError dst code msg) := trivial

@[simp] theorem fits_sendACK (n : Nat) (dst : Addr) (number : UInt16) :
    Fits n (sendACK dst number) := trivial

theorem fits_payload (n : Nat) : Fits n (.payload ((n : Int) - 4)) ↔ 4 ≤ n := by
  simp only [Fits]
  omega

theorem fits_recvData (b : RecvBuffer) {n : Nat} (h : 4 ≤ n) :
    Fits n (.write (recvDataAt b ((n : Int) - 4).toNat)) := by
  have len : (recvDataAt b ((n : Int) - 4).toNat).length ≤ ((n : Int) - 4).toNat := by
    simp only [recvDataAt, List.length_take]
    exact Nat.min_le_left _ _
  change (recvDataAt b ((n : Int) - 4).toNat).length + 4 ≤ n
  omega

theorem two_le_received (d : List UInt8) : 2 ≤ received 516 d ↔ 2 ≤ d.length := by
  simp only [received]
  omega

theorem four_le_received (d : List UInt8) : 4 ≤ received 516 d ↔ 4 ≤ d.length := by
  simp only [received]
  omega

/-- The header test shared by the loops: consult the opcode, and on an opcode that
goes on, everything else. -/
theorem sufficient_iff (continues : UInt16 → Prop) (b : RecvBuffer) (d : List UInt8) :
    Sufficient continues d ↔
      2 ≤ received 516 d ∧ (continues (opcodeAt (b.fill d)) → 4 ≤ received 516 d) := by
  rw [two_le_received, four_le_received]
  by_cases h2 : 2 ≤ d.length
  · rw [opcodeAt_fill b h2, Sufficient]
    by_cases h4 : 4 ≤ d.length
    · simp [h2, h4]
    · simp [h2, h4]
  · have h4 : ¬ 4 ≤ d.length := by omega
    simp [Sufficient, h2, h4]

theorem serverWrite_turn (clientAddress : Addr) (s : Server.WriteLoop) (e : Recv) (io : LocalIO) :
    Harmless (readBytesOf e) (Server.writeStep clientAddress s e io).2 ↔ ServerWriteSized s e := by
  cases e with
  | timeout => simp [Server.writeStep, ServerWriteSized]
  | datagram src d =>
    have cap : ¬ received 516 d > 516 := Nat.not_lt.mpr (received_le 516 d)
    rw [ServerWriteSized, sufficient_iff _ s.recievedBuffer]
    simp only [readBytesOf, Server.writeStep, cap, if_false]
    by_cases op : opcodeAt (s.recievedBuffer.fill d) = 3
    · by_cases h4 : 4 ≤ received 516 d
      · have nonneg : ¬ ((received 516 d : Int) - 4 < 0) := by omega
        simp only [op, nonneg, if_false, ne_eq, not_true_eq_false]
        split_ifs <;> simp [h4, fits_payload, fits_recvData, show 2 ≤ received 516 d by omega]
      · simp only [op, ne_eq, not_true_eq_false, if_false]
        split_ifs <;> simp [h4]
    · simp [op]

theorem clientRead_turn (clientAddress : Addr) (s : Client.ReadLoop) (e : Recv) (io : LocalIO) :
    Harmless (readBytesOf e) (Client.readStep clientAddress s e io).2 ↔ ClientReadSized s e := by
  cases e with
  | timeout => simp [Client.readStep, ClientReadSized]
  | datagram src d =>
    have cap : ¬ received 516 d > maxPacketSize := Nat.not_lt.mpr (received_le 516 d)
    rw [ClientReadSized, sufficient_iff _ s.recievedBuffer]
    simp only [readBytesOf, Client.readStep, cap, if_false]
    cases verified : Client.verifySource s.serverAddress s.initialPacket src with
    | none => simp [Client.unknownTid]
    | some a =>
      by_cases op : opcodeAt (s.recievedBuffer.fill d) = opcodeError ∨
          opcodeAt (s.recievedBuffer.fill d) = opcodeData
      · have go : ¬ (opcodeAt (s.recievedBuffer.fill d) ≠ opcodeError ∧
            opcodeAt (s.recievedBuffer.fill d) ≠ opcodeData) := by tauto
        by_cases h4 : 4 ≤ received 516 d
        · have nonneg : ¬ ((received 516 d : Int) - 4 < 0) := by omega
          simp only [go, nonneg, if_false]
          split_ifs <;> simp [h4, fits_payload, fits_recvData, show 2 ≤ received 516 d by omega]
        · simp only [go, if_false]
          split_ifs <;> simp [h4, op]
      · have stop : opcodeAt (s.recievedBuffer.fill d) ≠ opcodeError ∧
            opcodeAt (s.recievedBuffer.fill d) ≠ opcodeData := by tauto
        simp [stop]

theorem clientWrite_turn (file : Option (List UInt8)) (s : Client.WriteLoop) (e : Recv)
    (io : LocalIO) :
    Harmless (readBytesOf e) (Client.writeStep file s e io).2 ↔ ClientWriteSized s e := by
  cases e with
  | timeout => simp [Client.writeStep, ClientWriteSized]
  | datagram src d =>
    have cap : ¬ received 516 d > maxPacketSize := Nat.not_lt.mpr (received_le 516 d)
    have sends : ∀ (t : Client.WriteLoop) (n : Nat),
        Harmless n (Client.writeNext file src t io).2 := by
      intro t n
      simp only [Client.writeNext]
      split_ifs <;> simp [Fits]
    rw [ClientWriteSized, sufficient_iff _ (Buffer.zero 516)]
    simp only [readBytesOf, Client.writeStep, cap, if_false]
    cases verified : Client.verifySource s.serverAddress s.initialPacket src with
    | none => simp [Client.unknownTid]
    | some a =>
      by_cases op : opcodeAt ((Buffer.zero 516).fill d) = opcodeError ∨
          opcodeAt ((Buffer.zero 516).fill d) = opcodeAck
      · have go : ¬ (opcodeAt ((Buffer.zero 516).fill d) ≠ opcodeError ∧
            opcodeAt ((Buffer.zero 516).fill d) ≠ opcodeAck) := by tauto
        by_cases h4 : 4 ≤ received 516 d
        · simp only [go, if_false]
          split_ifs <;> simp [h4, fits_payload, sends, show 2 ≤ received 516 d by omega]
        · simp only [go, if_false]
          split_ifs <;> simp [h4, op]
      · have stop : opcodeAt ((Buffer.zero 516).fill d) ≠ opcodeError ∧
            opcodeAt ((Buffer.zero 516).fill d) ≠ opcodeAck := by tauto
        simp [stop]

theorem clientList_turn (serverAddress : Addr) (s : Client.ListLoop) (e : Recv) (io : LocalIO) :
    Harmless (readBytesOf e) (Client.listStep serverAddress s e io).2 ↔
      ClientListSized serverAddress s e := by
  cases e with
  | timeout => simp [Client.listStep, ClientListSized]
  | datagram src d =>
    have cap : ¬ received 516 d > maxPacketSize := Nat.not_lt.mpr (received_le 516 d)
    rw [ClientListSized, sufficient_iff _ s.recievedBuffer]
    simp only [readBytesOf, Client.listStep, cap, if_false]
    by_cases ip : src.ip = serverAddress.ip
    · by_cases op : opcodeAt (s.recievedBuffer.fill d) = opcodeData
      · by_cases h4 : 4 ≤ received 516 d
        · have nonneg : ¬ ((received 516 d : Int) - 4 < 0) := by omega
          simp only [ip, op, nonneg, if_false, ne_eq, not_true_eq_false, false_or]
          split_ifs <;> simp [h4, fits_payload, fits_recvData, show 2 ≤ received 516 d by omega]
        · simp only [ip, op, ne_eq, not_true_eq_false, if_false, false_or]
          split_ifs <;> simp [h4]
      · simp [ip, op]
    · simp [ip, Client.unknownTid]

theorem harmlessRun_iff {State : Type} {R : Reactor State (Recv × LocalIO) Effect}
    {C : State → Recv → Prop}
    (turn : ∀ s e, Harmless (readBytesOf e.1) (R.react s e).2 ↔ C s e.1)
    (s : State) (es : List (Recv × LocalIO)) : HarmlessRun R s es ↔ MetBy R C s es :=
  ⟨fun h t e he => (turn t e).mp (h t e he), fun h t e he => (turn t e).mpr (h t e he)⟩

/-- For all four loops, every start state and every sequence of datagrams and timeouts:
the run is harmless exactly if every datagram it looks at is long enough. -/
theorem runs_harmless_iff (clientAddress serverAddress : Addr) (file : Option (List UInt8))
    (es : List (Recv × LocalIO)) :
    (∀ s, HarmlessRun (Server.writeReactor clientAddress) s es ↔
      MetBy (Server.writeReactor clientAddress) ServerWriteSized s es) ∧
    (∀ s, HarmlessRun (Client.readReactor clientAddress) s es ↔
      MetBy (Client.readReactor clientAddress) ClientReadSized s es) ∧
    (∀ s, HarmlessRun (Client.writeReactor file) s es ↔
      MetBy (Client.writeReactor file) ClientWriteSized s es) ∧
    (∀ s, HarmlessRun (Client.listReactor serverAddress) s es ↔
      MetBy (Client.listReactor serverAddress) (ClientListSized serverAddress) s es) :=
  ⟨fun s => harmlessRun_iff (fun t e => serverWrite_turn clientAddress t e.1 e.2) s es,
    fun s => harmlessRun_iff (fun t e => clientRead_turn clientAddress t e.1 e.2) s es,
    fun s => harmlessRun_iff (fun t e => clientWrite_turn file t e.1 e.2) s es,
    fun s => harmlessRun_iff (fun t e => clientList_turn serverAddress t e.1 e.2) s es⟩

/-- An illegal packet leaves the number 1 in the buffer, and two bytes suffice to
turn it into block 1 with a payload of minus two bytes. -/
def twoByteData (src : Addr) : List (Recv × LocalIO) :=
  [(.datagram src [0, 9, 0, 1], .ok), (.datagram src [0, 3], .ok)]

theorem two_bytes_crash_upload :
    ¬ HarmlessRun (Server.writeReactor ⟨0x7F000001, 9799⟩) Server.WriteLoop.start
        (twoByteData ⟨0x7F000001, 9799⟩) ∧
      ((Server.writeReactor ⟨0x7F000001, 9799⟩).feed Server.WriteLoop.start
        (twoByteData ⟨0x7F000001, 9799⟩)).1.status = .undefined := by
  constructor
  · rw [harmlessRun_iff fun s e => serverWrite_turn _ s e.1 e.2]
    intro met
    have short := met _ (.datagram ⟨0x7F000001, 9799⟩ [0, 3], .ok)
      (List.mem_cons_of_mem _ List.mem_cons_self)
    rcases short with h4 | ⟨_, stops⟩
    · exact absurd h4 (by decide)
    · exact stops (by decide)
  · decide

end TFTP.MalformedDatagrams
