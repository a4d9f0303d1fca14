import TFTP.ServerLoops
import TFTP.ClientLoops

/-!
# Downloads over an unreliable network

One `handleReadRequest` handler serves one `handleRRQRequest` client. The network
keeps every packet ever sent and may deliver any of them any number of times, in any
order, or never; timeouts fire at any moment. Strangers may write to the client too:
what passes its address check is a packet of the handler, anything else may be
anything. Block numbers are the sixteen-bit counters of the sources.
-/

namespace TFTP.Download

open Octets Packet Sockets Runs Server

/-- `member` is the client's `clientAddress`, which no code assigns. -/
structure Setup where
  file : List UInt8
  handler : Addr
  client : Addr
  member : Addr
  listening : Addr

structure System where
  server : SendLoop
  client : Client.ReadLoop
  toClient : List (List UInt8)
  toServer : List (List UInt8)
  trace : List Effect

inductive Action where
  | server (e : Recv) (io : LocalIO)
  | client (e : Recv) (io : LocalIO)

def start (S : Setup) (ackBuffer : Buffer 4) (io : LocalIO) : System where
  server := (readTop S.client (some S.file) io (SendLoop.start ackBuffer)).1
  client := Client.ReadLoop.start S.listening
  toClient := sentTo S.client (readTop S.client (some S.file) io (SendLoop.start ackBuffer)).2
  toServer := []
  trace := []

def Enabled (S : Setup) (t : System) : Action → Prop
  | .server .timeout _ => t.server.status = .sending
  | .server (.datagram _ d) _ => t.server.status = .sending ∧ d ∈ t.toServer
  | .client .timeout _ => t.client.status = .receiving
  | .client (.datagram src d) _ => t.client.status = .receiving ∧
      (Client.verifySource t.client.serverAddress t.client.initialPacket src ≠ none →
        src = S.handler ∧ d ∈ t.toClient)

def step (S : Setup) (t : System) : Action → System
  | .server e io =>
    let turn := readStep S.client (some S.file) t.server e io
    { t with server := turn.1, toClient := t.toClient ++ sentTo S.client turn.2 }
  | .client e io =>
    let turn := Client.readStep S.member t.client e io
    { t with
      client := turn.1
      toServer := t.toServer ++ sentTo S.handler turn.2
      trace := t.trace ++ turn.2 }

def machine (S : Setup) : Machine System Action := ⟨Enabled S, step S⟩

/-- The number of blocks the client has accepted. -/
def accepted (t : System) : Nat := (writes t.trace).length

/-- The counter is the true block number modulo 2^16. It cannot come round, since no
DATA packet carries the number 0. -/
structure Inv (S : Setup) (t : System) : Prop where
  packets : ∀ p ∈ t.toClient, SenderPacket S.file p
  counter : t.client.expectedBlockNumber = UInt16.ofNat (accepted t + 1)
  bounded : accepted t < 65536
  content : t.client.content = (Blocks.first 512 S.file (accepted t)).flatten
  whole : t.client.status = .completed → t.client.content = S.file

theorem start_inv (S : Setup) (ackBuffer : Buffer 4) (io : LocalIO) :
    Inv S (start S ackBuffer io) := by
  have none_yet : accepted (start S ackBuffer io) = 0 := by simp [accepted, start, writes]
  constructor
  · intro p hp
    simp only [start, readTop, mem_sentTo] at hp
    exact sendTop_sends readManner S.client S.file io _ hp
  · rw [none_yet]
    rfl
  · rw [none_yet]
    decide
  · rw [none_yet]
    rfl
  · intro done
    cases done

/-- A DATA packet of the handler that carries the expected number carries the next
block, and its number has not wrapped. -/
theorem expected_block {S : Setup} {t : System} (inv : Inv S t) {d : List UInt8}
    (hd : d ∈ t.toClient) (h4 : 4 ≤ received 516 d)
    (op : opcodeAt (t.client.recievedBuffer.fill d) = opcodeData)
    (num : recvBlockNumberAt (t.client.recievedBuffer.fill d) = t.client.expectedBlockNumber) :
    d = header 3 t.client.expectedBlockNumber ++ block S.file (accepted t + 1) ∧
      accepted t + 1 < 65536 := by
  have len : 4 ≤ d.length := Nat.le_trans h4 (Nat.min_le_right _ _)
  rw [opcodeAt_fill _ (by omega)] at op
  rw [recvBlockNumberAt_fill _ len] at num
  rcases inv.packets d hd with ⟨n, pos, rfl⟩ | rfl
  · rw [numberOf_header] at num
    obtain ⟨small, value⟩ := counter_value inv.counter inv.bounded (num ▸ pos)
    rw [← num] at value
    exact ⟨by rw [num, ← value, num], small⟩
  · exact absurd op (by decide)

theorem client_inv {S : Setup} {t : System} (inv : Inv S t) (e : Recv) (io : LocalIO)
    (live : t.client.status = .receiving)
    (from_handler : ∀ src d, e = .datagram src d →
      Client.verifySource t.client.serverAddress t.client.initialPacket src ≠ none →
      d ∈ t.toClient) : Inv S (step S t (.client e io)) := by
  have count : accepted (step S t (.client e io)) =
      accepted t + (writes (Client.readStep S.member t.client e io).2).length := by
    simp [accepted, step, writes_append]
  rcases Client.readStep_cases S.member t.client e io with quiet | ⟨src, d, rfl, acc⟩
  · have same : accepted (step S t (.client e io)) = accepted t := by simp [count, quiet.writes]
    exact
      { packets := inv.packets
        counter := by rw [same]; exact quiet.expected.trans inv.counter
        bounded := by rw [same]; exact inv.bounded
        content := by rw [same]; exact quiet.content.trans inv.content
        whole := fun h => absurd (quiet.completed h) (by simp [live]) }
  · have more : accepted (step S t (.client (.datagram src d) io)) = accepted t + 1 := by
      simp [count, acc.writes]
    obtain ⟨hd, small⟩ := expected_block inv (from_handler src d rfl acc.verified) acc.header
      acc.opcode acc.number
    have fits := block_length_le S.file (accepted t + 1)
    have size := received_header 3 t.client.expectedBlockNumber fits
    have payload := recvDataAt_header t.client.recievedBuffer 3 t.client.expectedBlockNumber fits
    rw [← hd] at size payload
    have content : (step S t (.client (.datagram src d) io)).client.content =
        (Blocks.first 512 S.file (accepted t + 1)).flatten := by
      refine acc.content.trans ?_
      rw [payload, inv.content, Blocks.first_succ, List.flatten_append]
      simp [block]
    exact
      { packets := inv.packets
        counter := by
          rw [more]
          refine acc.expected.trans ?_
          rw [inv.counter]
          simp
        bounded := by rw [more]; exact small
        content := by rw [more]; exact content
        whole := by
          intro done
          have short : received 516 d < 516 :=
            (acc.completed done).resolve_left (by simp [live])
          rw [content]
          exact Blocks.first_flatten_of_short (show (block S.file _).length < 512 by omega) }

theorem step_inv {S : Setup} (t : System) (a : Action) (enabled : Enabled S t a)
    (inv : Inv S t) : Inv S (step S t a) := by
  cases a with
  | server e io =>
    refine { inv with packets := ?_ }
    intro p hp
    rcases List.mem_append.mp hp with old | new
    · exact inv.packets p old
    · exact sendStep_sends readManner S.client S.file t.server e io (mem_sentTo.mp new)
  | client e io =>
    cases e with
    | timeout => exact client_inv inv .timeout io enabled (fun _ _ h => by cases h)
    | datagram src d =>
      refine client_inv inv (.datagram src d) io enabled.1 ?_
      intro src' d' same verified
      cases same
      exact (enabled.2 verified).2

/-- At every moment of every run the client holds exactly the blocks it has accepted,
in order and once each, and it reports completion only with the whole file. -/
theorem download_safe (S : Setup) (ackBuffer : Buffer 4) (io : LocalIO) {acts : List Action}
    {t : System} (run : Run (machine S) (start S ackBuffer io) acts t) :
    t.client.content = (Blocks.first 512 S.file (accepted t)).flatten ∧
      (t.client.status = .completed → t.client.content = S.file) := by
  have inv : Inv S t := run.invariant step_inv (start_inv S ackBuffer io)
  exact ⟨inv.content, inv.whole⟩

def oneByte : Setup where
  file := [7]
  handler := ⟨0x7F000001, 9801⟩
  client := ⟨0x7F000001, 40000⟩
  member := ⟨0, 0⟩
  listening := ⟨0x7F000001, 69⟩

def oneByteDone : System :=
  step oneByte (start oneByte (Buffer.zero 4) .ok)
    (.client (.datagram oneByte.handler [0, 3, 0, 1, 7]) .ok)

theorem oneByteDone_reached :
    Run (machine oneByte) (start oneByte (Buffer.zero 4) .ok)
      ([] ++ [.client (.datagram oneByte.handler [0, 3, 0, 1, 7]) .ok]) oneByteDone :=
  .snoc (.refl _) ⟨by decide, fun _ => ⟨rfl, by decide⟩⟩

theorem download_safe_one_byte :
    oneByteDone.client.status = .completed ∧ oneByteDone.client.content = [7] := by
  have done : oneByteDone.client.status = .completed := by decide
  exact ⟨done, (download_safe oneByte (Buffer.zero 4) .ok oneByteDone_reached).2 done⟩

end TFTP.Download
