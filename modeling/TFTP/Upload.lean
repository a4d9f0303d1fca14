import TFTP.ServerLoops
import TFTP.ClientLoops

/-!
# Uploads over an unreliable network

One `handleWRQRequest` client writes to one `handleWriteRequest` handler. The network
keeps every packet ever sent and may deliver any of them any number of times, in any
order, or never; timeouts fire at any moment. The handler's port hears this client
only; the client may hear anything from anybody.
-/

namespace TFTP.Upload

open Octets Packet Sockets Runs

structure Setup where
  file : List UInt8
  handler : Addr
  client : Addr
  listening : Addr

/-- `trace` is what the handler has done. -/
structure System where
  server : Server.WriteLoop
  client : Client.WriteLoop
  toClient : List (List UInt8)
  toServer : List (List UInt8)
  trace : List Effect

inductive Action where
  | server (e : Recv) (io : LocalIO)
  | client (e : Recv) (io : LocalIO)

/-- The handler has opened the file and acknowledged block 0. -/
def start (S : Setup) : System where
  server := Server.WriteLoop.start
  client := Client.WriteLoop.start S.listening
  toClient := [ackDatagram 0]
  toServer := []
  trace := []

/-- The handler passes no address to `recvfrom`, so the source is free. -/
def Enabled (t : System) : Action → Prop
  | .server .timeout _ => t.server.status = .receiving
  | .server (.datagram _ d) _ => t.server.status = .receiving ∧ d ∈ t.toServer
  | .client _ _ => t.client.status = .sending

def step (S : Setup) (t : System) : Action → System
  | .server e io =>
    let turn := Server.writeStep S.client t.server e io
    { t with
      server := turn.1
      toClient := t.toClient ++ sentTo S.client turn.2
      trace := t.trace ++ turn.2 }
  | .client e io =>
    let turn := Client.writeStep (some S.file) t.client e io
    { t with client := turn.1, toServer := t.toServer ++ sentTo S.handler turn.2 }

def machine (S : Setup) : Machine System Action := ⟨Enabled, step S⟩

/-- The number of blocks the handler has stored. -/
def stored (t : System) : Nat := (writes t.trace).length

/-- The handler leaves its loop through `files.insert`. -/
def Registered (t : System) : Prop := t.server.status = .received

/-- What the client puts on the wire: a DATA packet with the nonempty block of its own
number, which is never 0, or a complaint. -/
def ClientPacket (file p : List UInt8) : Prop :=
  (∃ n : UInt16, n ≠ 0 ∧ block file n.toNat ≠ [] ∧ p = header 3 n ++ block file n.toNat) ∨
    Complaint p

structure Inv (S : Setup) (t : System) : Prop where
  packets : ∀ p ∈ t.toServer, ClientPacket S.file p
  counter : t.server.expectedBlockNumber = UInt16.ofNat (stored t + 1)
  bounded : stored t < 65536
  content : t.server.content = (Blocks.first 512 S.file (stored t)).flatten
  whole : Registered t → t.server.content = S.file

theorem start_inv (S : Setup) : Inv S (start S) := by
  have none_yet : stored (start S) = 0 := rfl
  constructor
  · intro p hp
    cases hp
  · rw [none_yet]
    rfl
  · rw [none_yet]
    decide
  · rw [none_yet]
    rfl
  · intro registered
    cases registered

/-- A client packet that reads as DATA is a DATA packet of the client. -/
theorem data_packet {file d : List UInt8} (h : ClientPacket file d) (op : opcodeOf d = 3) :
    numberOf d ≠ 0 ∧ block file (numberOf d).toNat ≠ [] ∧
      d = header 3 (numberOf d) ++ block file (numberOf d).toNat := by
  rcases h with ⟨n, pos, nonempty, hd⟩ | complaint
  · have num : numberOf d = n := by rw [hd, numberOf_header]
    rw [num]
    exact ⟨pos, nonempty, hd⟩
  · obtain ⟨errorCode, rest, rfl⟩ := complaint_header complaint
    exact absurd op (by rw [opcodeOf_header]; decide)

theorem data_packet_length {file d : List UInt8}
    (hd : d = header 3 (numberOf d) ++ block file (numberOf d).toNat) :
    d.length = (block file (numberOf d).toNat).length + 4 := by
  rw [hd, numberOf_header, List.length_append, header_length, Nat.add_comm]

/-- The handler's turn: nothing is stored, or the next block is. -/
inductive ServerTurn (S : Setup) (t : System) (e : Recv) (io : LocalIO) : Prop
  | quiet (same : stored (step S t (.server e io)) = stored t)
      (turn : t.server.Quiet (Server.writeStep S.client t.server e io).1
        (Server.writeStep S.client t.server e io).2)
  | accepts (src : Addr) (d : List UInt8) (event : e = .datagram src d)
      (more : stored (step S t (.server e io)) = stored t + 1)
      (small : stored t + 1 < 65536)
      (packet : d = header 3 t.server.expectedBlockNumber ++ block S.file (stored t + 1))
      (nonempty : block S.file (stored t + 1) ≠ [])
      (written : io.writeFails = false)
      (content : (step S t (.server e io)).server.content =
        (Blocks.first 512 S.file (stored t + 1)).flatten)
      (expected : (step S t (.server e io)).server.expectedBlockNumber =
        t.server.expectedBlockNumber + 1)
      (status : (step S t (.server e io)).server.status =
        if (block S.file (stored t + 1)).length < 512 then .received else t.server.status)
      (sends : sentTo S.client (Server.writeStep S.client t.server e io).2 =
        [ackDatagram t.server.expectedBlockNumber])

theorem server_turn {S : Setup} {t : System} (inv : Inv S t) (e : Recv) (io : LocalIO)
    (from_client : ∀ src d, e = .datagram src d → d ∈ t.toServer) : ServerTurn S t e io := by
  have count : stored (step S t (.server e io)) =
      stored t + (writes (Server.writeStep S.client t.server e io).2).length := by
    simp [stored, step, writes_append]
  rcases Server.writeStep_cases S.client t.server e io with quiet | ⟨src, d, rfl, acc⟩
  · exact .quiet (by simp [count, quiet.writes]) quiet
  · have len : 4 ≤ d.length := Nat.le_trans acc.header (Nat.min_le_right _ _)
    have op : opcodeOf d = 3 := (opcodeAt_fill _ (by omega)).symm.trans acc.opcode
    have num : numberOf d = t.server.expectedBlockNumber :=
      (recvBlockNumberAt_fill _ len).symm.trans acc.number
    obtain ⟨pos, nonempty, hd⟩ := data_packet (inv.packets d (from_client src d rfl)) op
    rw [num] at pos nonempty hd
    obtain ⟨small, value⟩ := counter_value inv.counter inv.bounded pos
    rw [value] at nonempty hd
    have fits := block_length_le S.file (stored t + 1)
    have size := received_header 3 t.server.expectedBlockNumber fits
    have payload := recvDataAt_header t.server.recievedBuffer 3 t.server.expectedBlockNumber fits
    rw [← hd] at size payload
    refine .accepts src d rfl (by simp [count, acc.writes]) small hd nonempty acc.stored ?_
      acc.expected ?_ acc.sends
    · refine acc.content.trans ?_
      rw [payload, inv.content, Blocks.first_succ, List.flatten_append]
      simp [block]
    · refine acc.status.trans ?_
      rw [size]
      exact if_congr (by omega) rfl rfl

theorem server_inv {S : Setup} {t : System} (inv : Inv S t) (e : Recv) (io : LocalIO)
    (live : t.server.status = .receiving)
    (from_client : ∀ src d, e = .datagram src d → d ∈ t.toServer) :
    Inv S (step S t (.server e io)) := by
  cases server_turn inv e io from_client with
  | quiet same turn =>
    exact
      { packets := inv.packets
        counter := by rw [same]; exact turn.expected.trans inv.counter
        bounded := by rw [same]; exact inv.bounded
        content := by rw [same]; exact turn.content.trans inv.content
        whole := fun h => absurd (turn.received h) (by simp [live]) }
  | accepts _ _ _ more small _ _ _ content expected status _ =>
    exact
      { packets := inv.packets
        counter := by
          rw [more, expected, inv.counter]
          simp
        bounded := by rw [more]; exact small
        content := by rw [more]; exact content
        whole := by
          intro registered
          rw [content]
          refine Blocks.first_flatten_of_short (show (block S.file _).length < 512 from ?_)
          by_contra full
          rw [Registered, status, if_neg full, live] at registered
          cases registered }

theorem client_sends (file : List UInt8) (s : Client.WriteLoop) (e : Recv) (io : LocalIO)
    {dst : Addr} {p : List UInt8}
    (sent : .send dst p ∈ (Client.writeStep (some file) s e io).2) : ClientPacket file p := by
  rcases Client.writeStep_cases file s e io with quiet | ⟨src, d, _, adv⟩
  · exact Or.inr (quiet.sends dst p sent)
  · exact Or.inl ⟨_, adv.pos, adv.nonempty, ((adv.sends dst p).mp sent).2⟩

theorem step_inv {S : Setup} (t : System) (a : Action) (enabled : Enabled t a) (inv : Inv S t) :
    Inv S (step S t a) := by
  cases a with
  | server e io =>
    cases e with
    | timeout => exact server_inv inv .timeout io enabled (fun _ _ h => by cases h)
    | datagram src d =>
      refine server_inv inv (.datagram src d) io enabled.1 ?_
      intro src' d' same
      cases same
      exact enabled.2
  | client e io =>
    refine { inv with packets := ?_ }
    intro p hp
    rcases List.mem_append.mp hp with old | new
    · exact inv.packets p old
    · exact client_sends S.file t.client e io (mem_sentTo.mp new)

/-- At every moment of every run the handler holds exactly the blocks it has stored, in
order and once each, and it registers the name only with the whole file. -/
theorem upload_safe (S : Setup) {acts : List Action} {t : System}
    (run : Run (machine S) (start S) acts t) :
    t.server.content = (Blocks.first 512 S.file (stored t)).flatten ∧
      (Registered t → t.server.content = S.file) := by
  have inv : Inv S t := run.invariant step_inv (start_inv S)
  exact ⟨inv.content, inv.whole⟩

def oneByte : Setup where
  file := [7]
  handler := ⟨0x7F000001, 9801⟩
  client := ⟨0x7F000001, 40000⟩
  listening := ⟨0x7F000001, 69⟩

/-- The client takes ACK 0 and sends its only block. -/
def oneByteSent : System :=
  step oneByte (start oneByte) (.client (.datagram oneByte.handler [0, 4, 0, 0]) .ok)

theorem oneByteSent_reached :
    Run (machine oneByte) (start oneByte)
      ([] ++ [.client (.datagram oneByte.handler [0, 4, 0, 0]) .ok]) oneByteSent :=
  .snoc (.refl _) rfl

def oneByteStored : System :=
  step oneByte oneByteSent (.server (.datagram oneByte.client [0, 3, 0, 1, 7]) .ok)

theorem upload_safe_one_byte : Registered oneByteStored ∧ oneByteStored.server.content = [7] := by
  have delivered : (machine oneByte).enabled oneByteSent
      (.server (.datagram oneByte.client [0, 3, 0, 1, 7]) .ok) := ⟨by decide, by decide⟩
  have registered : Registered oneByteStored := by unfold Registered; decide
  exact ⟨registered, (upload_safe oneByte (.snoc oneByteSent_reached delivered)).2 registered⟩

end TFTP.Upload
