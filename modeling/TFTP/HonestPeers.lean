import TFTP.Download
import TFTP.Upload

/-!
# Transfers between honest peers

Both ends run this code, every local call succeeds, and the network only repeats, delays
and reorders what they send. An ERROR is then an answer to a packet out of turn: the upload
handler complains about a block it does not expect, and the read handler about an
acknowledgement it does not wait for. The client never complains first.
-/

namespace TFTP.HonestPeers

open Octets Packet Sockets Runs

/-- The host of the handler is the one the client asked, and once the client has learned a
port it is the handler's. -/
structure Knows (handler serverAddress : Addr) (initialPacket : Bool) : Prop where
  host : serverAddress.ip = handler.ip
  learned : initialPacket = false → serverAddress = handler

theorem Knows.verified {handler serverAddress : Addr} {initialPacket : Bool}
    (knows : Knows handler serverAddress initialPacket) :
    Client.verifySource serverAddress initialPacket handler = some handler := by
  obtain ⟨ip, port⟩ := handler
  obtain ⟨ip', port'⟩ := serverAddress
  obtain ⟨host, learned⟩ := knows
  obtain rfl : ip' = ip := host
  cases initialPacket with
  | true => simp [Client.verifySource]
  | false =>
    obtain rfl : port' = port := congrArg Addr.port (learned rfl)
    simp [Client.verifySource]

/-- A DATA packet with a block of the file. -/
def IsData (file p : List UInt8) : Prop :=
  ∃ n : UInt16, n ≠ 0 ∧ p = header 3 n ++ block file n.toNat

def IsAck (p : List UInt8) : Prop := ∃ n : UInt16, p = ackDatagram n

theorem IsAck.opcode {p : List UInt8} (ack : IsAck p) : opcodeOf p = opcodeAck := by
  obtain ⟨n, rfl⟩ := ack
  exact opcodeOf_ack n

section Data

variable {file p : List UInt8}

theorem IsData.opcode (data : IsData file p) : opcodeOf p = opcodeData := by
  obtain ⟨n, _, rfl⟩ := data
  rw [opcodeOf_header]
  decide

theorem IsData.size (data : IsData file p) : 4 ≤ p.length ∧ p.length ≤ 516 := by
  obtain ⟨n, _, rfl⟩ := data
  have fits := block_length_le file n.toNat
  rw [List.length_append, header_length]
  omega

end Data

/-- The packets of an upload are the peers' own, and nothing fails. -/
def uploads (S : Upload.Setup) : Machine Upload.System Upload.Action :=
  (Upload.machine S).restrict fun t a =>
    match a with
    | .server _ io => io = .ok
    | .client e io => io = .ok ∧
      ∀ src d, e = .datagram src d → src = S.handler ∧ d ∈ t.toClient

/-- A DATA packet reaches the handler when it expects its block. -/
def UploadInTurn (t : Upload.System) : Upload.Action → Prop
  | .server (.datagram _ d) _ => numberOf d = t.server.expectedBlockNumber
  | _ => True

/-- Neither party has sent the other an ERROR. -/
def UploadCalm (t : Upload.System) : Prop :=
  ∀ p ∈ t.toClient ++ t.toServer, opcodeOf p ≠ opcodeError

structure UploadPeace (S : Upload.Setup) (t : Upload.System) : Prop where
  data : ∀ p ∈ t.toServer, IsData S.file p
  acks : ∀ p ∈ t.toClient, IsAck p
  knows : Knows S.handler t.client.serverAddress t.client.initialPacket
  opening : t.client.status = .sending → t.client.expectedBlockNumber = 0 →
    t.toServer = [] ∧ ∀ p ∈ t.toClient, p = ackDatagram 0

theorem UploadPeace.calm {S : Upload.Setup} {t : Upload.System} (peace : UploadPeace S t) :
    UploadCalm t := by
  intro p mem
  rcases List.mem_append.mp mem with mem | mem
  · rw [(peace.acks p mem).opcode]
    decide
  · rw [(peace.data p mem).opcode]
    decide

/-- An acknowledgement in turn, or a late one after the first block, is no reason for a
complaint. -/
theorem writeStep_ack (file : List UInt8) (s : Client.WriteLoop) {src a : Addr} {n : UInt16}
    (verified : Client.verifySource s.serverAddress s.initialPacket src = some a)
    (timely : s.expectedBlockNumber = 0 → n = 0) :
    (∀ dst p, .send dst p ∈ (Client.writeStep (some file) s (.datagram src (ackDatagram n)) .ok).2 →
        IsData file p) ∧
      ((Client.writeStep (some file) s (.datagram src (ackDatagram n)) .ok).1.status = .sending →
        (Client.writeStep (some file) s (.datagram src (ackDatagram n)) .ok).1.expectedBlockNumber ≠
          0) := by
  have cap : ¬ received 516 (ackDatagram n) > maxPacketSize := Nat.not_lt.mpr (received_le 516 _)
  have op : opcodeAt ((Buffer.zero 516).fill (ackDatagram n)) = opcodeAck := by
    rw [opcodeAt_fill _ (by simp), opcodeOf_ack]
  have number : recvBlockNumberAt ((Buffer.zero 516).fill (ackDatagram n)) = n := by
    rw [recvBlockNumberAt_fill _ (by simp), numberOf_ack]
  have notError : ¬ opcodeAck = opcodeError := by decide
  have consult : ∀ dst p, ¬ .send dst p ∈ examineOpcode ++ examineNumber := by
    simp [examineOpcode, examineNumber]
  simp only [Client.writeStep, cap, if_false, verified, op, number, notError, ne_eq,
    not_true_eq_false, and_false]
  by_cases expected : n = s.expectedBlockNumber
  · simp only [expected, not_true_eq_false, if_false]
    rcases Client.writeNext_cases file src ⟨s.expectedBlockNumber, maxRetry, false, a, s.status⟩ .ok
      with ⟨failed, silent⟩ | ⟨m, _, pos, _, next⟩
    · constructor
      · intro dst p sent
        rw [silent, List.append_nil] at sent
        exact absurd sent (consult dst p)
      · intro sending
        rw [failed] at sending
        cases sending
    · rw [next]
      constructor
      · intro dst p sent
        rcases List.mem_append.mp sent with sent | sent
        · exact absurd sent (consult dst p)
        · obtain ⟨_, rfl⟩ := Effect.send.inj (List.mem_singleton.mp sent)
          exact ⟨m, pos, rfl⟩
      · exact fun _ => pos
  · have late : ¬ s.expectedBlockNumber = 0 := by
      intro zero
      exact expected ((timely zero).trans zero.symm)
    simp only [expected, late, not_false_eq_true, if_true, if_false]
    exact ⟨fun dst p sent => absurd sent (consult dst p), fun _ => trivial⟩

theorem upload_peace_client {S : Upload.Setup} {t : Upload.System} (peace : UploadPeace S t)
    {e : Recv} {io : LocalIO} (enabled : (uploads S).enabled t (.client e io)) :
    UploadPeace S (Upload.step S t (.client e io)) := by
  obtain ⟨live, rfl, genuine⟩ := enabled
  cases e with
  | timeout =>
    refine ⟨?_, peace.acks, peace.knows, ?_⟩
    · simpa [Upload.step, Client.writeStep, sentTo] using peace.data
    · intro _ zero
      have opening := peace.opening live zero
      simpa [Upload.step, Client.writeStep, sentTo] using opening
  | datagram src d =>
    obtain ⟨rfl, mem⟩ := genuine src d rfl
    obtain ⟨n, rfl⟩ := peace.acks d mem
    have verified := peace.knows.verified
    have timely : t.client.expectedBlockNumber = 0 → n = 0 := by
      intro zero
      have same := (peace.opening live zero).2 _ mem
      simpa using congrArg numberOf same
    obtain ⟨sends, counted⟩ := writeStep_ack S.file t.client verified timely
    obtain ⟨address, initial, _⟩ :=
      Client.writeStep_verified (some S.file) t.client (ackDatagram n) .ok verified
    constructor
    · intro p sent
      rcases List.mem_append.mp sent with old | new
      · exact peace.data p old
      · exact sends _ p (mem_sentTo.mp new)
    · exact peace.acks
    · exact ⟨congrArg Addr.ip address, fun _ => address⟩
    · intro sending zero
      exact absurd zero (counted sending)

theorem upload_peace_server {S : Upload.Setup} {t : Upload.System} (peace : UploadPeace S t)
    {e : Recv} {io : LocalIO} (enabled : (uploads S).enabled t (.server e io))
    (inTurn : UploadInTurn t (.server e io)) :
    UploadPeace S (Upload.step S t (.server e io)) := by
  obtain ⟨live, rfl⟩ := enabled
  cases e with
  | timeout =>
    refine ⟨peace.data, ?_, peace.knows, ?_⟩
    · simpa [Upload.step, Server.writeStep, sentTo] using peace.acks
    · simpa [Upload.step, Server.writeStep, sentTo] using peace.opening
  | datagram src d =>
    have there : d ∈ t.toServer := live.2
    have data := peace.data d there
    have turn := Server.writeStep_accept S.client t.server src data.size.1 data.size.2 data.opcode
      inTurn (show LocalIO.ok.writeFails = false from rfl)
    refine ⟨peace.data, ?_, peace.knows, ?_⟩
    · intro p sent
      rcases List.mem_append.mp sent with old | new
      · exact peace.acks p old
      · rw [turn, mem_sentTo] at new
        simp [examineOpcode, examineNumber, sendACK] at new
        exact ⟨_, new⟩
    · intro sending zero
      rw [(peace.opening sending zero).1] at there
      cases there

/-- A packet that the handler receives out of turn is answered by an ERROR. -/
theorem upload_complains {S : Upload.Setup} {t : Upload.System} {src : Addr} {d : List UInt8}
    {io : LocalIO} (packets : ∀ p ∈ t.toServer, Upload.ClientPacket S.file p)
    (there : d ∈ t.toServer) (outOfTurn : numberOf d ≠ t.server.expectedBlockNumber) :
    ∃ p ∈ (Upload.step S t (.server (.datagram src d) io)).toClient, opcodeOf p = opcodeError := by
  have h4 : 4 ≤ d.length := by
    rcases packets d there with ⟨n, pos, _, rfl⟩ | complaint
    · exact (IsData.size ⟨n, pos, rfl⟩ : _).1
    · obtain ⟨errorCode, rest, rfl⟩ := complaint_header complaint
      rw [List.length_append, header_length]
      exact Nat.le_add_right 4 _
  obtain ⟨used, code, msg, turn, _⟩ :=
    Server.writeStep_other S.client t.server src io h4 (Or.inr outOfTurn)
  refine ⟨errorDatagram code (text msg), ?_,
    (complaint_reads ⟨code, text msg, rfl⟩).2⟩
  refine List.mem_append_right _ (mem_sentTo.mpr ?_)
  rw [turn]
  exact List.mem_append_right _ (List.mem_singleton.mpr rfl)

theorem upload_calm_before {S : Upload.Setup} {t : Upload.System} {a : Upload.Action}
    (calm : UploadCalm (Upload.step S t a)) : UploadCalm t := by
  intro p mem
  apply calm p
  cases a with
  | server e io =>
    rcases List.mem_append.mp mem with old | old
    · exact List.mem_append_left _ (List.mem_append_left _ old)
    · exact List.mem_append_right _ old
  | client e io =>
    rcases List.mem_append.mp mem with old | old
    · exact List.mem_append_left _ old
    · exact List.mem_append_right _ (List.mem_append_left _ old)

theorem start_peace (S : Upload.Setup) (home : S.handler.ip = S.listening.ip) :
    UploadPeace S (Upload.start S) := by
  constructor
  · intro p mem
    cases mem
  · intro p mem
    exact ⟨0, List.mem_singleton.mp mem⟩
  · refine ⟨home.symm, ?_⟩
    rintro ⟨⟩
  · intro _ _
    exact ⟨rfl, fun p mem => List.mem_singleton.mp mem⟩

theorem upload_calm_iff {S : Upload.Setup} (home : S.handler.ip = S.listening.ip)
    {acts : List Upload.Action} {t : Upload.System}
    (run : Run (uploads S) (Upload.start S) acts t) :
    UploadCalm t ↔ Run ((uploads S).restrict UploadInTurn) (Upload.start S) acts t := by
  constructor
  · refine run.restrict ?_
    intro acts t a before enabled calm
    refine ⟨?_, upload_calm_before calm⟩
    have inv : Upload.Inv S t := before.unrestrict.invariant Upload.step_inv (Upload.start_inv S)
    rcases a with ⟨_ | ⟨src, d⟩, io⟩ | ⟨e, io⟩
    · trivial
    · by_contra outOfTurn
      obtain ⟨p, mem, error⟩ := upload_complains inv.packets enabled.1.2 outOfTurn
      exact calm p (List.mem_append_left _ mem) error
    · trivial
  · intro restricted
    have peace : UploadPeace S t := restricted.invariant (by
      rintro s (⟨e, io⟩ | ⟨e, io⟩) ⟨enabled, inTurn⟩ peace
      · exact upload_peace_server peace enabled inTurn
      · exact upload_peace_client peace enabled) (start_peace S home)
    exact peace.calm

def downloads (S : Download.Setup) : Machine Download.System Download.Action :=
  (Download.machine S).restrict fun t a =>
    match a with
    | .server _ io => io = .ok
    | .client e io => io = .ok ∧
      ∀ src d, e = .datagram src d → src = S.handler ∧ d ∈ t.toClient

/-- An acknowledgement that reaches the handler reads as the one it waits for. -/
def DownloadInTurn (t : Download.System) : Download.Action → Prop
  | .server (.datagram _ d) _ => Server.ackOpcodeAt (t.server.ackBuffer.fill d) = 4 ∧
      Server.ackBlockNumberAt (t.server.ackBuffer.fill d) = t.server.blockNumber
  | _ => True

def DownloadCalm (t : Download.System) : Prop :=
  ∀ p ∈ t.toClient ++ t.toServer, opcodeOf p ≠ opcodeError

structure DownloadPeace (S : Download.Setup) (t : Download.System) : Prop where
  data : ∀ p ∈ t.toClient, IsData S.file p
  acks : ∀ p ∈ t.toServer, IsAck p
  knows : Knows S.handler t.client.serverAddress t.client.initialPacket

theorem DownloadPeace.calm {S : Download.Setup} {t : Download.System}
    (peace : DownloadPeace S t) : DownloadCalm t := by
  intro p mem
  rcases List.mem_append.mp mem with mem | mem
  · rw [(peace.data p mem).opcode]
    decide
  · rw [(peace.acks p mem).opcode]
    decide

/-- A verified DATA packet is acknowledged, whatever its number. -/
theorem readStep_data (clientAddress : Addr) (s : Client.ReadLoop) {src a : Addr}
    {file d : List UInt8}
    (verified : Client.verifySource s.serverAddress s.initialPacket src = some a)
    (data : IsData file d) {dst : Addr} {p : List UInt8}
    (sent : .send dst p ∈ (Client.readStep clientAddress s (.datagram src d) .ok).2) : IsAck p := by
  obtain ⟨h4, fits⟩ := data.size
  have cap : ¬ received 516 d > maxPacketSize := Nat.not_lt.mpr (received_le 516 d)
  have op : opcodeAt (s.recievedBuffer.fill d) = opcodeData := by
    rw [opcodeAt_fill _ (by omega), data.opcode]
  have size : ¬ (received 516 d : Int) - 4 < 0 := by
    rw [received]
    omega
  have notError : ¬ opcodeData = opcodeError := by decide
  simp only [Client.readStep, cap, if_false, verified, op, notError, size, ne_eq,
    not_true_eq_false, and_false, LocalIO.ok, Bool.false_eq_true] at sent
  split_ifs at sent with other
  · simp [examineOpcode, examineNumber, sendACK] at sent
    exact ⟨_, sent.2⟩
  · simp [examineOpcode, examineNumber, sendACK] at sent
    exact ⟨_, sent.2⟩
  · simp [examineOpcode, examineNumber, sendACK] at sent
    exact ⟨_, sent.2⟩

theorem download_peace_client {S : Download.Setup} {t : Download.System}
    (peace : DownloadPeace S t) {e : Recv} {io : LocalIO}
    (enabled : (downloads S).enabled t (.client e io)) :
    DownloadPeace S (Download.step S t (.client e io)) := by
  obtain ⟨_, rfl, genuine⟩ := enabled
  cases e with
  | timeout =>
    refine ⟨peace.data, ?_, peace.knows⟩
    simpa [Download.step, Client.readStep, sentTo] using peace.acks
  | datagram src d =>
    obtain ⟨rfl, mem⟩ := genuine src d rfl
    have verified := peace.knows.verified
    obtain ⟨address, initial, _⟩ :=
      Client.readStep_verified S.member t.client d .ok verified
    constructor
    · exact peace.data
    · intro p sent
      rcases List.mem_append.mp sent with old | new
      · exact peace.acks p old
      · exact readStep_data S.member t.client verified (peace.data d mem) (mem_sentTo.mp new)
    · exact ⟨congrArg Addr.ip address, fun _ => address⟩

/-- The handler's turn in which the acknowledgement is the right one, if there is any. -/
theorem readStep_inTurn (clientAddress : Addr) (file : List UInt8) (s : Server.SendLoop) (e : Recv)
    (io : LocalIO) (inTurn : ∀ src d, e = .datagram src d →
      Server.ackOpcodeAt (s.ackBuffer.fill d) = 4 ∧
        Server.ackBlockNumberAt (s.ackBuffer.fill d) = s.blockNumber) {dst : Addr} {p : List UInt8}
    (sent : .send dst p ∈ (Server.readStep clientAddress (some file) s e io).2) :
    IsData file p := by
  have consult : ¬ .send dst p ∈ examineOpcode ++ examineNumber := by
    simp [examineOpcode, examineNumber]
  cases e with
  | timeout => exact Server.sendTop_data _ clientAddress file io _ sent
  | datagram src d =>
    have cap : ¬ received 4 d > maxPacketSize :=
      Nat.not_lt.mpr (Nat.le_trans (received_le 4 d) (by decide))
    obtain ⟨op, num⟩ := inTurn src d rfl
    simp only [Server.readStep, Server.sendStep, cap, if_false, op, num, ne_eq, not_true_eq_false,
      or_self] at sent
    split_ifs at sent with last
    · exact absurd sent consult
    · rcases List.mem_append.mp sent with sent | sent
      · exact absurd sent consult
      · exact Server.sendTop_data _ clientAddress file io _ sent

theorem download_peace_server {S : Download.Setup} {t : Download.System}
    (peace : DownloadPeace S t) {e : Recv} {io : LocalIO}
    (inTurn : DownloadInTurn t (.server e io)) :
    DownloadPeace S (Download.step S t (.server e io)) := by
  refine ⟨?_, peace.acks, peace.knows⟩
  intro p sent
  rcases List.mem_append.mp sent with old | new
  · exact peace.data p old
  · refine readStep_inTurn S.client S.file t.server e io ?_ (mem_sentTo.mp new)
    rintro src d rfl
    exact inTurn

/-- An acknowledgement that does not read as the right one is answered by an ERROR. -/
theorem download_complains {S : Download.Setup} {t : Download.System} {src : Addr} {d : List UInt8}
    {io : LocalIO} (outOfTurn : ¬ DownloadInTurn t (.server (.datagram src d) io)) :
    ∃ p ∈ (Download.step S t (.server (.datagram src d) io)).toClient,
      opcodeOf p = opcodeError := by
  have cap : ¬ received 4 d > maxPacketSize :=
    Nat.not_lt.mpr (Nat.le_trans (received_le 4 d) (by decide))
  have mismatch : Server.ackOpcodeAt (t.server.ackBuffer.fill d) ≠ 4 ∨
      Server.ackBlockNumberAt (t.server.ackBuffer.fill d) ≠ t.server.blockNumber :=
    not_and_or.mp outOfTurn
  refine ⟨errorDatagram errorAccessViolation (text "Illegal TFTP operation"), ?_,
    (complaint_reads ⟨_, _, rfl⟩).2⟩
  refine List.mem_append_right _ (mem_sentTo.mpr ?_)
  simp only [Server.readStep, Server.sendStep, cap, if_false, if_pos mismatch]
  simp [Server.readManner, Server.illegalAck, sendError]

theorem download_calm_before {S : Download.Setup} {t : Download.System} {a : Download.Action}
    (calm : DownloadCalm (Download.step S t a)) : DownloadCalm t := by
  intro p mem
  apply calm p
  cases a with
  | server e io =>
    rcases List.mem_append.mp mem with old | old
    · exact List.mem_append_left _ (List.mem_append_left _ old)
    · exact List.mem_append_right _ old
  | client e io =>
    rcases List.mem_append.mp mem with old | old
    · exact List.mem_append_left _ old
    · exact List.mem_append_right _ (List.mem_append_left _ old)

theorem download_start_peace (S : Download.Setup) (home : S.handler.ip = S.listening.ip)
    (ackBuffer : Buffer 4) : DownloadPeace S (Download.start S ackBuffer .ok) := by
  constructor
  · intro p mem
    simp only [Download.start, Server.readTop, mem_sentTo] at mem
    exact Server.sendTop_data Server.readManner S.client S.file .ok _ mem
  · intro p mem
    cases mem
  · refine ⟨home.symm, ?_⟩
    rintro ⟨⟩

theorem download_calm_iff {S : Download.Setup} (home : S.handler.ip = S.listening.ip)
    {ackBuffer : Buffer 4} {acts : List Download.Action} {t : Download.System}
    (run : Run (downloads S) (Download.start S ackBuffer .ok) acts t) :
    DownloadCalm t ↔
      Run ((downloads S).restrict DownloadInTurn) (Download.start S ackBuffer .ok) acts t := by
  constructor
  · refine run.restrict ?_
    intro acts t a _ _ calm
    refine ⟨?_, download_calm_before calm⟩
    rcases a with ⟨_ | ⟨src, d⟩, io⟩ | ⟨e, io⟩
    · trivial
    · by_contra outOfTurn
      obtain ⟨p, mem, error⟩ := download_complains outOfTurn
      exact calm p (List.mem_append_left _ mem) error
    · trivial
  · intro restricted
    have peace : DownloadPeace S t := restricted.invariant (by
      rintro s (⟨e, io⟩ | ⟨e, io⟩) ⟨enabled, inTurn⟩ peace
      · exact download_peace_server peace inTurn
      · exact download_peace_client peace enabled) (download_start_peace S home ackBuffer)
    exact peace.calm

/-- No ERROR has been sent if and only if every DATA packet reached the upload handler when it
was expected, and every acknowledgement the read handler when it was waited for. -/
theorem calm_iff_in_turn (U : Upload.Setup) (D : Download.Setup) (ackBuffer : Buffer 4) :
    (∀ (acts : List Upload.Action) (t : Upload.System), U.handler.ip = U.listening.ip →
      Run (uploads U) (Upload.start U) acts t →
      (UploadCalm t ↔ Run ((uploads U).restrict UploadInTurn) (Upload.start U) acts t)) ∧
    (∀ (acts : List Download.Action) (t : Download.System), D.handler.ip = D.listening.ip →
      Run (downloads D) (Download.start D ackBuffer .ok) acts t →
      (DownloadCalm t ↔
        Run ((downloads D).restrict DownloadInTurn) (Download.start D ackBuffer .ok) acts t)) := by
  constructor
  · exact fun _ _ home run => upload_calm_iff home run
  · exact fun _ _ home run => download_calm_iff home run

theorem oneByteStored_reached :
    Run (uploads Upload.oneByte) (Upload.start Upload.oneByte)
      ([] ++ [.client (.datagram Upload.oneByte.handler [0, 4, 0, 0]) .ok] ++
        [.server (.datagram Upload.oneByte.client [0, 3, 0, 1, 7]) .ok]) Upload.oneByteStored := by
  refine .snoc (.snoc (.refl _) ⟨rfl, rfl, ?_⟩) ⟨⟨by decide, by decide⟩, rfl⟩
  rintro src d ⟨⟩
  exact ⟨rfl, by decide⟩

theorem oneByteDone_reached :
    Run (downloads Download.oneByte) (Download.start Download.oneByte (Buffer.zero 4) .ok)
      ([] ++ [.client (.datagram Download.oneByte.handler [0, 3, 0, 1, 7]) .ok])
      Download.oneByteDone := by
  refine .snoc (.refl _) ⟨⟨by decide, fun _ => ⟨rfl, by decide⟩⟩, rfl, ?_⟩
  rintro src d ⟨⟩
  exact ⟨rfl, by decide⟩

theorem calm_iff_in_turn_one_byte :
    (UploadCalm Upload.oneByteStored ↔
      Run ((uploads Upload.oneByte).restrict UploadInTurn) (Upload.start Upload.oneByte)
        ([] ++ [.client (.datagram Upload.oneByte.handler [0, 4, 0, 0]) .ok] ++
          [.server (.datagram Upload.oneByte.client [0, 3, 0, 1, 7]) .ok])
        Upload.oneByteStored) ∧
    (DownloadCalm Download.oneByteDone ↔
      Run ((downloads Download.oneByte).restrict DownloadInTurn)
        (Download.start Download.oneByte (Buffer.zero 4) .ok)
        ([] ++ [.client (.datagram Download.oneByte.handler [0, 3, 0, 1, 7]) .ok])
        Download.oneByteDone) := by
  obtain ⟨upload, download⟩ :=
    calm_iff_in_turn Upload.oneByte Download.oneByte (Buffer.zero 4)
  exact ⟨upload _ _ rfl oneByteStored_reached, download _ _ rfl oneByteDone_reached⟩

section Repeated

variable {S : Upload.Setup}

/-- The handler's complaint about the second copy of a full first block. -/
theorem repeated_block_refused (home : S.handler.ip = S.listening.ip)
    (long : 512 ≤ S.file.length) :
    ∃ acts t, Run (uploads S) (Upload.start S) acts t ∧ ¬ UploadCalm t := by
  have knows : Knows S.handler (Upload.start S).client.serverAddress
      (Upload.start S).client.initialPacket := (start_peace S home).knows
  have full : (block S.file 1).length = 512 := by
    rw [block, Blocks.nth_length]
    omega
  have more : block S.file 1 ≠ [] := by
    intro none
    rw [none] at full
    cases full
  have data : IsData S.file (header 3 1 ++ block S.file 1) := ⟨1, by decide, rfl⟩
  have size : (header 3 1 ++ block S.file 1).length = 516 := by
    rw [List.length_append, header_length, full]
  have number : numberOf (header 3 1 ++ block S.file 1) = 1 := numberOf_header 3 1 _
  -- The client sends its first block, and the handler stores it and expects the second one.
  let t₁ := Upload.step S (Upload.start S) (.client (.datagram S.handler (ackDatagram 0)) .ok)
  let t₂ := Upload.step S t₁ (.server (.datagram S.client (header 3 1 ++ block S.file 1)) .ok)
  have sent : header 3 1 ++ block S.file 1 ∈ t₁.toServer := by
    have next := Client.writeStep_next S.file (Upload.start S).client (d := ackDatagram 0)
      knows.verified (by simp) (opcodeOf_ack 0) (numberOf_ack 0)
      (show (0 : UInt16) + 1 ≠ 0 by decide) more (show LocalIO.ok.sendFails = false from rfl)
    refine List.mem_append_right _ (mem_sentTo.mpr ?_)
    rw [next]
    exact List.mem_append_right _ (List.mem_singleton.mpr rfl)
  have stored : Server.writeStep S.client t₁.server
      (.datagram S.client (header 3 1 ++ block S.file 1)) .ok = _ :=
    Server.writeStep_accept S.client .start S.client data.size.1 data.size.2 data.opcode number
      (show LocalIO.ok.writeFails = false from rfl)
  have status : t₂.server.status = .receiving := by
    refine (congrArg (fun turn => turn.1.status) stored).trans ?_
    exact if_neg (by omega)
  have expected : t₂.server.expectedBlockNumber = 2 :=
    congrArg (fun turn => turn.1.expectedBlockNumber) stored
  have run : Run (uploads S) (Upload.start S) ([] ++
      [.client (.datagram S.handler (ackDatagram 0)) .ok] ++
      [.server (.datagram S.client (header 3 1 ++ block S.file 1)) .ok]) t₂ := by
    refine .snoc (.snoc (.refl _) ⟨rfl, rfl, ?_⟩) ⟨⟨rfl, sent⟩, rfl⟩
    rintro src d ⟨⟩
    exact ⟨rfl, List.mem_singleton.mpr rfl⟩
  have inv : Upload.Inv S t₂ := run.unrestrict.invariant Upload.step_inv (Upload.start_inv S)
  -- The second copy meets a handler that has gone on.
  let again : Upload.Action := .server (.datagram S.client (header 3 1 ++ block S.file 1)) .ok
  have complains : ∃ p ∈ (Upload.step S t₂ again).toClient, opcodeOf p = opcodeError := by
    refine upload_complains inv.packets sent ?_
    rw [number, expected]
    decide
  obtain ⟨p, mem, error⟩ := complains
  refine ⟨_, _, .snoc (a := again) run ⟨⟨status, sent⟩, rfl⟩, ?_⟩
  intro calm
  exact calm p (List.mem_append_left _ mem) error

end Repeated

/-- A file of one full block. -/
def fullBlock : Upload.Setup := { Upload.oneByte with file := List.replicate 512 7 }

theorem repeated_block_aborts :
    ¬ ((∀ (S : Upload.Setup) (acts : List Upload.Action) (t : Upload.System),
        S.handler.ip = S.listening.ip → Run (uploads S) (Upload.start S) acts t → UploadCalm t) ∧
      (∀ (S : Download.Setup) (ackBuffer : Buffer 4) (acts : List Download.Action)
        (t : Download.System), S.handler.ip = S.listening.ip →
        Run (downloads S) (Download.start S ackBuffer .ok) acts t → DownloadCalm t)) := by
  rintro ⟨right, _⟩
  have home : fullBlock.handler.ip = fullBlock.listening.ip := rfl
  have long : 512 ≤ fullBlock.file.length := Nat.le_of_eq List.length_replicate.symm
  obtain ⟨acts, t, run, angry⟩ := repeated_block_refused home long
  exact angry (right fullBlock acts t home run)

end TFTP.HonestPeers
