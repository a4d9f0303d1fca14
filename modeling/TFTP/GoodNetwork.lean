import TFTP.ClientLoops
import TFTP.ServerRequests

/-!
# Uploads over a good network

`handleWRQRequest` and one `handleWriteRequest` exchange packets through two queues that
lose, repeat and reorder nothing, and no local call fails. Each party waits for the other,
so one packet at a time is under way, and the client's counter is at most one ahead of the
blocks stored.
-/

namespace TFTP.GoodNetwork

open Octets Packet Sockets FileSystem Runs Server

structure Setup where
  file : List UInt8
  filename : Name
  client : Addr
  listening : Addr
  handlerPort : UInt16

/-- The handler answers from the server's host, through a port of its own. -/
def Setup.handler (S : Setup) : Addr := { S.listening with port := S.handlerPort }

/-- The two parties, the packets under way and everything sent so far. -/
structure System where
  shared : Shared
  handler : Handler
  client : Client.WriteLoop
  toClient : List (List UInt8)
  toServer : List (List UInt8)
  serverSent : List (Addr × List UInt8)
  clientSent : List (Addr × List UInt8)

/-- The party that receives the first packet of its queue. -/
inductive Action where
  | server
  | client

/-- The packets of a turn with their destinations. -/
def sends (effects : List Effect) : List (Addr × List UInt8) :=
  effects.filterMap fun
    | .send dst p => some (dst, p)
    | _ => none

def start (S : Setup) (shared : Shared) : System :=
  let turn := handleWriteRequest shared S.filename S.client .ok
  { shared := turn.shared
    handler := turn.handler
    client := .start S.listening
    toClient := sentTo S.client turn.effects
    toServer := []
    serverSent := sends turn.effects
    clientSent := [] }

def Enabled (t : System) : Action → Prop
  | .server => t.handler.active ∧ t.toServer ≠ []
  | .client => t.client.status = .sending ∧ t.toClient ≠ []

def step (S : Setup) (t : System) : Action → System
  | .server =>
    match t.toServer with
    | [] => t
    | d :: rest =>
      let turn := advance t.shared (.datagram S.client d) .ok t.handler
      { t with
        shared := turn.shared
        handler := turn.handler
        toServer := rest
        toClient := t.toClient ++ sentTo S.client turn.effects
        serverSent := t.serverSent ++ sends turn.effects }
  | .client =>
    match t.toClient with
    | [] => t
    | d :: rest =>
      let turn := Client.writeStep (some S.file) t.client (.datagram S.handler d) .ok
      { t with
        client := turn.1
        toClient := rest
        toServer := t.toServer ++ sentTo S.handler turn.2
        clientSent := t.clientSent ++ sends turn.2 }

def machine (S : Setup) : Machine System Action := ⟨Enabled, step S⟩

/-- The number of blocks of the file. -/
def blocks (S : Setup) : Nat := Blocks.count 512 S.file.length

def acknowledged (S : Setup) (stored : Nat) : List (Addr × List UInt8) :=
  (List.range (stored + 1)).map fun k => (S.client, ackDatagram (UInt16.ofNat k))

def dataPacket (S : Setup) (k : Nat) : List UInt8 := header 3 (UInt16.ofNat k) ++ block S.file k

def transmitted (S : Setup) (sent : Nat) : List (Addr × List UInt8) :=
  (List.range sent).map fun k => (S.handler, dataPacket S (k + 1))

/-- The file is on the disk and in the map, every block is acknowledged, and the client
reports success. -/
structure Completed (S : Setup) (t : System) : Prop where
  acks : t.serverSent = acknowledged S (blocks S)
  content : t.shared.disk.read (resolve (filePath S.filename)) = some S.file
  registered : t.shared.files[S.filename]? = some 0
  reported : t.client.status = .succeeded

/-- The handler is in its loop, and its file holds the blocks stored so far. -/
structure Holding (S : Setup) (t : System) (stored inode : Nat) (loop : WriteLoop) : Prop where
  handler : t.handler = .writing S.filename S.client inode loop
  live : loop.status = .receiving
  expected : loop.expectedBlockNumber = UInt16.ofNat (stored + 1)
  content : loop.content = (Blocks.first 512 S.file stored).flatten
  entry : t.shared.disk.entries (resolve (filePath S.filename)) = some (.file inode)
  written : t.shared.disk.contents inode = loop.content
  unregistered : S.filename ∉ t.shared.files

structure Progress (S : Setup) (t : System) (stored sent : Nat) : Prop where
  order : stored ≤ sent ∧ sent ≤ stored + 1
  bound : sent ≤ blocks S
  counter : t.client.expectedBlockNumber = UInt16.ofNat sent
  status : t.client.status = if sent < blocks S then .sending else .succeeded
  verified : Client.verifySource t.client.serverAddress t.client.initialPacket S.handler =
    some S.handler
  toServer : t.toServer = if sent = stored then [] else [dataPacket S sent]
  toClient : t.toClient = if sent = stored then [ackDatagram (UInt16.ofNat stored)] else []
  serverSent : t.serverSent = acknowledged S stored
  clientSent : t.clientSent = transmitted S sent
  holding : stored < blocks S → ∃ inode loop, Holding S t stored inode loop
  finished : stored = blocks S → Completed S t

section Lengths

variable {S : Setup} (odd : S.file.length % 512 ≠ 0)
include odd

theorem blocks_eq : blocks S = S.file.length / 512 + 1 := by
  rw [blocks, Blocks.count]
  omega

theorem block_nonempty {k : Nat} (lt : k < blocks S) : block S.file (k + 1) ≠ [] := by
  rw [block_nonempty_iff]
  rw [blocks_eq odd] at lt
  omega

theorem block_short {k : Nat} (lt : k < blocks S) :
    (block S.file (k + 1)).length < 512 ↔ ¬ k + 1 < blocks S := by
  rw [block_short_iff S.file (by omega)]
  rw [blocks_eq odd] at lt ⊢
  omega

end Lengths

theorem ofNat_succ (k : Nat) : UInt16.ofNat k + 1 = UInt16.ofNat (k + 1) := by simp

theorem toNat_ofNat {k : Nat} (small : k < 65536) : (UInt16.ofNat k).toNat = k := by
  rw [UInt16.toNat_ofNat']
  exact Nat.mod_eq_of_lt small

theorem acknowledged_succ (S : Setup) (stored : Nat) : acknowledged S (stored + 1) =
    acknowledged S stored ++ [(S.client, ackDatagram (UInt16.ofNat (stored + 1)))] := by
  rw [acknowledged, List.range_succ, List.map_append]
  rfl

theorem transmitted_succ (S : Setup) (sent : Nat) :
    transmitted S (sent + 1) = transmitted S sent ++ [(S.handler, dataPacket S (sent + 1))] := by
  rw [transmitted, List.range_succ, List.map_append]
  rfl

/-- The next block goes into the file; the short one ends the loop and registers the name. -/
theorem holding_turn {S : Setup} {t : System} {stored inode : Nat} {loop : WriteLoop}
    (H : Holding S t stored inode loop) :
    advance t.shared (.datagram S.client (dataPacket S (stored + 1))) .ok t.handler =
      { handler :=
          if (block S.file (stored + 1)).length < 512 then .done
          else .writing S.filename S.client inode
            { recievedBuffer := loop.recievedBuffer.fill (dataPacket S (stored + 1))
              expectedBlockNumber := UInt16.ofNat (stored + 1 + 1)
              retry := maxRetry
              content := (Blocks.first 512 S.file (stored + 1)).flatten
              status := .receiving }
        shared :=
          { files :=
              if (block S.file (stored + 1)).length < 512 then
                t.shared.files.insertIfNew S.filename 0
              else t.shared.files
            disk := t.shared.disk.writeAt inode loop.content.length (block S.file (stored + 1)) }
        accesses := []
        effects := examineOpcode ++ examineNumber ++ [.payload (block S.file (stored + 1)).length,
          .write (block S.file (stored + 1)),
          sendACK S.client (UInt16.ofNat (stored + 1))] } := by
  have fits := block_length_le S.file (stored + 1)
  have size : (dataPacket S (stored + 1)).length = (block S.file (stored + 1)).length + 4 := by
    rw [dataPacket, List.length_append, header_length, Nat.add_comm]
  have payload : (dataPacket S (stored + 1)).drop 4 = block S.file (stored + 1) :=
    List.drop_left' (header_length 3 _)
  have grown : (Blocks.first 512 S.file stored).flatten ++ block S.file (stored + 1) =
      (Blocks.first 512 S.file (stored + 1)).flatten := by
    rw [Blocks.first_succ, List.flatten_append, List.flatten_singleton]
    rfl
  have accepts := writeStep_accept S.client loop S.client (d := dataPacket S (stored + 1))
    (by omega) (by omega) (opcodeOf_header 3 _ _)
    (by rw [H.expected]; exact numberOf_header 3 _ _) (show LocalIO.ok.writeFails = false from rfl)
  have short : (dataPacket S (stored + 1)).length < 516 ↔
      (block S.file (stored + 1)).length < 512 := by
    omega
  have shorter : ((dataPacket S (stored + 1)).length : Int) - 4 =
      (block S.file (stored + 1)).length := by
    omega
  rw [payload, H.expected, ofNat_succ, H.live, H.content, grown, shorter] at accepts
  rw [H.handler]
  simp only [advance, writeTurn, Environment.ok, accepts, short]
  by_cases last : (block S.file (stored + 1)).length < 512
  · simp [last, writes, examineOpcode, examineNumber, sendACK]
  · simp [last, writes, examineOpcode, examineNumber, sendACK]

theorem server_progress {S : Setup} (odd : S.file.length % 512 ≠ 0) {t : System}
    {stored sent : Nat} (P : Progress S t stored sent) (enabled : Enabled t .server) :
    Progress S (step S t .server) (stored + 1) sent := by
  have behind : sent ≠ stored := by
    intro same
    exact enabled.2 (by rw [P.toServer, if_pos same])
  obtain rfl : sent = stored + 1 := by
    have := P.order
    omega
  have bound := P.bound
  obtain ⟨inode, loop, H⟩ := P.holding (by omega)
  have queue := P.toServer
  have quiet := P.toClient
  rw [if_neg behind] at queue quiet
  have short := block_short odd (show stored < blocks S by omega)
  have turn := holding_turn H
  have written : (t.shared.disk.writeAt inode loop.content.length
      (block S.file (stored + 1))).contents inode =
      (Blocks.first 512 S.file (stored + 1)).flatten := by
    rw [Disk.contents_writeAt_end H.written, H.content, Blocks.first_succ, List.flatten_append,
      List.flatten_singleton]
    rfl
  have effects : sentTo S.client (examineOpcode ++ examineNumber ++
      [.payload (block S.file (stored + 1)).length, .write (block S.file (stored + 1)),
        sendACK S.client (UInt16.ofNat (stored + 1))]) =
      [ackDatagram (UInt16.ofNat (stored + 1))] := by
    simp [sentTo, examineOpcode, examineNumber, sendACK]
  have sending : sends (examineOpcode ++ examineNumber ++
      [.payload (block S.file (stored + 1)).length, .write (block S.file (stored + 1)),
        sendACK S.client (UInt16.ofNat (stored + 1))]) =
      [(S.client, ackDatagram (UInt16.ofNat (stored + 1)))] := rfl
  simp only [step, queue, turn]
  constructor
  · exact ⟨Nat.le_refl _, Nat.le_succ _⟩
  · exact P.bound
  · exact P.counter
  · exact P.status
  · exact P.verified
  · rw [if_pos rfl]
  · rw [if_pos rfl, quiet, effects]
    rfl
  · rw [P.serverSent, sending, acknowledged_succ]
  · exact P.clientSent
  · intro more
    have full := short.not.mpr (not_not.mpr more)
    rw [if_neg full, if_neg full]
    exact ⟨inode, _, ⟨rfl, rfl, rfl, rfl, H.entry, written, H.unregistered⟩⟩
  · intro all
    have last := short.mpr (by omega)
    rw [if_pos last, if_pos last]
    constructor
    · rw [P.serverSent, sending, ← acknowledged_succ, all]
    · refine Disk.read_eq_some.mpr ⟨inode, H.entry, ?_⟩
      exact written.trans (Blocks.first_flatten_of_short last)
    · rw [Std.TreeMap.getElem?_insertIfNew, if_pos ⟨Std.ReflCmp.compare_self, H.unregistered⟩]
    · rw [P.status, if_neg (by omega)]

theorem client_progress {S : Setup} (odd : S.file.length % 512 ≠ 0)
    (small : S.file.length ≤ 65535 * 512) {t : System} {stored sent : Nat}
    (P : Progress S t stored sent) (enabled : Enabled t .client) :
    sent = stored ∧ Progress S (step S t .client) stored (sent + 1) := by
  have level : sent = stored := by
    by_contra behind
    exact enabled.2 (by rw [P.toClient, if_neg behind])
  subst level
  refine ⟨rfl, ?_⟩
  have more : sent < blocks S := by
    by_contra all
    have status := P.status
    rw [if_neg all, enabled.1] at status
    cases status
  have few : blocks S ≤ 65535 := by
    rw [blocks_eq odd]
    omega
  have queue := P.toClient
  have idle := P.toServer
  rw [if_pos rfl] at queue idle
  have value : (UInt16.ofNat (sent + 1)).toNat = sent + 1 := toNat_ofNat (by omega)
  have pos : UInt16.ofNat (sent + 1) ≠ 0 := by
    intro zero
    rw [zero] at value
    cases value
  have next := Client.writeStep_next S.file t.client
    (d := ackDatagram (UInt16.ofNat sent)) P.verified
    (by rw [ackDatagram_length]) (opcodeOf_ack _) (by rw [numberOf_ack, P.counter])
    (by rw [P.counter, ofNat_succ]; exact pos)
    (by rw [P.counter, ofNat_succ, value]; exact block_nonempty odd more)
    (show LocalIO.ok.sendFails = false from rfl)
  rw [P.counter, ofNat_succ, value, enabled.1] at next
  have short := block_short odd more
  have effects : sentTo S.handler (examineOpcode ++ examineNumber ++
      [.send S.handler (dataPacket S (sent + 1))]) = [dataPacket S (sent + 1)] := by
    simp [sentTo, examineOpcode, examineNumber]
  simp only [step, queue, next]
  constructor
  · exact ⟨Nat.le_succ _, Nat.le_refl _⟩
  · exact more
  · rfl
  · by_cases again : sent + 1 < blocks S
    · rw [if_neg (short.not.mpr (not_not.mpr again)), if_pos again]
    · rw [if_pos (short.mpr again), if_neg again]
  · simp [Client.verifySource]
  · rw [if_neg (Nat.succ_ne_self sent), idle]
    exact effects
  · rw [if_neg (Nat.succ_ne_self sent)]
  · exact P.serverSent
  · rw [P.clientSent, transmitted_succ]
    rfl
  · intro lt
    obtain ⟨inode, loop, H⟩ := P.holding lt
    exact ⟨inode, loop, ⟨H.handler, H.live, H.expected, H.content, H.entry, H.written,
      H.unregistered⟩⟩
  · intro all
    omega

theorem start_progress {S : Setup} {shared : Shared} (odd : S.file.length % 512 ≠ 0)
    (new : S.filename ∉ shared.files)
    (opens : shared.disk.openWrite (resolve (filePath S.filename)) ≠ none) :
    Progress S (start S shared) 0 0 := by
  have pos : 0 < blocks S := by
    rw [blocks_eq odd]
    omega
  cases opened : shared.disk.openWrite (resolve (filePath S.filename)) with
  | none => exact absurd opened opens
  | some pair =>
    obtain ⟨disk, inode⟩ := pair
    obtain ⟨entry, empty⟩ := Disk.openWrite_empties opened
    have turn : handleWriteRequest shared S.filename S.client .ok = _ :=
      handleWriteRequest_opened new S.client opened
    simp only [start, turn]
    constructor
    · exact ⟨Nat.le_refl _, Nat.le_succ _⟩
    · exact Nat.zero_le _
    · rfl
    · rw [if_pos pos]
      rfl
    · simp [Client.verifySource, Client.WriteLoop.start, Setup.handler]
    · rfl
    · simp [sentTo, sendACK]
    · rfl
    · rfl
    · intro _
      exact ⟨inode, .start, ⟨rfl, rfl, rfl, rfl, entry, empty, new⟩⟩
    · intro none
      omega

theorem run_progress {S : Setup} (odd : S.file.length % 512 ≠ 0)
    (small : S.file.length ≤ 65535 * 512) {s t : System} {acts : List Action}
    (begun : Progress S s 0 0) (run : Run (machine S) s acts t) :
    ∃ stored sent, Progress S t stored sent ∧ acts.length = stored + sent := by
  refine run.history (P := fun acts t =>
    ∃ stored sent, Progress S t stored sent ∧ acts.length = stored + sent) ?_ ?_
  · exact ⟨0, 0, begun, rfl⟩
  · rintro acts t a enabled ⟨stored, sent, P, count⟩
    cases a with
    | server =>
      refine ⟨stored + 1, sent, server_progress odd P enabled, ?_⟩
      rw [List.length_append, List.length_singleton]
      omega
    | client =>
      refine ⟨stored, sent + 1, (client_progress odd small P enabled).2, ?_⟩
      rw [List.length_append, List.length_singleton]
      omega

theorem progress_enabled {S : Setup} {t : System} {stored sent : Nat}
    (P : Progress S t stored sent) : (∃ a, Enabled t a) ∨ Completed S t := by
  have order := P.order
  have bound := P.bound
  by_cases level : sent = stored
  · by_cases all : stored = blocks S
    · exact Or.inr (P.finished all)
    · refine Or.inl ⟨.client, ?_, ?_⟩
      · rw [P.status, if_pos (by omega)]
      · rw [P.toClient, if_pos level]
        exact List.cons_ne_nil _ _
  · obtain ⟨inode, loop, H⟩ := P.holding (by omega)
    refine Or.inl ⟨.server, ?_, ?_⟩
    · rw [H.handler]
      rfl
    · rw [P.toServer, if_neg level]
      exact List.cons_ne_nil _ _

/-- No packet of an upload in progress is an ERROR packet. -/
theorem progress_no_error {S : Setup} {t : System} {stored sent : Nat}
    (P : Progress S t stored sent) : ∀ q ∈ t.serverSent ++ t.clientSent, opcodeOf q.2 ≠ 5 := by
  intro q mem
  rw [P.serverSent, P.clientSent] at mem
  rcases List.mem_append.mp mem with ack | data
  · obtain ⟨k, _, rfl⟩ := List.mem_map.mp ack
    rw [opcodeOf_ack]
    decide
  · obtain ⟨k, _, rfl⟩ := List.mem_map.mp data
    rw [dataPacket, opcodeOf_header]
    decide

/-- An upload on a good network takes two deliveries for each block, neither side sends an
ERROR, and it ends with the file stored, acknowledged, registered and reported. -/
theorem upload_completes {S : Setup} {shared : Shared} (odd : S.file.length % 512 ≠ 0)
    (small : S.file.length ≤ 65535 * 512) (new : S.filename ∉ shared.files)
    (opens : shared.disk.openWrite (resolve (filePath S.filename)) ≠ none)
    {acts : List Action} {t : System} (run : Run (machine S) (start S shared) acts t) :
    (∀ q ∈ t.serverSent ++ t.clientSent, opcodeOf q.2 ≠ 5) ∧ acts.length ≤ 2 * blocks S ∧
      ((∃ a, Enabled t a) ∨ Completed S t) := by
  obtain ⟨stored, sent, P, count⟩ := run_progress odd small (start_progress odd new opens) run
  have order := P.order
  have bound := P.bound
  exact ⟨progress_no_error P, by omega, progress_enabled P⟩

def oneByte : Setup where
  file := [7]
  filename := [102]
  client := ⟨0x7F000001, 9799⟩
  listening := ⟨0x7F000001, 69⟩
  handlerPort := 9801

theorem upload_completes_one_byte :
    ∃ t, Run (machine oneByte) (start oneByte .empty) [.client, .server] t ∧
      (∀ q ∈ t.serverSent ++ t.clientSent, opcodeOf q.2 ≠ 5) ∧ 2 ≤ 2 * blocks oneByte ∧
      ((∃ a, Enabled t a) ∨ Completed oneByte t) := by
  have first : Enabled (start oneByte .empty) .client := ⟨by decide, by decide⟩
  have second : Enabled (step oneByte (start oneByte .empty) .client) .server :=
    ⟨by decide, by decide⟩
  have run : Run (machine oneByte) (start oneByte .empty) ([] ++ [.client] ++ [.server]) _ :=
    .snoc (.snoc (.refl _) first) second
  exact ⟨_, run, upload_completes (by decide) (by decide) (by simp [Shared.empty]) (by decide) run⟩

end TFTP.GoodNetwork
