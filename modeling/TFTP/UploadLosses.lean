import TFTP.GoodNetwork
import TFTP.Quiescence

/-!
# An upload that loses a packet

Neither party of an upload sends anything a second time: a packet that is lost is the last
one, and both wait in vain until they give up. The client reports success as soon as the
last block is on its way, so the loss of that block is the one the two of them judge
differently.
-/

namespace TFTP.UploadLosses

open Octets Packet Sockets FileSystem Runs Server GoodNetwork
open Quiescence (Waits patience)

structure Net where
  system : System
  lost : List (List UInt8)

/-- A packet arrives, is lost on its way to a party that listens, or a party waits in vain. -/
inductive Event where
  | arrives (a : GoodNetwork.Action)
  | losesToServer
  | losesToClient
  | serverTimeout
  | clientTimeout

/-- Nothing is under way to a party that still listens. -/
def Silent (t : System) : Prop :=
  (t.handler.active → t.toServer = []) ∧ (t.client.status = .sending → t.toClient = [])

def CanHappen (t : Net) : Event → Prop
  | .arrives a => GoodNetwork.Enabled t.system a
  | .losesToServer => t.system.handler.active ∧ t.system.toServer ≠ []
  | .losesToClient => t.system.client.status = .sending ∧ t.system.toClient ≠ []
  | .serverTimeout => t.system.handler.active ∧ Silent t.system
  | .clientTimeout => t.system.client.status = .sending ∧ Silent t.system

def serverWaits (S : Setup) (t : System) : System :=
  let turn := advance t.shared .timeout .ok t.handler
  { t with
    shared := turn.shared
    handler := turn.handler
    toClient := t.toClient ++ sentTo S.client turn.effects
    serverSent := t.serverSent ++ sends turn.effects }

def clientWaits (S : Setup) (t : System) : System :=
  let turn := Client.writeStep (some S.file) t.client .timeout .ok
  { t with
    client := turn.1
    toServer := t.toServer ++ sentTo S.handler turn.2
    clientSent := t.clientSent ++ sends turn.2 }

def happen (S : Setup) (t : Net) : Event → Net
  | .arrives a => { t with system := GoodNetwork.step S t.system a }
  | .losesToServer =>
    { system := { t.system with toServer := t.system.toServer.tail }
      lost := t.lost ++ t.system.toServer.take 1 }
  | .losesToClient =>
    { system := { t.system with toClient := t.system.toClient.tail }
      lost := t.lost ++ t.system.toClient.take 1 }
  | .serverTimeout => { t with system := serverWaits S t.system }
  | .clientTimeout => { t with system := clientWaits S t.system }

def lossy (S : Setup) : Machine Net Event := ⟨CanHappen, happen S⟩

/-- The parties have their patience, and the handler of a registered upload has ended. -/
structure Ready (S : Setup) (t : System) : Prop where
  server : Waits t.handler
  client : t.client.status = .sending → 0 < t.client.retry ∧ t.client.retry ≤ maxRetry
  ended : S.filename ∈ t.shared.files → t.handler.active = false

theorem start_ready {S : Setup} {shared : Shared} (new : S.filename ∉ shared.files) :
    Ready S (start S shared) := by
  have waits := Quiescence.begin_waits shared S.client (Buffer.zero 4) .ok (.write S.filename)
  refine ⟨waits, fun _ => ⟨(by decide : 0 < maxRetry), Nat.le_refl maxRetry⟩, fun known => ?_⟩
  rcases handleWriteRequest_cases shared S.filename S.client .ok with
    ⟨done, _⟩ | ⟨disk, inode, _, _, _, same⟩
  · simp only [start, done]
    rfl
  · simp only [start, same] at known
    exact absurd known new

theorem server_ready {S : Setup} {t : System} {stored sent : Nat} (P : Progress S t stored sent)
    (ready : Ready S t) (enabled : GoodNetwork.Enabled t .server) :
    Ready S (GoodNetwork.step S t .server) := by
  have behind : sent ≠ stored := by
    intro same
    exact enabled.2 (by rw [P.toServer, if_pos same])
  have order := P.order
  have bound := P.bound
  obtain rfl : sent = stored + 1 := by omega
  obtain ⟨inode, loop, H⟩ := P.holding (by omega)
  have queue := P.toServer
  rw [if_neg behind] at queue
  have turn := holding_turn H
  have waits := (Quiescence.advance_spent t.shared (.datagram S.client (dataPacket S (stored + 1)))
    .ok ready.server).waits
  simp only [GoodNetwork.step, queue]
  refine ⟨waits, ready.client, ?_⟩
  simp only [turn]
  by_cases last : (block S.file (stored + 1)).length < 512
  · simp only [last, if_true]
    exact fun _ => rfl
  · simp only [last, if_false]
    exact fun known => absurd known H.unregistered

theorem client_ready {S : Setup} {t : System} (ready : Ready S t)
    (enabled : GoodNetwork.Enabled t .client) : Ready S (GoodNetwork.step S t .client) := by
  obtain ⟨live, some_packet⟩ := enabled
  cases queue : t.toClient with
  | nil => exact absurd queue some_packet
  | cons d rest =>
    obtain ⟨some_left, within⟩ := ready.client live
    simp only [GoodNetwork.step, queue]
    refine ⟨ready.server, fun again => ?_, ready.ended⟩
    obtain ⟨left, bound, _⟩ := (Patience.Client.patientWrite (some S.file)).kept
      (s := t.client) (decide_eq_true live) some_left within (.datagram S.handler d, .ok)
      (decide_eq_true again)
    exact ⟨left, bound⟩

def clientPatience (s : Client.WriteLoop) : Nat := if s.status = .sending then s.retry else 0

/-- The last packet is lost, and so many things have happened. -/
structure Halted (S : Setup) (t : Net) (stored sent turns : Nat) : Prop where
  order : stored ≤ sent ∧ sent ≤ stored + 1
  bound : stored < blocks S ∧ sent ≤ blocks S
  lost : t.lost = [if sent = stored then ackDatagram (UInt16.ofNat stored) else dataPacket S sent]
  toServer : t.system.toServer = []
  toClient : t.system.toClient = []
  server : (∃ inode loop, t.system.handler = .writing S.filename S.client inode loop) ∨
    t.system.handler = .done
  unregistered : S.filename ∉ t.system.shared.files
  waits : Waits t.system.handler
  status : if sent < blocks S then t.system.client.status = .sending ∨
      t.system.client.status = .exhausted
    else t.system.client.status = .succeeded
  patient : t.system.client.status = .sending →
    0 < t.system.client.retry ∧ t.system.client.retry ≤ maxRetry
  spent : turns + patience t.system.handler + clientPatience t.system.client ≤
    stored + sent + 1 + 2 * maxRetry

theorem lose_halted {S : Setup} {t : System} {stored sent : Nat} (P : Progress S t stored sent)
    (ready : Ready S t) (unfinished : stored < blocks S) {p : List UInt8}
    (lost : p = if sent = stored then ackDatagram (UInt16.ofNat stored) else dataPacket S sent) :
    Halted S ⟨{ t with toServer := [], toClient := [] }, [p]⟩ stored sent (stored + sent + 1) := by
  obtain ⟨inode, loop, H⟩ := P.holding unfinished
  refine ⟨P.order, ⟨unfinished, P.bound⟩, by rw [lost], rfl, rfl, Or.inl ⟨inode, loop, H.handler⟩,
    H.unregistered, ready.server, ?_, ready.client, ?_⟩
  · have status := P.status
    split at status
    · rename_i more
      rw [if_pos more]
      exact Or.inl status
    · rename_i all
      rw [if_neg all]
      exact status
  · have server : patience t.handler ≤ maxRetry :=
      Nat.le_trans (Quiescence.patience_le ready.server) (by split <;> omega)
    have client : clientPatience t.client ≤ maxRetry := by
      unfold clientPatience
      split
      · rename_i live
        exact (ready.client live).2
      · exact Nat.zero_le _
    simp only
    omega

/-- An upload handler that waits in vain waits on, or gives up. -/
theorem silent_write (shared : Shared) (filename : Name) (client : Addr) (inode : Nat)
    {loop : WriteLoop} (live : loop.status = .receiving) :
    advance shared .timeout .ok (.writing filename client inode loop) =
      { handler := if loop.retry - 1 = 0 then .done
          else .writing filename client inode { loop with retry := loop.retry - 1 }
        shared := shared
        accesses := []
        effects := [] } := by
  by_cases last : loop.retry - 1 = 0
  · simp [advance, writeTurn, writeStep, last, writes]
  · simp [advance, writeTurn, writeStep, last, live, writes]

section Waiting

variable {S : Setup} {t : Net} {stored sent turns : Nat}
  (halted : Halted S t stored sent turns)
include halted

theorem Halted.serverWaits (active : t.system.handler.active) :
    Halted S { t with system := serverWaits S t.system } stored sent (turns + 1) := by
  rcases halted.server with ⟨inode, loop, writing⟩ | done
  · have waits := halted.waits
    rw [writing] at waits
    obtain ⟨live, some_left, within⟩ := waits
    have turn := silent_write t.system.shared S.filename S.client inode live
    have spent := halted.spent
    rw [writing] at spent
    simp only [UploadLosses.serverWaits, writing, turn]
    refine { halted with
      toClient := by simp [halted.toClient, sentTo]
      server := ?_
      waits := ?_
      spent := ?_ }
    · by_cases last : loop.retry - 1 = 0
      · exact Or.inr (if_pos last)
      · exact Or.inl ⟨inode, _, if_neg last⟩
    · by_cases last : loop.retry - 1 = 0
      · simp only [last, if_true]
        trivial
      · simp only [last, if_false]
        exact ⟨live, Nat.pos_of_ne_zero last, by simp only; omega⟩
    · by_cases last : loop.retry - 1 = 0
      · simp only [last, if_true, patience] at spent ⊢
        omega
      · simp only [last, if_false, patience] at spent ⊢
        omega
  · rw [done] at active
    cases active

theorem Halted.clientWaits (live : t.system.client.status = .sending) :
    Halted S { t with system := clientWaits S t.system } stored sent (turns + 1) := by
  obtain ⟨some_left, within⟩ := halted.patient live
  have more : sent < blocks S := by
    by_contra all
    have status := halted.status
    rw [if_neg all, live] at status
    cases status
  have spent := halted.spent
  simp only [UploadLosses.clientWaits, Client.writeStep]
  refine { halted with
    toServer := by simp [halted.toServer, sentTo]
    status := ?_
    patient := fun again => ?_
    spent := ?_ }
  · rw [if_pos more]
    by_cases last : t.system.client.retry - 1 = 0
    · exact Or.inr (if_pos last)
    · exact Or.inl ((if_neg last).trans live)
  · have left : ¬ t.system.client.retry - 1 = 0 := by
      intro last
      simp only [last, if_true] at again
      cases again
    exact ⟨Nat.pos_of_ne_zero left, by simp only; omega⟩
  · by_cases last : t.system.client.retry - 1 = 0
    · simp only [clientPatience, last, live, if_true, reduceCtorEq, if_false] at spent ⊢
      omega
    · simp only [clientPatience, last, live, if_true, if_false] at spent ⊢
      omega

/-- Nothing but timeouts happens behind a loss. -/
theorem Halted.happens {e : Event} (enabled : CanHappen t e) :
    Halted S (happen S t e) stored sent (turns + 1) := by
  cases e with
  | arrives a =>
    cases a with
    | server => exact absurd halted.toServer enabled.2
    | client => exact absurd halted.toClient enabled.2
  | losesToServer => exact absurd halted.toServer enabled.2
  | losesToClient => exact absurd halted.toClient enabled.2
  | serverTimeout => exact halted.serverWaits enabled.1
  | clientTimeout => exact halted.clientWaits enabled.1

end Waiting

/-- How far an upload is after so many things have happened. -/
def Stage (S : Setup) (t : Net) (turns : Nat) : Prop :=
  (t.lost = [] ∧ Ready S t.system ∧
      ∃ stored sent, Progress S t.system stored sent ∧ turns = stored + sent) ∨
    ∃ stored sent, Halted S t stored sent turns

section Flowing

variable {S : Setup} {t : Net} {stored sent : Nat} (ready : Ready S t.system)
  (P : Progress S t.system stored sent)
include ready P

theorem losesToServer_halted (flowing : t.lost = []) (enabled : CanHappen t .losesToServer) :
    Halted S (happen S t .losesToServer) stored sent (stored + sent + 1) := by
  have behind : sent ≠ stored := by
    intro same
    exact enabled.2 (by rw [P.toServer, if_pos same])
  have order := P.order
  have bound := P.bound
  have toServer := P.toServer
  have toClient := P.toClient
  rw [if_neg behind] at toServer toClient
  have halted := lose_halted P ready (by omega) (if_neg behind).symm
  obtain ⟨⟨shared, handler, client, _, _, serverSent, clientSent⟩, _⟩ := t
  obtain rfl : _ = [] := flowing
  obtain rfl : _ = [] := toClient
  obtain rfl : _ = [dataPacket S sent] := toServer
  exact halted

theorem losesToClient_halted (flowing : t.lost = []) (enabled : CanHappen t .losesToClient) :
    Halted S (happen S t .losesToClient) stored sent (stored + sent + 1) := by
  have level : sent = stored := by
    by_contra behind
    exact enabled.2 (by rw [P.toClient, if_neg behind])
  have more : sent < blocks S := by
    by_contra all
    have status := P.status
    rw [if_neg all, enabled.1] at status
    cases status
  have toServer := P.toServer
  have toClient := P.toClient
  rw [if_pos level] at toServer toClient
  have halted := lose_halted P ready (by omega) (if_pos level).symm
  obtain ⟨⟨shared, handler, client, _, _, serverSent, clientSent⟩, _⟩ := t
  obtain rfl : _ = [] := flowing
  obtain rfl : _ = [] := toServer
  obtain rfl : _ = [ackDatagram (UInt16.ofNat stored)] := toClient
  exact halted

/-- As long as nothing is lost nobody waits in vain. -/
theorem flowing_heard : ¬ CanHappen t .serverTimeout ∧ ¬ CanHappen t .clientTimeout := by
  by_cases level : sent = stored
  · have toClient := P.toClient
    rw [if_pos level] at toClient
    have some_packet : t.system.toClient ≠ [] := by simp [toClient]
    refine ⟨fun enabled => ?_, fun enabled => some_packet (enabled.2.2 enabled.1)⟩
    have all : ¬ sent < blocks S := by
      intro more
      have status := P.status
      rw [if_pos more] at status
      exact some_packet (enabled.2.2 status)
    have bound := P.bound
    have known : S.filename ∈ t.system.shared.files := by
      rw [Std.TreeMap.mem_iff_isSome_getElem?, (P.finished (by omega)).registered]
      rfl
    exact Bool.false_ne_true ((ready.ended known).symm.trans enabled.1)
  · have toServer := P.toServer
    rw [if_neg level] at toServer
    have some_packet : t.system.toServer ≠ [] := by simp [toServer]
    have order := P.order
    have bound := P.bound
    obtain ⟨inode, loop, H⟩ := P.holding (by omega)
    have active : t.system.handler.active := by
      rw [H.handler]
      rfl
    exact ⟨fun enabled => some_packet (enabled.2.1 active),
      fun enabled => some_packet (enabled.2.1 active)⟩

end Flowing

theorem stage_happens {S : Setup} (odd : S.file.length % 512 ≠ 0)
    (small : S.file.length ≤ 65535 * 512) {t : Net} {turns : Nat} (stage : Stage S t turns)
    {e : Event} (enabled : CanHappen t e) : Stage S (happen S t e) (turns + 1) := by
  rcases stage with ⟨flowing, ready, stored, sent, P, rfl⟩ | ⟨stored, sent, halted⟩
  · cases e with
    | arrives a =>
      cases a with
      | server =>
        exact Or.inl ⟨flowing, server_ready P ready enabled, stored + 1, sent,
          server_progress odd P enabled, by omega⟩
      | client =>
        exact Or.inl ⟨flowing, client_ready ready enabled, stored, sent + 1,
          (client_progress odd small P enabled).2, by omega⟩
    | losesToServer => exact Or.inr ⟨stored, sent, losesToServer_halted ready P flowing enabled⟩
    | losesToClient => exact Or.inr ⟨stored, sent, losesToClient_halted ready P flowing enabled⟩
    | serverTimeout => exact absurd enabled (flowing_heard ready P).1
    | clientTimeout => exact absurd enabled (flowing_heard ready P).2
  · exact Or.inr ⟨stored, sent, halted.happens enabled⟩

/-- What the loss of a packet does to the two verdicts. -/
structure Outcome (S : Setup) (t : Net) : Prop where
  stored : (t.system.shared.disk.read (resolve (filePath S.filename)) = some S.file ∧
    t.system.shared.files[S.filename]? = some 0) ↔ t.lost = []
  unregistered : t.lost ≠ [] → S.filename ∉ t.system.shared.files
  reported : t.system.client.status = .succeeded ↔
    t.lost = [] ∨ t.lost = [dataPacket S (blocks S)]

theorem Halted.outcome {S : Setup} (odd : S.file.length % 512 ≠ 0)
    (small : S.file.length ≤ 65535 * 512) {t : Net} {stored sent turns : Nat}
    (halted : Halted S t stored sent turns) : Outcome S t := by
  have lost := halted.lost
  have order := halted.order
  have bound := halted.bound
  have few : blocks S ≤ 65535 := by
    rw [blocks_eq odd]
    omega
  refine ⟨iff_of_false (fun ⟨_, known⟩ => ?_) (by simp [lost]), fun _ => halted.unregistered, ?_⟩
  · refine halted.unregistered (Std.TreeMap.mem_iff_isSome_getElem?.mpr ?_)
    rw [known]
    rfl
  · have status := halted.status
    by_cases all : sent = blocks S
    · rw [if_neg (by omega)] at status
      rw [if_neg (by omega), all] at lost
      exact iff_of_true status (Or.inr lost)
    · rw [if_pos (by omega)] at status
      refine iff_of_false (fun done => ?_) ?_
      · rw [done] at status
        exact status.elim (fun h => by cases h) fun h => by cases h
      · rintro (none_lost | last)
        · simp [lost] at none_lost
        · have same := List.singleton_inj.mp (lost.symm.trans last)
          split at same
          · have op := congrArg opcodeOf same
            rw [opcodeOf_ack, dataPacket, opcodeOf_header] at op
            exact absurd op (by decide)
          · have number := congrArg numberOf same
            rw [dataPacket, numberOf_header, dataPacket, numberOf_header] at number
            have value := congrArg UInt16.toNat number
            rw [toNat_ofNat (by omega), toNat_ofNat (by omega)] at value
            exact all value

/-- When nothing can happen, both parties have ended. -/
theorem still_ended {t : Net} (still : ¬ ∃ e, CanHappen t e) :
    t.system.handler.active = false ∧ t.system.client.status ≠ .sending := by
  have cannot : ∀ e, ¬ CanHappen t e := fun e can => still ⟨e, can⟩
  have silent : Silent t.system := by
    constructor
    · intro live
      by_contra packet
      exact cannot .losesToServer ⟨live, packet⟩
    · intro live
      by_contra packet
      exact cannot .losesToClient ⟨live, packet⟩
  constructor
  · rw [← Bool.not_eq_true]
    exact fun live => cannot .serverTimeout ⟨live, silent⟩
  · exact fun live => cannot .clientTimeout ⟨live, silent⟩

/-- In an upload over a network that loses but delays nothing at most one packet is lost on
its way to a party that still listens. The file is stored and registered if and only if none
is; the client reports success also when it was the last block. Both are settled with the
loss, and all ends after two deliveries for each block and five timeouts for each party at
most, with both parties at an end. -/
theorem upload_losses {S : Setup} {shared : Shared} (odd : S.file.length % 512 ≠ 0)
    (small : S.file.length ≤ 65535 * 512) (new : S.filename ∉ shared.files)
    (opens : shared.disk.openWrite (resolve (filePath S.filename)) ≠ none) {es : List Event}
    {t : Net} (run : Run (lossy S) ⟨start S shared, []⟩ es t) :
    t.lost.length ≤ 1 ∧ es.length ≤ 2 * blocks S + 2 * maxRetry ∧
      ((t.lost = [] ∧ ∃ e, CanHappen t e) ∨ Outcome S t) ∧
      ((¬ ∃ e, CanHappen t e) →
        t.system.handler.active = false ∧ t.system.client.status ≠ .sending) := by
  have stage : Stage S t es.length := by
    refine run.history (P := fun es t => Stage S t es.length) ?_ ?_
    · exact Or.inl ⟨rfl, start_ready new, 0, 0, start_progress odd new opens, rfl⟩
    · intro es t e enabled stage
      rw [List.length_append, List.length_singleton]
      exact stage_happens odd small stage enabled
  rcases stage with ⟨flowing, ready, stored, sent, P, count⟩ | ⟨stored, sent, halted⟩
  · have order := P.order
    have bound := P.bound
    refine ⟨by simp [flowing], by omega, ?_, still_ended⟩
    rcases progress_enabled P with ⟨a, enabled⟩ | completed
    · exact Or.inl ⟨flowing, .arrives a, enabled⟩
    · exact Or.inr ⟨iff_of_true ⟨completed.content, completed.registered⟩ flowing,
        fun loses => absurd flowing loses, iff_of_true completed.reported (Or.inl flowing)⟩
  · have order := halted.order
    have bound := halted.bound
    have spent := halted.spent
    exact ⟨by rw [halted.lost]; exact Nat.le_refl 1, by omega,
      Or.inr (halted.outcome odd small), still_ended⟩

/-- The only block is lost, and the client has reported success. -/
theorem upload_losses_one_byte :
    ∃ t, Run (lossy oneByte) ⟨start oneByte .empty, []⟩
        ([] ++ [.arrives .client] ++ [.losesToServer]) t ∧
      oneByte.filename ∉ t.system.shared.files ∧ t.system.client.status = .succeeded := by
  let sent := happen oneByte ⟨start oneByte .empty, []⟩ (.arrives .client)
  let t := happen oneByte sent .losesToServer
  have run : Run (lossy oneByte) ⟨start oneByte .empty, []⟩
      ([] ++ [.arrives .client] ++ [.losesToServer]) t :=
    .snoc (.snoc (.refl _) ⟨by decide, by decide⟩) ⟨by decide, by decide⟩
  have outcome : Outcome oneByte t :=
    (upload_losses (by decide) (by decide) (by simp [Shared.empty]) (by decide)
      run).2.2.1.resolve_left fun flowing => absurd flowing.1 (by decide)
  exact ⟨t, run, outcome.unregistered (by decide), outcome.reported.mpr (Or.inr (by decide))⟩

end TFTP.UploadLosses
