import TFTP.ReadIsolation
import TFTP.UploadAgreement

/-!
# Uploading to a busy server

One client writes a new name while the server works for any number of others, who upload,
read and delete plain names, uploads of one name not overlapping. Packets between the two may
be lost, repeated, delayed and reordered, and anybody may send to the client. Nobody sees the
name before the whole file is there.
-/

namespace TFTP.BusyUpload

open Octets Packet Sockets FileSystem Runs Server Immutability StoreRefinement ReadIsolation
open Upload (stored Registered)
open UploadAgreement (Lockstep Reported DeliversLast sent)

/-- One WRITE: the thread that serves it and the addresses of the two parties. -/
structure Session where
  thread : Nat
  filename : Name
  file : List UInt8
  handler : Addr
  client : Addr
  listening : Addr

/-- The whole server, one client, and the packets between the client and its thread. -/
structure System where
  server : Traced
  client : Client.WriteLoop
  toClient : List (List UInt8)
  toServer : List (List UInt8)

inductive Action where
  | server (a : Server.Action)
  | client (e : Recv) (io : LocalIO)

/-- The packets the client's thread sends to the client in a step of the server. -/
def answered (S : Session) (t : Traced) (a : Server.Action) : List (List UInt8) :=
  if (heardBy S.thread a).isSome then sentTo S.client (packets t a) else []

def begin (S : Session) (t₀ : Traced) (ackBuffer : Buffer 4) (env : Environment) : System where
  server := traced.step t₀ (.request (.write S.filename) S.client ackBuffer env)
  client := .start S.listening
  toClient := sentTo S.client
    (packets t₀ (.request (.write S.filename) S.client ackBuffer env))
  toServer := []

/-- The thread's port hears this client only. -/
def Enabled (S : Session) (t : System) : Action → Prop
  | .server a => exclusive.enabled t.server a ∧
      ∀ src d env, heardBy S.thread a = some (.datagram src d, env) → d ∈ t.toServer
  | .client .timeout _ => t.client.status = .sending
  | .client (.datagram src d) _ => t.client.status = .sending ∧
      (Client.verifySource t.client.serverAddress t.client.initialPacket src ≠ none →
        src = S.handler ∧ d ∈ t.toClient)

def step (S : Session) (t : System) : Action → System
  | .server a =>
    { t with
      server := traced.step t.server a
      toClient := t.toClient ++ answered S t.server a }
  | .client e io =>
    let turn := Client.writeStep (some S.file) t.client e io
    { t with client := turn.1, toServer := t.toServer ++ sentTo S.handler turn.2 }

def machine (S : Session) : Machine System Action := ⟨Enabled S, step S⟩

def lone (S : Session) : Upload.Setup where
  file := S.file
  handler := S.handler
  client := S.client
  listening := S.listening

/-- What becomes of the thread of an upload. -/
def collecting (filename : Name) (client : Addr) (inode : Nat) (loop : WriteLoop) : Handler :=
  if loop.status = .receiving then .writing filename client inode loop
  else if loop.status = .undefined then .undefined
  else .done

theorem writeTurn_handler (shared : Shared) (filename : Name) (client : Addr) (inode : Nat)
    (loop : WriteLoop) (e : Recv) (env : Environment) :
    (writeTurn shared filename client inode loop e env).handler =
      collecting filename client inode (writeStep client loop e env.io).1 := by
  simp only [writeTurn, collecting]
  cases (writeStep client loop e env.io).1.status <;> simp

theorem collecting_active {filename : Name} {client : Addr} {inode : Nat} {loop : WriteLoop}
    (active : (collecting filename client inode loop).active = true) :
    loop.status = .receiving := by
  unfold collecting at active
  split at active
  · assumption
  · split at active <;> cases active

theorem collecting_writing {filename : Name} {client : Addr} {inode node : Nat}
    {loop loop' : WriteLoop}
    (same : collecting filename client inode loop = .writing filename client node loop') :
    loop.status = .receiving ∧ inode = node ∧ loop = loop' := by
  unfold collecting at same
  split at same
  · cases same
    exact ⟨by assumption, rfl, rfl⟩
  · split at same <;> cases same

/-- The client and its thread are where an upload between the two alone would be. -/
structure Follows (S : Session) (t : System) (acts : List Upload.Action) (u : Upload.System)
    (inode : Nat) : Prop where
  lockstep : Lockstep (lone S) acts u
  told : Registered u → Reported u
  client : t.client = u.client
  toClient : t.toClient = u.toClient
  toServer : t.toServer = u.toServer
  handler : t.server.state.handlers[S.thread]? =
    some (collecting S.filename S.client inode u.server)

section

variable {S : Session} {t : System} {acts : List Upload.Action} {u : Upload.System} {inode : Nat}

/-- Registering takes the short block, which the client sends with its report. -/
theorem told_server (L : Lockstep (lone S) acts u) (e : Recv) (io : LocalIO)
    (live : u.server.status = .receiving)
    (from_client : ∀ src d, e = .datagram src d → d ∈ u.toServer)
    (L' : Lockstep (lone S) (acts ++ [.server e io]) (Upload.step (lone S) u (.server e io)))
    (registered : Registered (Upload.step (lone S) u (.server e io))) : Reported u := by
  have last := (UploadAgreement.deliveries_server L live e io).mp (L'.delivered.mp registered)
  cases e with
  | timeout => exact False.elim last
  | datagram src d =>
    obtain ⟨op, len, _⟩ := last
    exact (L.short d (from_client src d rfl) op len).1

/-- A datagram or a timeout of the thread's own. -/
theorem Follows.hears (follows : Follows S t acts u inode) (e : Recv) (env : Environment)
    (enabled : Enabled S t (.server (.turn S.thread e env))) :
    u.server.status = .receiving ∧
      turnOf t.server.state (.turn S.thread e env) =
        writeTurn t.server.state.shared S.filename S.client inode u.server e env ∧
      Follows S (step S t (.server (.turn S.thread e env)))
        (acts ++ [.server e env.io]) (Upload.step (lone S) u (.server e env.io)) inode := by
  obtain ⟨⟨⟨_, h, entry, active⟩, _⟩, genuine⟩ := enabled
  have heard : heardBy S.thread (.turn S.thread e env) = some (e, env) := if_pos rfl
  rw [follows.handler] at entry
  cases Option.some.inj entry
  have live := collecting_active active
  have handler := follows.handler
  rw [collecting, if_pos live] at handler
  have turn : turnOf t.server.state (.turn S.thread e env) =
      writeTurn t.server.state.shared S.filename S.client inode u.server e env :=
    turnOf_turn handler e env
  have from_client : ∀ src d, e = .datagram src d → d ∈ u.toServer := by
    rintro src d rfl
    rw [← follows.toServer]
    exact genuine src d env heard
  have next : Lockstep (lone S) (acts ++ [.server e env.io])
      (Upload.step (lone S) u (.server e env.io)) := by
    refine UploadAgreement.step_lockstep acts u _ ⟨?_, trivial⟩ follows.lockstep
    cases e with
    | timeout => exact live
    | datagram src d => exact ⟨live, from_client src d rfl⟩
  refine ⟨live, turn, next, ?_, follows.client, ?_, follows.toServer, ?_⟩
  · exact told_server follows.lockstep e env.io live from_client next
  · simp only [step, answered, heard, Option.isSome_some, if_true, packets, turn, follows.toClient]
    rfl
  · obtain ⟨bound, _⟩ := List.getElem?_eq_some_iff.mp handler
    simp only [step, traced, Server.step, turn, writeTurn_handler]
    exact List.getElem?_set_self bound

/-- What other threads do, and new requests. -/
theorem Follows.ignores (follows : Follows S t acts u inode) {a : Server.Action}
    (foreign : heardBy S.thread a = none) : Follows S (step S t (.server a)) acts u inode := by
  have silent : answered S t.server a = [] := by simp [answered, foreign]
  refine { follows with toClient := ?_, handler := ?_ }
  · simp only [step, silent, List.append_nil, follows.toClient]
  · rw [← follows.handler]
    obtain ⟨bound, _⟩ := List.getElem?_eq_some_iff.mp follows.handler
    cases a with
    | request r client ackBuffer env => exact List.getElem?_append_left bound
    | turn j e env =>
      have other : j ≠ S.thread := fun same => by simp [heardBy, same] at foreign
      exact List.getElem?_set_ne other

theorem Follows.client_turn (follows : Follows S t acts u inode) (e : Recv) (io : LocalIO)
    (enabled : Enabled S t (.client e io)) :
    Follows S (step S t (.client e io)) (acts ++ [.client e io])
      (Upload.step (lone S) u (.client e io)) inode := by
  have live : u.client.status = .sending := by
    rw [← follows.client]
    cases e with
    | timeout => exact enabled
    | datagram src d => exact enabled.1
  have genuine : UploadAgreement.Genuine (lone S) u (.client e io) := by
    cases e with
    | timeout => trivial
    | datagram src d =>
      intro verified
      rw [← follows.client] at verified
      rw [← follows.toClient]
      exact enabled.2 verified
  refine ⟨UploadAgreement.step_lockstep acts u _ ⟨live, genuine⟩ follows.lockstep, ?_, ?_,
    follows.toClient, ?_, follows.handler⟩
  · intro registered
    have reported := follows.told registered
    rw [Reported, live] at reported
    cases reported
  · simp only [step, Upload.step, follows.client]
    rfl
  · simp only [step, Upload.step, follows.client, follows.toServer]
    rfl

end

structure Inv (S : Session) (t : System) : Prop where
  server : Immutability.Inv t.server
  follows : ∃ acts u inode, Follows S t acts u inode

theorem step_inv {S : Session} (t : System) (a : Action) (enabled : Enabled S t a)
    (inv : Inv S t) : Inv S (step S t a) := by
  obtain ⟨acts, u, inode, follows⟩ := inv.follows
  cases a with
  | server a =>
    refine ⟨Immutability.step_inv t.server a enabled.1 inv.server, ?_⟩
    cases heard : heardBy S.thread a with
    | none => exact ⟨acts, u, inode, follows.ignores heard⟩
    | some e =>
      cases a with
      | request => cases heard
      | turn j e' env =>
        have here : j = S.thread := by
          by_contra other
          simp [heardBy, other] at heard
        subst here
        exact ⟨_, _, inode, (follows.hears e' env enabled).2.2⟩
  | client e io => exact ⟨inv.server, _, _, inode, follows.client_turn e io enabled⟩

theorem begin_inv {S : Session} {t₀ : Traced} (inv₀ : Immutability.Inv t₀)
    (here : S.thread = t₀.state.handlers.length) (new : S.filename ∉ t₀.state.shared.files)
    {ackBuffer : Buffer 4} {env : Environment}
    (opens : openWrite t₀.state.shared env (filePath S.filename) ≠ none)
    (enabled : exclusive.enabled t₀ (.request (.write S.filename) S.client ackBuffer env)) :
    Inv S (begin S t₀ ackBuffer env) := by
  obtain ⟨held, opened⟩ := Option.ne_none_iff_exists'.mp opens
  have turn : turnOf t₀.state (.request (.write S.filename) S.client ackBuffer env) = _ :=
    handleWriteRequest_opened new S.client opened
  refine ⟨Immutability.step_inv t₀ _ enabled inv₀, [], Upload.start (lone S), held.2, ?_⟩
  refine ⟨UploadAgreement.start_lockstep _, fun registered => ?_, rfl, ?_, rfl, ?_⟩
  · cases registered
  · simp only [begin, packets, turn, sendACK, sentTo]
    simp [Upload.start, ackDatagram]
  · simp only [begin, traced, Server.step, turn, here]
    exact List.getElem?_concat_length

/-- While the thread is in its loop it is the upload's, and the file holds its blocks. -/
theorem Inv.writing {S : Session} {t : System} (inv : Inv S t) {inode : Nat} {loop : WriteLoop}
    (entry : t.server.state.handlers[S.thread]? =
      some (.writing S.filename S.client inode loop)) :
    ∃ acts u, Follows S t acts u inode ∧ u.server = loop ∧ loop.status = .receiving ∧
      S.filename ∉ t.server.state.shared.files ∧
      t.server.state.shared.disk.read (resolve (filePath S.filename)) = some loop.content := by
  obtain ⟨acts, u, node, follows⟩ := inv.follows
  have handler := follows.handler
  rw [entry] at handler
  obtain ⟨live, rfl, rfl⟩ := collecting_writing (Option.some.inj handler).symm
  obtain ⟨proper, unlisted, _, file, held⟩ :=
    inv.server.holds _ _ _ _ (List.mem_of_getElem? entry)
  refine ⟨acts, u, follows, rfl, live, unlisted, ?_⟩
  rw [resolve_proper proper]
  exact Disk.read_eq_some.mpr ⟨node, file, held⟩

/-- Nobody else can register the name while it is written. -/
theorem Inv.hidden {S : Session} {t : System} (inv : Inv S t) {inode : Nat} {loop : WriteLoop}
    (entry : t.server.state.handlers[S.thread]? =
      some (.writing S.filename S.client inode loop)) :
    S.filename ∉ t.server.state.shared.files ∧
      ∃ k, k * 512 ≤ S.file.length ∧
        t.server.state.shared.disk.read (resolve (filePath S.filename)) =
          some (Blocks.first 512 S.file k).flatten ∧
        (t.client.status = .succeeded → k = S.file.length / 512) := by
  obtain ⟨acts, u, follows, rfl, live, unlisted, read⟩ := inv.writing entry
  have L := follows.lockstep
  have waits : ¬ Registered u := by simp [Registered, live]
  refine ⟨unlisted, stored u, L.unfinished waits, ?_, fun reported => ?_⟩
  · rw [read, L.inv.content]
    rfl
  · rw [follows.client] at reported
    have ahead := L.ahead (Or.inr reported)
    have short : S.file.length < sent u * 512 := L.done reported
    have room : stored u * 512 ≤ S.file.length := L.unfinished waits
    omega

theorem Inv.registers {S : Session} {t : System} (inv : Inv S t) (e : Recv) (env : Environment)
    (enabled : Enabled S t (.server (.turn S.thread e env))) :
    let t' := step S t (.server (.turn S.thread e env))
    (S.filename ∈ t'.server.state.shared.files ↔ DeliversLast (.server e env.io)) ∧
      (S.filename ∈ t'.server.state.shared.files →
        t'.server.registered S.filename = some S.file ∧ t'.client.status = .succeeded) := by
  intro t'
  obtain ⟨acts, u, inode, follows⟩ := inv.follows
  obtain ⟨live, turn, next⟩ := follows.hears e env enabled
  have handler := follows.handler
  rw [collecting, if_pos live] at handler
  obtain ⟨_, unlisted, _⟩ := inv.server.holds _ _ _ _ (List.mem_of_getElem? handler)
  have received : S.filename ∈ t'.server.state.shared.files ↔
      Registered (Upload.step (lone S) u (.server e env.io)) := by
    have files : t'.server.state.shared.files =
        if (writeStep S.client u.server e env.io).1.status = .received then
          t.server.state.shared.files.insertIfNew S.filename 0
        else t.server.state.shared.files := by
      simp only [t', step, traced, Server.step, turn, writeTurn]
    rw [files]
    change _ ↔ (writeStep S.client u.server e env.io).1.status = .received
    split
    · rename_i ended
      exact iff_of_true ((mem_insertIfNew _ _ _).mpr (Or.inl rfl)) ended
    · rename_i again
      exact iff_of_false unlisted again
  have L := next.lockstep
  refine ⟨?_, fun listed => ?_⟩
  · rw [received, L.delivered, UploadAgreement.deliveries_server follows.lockstep live]
  · have registered := received.mp listed
    have reported : Reported (Upload.step (lone S) u (.server e env.io)) := next.told registered
    constructor
    · have whole : (writeStep S.client u.server e env.io).1.content = S.file :=
        L.inv.whole registered
      have ended : (writeStep S.client u.server e env.io).1.status = .received := registered
      simp only [t', step, traced, record, current_handler handler, ended, unlisted, whole,
        not_false_eq_true, and_self, if_true, Function.update_self]
    · rw [next.client]
      exact reported

def oneByte : Session where
  thread := 0
  filename := text "g"
  file := [7]
  handler := ⟨0x7F000001, 9801⟩
  client := writer
  listening := ⟨0x7F000001, 69⟩

end TFTP.BusyUpload
