import TFTP.BlockCeiling
import TFTP.ReadIsolation

/-!
# Downloads from a busy server

One client reads a registered file while the server serves anybody else: other threads
upload, read and delete plain names, uploads of one name not overlapping, and anything may be
sent to the thread that serves the client. What the client holds is always what the file was
when the request came.
-/

namespace TFTP.BusyDownload

open Octets Packet Sockets FileSystem Runs Server Immutability StoreRefinement ReadIsolation
open BlockCeiling

/-- One READ: the thread that serves it and the addresses of the two parties. -/
structure Session where
  thread : Nat
  filename : Name
  content : List UInt8
  handler : Addr
  client : Addr
  member : Addr
  listening : Addr

/-- The whole server, one client, and the packets between the client and its thread. -/
structure System where
  server : Traced
  client : Client.ReadLoop
  toClient : List (List UInt8)
  toServer : List (List UInt8)
  trace : List Effect

inductive Action where
  | server (a : Server.Action)
  | client (e : Recv) (io : LocalIO)

/-- The packets the client's thread sends to the client in a step of the server. -/
def served (S : Session) (t : Traced) (a : Server.Action) : List (List UInt8) :=
  if (heardBy S.thread a).isSome then sentTo S.client (packets t a) else []

def begin (S : Session) (t₀ : Traced) (ackBuffer : Buffer 4) (env : Environment) : System where
  server := requested t₀ S.filename S.client ackBuffer env
  client := .start S.listening
  toClient := sentTo S.client
    (packets t₀ (.request (.read S.filename) S.client ackBuffer env))
  toServer := []
  trace := []

def Enabled (S : Session) (t : System) : Action → Prop
  | .server a => exclusive.enabled t.server a
  | .client .timeout _ => t.client.status = .receiving
  | .client (.datagram src d) _ => t.client.status = .receiving ∧
      (Client.verifySource t.client.serverAddress t.client.initialPacket src ≠ none →
        src = S.handler ∧ d ∈ t.toClient)

def step (S : Session) (t : System) : Action → System
  | .server a =>
    { t with
      server := traced.step t.server a
      toClient := t.toClient ++ served S t.server a }
  | .client e io =>
    let turn := Client.readStep S.member t.client e io
    { t with
      client := turn.1
      toServer := t.toServer ++ sentTo S.handler turn.2
      trace := t.trace ++ turn.2 }

def machine (S : Session) : Machine System Action := ⟨Enabled S, step S⟩

def lone (S : Session) : Download.Setup where
  file := S.content
  handler := S.handler
  client := S.client
  member := S.member
  listening := S.listening

/-- What the client sees of the system: a sender behind its packets. -/
def clientSide (t : System) : Download.System where
  server := { SendLoop.start (Buffer.zero 4) with status := .aborted }
  client := t.client
  toClient := t.toClient
  toServer := t.toServer
  trace := t.trace

def accepted (t : System) : Nat := Download.accepted (clientSide t)

theorem clientSide_client (S : Session) (t : System) (e : Recv) (io : LocalIO) :
    clientSide (step S t (.client e io)) =
      Download.step (lone S) (clientSide t) (.client e io) := rfl

theorem visible_seen (env : Environment) (content : List UInt8) :
    Store.visible env content = some content ∨ Store.visible env content = none := by
  unfold Store.visible
  split
  · exact Or.inr rfl
  · exact Or.inl rfl

/-- The thread is a sender below its ceiling, and so is what it has sent. -/
structure Inv (S : Session) (t : System) : Prop where
  serves : ∃ loop, Serves S.thread S.filename S.client S.content t.server loop ∧
    (loop.status = .sending → Early S.content loop)
  ceiling : Ceiling (lone S) (clientSide t)

theorem ceiling_more {S : Session} {t : System} (ceiling : Ceiling (lone S) (clientSide t))
    (server : Traced) {new : List (List UInt8)}
    (sends : ∀ p ∈ new, (EarlyPacket S.content p ∨ Complaint p) ∧ SenderPacket S.content p) :
    Ceiling (lone S)
      (clientSide { t with server := server, toClient := t.toClient ++ new }) where
  inv := { ceiling.inv with
    packets := fun p mem =>
      (List.mem_append.mp mem).elim (ceiling.inv.packets p) fun late => (sends p late).2 }
  server := ceiling.server
  packets := fun p mem =>
    (List.mem_append.mp mem).elim (ceiling.packets p) fun late => (sends p late).1
  few := ceiling.few
  completed := ceiling.completed

theorem step_inv {S : Session} (t : System) (a : Action) (enabled : Enabled S t a)
    (inv : Inv S t) : Inv S (step S t a) := by
  obtain ⟨loop, serves, early⟩ := inv.serves
  cases a with
  | server a =>
    cases heard : heardBy S.thread a with
    | none =>
      refine ⟨⟨loop, serves.ignores enabled heard, early⟩, ?_⟩
      simp only [step, served, heard]
      exact ceiling_more inv.ceiling _ fun p mem => absurd mem List.not_mem_nil
    | some e =>
      obtain ⟨live, next, sent⟩ := (thread S.thread S.filename S.client S.content).hears t.server
        loop a e serves enabled heard
      have live : loop.status = .sending := of_decide_eq_true live
      obtain ⟨after, sends⟩ := sendStep_seen readManner S.client
        (visible_seen e.2 S.content) (early live) live e.1 e.2.io
      refine ⟨⟨_, next, after⟩, ?_⟩
      simp only [step, served, heard]
      refine ceiling_more inv.ceiling _ fun p mem => ?_
      have mem : p ∈ sentTo S.client (packets t.server a) := mem
      rw [mem_sentTo, sent] at mem
      exact (sends S.client p mem).imp_left (Or.imp_right And.right)
  | client e io =>
    refine ⟨⟨loop, serves, early⟩, ?_⟩
    rw [clientSide_client]
    refine client_ceiling inv.ceiling e io ?_
    cases e with
    | timeout => exact enabled
    | datagram src d => exact enabled

theorem fresh_ceiling (S : Session) (server : Traced) :
    Ceiling (lone S) (clientSide ⟨server, .start S.listening, [], [], []⟩) where
  inv :=
    { packets := fun p mem => absurd mem List.not_mem_nil
      counter := rfl
      bounded := (by decide : 0 < 65536)
      content := rfl
      whole := fun done => by cases done }
  server := ⟨(by decide : (1 : UInt16) ≠ 0), (by decide : (1 : UInt16).toNat ≤ 128),
    fun live => (by cases live), fun ended => (by cases ended)⟩
  packets := fun p mem => absurd mem List.not_mem_nil
  few := Nat.zero_le 128
  completed := fun done => by cases done

theorem begin_inv {S : Session} {t₀ : Traced} (inv₀ : Immutability.Inv t₀)
    (here : S.thread = t₀.state.handlers.length)
    (known : t₀.registered S.filename = some S.content) {ackBuffer : Buffer 4} {env : Environment}
    (enabled : exclusive.enabled t₀ (.request (.read S.filename) S.client ackBuffer env)) :
    Inv S (begin S t₀ ackBuffer env) := by
  obtain ⟨serves, sent⟩ := requested_serves inv₀ known S.client ackBuffer env enabled
  rw [← here] at serves
  obtain ⟨after, sends⟩ := sendTop_seen readManner S.client (s := SendLoop.start ackBuffer)
    (visible_seen env S.content) env.io (by decide : (1 : UInt16) ≠ 0)
    (by decide : (1 : UInt16).toNat ≤ 128) rfl
  refine ⟨⟨_, serves, after⟩, ?_⟩
  have blocks : ∀ p ∈ sentTo S.client
      (packets t₀ (.request (.read S.filename) S.client ackBuffer env)),
      (EarlyPacket S.content p ∨ Complaint p) ∧ SenderPacket S.content p := by
    intro p mem
    rw [mem_sentTo, sent] at mem
    exact (sends S.client p mem).imp_left Or.inl
  exact ceiling_more (fresh_ceiling S t₀) _ blocks

/-- Whatever the server does for others and whatever anybody sends to the thread of a READ, the
client holds the first blocks of the file as it was when the request came, and completes
with the whole of it or not at all. As long as its thread is in the loop the file stays
registered and unchanged. -/
theorem busy_download {s : State} {before : List Server.Action} {t₀ : Traced}
    (initial : Initial s) (run₀ : Run exclusive (start s) before t₀) {S : Session}
    (here : S.thread = t₀.state.handlers.length) (listed : S.filename ∈ t₀.state.shared.files)
    (read : t₀.state.shared.disk.read (resolve (filePath S.filename)) = some S.content)
    {ackBuffer : Buffer 4} {env : Environment}
    (enabled : exclusive.enabled t₀ (.request (.read S.filename) S.client ackBuffer env))
    {acts : List Action} {t : System} (run : Run (machine S) (begin S t₀ ackBuffer env) acts t) :
    t.client.content = (Blocks.first 512 S.content (accepted t)).flatten ∧ accepted t ≤ 128 ∧
      (t.client.status = .completed → t.client.content = S.content ∧
        S.content.length < 65536 ∧ S.content.length % 512 ≠ 0) ∧
      (∀ loop, t.server.state.handlers[S.thread]? = some (.reading S.filename S.client loop) →
        S.filename ∈ t.server.state.shared.files ∧
          t.server.state.shared.disk.read (resolve (filePath S.filename)) = some S.content) := by
  have inv₀ : Immutability.Inv t₀ := run₀.invariant Immutability.step_inv (start_inv initial)
  have known : t₀.registered S.filename = some S.content := by
    obtain ⟨content, known⟩ := Option.ne_none_iff_exists'.mp ((inv₀.listed S.filename).mp listed)
    rw [known, ← read]
    exact (inv₀.immutable _ _ known).symm
  have inv : Inv S t := run.invariant step_inv (begin_inv inv₀ here known enabled)
  have ceiling := inv.ceiling
  refine ⟨ceiling.inv.content, ceiling.few, fun done => ⟨ceiling.inv.whole done,
    ceiling.completed done⟩, fun loop reading => ?_⟩
  obtain ⟨loop', serves, _⟩ := inv.serves
  have live : loop'.status = .sending := by
    by_contra stopped
    have handler := serves.handler
    rw [if_neg stopped, reading] at handler
    cases Option.some.inj handler
  have still := serves.known live
  refine ⟨(serves.inv.listed S.filename).mpr ?_, serves.inv.immutable _ _ still⟩
  rw [still]
  exact Option.some_ne_none S.content

def oneByte : Session where
  thread := 0
  filename := text "f"
  content := [7]
  handler := ⟨0x7F000001, 9801⟩
  client := writer
  member := ⟨0, 0⟩
  listening := ⟨0x7F000001, 69⟩

/-- Somebody else asks for the deletion of `f` while its one block is on its way. -/
theorem busy_download_beside_delete :
    let t₀ := start (startedWith (text "f") [7])
    let asked := step oneByte (begin oneByte t₀ (Buffer.zero 4) .ok)
      (.server (.request (.delete (text "f")) rival (Buffer.zero 4) .ok))
    (step oneByte asked
      (.client (.datagram oneByte.handler [0, 3, 0, 1, 7]) .ok)).client.content = [7] := by
  intro t₀ asked
  have plain : Plain (text "f") := by
    show slash ∉ text "f"
    decide
  have enabled : exclusive.enabled t₀
      (.request (.read (text "f")) writer (Buffer.zero 4) .ok) :=
    ⟨⟨by decide, trivial⟩, plain, trivial⟩
  have run : Run (machine oneByte) (begin oneByte t₀ (Buffer.zero 4) .ok)
      ([] ++ [.server (.request (.delete (text "f")) rival (Buffer.zero 4) .ok)] ++
        [.client (.datagram oneByte.handler [0, 3, 0, 1, 7]) .ok]) _ :=
    .snoc (.snoc (.refl _) ⟨⟨by decide, trivial⟩, plain, trivial⟩)
      ⟨by decide, fun _ => ⟨rfl, by decide⟩⟩
  have arrived := busy_download (startedWith_initial (by decide) [7]) (.refl _) rfl (by decide)
    (by decide) enabled run
  exact (arrived.2.2.1 (by decide)).1

end TFTP.BusyDownload
