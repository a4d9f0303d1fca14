import TFTP.BlockCeiling
import TFTP.ListingSnapshot
import TFTP.ReadIsolation

/-!
# Listings at the client

One client asks for a listing while the server works for any number of others. Packets
between the two may be lost, repeated, delayed and reordered, and anybody may send to the
thread. As long as nobody rewrites the file of the listing, the client gets the map as it
was when it asked, and the two exchange nothing but DATA and ACK packets.
-/

namespace TFTP.ListingDelivery

open Octets Packet Sockets FileSystem Runs Server ReadIsolation BlockCeiling
open ListingSnapshot (Held Rewrites InLoop)

/-- One LS: the thread that serves it, what it lists, and the addresses of the two parties. -/
structure Session where
  thread : Nat
  rendering : List UInt8
  handler : Addr
  client : Addr
  listening : Addr

/-- The whole server, one client, and the packets between the client and its thread. -/
structure System where
  server : State
  client : Client.ListLoop
  toClient : List (List UInt8)
  toServer : List (List UInt8)
  trace : List Effect

inductive Action where
  | server (a : Server.Action)
  | client (e : Recv) (io : LocalIO)

/-- The packets the client's thread sends to the client in a step of the server. -/
def served (S : Session) (s : State) (a : Server.Action) : List (List UInt8) :=
  if (heardBy S.thread a).isSome then sentTo S.client (turnOf s a).effects else []

def begin (S : Session) (s₀ : State) (ackBuffer : Buffer 4) (env : Environment)
    (recievedBuffer : RecvBuffer) : System where
  server := Server.step s₀ (.request .list S.client ackBuffer env)
  client := .start recievedBuffer
  toClient := sentTo S.client (turnOf s₀ (.request .list S.client ackBuffer env)).effects
  toServer := []
  trace := []

/-- Nobody rewrites the file of the listing while the thread is in its loop. Packets from
the server's host are the thread's. -/
def Enabled (S : Session) (t : System) : Action → Prop
  | .server a => Server.Enabled t.server a ∧
      (InLoop S.thread t.server → ¬ Rewrites S.rendering t.server a)
  | .client .timeout _ => t.client.status = .receiving
  | .client (.datagram src d) _ => t.client.status = .receiving ∧
      (src.ip = S.listening.ip → src = S.handler ∧ d ∈ t.toClient)

def step (S : Session) (t : System) : Action → System
  | .server a =>
    { t with
      server := Server.step t.server a
      toClient := t.toClient ++ served S t.server a }
  | .client e io =>
    let turn := Client.listStep S.listening t.client e io
    { t with
      client := turn.1
      toServer := t.toServer ++ sentTo S.handler turn.2
      trace := t.trace ++ turn.2 }

def machine (S : Session) : Machine System Action := ⟨Enabled S, step S⟩

/-- The number of blocks the client has stored. -/
def accepted (t : System) : Nat := (writes t.trace).length

/-- The thread lists the rendering, which its file holds, or has left its loop. -/
structure Lists (S : Session) (s : State) (loop : SendLoop) : Prop where
  held : Held s
  handler : s.handlers[S.thread]? =
    some (if loop.status = .sending then .listing S.client loop else .done)
  early : loop.status = .sending → Early S.rendering loop
  file : loop.status = .sending → s.shared.disk.read (resolve lsPath) = some S.rendering

section

variable {S : Session} {s : State} {loop : SendLoop}

theorem contentAt_seen (env : Environment) (file : s.shared.disk.read (resolve lsPath) =
      some S.rendering) : contentAt s.shared env lsPath = some S.rendering ∨
      contentAt s.shared env lsPath = none := by
  unfold contentAt
  split
  · exact Or.inr rfl
  · exact Or.inl file

/-- A datagram or a timeout of the thread's own. -/
theorem Lists.hears (lists : Lists S s loop) {e : Recv} {env : Environment}
    (enabled : Server.Enabled s (.turn S.thread e env)) :
    ∃ next, Lists S (Server.step s (.turn S.thread e env)) next ∧
      ∀ dst p, .send dst p ∈ (turnOf s (.turn S.thread e env)).effects →
        EarlyPacket S.rendering p := by
  have live : loop.status = .sending := by
    obtain ⟨h, entry, active⟩ := enabled.2
    by_contra stopped
    rw [lists.handler, if_neg stopped] at entry
    cases entry
    cases active
  have entry := lists.handler
  rw [if_pos live] at entry
  have turn : turnOf s (.turn S.thread e env) = afterList s.shared S.client []
      (sendStep listManner S.client (contentAt s.shared env lsPath) loop e env.io) :=
    turnOf_turn entry e env
  obtain ⟨after, sends⟩ := sendStep_seen listManner S.client
    (contentAt_seen env (lists.file live)) (lists.early live) live e env.io
  refine ⟨_, ⟨ListingSnapshot.step_held lists.held _, ?_, after, fun _ => ?_⟩, ?_⟩
  · obtain ⟨bound, _⟩ := List.getElem?_eq_some_iff.mp entry
    simp only [Server.step, turn, afterList]
    exact List.getElem?_set_self bound
  · simp only [Server.step, turn, afterList]
    exact lists.file live
  · intro dst p sent
    rw [turn] at sent
    exact (sends dst p sent).1.resolve_right fun answers => Bool.false_ne_true answers.1

/-- What other threads do, and new requests. -/
theorem Lists.ignores (lists : Lists S s loop) {a : Server.Action}
    (kept : InLoop S.thread s → ¬ Rewrites S.rendering s a)
    (foreign : heardBy S.thread a = none) : Lists S (Server.step s a) loop := by
  refine ⟨ListingSnapshot.step_held lists.held a, ?_, lists.early, fun live => ?_⟩
  · rw [← lists.handler]
    obtain ⟨bound, _⟩ := List.getElem?_eq_some_iff.mp lists.handler
    cases a with
    | request r client' ackBuffer env => exact List.getElem?_append_left bound
    | turn j e env =>
      have other : j ≠ S.thread := fun same => by simp [heardBy, same] at foreign
      exact List.getElem?_set_ne other
  · have entry := lists.handler
    rw [if_pos live] at entry
    have spared := kept ⟨S.client, loop, entry⟩
    cases a with
    | request r client ackBuffer env =>
      exact ListingSnapshot.request_keeps_file lists.held spared (lists.file live)
    | turn j e env =>
      exact (ListingSnapshot.turn_keeps_file lists.held spared).trans (lists.file live)

end

theorem begin_effects {shared : Shared} {client : Addr} {ackBuffer : Buffer 4} {env : Environment}
    (opens : openWrite shared env lsPath ≠ none) :
    (Server.begin shared client ackBuffer env .list).effects =
      (listTop client (contentAt (Server.begin shared client ackBuffer env .list).shared env
        lsPath) env.io (.start ackBuffer)).2 := by
  cases opened : openWrite shared env lsPath with
  | none => exact absurd opened opens
  | some held => simp only [Server.begin, handleLSRequest, opened, afterList]

theorem begin_lists {S : Session} {s₀ : State} (held : Held s₀)
    (here : S.thread = s₀.handlers.length) (rendered : S.rendering = listingOf s₀.shared.files)
    (ackBuffer : Buffer 4) (env : Environment) :
    (∃ loop, Lists S (Server.step s₀ (.request .list S.client ackBuffer env)) loop) ∧
      ∀ dst p, .send dst p ∈ (turnOf s₀ (.request .list S.client ackBuffer env)).effects →
        EarlyPacket S.rendering p := by
  have held' := ListingSnapshot.step_held held (.request .list S.client ackBuffer env)
  have handler : (Server.step s₀ (.request .list S.client ackBuffer env)).handlers[S.thread]? =
      some (Server.begin s₀.shared S.client ackBuffer env .list).handler := by
    rw [here]
    exact List.getElem?_concat_length
  by_cases opens : openWrite s₀.shared env lsPath = none
  · have refused : Server.begin s₀.shared S.client ackBuffer env .list =
        ⟨.done, s₀.shared, [.truncates lsPath], []⟩ := by
      simp only [Server.begin, handleLSRequest, opens]
    refine ⟨⟨{ SendLoop.start ackBuffer with status := .aborted }, held', ?_, ?_, ?_⟩, ?_⟩
    · rw [handler, refused]
      rfl
    · exact fun live => by cases live
    · exact fun live => by cases live
    · intro dst p sent
      simp only [turnOf, refused] at sent
      exact absurd sent List.not_mem_nil
  · have file := ListingSnapshot.read_list S.client ackBuffer opens
    rw [ListingSnapshot.begin_list opens] at handler
    simp only [turnOf, begin_effects opens]
    cases fails : env.io.writeFails with
    | true =>
      -- The file is empty, and so is what is read of it.
      rw [fails, if_pos rfl] at file
      have nothing : readDataBlock (contentAt
          (Server.begin s₀.shared S.client ackBuffer env .list).shared env lsPath) 1 = [] := by
        unfold contentAt
        split
        · rfl
        · rw [file]
          rfl
      obtain ⟨left, silent⟩ := sendTop_nothing listManner S.client (s := .start ackBuffer) env.io
        nothing
      refine ⟨⟨_, held', handler, fun live => absurd live left, fun live => absurd live left⟩, ?_⟩
      intro dst p sent
      rw [listTop, silent] at sent
      exact absurd sent List.not_mem_nil
    | false =>
      rw [fails, if_neg Bool.false_ne_true, ← rendered] at file
      obtain ⟨after, sends⟩ := sendTop_seen listManner S.client (s := .start ackBuffer)
        (contentAt_seen (s := ⟨_, []⟩) env file) env.io (by decide : (1 : UInt16) ≠ 0)
        (by decide : (1 : UInt16).toNat ≤ 128) rfl
      exact ⟨⟨_, held', handler, after, fun _ => file⟩, fun dst p sent => (sends dst p sent).1⟩

/-- The client has the first blocks of the rendering, and only DATA and ACK packets are on
their way. -/
structure Inv (S : Session) (t : System) : Prop where
  lists : ∃ loop, Lists S t.server loop
  packets : ∀ p ∈ t.toClient, EarlyPacket S.rendering p
  answers : ∀ p ∈ t.toServer, ∃ n ≤ accepted t, p = ackDatagram (UInt16.ofNat n)
  counter : t.client.expectedBlockNumber = UInt16.ofNat (accepted t + 1)
  few : accepted t ≤ 128
  content : t.client.content = (Blocks.first 512 S.rendering (accepted t)).flatten
  whole : t.client.status = .completed → t.client.content = S.rendering ∧
    S.rendering.length < 65536 ∧ S.rendering.length % 512 ≠ 0
  honest : t.client.status ≠ .failed ∧ t.client.status ≠ .undefined

/-- What the client reads of a packet of the thread. -/
theorem early_reads {file p : List UInt8} (early : EarlyPacket file p) (b : RecvBuffer) :
    opcodeAt (b.fill p) = opcodeData ∧ 4 ≤ received 516 p := by
  obtain ⟨n, _, _, _, rfl⟩ := early
  have size : 4 ≤ (header 3 n ++ block file n.toNat).length := by
    rw [List.length_append, header_length]
    omega
  rw [opcodeAt_fill b (by omega), opcodeOf_header]
  exact ⟨by decide, Nat.le_min.mpr ⟨by decide, size⟩⟩

/-- The expected block, if it is one of the thread's, is the next one. -/
theorem early_expected {file p : List UInt8} (early : EarlyPacket file p) (b : RecvBuffer) {k : Nat}
    (small : k + 1 < 65536) (num : recvBlockNumberAt (b.fill p) = UInt16.ofNat (k + 1)) :
    k + 1 ≤ 128 ∧ block file (k + 1) ≠ [] ∧ received 516 p = (block file (k + 1)).length + 4 ∧
      recvDataAt (b.fill p) (received 516 p - 4) = block file (k + 1) := by
  obtain ⟨n, _, below, nonempty, rfl⟩ := early
  have size : 4 ≤ (header 3 n ++ block file n.toNat).length := by
    rw [List.length_append, header_length]
    omega
  rw [recvBlockNumberAt_fill b size, numberOf_header] at num
  have value : n.toNat = k + 1 := by
    rw [num, UInt16.toNat_ofNat']
    exact Nat.mod_eq_of_lt small
  rw [value] at below nonempty ⊢
  have fits := block_length_le file (k + 1)
  exact ⟨below, nonempty, received_header 3 n fits, recvDataAt_header b 3 n fits⟩

section

variable {S : Session} {t : System}

theorem client_inv (inv : Inv S t) (host : S.handler.ip = S.listening.ip)
    (apart : S.handler ≠ S.listening) (e : Recv) (io : LocalIO)
    (enabled : Enabled S t (.client e io)) : Inv S (step S t (.client e io)) := by
  have live : t.client.status = .receiving := by
    cases e with
    | timeout => exact enabled
    | datagram src d => exact enabled.1
  have genuine : ∀ src d, e = .datagram src d → src.ip = S.listening.ip → d ∈ t.toClient := by
    rintro src d rfl same
    exact (enabled.2 same).2
  have count : accepted (step S t (.client e io)) =
      accepted t + (writes (Client.listStep S.listening t.client e io).2).length := by
    simp [accepted, step, writes_append]
  rcases Client.listStep_cases S.listening t.client e io with quiet | ⟨src, d, rfl, acc⟩
  · have same : accepted (step S t (.client e io)) = accepted t := by simp [count, quiet.writes]
    have notFailed : (Client.listStep S.listening t.client e io).1.status ≠ .failed := by
      intro failed
      rcases quiet.failed failed with before | ⟨src, d, event, source, other⟩
      · exact absurd (live.symm.trans before) (by decide)
      · exact other (early_reads (inv.packets d (genuine src d event source)) _).1
    have defined : (Client.listStep S.listening t.client e io).1.status ≠ .undefined := by
      intro undefined
      rcases quiet.undefined undefined with before | ⟨src, d, event, source, short⟩
      · exact absurd (live.symm.trans before) (by decide)
      · have long := (early_reads (inv.packets d (genuine src d event source))
          t.client.recievedBuffer).2
        omega
    refine ⟨inv.lists, inv.packets, fun p mem => ?_, ?_, ?_, ?_, fun done => ?_,
      notFailed, defined⟩
    · rw [same]
      rcases List.mem_append.mp mem with old | new
      · exact inv.answers p old
      · rcases quiet.sends S.handler p (mem_sentTo.mp new) with elsewhere | listening | failed
        · exact absurd host elsewhere
        · exact absurd listening apart
        · exact absurd failed notFailed
    · rw [same]
      exact quiet.expected.trans inv.counter
    · rw [same]
      exact inv.few
    · rw [same]
      exact quiet.content.trans inv.content
    · have before := quiet.completed done
      rw [live] at before
      cases before
  · have more : accepted (step S t (.client (.datagram src d) io)) = accepted t + 1 := by
      simp [count, acc.writes]
    have early := inv.packets d (genuine src d rfl acc.source)
    have small : accepted t + 1 < 65536 := by
      have few := inv.few
      omega
    obtain ⟨few, nonempty, size, payload⟩ := early_expected early t.client.recievedBuffer small
      (acc.number.trans inv.counter)
    have content : (step S t (.client (.datagram src d) io)).client.content =
        (Blocks.first 512 S.rendering (accepted t + 1)).flatten := by
      refine acc.content.trans ?_
      rw [payload, inv.content, Blocks.first_succ, List.flatten_append]
      simp [block]
    have status : (step S t (.client (.datagram src d) io)).client.status =
        if received 516 d < 516 then .completed else .receiving := by
      rw [← live]
      exact acc.status
    refine ⟨inv.lists, inv.packets, fun p mem => ?_, ?_, ?_, ?_, fun done => ?_, ?_⟩
    · rw [more]
      rcases List.mem_append.mp mem with old | new
      · obtain ⟨n, le, same⟩ := inv.answers p old
        exact ⟨n, Nat.le_succ_of_le le, same⟩
      · refine ⟨accepted t + 1, Nat.le_refl _, ?_⟩
        rw [← inv.counter]
        exact acc.sends S.handler p (mem_sentTo.mp new)
    · rw [more]
      refine acc.expected.trans ?_
      rw [inv.counter]
      simp
    · rw [more]
      exact few
    · rw [more]
      exact content
    · have short : received 516 d < 516 := by
        by_contra full
        rw [status, if_neg full] at done
        cases done
      have reach := (block_nonempty_iff S.rendering (accepted t + 1)).mp nonempty
      have brief := (block_short_iff S.rendering (b := accepted t + 1) (by omega)).mp (by omega)
      refine ⟨?_, by omega, by omega⟩
      rw [content]
      exact Blocks.first_flatten_of_short
        (show (block S.rendering (accepted t + 1)).length < 512 by omega)
    · rw [status]
      split <;> exact ⟨by decide, by decide⟩

end

theorem step_inv {S : Session} (host : S.handler.ip = S.listening.ip)
    (apart : S.handler ≠ S.listening) (t : System) (a : Action) (enabled : Enabled S t a)
    (inv : Inv S t) : Inv S (step S t a) := by
  cases a with
  | client e io => exact client_inv inv host apart e io enabled
  | server a =>
    obtain ⟨loop, lists⟩ := inv.lists
    obtain ⟨enabled, kept⟩ := enabled
    cases heard : heardBy S.thread a with
    | none =>
      refine { inv with
        lists := ⟨loop, lists.ignores kept heard⟩
        packets := fun p mem => ?_ }
      simp only [step, served, heard, Option.isSome_none, Bool.false_eq_true, if_false,
        List.append_nil] at mem
      exact inv.packets p mem
    | some e =>
      cases a with
      | request => cases heard
      | turn j e' env =>
        have here : j = S.thread := by
          by_contra other
          simp [heardBy, other] at heard
        subst here
        obtain ⟨next, lists', sends⟩ := lists.hears enabled
        refine { inv with lists := ⟨next, lists'⟩, packets := fun p mem => ?_ }
        simp only [step, served, heard, Option.isSome_some, if_true] at mem
        rcases List.mem_append.mp mem with old | new
        · exact inv.packets p old
        · exact sends S.client p (mem_sentTo.mp new)

theorem begin_inv {S : Session} {s₀ : State} (held : Held s₀)
    (here : S.thread = s₀.handlers.length) (rendered : S.rendering = listingOf s₀.shared.files)
    (ackBuffer : Buffer 4) (env : Environment) (recievedBuffer : RecvBuffer) :
    Inv S (begin S s₀ ackBuffer env recievedBuffer) := by
  obtain ⟨lists, sends⟩ := begin_lists held here rendered ackBuffer env
  have none_yet : accepted (begin S s₀ ackBuffer env recievedBuffer) = 0 := rfl
  refine ⟨lists, fun p mem => sends S.client p (mem_sentTo.mp mem),
    fun p mem => absurd mem List.not_mem_nil, rfl, ?_, rfl, fun done => (by cases done), ?_⟩
  · rw [none_yet]
    exact Nat.zero_le 128
  · exact ⟨by simp [begin, Client.ListLoop.start], by simp [begin, Client.ListLoop.start]⟩

theorem run_inv {s s₀ : State} {before : List Server.Action} (initial : Initial s)
    (run₀ : Run Server.machine s before s₀) {S : Session}
    (host : S.handler.ip = S.listening.ip) (apart : S.handler ≠ S.listening)
    (here : S.thread = s₀.handlers.length) (rendered : S.rendering = listingOf s₀.shared.files)
    (ackBuffer : Buffer 4) (env : Environment) (recievedBuffer : RecvBuffer)
    {acts : List Action} {t : System}
    (run : Run (machine S) (begin S s₀ ackBuffer env recievedBuffer) acts t) : Inv S t := by
  have idle : Held s := by
    refine ⟨initial.wellFormed, fun h mem => ?_⟩
    rw [initial.idle] at mem
    cases mem
  have kept : ∀ s' a, Server.machine.enabled s' a → Held s' → Held (Server.machine.step s' a) :=
    fun _ a _ held => ListingSnapshot.step_held held a
  have held : Held s₀ := run₀.invariant kept idle
  exact run.invariant (step_inv host apart)
    (begin_inv held here rendered ackBuffer env recievedBuffer)

/-- As long as nobody rewrites the file of a listing while its thread is in the loop, the
client holds the first blocks of the map as it was when the request came, at most 128, and
completes with the whole of it or not at all. The two never send each other an ERROR packet,
and the client never gives up for a packet. -/
theorem listing_delivered {s s₀ : State} {before : List Server.Action} (initial : Initial s)
    (run₀ : Run Server.machine s before s₀) {S : Session}
    (host : S.handler.ip = S.listening.ip) (apart : S.handler ≠ S.listening)
    (here : S.thread = s₀.handlers.length) (rendered : S.rendering = listingOf s₀.shared.files)
    (ackBuffer : Buffer 4) (env : Environment) (recievedBuffer : RecvBuffer)
    {acts : List Action} {t : System}
    (run : Run (machine S) (begin S s₀ ackBuffer env recievedBuffer) acts t) :
    t.client.content = (Blocks.first 512 (listingOf s₀.shared.files) (accepted t)).flatten ∧
      accepted t ≤ 128 ∧
      (t.client.status = .completed → t.client.content = listingOf s₀.shared.files ∧
        (listingOf s₀.shared.files).length < 65536 ∧
        (listingOf s₀.shared.files).length % 512 ≠ 0) ∧
      (∀ p ∈ t.toClient, opcodeOf p = opcodeData) ∧
      (∀ p ∈ t.toServer, opcodeOf p = opcodeAck) ∧
      t.client.status ≠ .failed ∧ t.client.status ≠ .undefined := by
  have inv := run_inv initial run₀ host apart here rendered ackBuffer env recievedBuffer run
  rw [← rendered]
  refine ⟨inv.content, inv.few, inv.whole, fun p mem => ?_, fun p mem => ?_, inv.honest⟩
  · obtain ⟨n, _, _, _, rfl⟩ := inv.packets p mem
    rw [opcodeOf_header]
    decide
  · obtain ⟨n, _, rfl⟩ := inv.answers p mem
    exact opcodeOf_ack _

def oneLine : Session where
  thread := 0
  rendering := text "f\t [Active Readers] : 0\n"
  handler := ⟨0x7F000001, 9801⟩
  client := Immutability.writer
  listening := ⟨0x7F000001, 69⟩

/-- Somebody else starts to read `f` while the line with its count is on its way. -/
theorem listing_delivered_beside_read :
    let s₀ := startedWith (text "f") [7]
    let asked := step oneLine (begin oneLine s₀ (Buffer.zero 4) .ok (Buffer.zero 516))
      (.server (.request (.read (text "f")) Immutability.rival (Buffer.zero 4) .ok))
    let told := step oneLine asked (.client (.datagram oneLine.handler
      ([0, 3, 0, 1] ++ oneLine.rendering)) .ok)
    told.client.content = text "f\t [Active Readers] : 0\n" := by
  intro s₀ asked told
  have rendered : oneLine.rendering = listingOf s₀.shared.files := by decide
  have run : Run (machine oneLine) (begin oneLine s₀ (Buffer.zero 4) .ok (Buffer.zero 516))
      ([] ++ [.server (.request (.read (text "f")) Immutability.rival (Buffer.zero 4) .ok)] ++
        [.client (.datagram oneLine.handler ([0, 3, 0, 1] ++ oneLine.rendering)) .ok]) told := by
    refine .snoc (.snoc (.refl _) ⟨⟨by decide, trivial⟩, fun _ => id⟩) ⟨by decide, fun _ => ?_⟩
    exact ⟨rfl, by decide⟩
  have delivered := listing_delivered (startedWith_initial (by decide) [7]) (.refl s₀)
    (S := oneLine) rfl (by decide) rfl rendered (Buffer.zero 4) .ok (Buffer.zero 516) run
  rw [← rendered] at delivered
  exact (delivered.2.2.1 (by decide)).1

end TFTP.ListingDelivery
