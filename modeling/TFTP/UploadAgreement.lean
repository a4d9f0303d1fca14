import TFTP.Upload

/-!
# What the client may conclude from a finished upload

The client reports success as soon as it has sent the short block. Whether the handler
then holds and registers the file depends on that one packet alone.
-/

namespace TFTP.UploadAgreement

open Octets Packet Sockets Runs Upload

/-- The packets that pass the client's address check are this handler's. -/
def Genuine (S : Setup) (t : System) : Action → Prop
  | .client (.datagram src d) _ =>
    Client.verifySource t.client.serverAddress t.client.initialPacket src ≠ none →
      src = S.handler ∧ d ∈ t.toClient
  | _ => True

def network (S : Setup) : Machine System Action := (machine S).restrict (Genuine S)

/-- The client reports `FILE WRITE successful`. -/
def Reported (t : System) : Prop := t.client.status = .succeeded

/-- The handler has every block, has acknowledged the last one and has registered the
name. The last block is the short one. -/
def Agreed (S : Setup) (t : System) : Prop :=
  t.server.content = S.file ∧
    ackDatagram (UInt16.ofNat (S.file.length / 512 + 1)) ∈ t.toClient ∧ Registered t

/-- A short DATA packet reaches the handler, which is still in its loop, and is stored. -/
def DeliversLast : Action → Prop
  | .server (.datagram _ d) io => opcodeOf d = 3 ∧ d.length < 516 ∧ io.writeFails = false
  | _ => False

def sent (t : System) : Nat := t.client.expectedBlockNumber.toNat

def Alive (t : System) : Prop := t.client.status = .sending ∨ t.client.status = .succeeded

/-- The client is at most one block ahead of the handler, and only its last block is
short. After a failure its counter says nothing. -/
structure Lockstep (S : Setup) (acts : List Action) (t : System) : Prop where
  inv : Inv S t
  acks : ∀ p ∈ t.toClient, (∃ m, m ≤ stored t ∧ p = ackDatagram (UInt16.ofNat m)) ∨ Complaint p
  lastAck : ackDatagram (UInt16.ofNat (stored t)) ∈ t.toClient
  ahead : Alive t → stored t ≤ sent t ∧ sent t ≤ stored t + 1
  numbers : Alive t → ∀ p ∈ t.toServer, opcodeOf p = 3 → (numberOf p).toNat ≤ sent t
  more : t.client.status = .sending → sent t * 512 ≤ S.file.length
  done : Reported t → S.file.length < sent t * 512
  short : ∀ p ∈ t.toServer, opcodeOf p = 3 → p.length < 516 →
    Reported t ∧ (numberOf p).toNat = sent t
  unfinished : ¬ Registered t → stored t * 512 ≤ S.file.length
  finished : Registered t → (stored t - 1) * 512 < S.file.length ∧
    S.file.length < stored t * 512
  delivered : Registered t ↔ ∃ a ∈ acts, DeliversLast a

theorem start_lockstep (S : Setup) : Lockstep S [] (start S) := by
  have unregistered : ¬ Registered (start S) := fun h => by cases h
  constructor
  · exact start_inv S
  · exact fun p hp => Or.inl ⟨0, Nat.zero_le _, List.mem_singleton.mp hp⟩
  · exact List.mem_singleton.mpr rfl
  · exact fun _ => ⟨Nat.zero_le _, Nat.zero_le _⟩
  · exact fun _ p hp => by cases hp
  · exact fun _ => by simp [sent, start, Client.WriteLoop.start]
  · exact fun h => by cases h
  · exact fun p hp => by cases hp
  · exact fun _ => by simp [stored, start, writes]
  · exact fun h => absurd h unregistered
  · constructor
    · exact fun h => absurd h unregistered
    · rintro ⟨a, ha, _⟩
      cases ha

theorem complaint_not_data {p : List UInt8} (h : Complaint p) : opcodeOf p ≠ 3 := by
  obtain ⟨errorCode, rest, rfl⟩ := complaint_header h
  rw [opcodeOf_header]
  decide

/-- An accepted acknowledgement is the one for the last block sent. -/
theorem accepted_ack {S : Setup} {acts : List Action} {t : System} (L : Lockstep S acts t)
    {d : List UInt8} (hd : d ∈ t.toClient)
    (op : opcodeAt ((Buffer.zero 516).fill d) = opcodeAck)
    (num : recvBlockNumberAt ((Buffer.zero 516).fill d) = t.client.expectedBlockNumber) :
    sent t ≤ stored t := by
  rcases L.acks d hd with ⟨m, hm, rfl⟩ | complaint
  · rw [recvBlockNumberAt_fill _ (by simp), numberOf_ack] at num
    have small : m < 65536 := Nat.lt_of_le_of_lt hm L.inv.bounded
    rw [sent, ← num, UInt16.toNat_ofNat', Nat.mod_eq_of_lt small]
    exact hm
  · obtain ⟨errorCode, rest, rfl⟩ := complaint_header complaint
    rw [opcodeAt_fill _ (by simp; omega), opcodeOf_header] at op
    exact absurd op (by decide)

theorem not_deliversLast_client (e : Recv) (io : LocalIO) : ¬ DeliversLast (.client e io) :=
  fun h => h

theorem deliveries_client (acts : List Action) (e : Recv) (io : LocalIO) :
    (∃ a ∈ acts ++ [.client e io], DeliversLast a) ↔ ∃ a ∈ acts, DeliversLast a := by
  simp [or_and_right, exists_or, not_deliversLast_client]

/-- Before its report the client has sent whole blocks only. -/
theorem none_short {S : Setup} {acts : List Action} {t : System} (L : Lockstep S acts t)
    (live : t.client.status = .sending) {p : List UInt8} (mem : p ∈ t.toServer)
    (op : opcodeOf p = 3) : ¬ p.length < 516 := by
  intro len
  have reported := (L.short p mem op len).1
  rw [Reported, live] at reported
  cases reported

theorem client_quiet {S : Setup} {acts : List Action} {t : System} (L : Lockstep S acts t)
    {e : Recv} {io : LocalIO} (live : t.client.status = .sending)
    (quiet : t.client.Quiet (Client.writeStep (some S.file) t.client e io).1
      (Client.writeStep (some S.file) t.client e io).2) :
    Lockstep S (acts ++ [.client e io]) (step S t (.client e io)) := by
  have old : ∀ p ∈ (step S t (.client e io)).toServer, opcodeOf p = 3 → p ∈ t.toServer := by
    intro p hp op
    rcases List.mem_append.mp hp with old | new
    · exact old
    · exact absurd op (complaint_not_data (quiet.sends S.handler p (mem_sentTo.mp new)))
  have notDone : ¬ Reported (step S t (.client e io)) := by
    intro h
    have := quiet.succeeded h
    rw [live] at this
    cases this
  have same : Alive (step S t (.client e io)) → sent (step S t (.client e io)) = sent t := by
    intro alive
    rcases quiet.counter with failed | same
    · rcases alive with h | h
      · exact absurd (failed.symm.trans h) (by decide)
      · exact absurd (failed.symm.trans h) (by decide)
    · exact congrArg UInt16.toNat same
  exact
    { inv := step_inv t (.client e io) live L.inv
      acks := L.acks
      lastAck := L.lastAck
      ahead := by
        intro alive
        rw [same alive]
        exact L.ahead (Or.inl live)
      numbers := by
        intro alive p hp op
        rw [same alive]
        exact L.numbers (Or.inl live) p (old p hp op) op
      more := by
        intro sending
        rw [same (Or.inl sending)]
        exact L.more live
      done := fun h => absurd h notDone
      short := fun p hp op len => absurd len (none_short L live (old p hp op) op)
      unfinished := L.unfinished
      finished := L.finished
      delivered := by
        rw [deliveries_client]
        exact L.delivered }

/-- The counter goes up without coming round, for no block is sent under the number 0. -/
theorem sent_advances {S : Setup} {t : System} {src : Addr} {d : List UInt8} {io : LocalIO}
    (adv : t.client.Advances S.file
      (Client.writeStep (some S.file) t.client (.datagram src d) io).1 src d
      (Client.writeStep (some S.file) t.client (.datagram src d) io).2) :
    sent (step S t (.client (.datagram src d) io)) = sent t + 1 := by
  have wrap := congrArg UInt16.toNat adv.expected
  rw [UInt16.toNat_add] at wrap
  have nonzero : sent (step S t (.client (.datagram src d) io)) ≠ 0 :=
    fun h => adv.pos (UInt16.toNat_inj.mp h)
  have bound := t.client.expectedBlockNumber.toNat_lt
  change sent (step S t (.client (.datagram src d) io)) = (sent t + 1) % 65536 at wrap
  change sent t < 65536 at bound
  omega

theorem client_advances {S : Setup} {acts : List Action} {t : System} (L : Lockstep S acts t)
    {src : Addr} {d : List UInt8} {io : LocalIO} (live : t.client.status = .sending)
    (genuine : Genuine S t (.client (.datagram src d) io))
    (adv : t.client.Advances S.file
      (Client.writeStep (some S.file) t.client (.datagram src d) io).1 src d
      (Client.writeStep (some S.file) t.client (.datagram src d) io).2) :
    Lockstep S (acts ++ [.client (.datagram src d) io])
      (step S t (.client (.datagram src d) io)) := by
  have caught : sent t ≤ stored t := accepted_ack L (genuine adv.verified).2 adv.opcode adv.number
  have counter := sent_advances adv
  have number : (Client.writeStep (some S.file) t.client
      (.datagram src d) io).1.expectedBlockNumber.toNat = sent t + 1 := counter
  have brief := block_short_iff S.file (b := sent t + 1) (by omega)
  have status := adv.status
  have packets := fun p => adv.sends S.handler p
  rw [number] at status packets
  have reports : Reported (step S t (.client (.datagram src d) io)) ↔
      (block S.file (sent t + 1)).length < 512 := by
    change (Client.writeStep (some S.file) t.client (.datagram src d) io).1.status = _ ↔ _
    rw [status, live]
    split <;> simp_all
  have entries : ∀ p ∈ (step S t (.client (.datagram src d) io)).toServer,
      p ∈ t.toServer ∨ p = header 3
        (Client.writeStep (some S.file) t.client (.datagram src d) io).1.expectedBlockNumber ++
          block S.file (sent t + 1) := by
    intro p hp
    rcases List.mem_append.mp hp with old | new
    · exact Or.inl old
    · exact Or.inr ((packets p).mp (mem_sentTo.mp new)).2
  exact
    { inv := step_inv t (.client (.datagram src d) io) live L.inv
      acks := L.acks
      lastAck := L.lastAck
      ahead := by
        intro _
        have ahead := L.ahead (Or.inl live)
        rw [counter]
        exact ⟨Nat.le_succ_of_le ahead.1, Nat.succ_le_succ caught⟩
      numbers := by
        intro _ p hp op
        rw [counter]
        rcases entries p hp with old | rfl
        · exact Nat.le_succ_of_le (L.numbers (Or.inl live) p old op)
        · rw [numberOf_header, number]
      more := by
        intro sending
        rw [counter]
        by_contra few
        have reported := reports.mpr (brief.mpr (Nat.lt_of_not_le few))
        rw [Reported, sending] at reported
        cases reported
      done := by
        intro reported
        rw [counter]
        exact brief.mp (reports.mp reported)
      short := by
        intro p hp op len
        rcases entries p hp with old | rfl
        · exact absurd len (none_short L live old op)
        · rw [List.length_append, header_length] at len
          rw [numberOf_header, number, counter]
          exact ⟨reports.mpr (by omega), rfl⟩
      unfinished := L.unfinished
      finished := L.finished
      delivered := by
        rw [deliveries_client]
        exact L.delivered }

/-- A short DATA packet on its way is the very block a running handler waits for. -/
theorem last_is_expected {S : Setup} {acts : List Action} {t : System} (L : Lockstep S acts t)
    {d : List UInt8} (hd : d ∈ t.toServer) (op : opcodeOf d = 3) (len : d.length < 516)
    (live : t.server.status = .receiving) :
    4 ≤ d.length ∧ numberOf d = t.server.expectedBlockNumber := by
  obtain ⟨reported, number⟩ := L.short d hd op len
  have ahead := L.ahead (Or.inr reported)
  have notYet : stored t * 512 ≤ S.file.length := L.unfinished (by simp [Registered, live])
  have done := L.done reported
  have next : sent t = stored t + 1 := by omega
  have size := data_packet_length (data_packet (L.inv.packets d hd) op).2.2
  refine ⟨by omega, ?_⟩
  apply UInt16.toNat_inj.mp
  have bound := (numberOf d).toNat_lt
  rw [L.inv.counter, UInt16.toNat_ofNat', number, next]
  rw [number, next] at bound
  exact (Nat.mod_eq_of_lt bound).symm

theorem deliveries_server {S : Setup} {acts : List Action} {t : System} (L : Lockstep S acts t)
    (live : t.server.status = .receiving) (e : Recv) (io : LocalIO) :
    (∃ a ∈ acts ++ [.server e io], DeliversLast a) ↔ DeliversLast (.server e io) := by
  have none_before : ¬ ∃ a ∈ acts, DeliversLast a := by
    rw [← L.delivered]
    simp [Registered, live]
  simp only [List.mem_append, List.mem_singleton, or_and_right, exists_or, none_before, false_or,
    exists_eq_left]

theorem delivered_registers {S : Setup} {acts : List Action} {t : System} (L : Lockstep S acts t)
    {e : Recv} {io : LocalIO} (live : t.server.status = .receiving)
    (from_client : ∀ src d, e = .datagram src d → d ∈ t.toServer)
    (last : DeliversLast (.server e io)) : Registered (step S t (.server e io)) := by
  cases e with
  | timeout => exact False.elim last
  | datagram src d =>
    obtain ⟨op, len, written⟩ := last
    obtain ⟨h4, num⟩ := last_is_expected L (from_client src d rfl) op len live
    have accept := Server.writeStep_accept S.client t.server src h4 (by omega) op num written
    have received := congrArg (fun r => r.1.status) accept
    simp only [if_pos len] at received
    exact received

theorem server_quiet {S : Setup} {acts : List Action} {t : System} (L : Lockstep S acts t)
    {e : Recv} {io : LocalIO} (live : t.server.status = .receiving)
    (from_client : ∀ src d, e = .datagram src d → d ∈ t.toServer)
    (inv : Inv S (step S t (.server e io)))
    (same : stored (step S t (.server e io)) = stored t)
    (turn : t.server.Quiet (Server.writeStep S.client t.server e io).1
      (Server.writeStep S.client t.server e io).2) :
    Lockstep S (acts ++ [.server e io]) (step S t (.server e io)) := by
  have unregistered : ¬ Registered t := by simp [Registered, live]
  have still : ¬ Registered (step S t (.server e io)) := fun h => unregistered (turn.received h)
  exact
    { inv := inv
      acks := by
        intro p hp
        rw [same]
        rcases List.mem_append.mp hp with old | new
        · exact L.acks p old
        · exact Or.inr (turn.sends S.client p (mem_sentTo.mp new))
      lastAck := by
        rw [same]
        exact List.mem_append_left _ L.lastAck
      ahead := by
        rw [same]
        exact L.ahead
      numbers := L.numbers
      more := L.more
      done := L.done
      short := L.short
      unfinished := by
        rw [same]
        exact fun _ => L.unfinished unregistered
      finished := fun h => absurd h still
      delivered := by
        rw [deliveries_server L live]
        exact ⟨fun h => absurd h still, delivered_registers L live from_client⟩ }

theorem server_accepts {S : Setup} {acts : List Action} {t : System} (L : Lockstep S acts t)
    {src : Addr} {d : List UInt8} {io : LocalIO} (live : t.server.status = .receiving)
    (arrived : d ∈ t.toServer) (inv : Inv S (step S t (.server (.datagram src d) io)))
    (more : stored (step S t (.server (.datagram src d) io)) = stored t + 1)
    (small : stored t + 1 < 65536)
    (packet : d = header 3 t.server.expectedBlockNumber ++ block S.file (stored t + 1))
    (nonempty : block S.file (stored t + 1) ≠ []) (written : io.writeFails = false)
    (status : (step S t (.server (.datagram src d) io)).server.status =
      if (block S.file (stored t + 1)).length < 512 then .received else t.server.status)
    (sends : sentTo S.client (Server.writeStep S.client t.server (.datagram src d) io).2 =
      [ackDatagram t.server.expectedBlockNumber]) :
    Lockstep S (acts ++ [.server (.datagram src d) io])
      (step S t (.server (.datagram src d) io)) := by
  have op : opcodeOf d = 3 := by
    rw [packet, opcodeOf_header]
    rfl
  have num : numberOf d = t.server.expectedBlockNumber := by rw [packet, numberOf_header]
  have value : (numberOf d).toNat = stored t + 1 := by
    rw [num, L.inv.counter, UInt16.toNat_ofNat']
    exact Nat.mod_eq_of_lt small
  have size : d.length = (block S.file (stored t + 1)).length + 4 := by
    rw [packet, List.length_append, header_length, Nat.add_comm]
  have brief := block_short_iff S.file (b := stored t + 1) (by omega)
  have nonempty := (block_nonempty_iff S.file (stored t + 1)).mp nonempty
  have registered : Registered (step S t (.server (.datagram src d) io)) ↔
      (block S.file (stored t + 1)).length < 512 := by
    rw [Registered, status, live]
    split <;> simp_all
  have ack : (step S t (.server (.datagram src d) io)).toClient =
      t.toClient ++ [ackDatagram (UInt16.ofNat (stored t + 1))] := by
    rw [← L.inv.counter, ← sends]
    rfl
  exact
    { inv := inv
      acks := by
        intro p hp
        rw [more]
        rw [ack] at hp
        rcases List.mem_append.mp hp with old | new
        · rcases L.acks p old with ⟨m, hm, hp⟩ | complaint
          · exact Or.inl ⟨m, Nat.le_succ_of_le hm, hp⟩
          · exact Or.inr complaint
        · exact Or.inl ⟨stored t + 1, Nat.le_refl _, List.mem_singleton.mp new⟩
      lastAck := by
        rw [more, ack]
        exact List.mem_append_right _ (List.mem_singleton.mpr rfl)
      ahead := by
        intro alive
        rw [more]
        have before := L.ahead alive
        have reached := L.numbers alive d arrived op
        rw [value] at reached
        exact ⟨reached, Nat.le_succ_of_le before.2⟩
      numbers := L.numbers
      more := L.more
      done := L.done
      short := L.short
      unfinished := by
        intro notYet
        rw [more]
        rw [registered, brief] at notYet
        omega
      finished := by
        intro now
        rw [more]
        rw [registered, brief] at now
        exact ⟨nonempty, now⟩
      delivered := by
        rw [deliveries_server L live, registered]
        constructor
        · exact fun h => ⟨op, by omega, written⟩
        · rintro ⟨_, len, _⟩
          omega }

theorem server_lockstep {S : Setup} {acts : List Action} {t : System} (L : Lockstep S acts t)
    (e : Recv) (io : LocalIO) (live : t.server.status = .receiving)
    (from_client : ∀ src d, e = .datagram src d → d ∈ t.toServer)
    (enabled : Enabled t (.server e io)) :
    Lockstep S (acts ++ [.server e io]) (step S t (.server e io)) := by
  have inv := step_inv t (.server e io) enabled L.inv
  cases server_turn L.inv e io from_client with
  | quiet same turn => exact server_quiet L live from_client inv same turn
  | accepts src d event more small packet nonempty written _ _ status sends =>
    subst event
    exact server_accepts L live (from_client src d rfl) inv more small packet nonempty written
      status sends

theorem step_lockstep {S : Setup} (acts : List Action) (t : System) (a : Action)
    (enabled : (network S).enabled t a) (L : Lockstep S acts t) :
    Lockstep S (acts ++ [a]) ((network S).step t a) := by
  obtain ⟨enabled, genuine⟩ := enabled
  cases a with
  | client e io =>
    rcases Client.writeStep_cases S.file t.client e io with quiet | ⟨src, d, rfl, adv⟩
    · exact client_quiet L enabled quiet
    · exact client_advances L enabled genuine adv
  | server e io =>
    cases e with
    | timeout => exact server_lockstep L .timeout io enabled (fun _ _ h => by cases h) enabled
    | datagram src d =>
      refine server_lockstep L (.datagram src d) io enabled.1 ?_ enabled
      intro src' d' same
      cases same
      exact enabled.2

theorem agreed_iff_delivered {S : Setup} {acts : List Action} {t : System}
    (L : Lockstep S acts t) : Agreed S t ↔ ∃ a ∈ acts, DeliversLast a := by
  rw [← L.delivered]
  constructor
  · exact fun agreed => agreed.2.2
  · intro registered
    have ends := L.finished registered
    have last : stored t = S.file.length / 512 + 1 := by omega
    refine ⟨L.inv.whole registered, ?_, registered⟩
    rw [← last]
    exact L.lastAck

/-- A report of success is true in exactly those runs in which the last DATA packet
reached the handler in its loop and was stored. -/
theorem report_true_iff_last_delivered (S : Setup) {acts : List Action} {t : System}
    (run : Run (network S) (start S) acts t) :
    (Reported t → Agreed S t) ↔ (Reported t → ∃ a ∈ acts, DeliversLast a) := by
  have L : Lockstep S acts t := run.history (start_lockstep S) step_lockstep
  rw [agreed_iff_delivered L]

/-- One byte is uploaded and its DATA packet arrives. -/
theorem report_true_one_byte : Reported oneByteStored ∧ Agreed oneByte oneByteStored := by
  have run : Run (network oneByte) (start oneByte)
      ([] ++ [.client (.datagram oneByte.handler [0, 4, 0, 0]) .ok] ++
        [.server (.datagram oneByte.client [0, 3, 0, 1, 7]) .ok]) oneByteStored :=
    .snoc (.snoc (.refl _) ⟨rfl, fun _ => ⟨rfl, by decide⟩⟩) ⟨⟨by decide, by decide⟩, trivial⟩
  have reported : Reported oneByteStored := by
    unfold Reported
    decide
  have delivered : DeliversLast (.server (.datagram oneByte.client [0, 3, 0, 1, 7]) .ok) :=
    ⟨by decide, by decide, rfl⟩
  exact ⟨reported, (report_true_iff_last_delivered oneByte run).mpr
    (fun _ => ⟨_, by simp, delivered⟩) reported⟩

/-- The same packet is lost: the handler times out for good with an empty file. -/
def oneByteLost : System :=
  (List.replicate 5 (Action.server .timeout .ok)).foldl (step oneByte) oneByteSent

theorem lost_last_block_reported :
    ∃ acts, Run (network oneByte) (start oneByte) acts oneByteLost ∧ Reported oneByteLost ∧
      oneByteLost.server.status = .exhausted ∧ oneByteLost.server.content = [] ∧
      ¬ Agreed oneByte oneByteLost := by
  have sent : Run (network oneByte) (start oneByte)
      ([] ++ [.client (.datagram oneByte.handler [0, 4, 0, 0]) .ok]) oneByteSent :=
    .snoc (.refl _) ⟨rfl, fun _ => ⟨rfl, by decide⟩⟩
  have silence : ∀ t : System, t.server.status = .receiving →
      (network oneByte).enabled t (.server .timeout .ok) := fun t h => ⟨h, trivial⟩
  refine ⟨_, .snoc (.snoc (.snoc (.snoc (.snoc sent (silence _ ?_)) (silence _ ?_))
    (silence _ ?_)) (silence _ ?_)) (silence _ ?_), ?_, ?_, ?_, ?_⟩
  all_goals first | decide | skip
  · unfold Reported
    decide
  · rintro ⟨whole, _⟩
    exact absurd whole (by decide)

end TFTP.UploadAgreement
