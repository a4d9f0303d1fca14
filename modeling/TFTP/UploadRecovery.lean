import TFTP.HonestPeers
import TFTP.UploadAgreement
import Mathlib.Order.Bounds.Basic

/-!
# Uploads that are only held up

Neither party of an upload sends anything twice, so one lost packet stops it. As long as
packets are only late, whatever else has happened, the two of them are a known number of
deliveries away from the end, unless one has given up or the file is one that no upload
brings over.
-/

namespace TFTP.UploadRecovery

open Octets Packet Sockets Runs Upload UploadAgreement
open HonestPeers (Knows)

/-- The number of blocks, the short one at the end included. -/
def blocks (S : Setup) : Nat := S.file.length / 512 + 1

def packet (S : Setup) (t : System) : List UInt8 :=
  header 3 t.client.expectedBlockNumber ++ block S.file (sent t)

/-- Neither party has left its loop but with success. -/
def Unbroken (t : System) : Prop := (t.server.status = .receiving ∨ Registered t) ∧ Alive t

/-- The upload is over at both ends, and both are right. -/
def Done (S : Setup) (t : System) : Prop := Agreed S t ∧ Reported t

/-- The numbers of actions in which an upload can come to its end. -/
def endings (S : Setup) (t : System) : Set Nat :=
  {n | ∃ acts u, acts.length = n ∧ Run (network S) t acts u ∧ Done S u}

structure Sound (S : Setup) (t : System) : Prop where
  history : ∃ acts, Lockstep S acts t
  knows : Knows S.handler t.client.serverAddress t.client.initialPacket
  current : Alive t → 0 < sent t → packet S t ∈ t.toServer

theorem start_sound {S : Setup} (home : S.handler.ip = S.listening.ip) : Sound S (start S) :=
  ⟨⟨[], start_lockstep S⟩, ⟨home.symm, fun learned => (by cases learned)⟩,
    fun _ pos => absurd pos (Nat.lt_irrefl 0)⟩

theorem client_knows {S : Setup} {t : System} (sound : Sound S t) {e : Recv} {io : LocalIO}
    (genuine : Genuine S t (.client e io)) :
    Knows S.handler (step S t (.client e io)).client.serverAddress
      (step S t (.client e io)).client.initialPacket := by
  cases e with
  | timeout => exact sound.knows
  | datagram src d =>
    cases verified : Client.verifySource t.client.serverAddress t.client.initialPacket src with
    | none =>
      simp only [step, Client.writeStep_stranger (some S.file) t.client d io verified]
      exact sound.knows
    | some a =>
      obtain ⟨rfl, _⟩ := genuine (by simp [verified])
      obtain ⟨address, initial, _⟩ := Client.writeStep_verified (some S.file) t.client d io
        sound.knows.verified
      exact ⟨congrArg Addr.ip address, fun _ => address⟩

theorem client_current {S : Setup} {t : System} (sound : Sound S t) {e : Recv} {io : LocalIO}
    (sending : t.client.status = .sending) (genuine : Genuine S t (.client e io))
    (alive : Alive (step S t (.client e io))) (pos : 0 < sent (step S t (.client e io))) :
    packet S (step S t (.client e io)) ∈ (step S t (.client e io)).toServer := by
  rcases Client.writeStep_cases S.file t.client e io with quiet | ⟨src, d, rfl, adv⟩
  · rcases quiet.counter with failed | same
    · rcases alive with h | h
      · exact absurd (failed.symm.trans h) (by decide)
      · exact absurd (failed.symm.trans h) (by decide)
    · simp only [packet, sent, step, same] at pos ⊢
      exact List.mem_append_left _ (sound.current (Or.inl sending) pos)
  · obtain ⟨rfl, _⟩ := genuine adv.verified
    exact List.mem_append_right _ (mem_sentTo.mpr ((adv.sends _ _).mpr ⟨rfl, rfl⟩))

theorem step_sound {S : Setup} (t : System) (a : Action) (enabled : (network S).enabled t a)
    (sound : Sound S t) : Sound S ((network S).step t a) := by
  obtain ⟨acts, L⟩ := sound.history
  have history : ∃ acts, Lockstep S acts ((network S).step t a) :=
    ⟨_, step_lockstep acts t a enabled L⟩
  cases a with
  | server e io => exact ⟨history, sound.knows, sound.current⟩
  | client e io =>
    exact ⟨history, client_knows sound enabled.2, client_current sound enabled.1 enabled.2⟩

section Position

variable {S : Setup} {t : System} (sound : Sound S t)

include sound

/-- The block under way is one of the file. -/
theorem sent_reaches (alive : Alive t) (pos : 0 < sent t) :
    (sent t - 1) * 512 < S.file.length := by
  obtain ⟨acts, L⟩ := sound.history
  have op : opcodeOf (packet S t) = 3 := by
    rw [packet, opcodeOf_header]
    decide
  obtain ⟨_, nonempty, _⟩ := data_packet (L.inv.packets _ (sound.current alive pos)) op
  rw [packet, numberOf_header] at nonempty
  exact (block_nonempty_iff S.file (sent t)).mp nonempty

theorem sent_le (alive : Alive t) : sent t ≤ blocks S := by
  rcases Nat.eq_zero_or_pos (sent t) with none | pos
  · omega
  · have reaches := sent_reaches sound alive pos
    rw [blocks]
    omega

theorem registered_over (registered : Registered t) (alive : Alive t) :
    Reported t ∧ stored t = blocks S ∧ sent t = blocks S := by
  obtain ⟨acts, L⟩ := sound.history
  obtain ⟨most, whole⟩ := L.finished registered
  have ahead := (L.ahead alive).1
  have reach := sent_le sound alive
  have reported : Reported t := by
    rcases alive with sending | reported
    · have more := L.more sending
      omega
    · exact reported
  rw [blocks] at reach ⊢
  exact ⟨reported, by omega, by omega⟩

theorem registered_done (registered : Registered t) (alive : Alive t) : Done S t := by
  obtain ⟨acts, L⟩ := sound.history
  exact ⟨(agreed_iff_delivered L).mpr (L.delivered.mp registered),
    (registered_over sound registered alive).1⟩

end Position

/-- The number of deliveries that are still to come. -/
def toGo (S : Setup) (t : System) : Nat := 2 * blocks S - (stored t + sent t)

section Onward

variable {S : Setup} {t : System} (sound : Sound S t)

include sound

theorem nothing_left (unbroken : Unbroken t) (ended : toGo S t = 0) : Done S t := by
  obtain ⟨acts, L⟩ := sound.history
  obtain ⟨serving, alive⟩ := unbroken
  have ahead := (L.ahead alive).1
  have reach := sent_le sound alive
  refine registered_done sound (serving.resolve_left fun receiving => ?_) alive
  have held := L.unfinished (by simp [Registered, receiving])
  rw [toGo] at ended
  rw [blocks] at ended reach
  omega

/-- The acknowledgement of all that was sent brings out the next block. -/
theorem ack_arrives (odd : S.file.length % 512 ≠ 0) (few : S.file.length < 65535 * 512)
    (sending : t.client.status = .sending) (level : sent t = stored t) :
    let a : Action := .client (.datagram S.handler (ackDatagram (UInt16.ofNat (stored t)))) .ok
    (network S).enabled t a ∧ Alive (step S t a) ∧ sent (step S t a) = sent t + 1 := by
  obtain ⟨acts, L⟩ := sound.history
  have more := L.more sending
  have small : stored t + 1 < 65536 := by omega
  have current : UInt16.ofNat (stored t) = t.client.expectedBlockNumber := by
    rw [← level]
    exact UInt16.ofNat_toNat
  have next : (t.client.expectedBlockNumber + 1).toNat = sent t + 1 := by
    rw [UInt16.toNat_add]
    exact Nat.mod_eq_of_lt (show sent t + 1 < 65536 by omega)
  have pos : t.client.expectedBlockNumber + 1 ≠ 0 := by
    intro zero
    rw [zero] at next
    cases next
  have nonempty : block S.file (t.client.expectedBlockNumber + 1).toNat ≠ [] := by
    rw [next, block_nonempty_iff]
    omega
  have turn := Client.writeStep_next S.file t.client sound.knows.verified
    (d := ackDatagram (UInt16.ofNat (stored t))) (by simp) (by simp) (by simp [current]) pos
    nonempty (show LocalIO.ok.sendFails = false from rfl)
  refine ⟨⟨sending, fun _ => ⟨rfl, L.lastAck⟩⟩, ?_, ?_⟩
  · simp only [Alive, step, turn, sending]
    split <;> simp
  · simp only [sent, step, turn]
    exact next

/-- The block under way is stored. -/
theorem block_arrives (receiving : t.server.status = .receiving) (alive : Alive t)
    (behind : sent t = stored t + 1) :
    let a : Action := .server (.datagram S.client (packet S t)) .ok
    (network S).enabled t a ∧ Unbroken (step S t a) ∧ stored (step S t a) = stored t + 1 := by
  obtain ⟨acts, L⟩ := sound.history
  have there := sound.current alive (by omega)
  have fits := block_length_le S.file (sent t)
  have size : (packet S t).length = (block S.file (sent t)).length + 4 := by
    rw [packet, List.length_append, header_length, Nat.add_comm]
  have op : opcodeOf (packet S t) = 3 := by
    rw [packet, opcodeOf_header]
    decide
  have number : numberOf (packet S t) = t.server.expectedBlockNumber := by
    rw [packet, numberOf_header, L.inv.counter, ← behind]
    exact UInt16.ofNat_toNat.symm
  have turn := Server.writeStep_accept S.client t.server S.client (by omega) (by omega) op number
    (show LocalIO.ok.writeFails = false from rfl)
  refine ⟨⟨⟨receiving, there⟩, trivial⟩, ⟨?_, alive⟩, ?_⟩
  · simp only [Registered, step, turn, receiving]
    split <;> simp
  · simp only [stored, step, writes_append, List.length_append, turn]
    simp [writes, examineOpcode, examineNumber, sendACK]

theorem onward (odd : S.file.length % 512 ≠ 0) (few : S.file.length < 65535 * 512)
    (unbroken : Unbroken t) (left : toGo S t ≠ 0) :
    ∃ a, (network S).enabled t a ∧ Unbroken (step S t a) ∧ toGo S (step S t a) + 1 = toGo S t := by
  obtain ⟨acts, L⟩ := sound.history
  obtain ⟨serving, alive⟩ := unbroken
  have ahead := L.ahead alive
  have reach := sent_le sound alive
  have receiving : t.server.status = .receiving := by
    refine serving.resolve_right fun registered => ?_
    obtain ⟨_, all, all'⟩ := registered_over sound registered alive
    rw [toGo] at left
    omega
  have held := L.unfinished (by simp [Registered, receiving])
  by_cases level : sent t = stored t
  · have sending : t.client.status = .sending := by
      refine alive.resolve_right fun reported => ?_
      have ended := L.done reported
      omega
    obtain ⟨enabled, alive', next⟩ := ack_arrives sound odd few sending level
    refine ⟨_, enabled, ⟨Or.inl receiving, alive'⟩, ?_⟩
    have same : stored (step S t (.client (.datagram S.handler
      (ackDatagram (UInt16.ofNat (stored t)))) .ok)) = stored t := rfl
    have more := L.more sending
    rw [toGo, toGo, next, same, blocks]
    omega
  · obtain ⟨enabled, unbroken', next⟩ := block_arrives sound receiving alive (by omega)
    refine ⟨_, enabled, unbroken', ?_⟩
    have same : sent (step S t (.server (.datagram S.client (packet S t)) .ok)) = sent t := rfl
    rw [toGo, toGo, next, same]
    omega

end Onward

/-- No action brings the parties on by more than one packet, and none brings back a party
that has given up. -/
theorem step_climbs {S : Setup} (t : System) (a : Action) (enabled : (network S).enabled t a)
    (unbroken : Unbroken ((network S).step t a)) :
    Unbroken t ∧ stored ((network S).step t a) + sent ((network S).step t a) ≤
      stored t + sent t + 1 := by
  change Unbroken (step S t a) at unbroken
  change Unbroken t ∧ stored (step S t a) + sent (step S t a) ≤ stored t + sent t + 1
  cases a with
  | server e io =>
    have receiving : t.server.status = .receiving := by
      cases e with
      | timeout => exact enabled.1
      | datagram src d => exact enabled.1.1
    have count : stored (step S t (.server e io)) =
        stored t + (writes (Server.writeStep S.client t.server e io).2).length := by
      simp [stored, step, writes_append]
    have same : sent (step S t (.server e io)) = sent t := rfl
    refine ⟨⟨Or.inl receiving, unbroken.2⟩, ?_⟩
    rcases Server.writeStep_cases S.client t.server e io with quiet | ⟨_, _, _, accepts⟩
    · rw [count, quiet.writes, same, List.length_nil]
      omega
    · rw [count, accepts.writes, same, List.length_singleton]
      omega
  | client e io =>
    have same : stored (step S t (.client e io)) = stored t := rfl
    refine ⟨⟨unbroken.1, Or.inl enabled.1⟩, ?_⟩
    rw [same]
    rcases Client.writeStep_cases S.file t.client e io with quiet | ⟨src, d, rfl, adv⟩
    · rcases quiet.counter with failed | still
      · rcases unbroken.2 with h | h
        · exact absurd (failed.symm.trans h) (by decide)
        · exact absurd (failed.symm.trans h) (by decide)
      · have still : sent (step S t (.client e io)) = sent t := congrArg UInt16.toNat still
        omega
    · have advanced := sent_advances adv
      omega

/-- A registered file ends in a short block, and its blocks have numbers. -/
theorem registered_fits {S : Setup} {acts : List Action} {t : System} (L : Lockstep S acts t)
    (registered : Registered t) : S.file.length % 512 ≠ 0 ∧ S.file.length < 65535 * 512 := by
  obtain ⟨most, whole⟩ := L.finished registered
  have bounded : stored t ≤ 65535 := Nat.le_of_lt_succ L.inv.bounded
  exact ⟨by omega, Nat.lt_of_lt_of_le whole (Nat.mul_le_mul_right 512 bounded)⟩

theorem ending_from {S : Setup} {t : System} (sound : Sound S t) {n : Nat}
    (ending : n ∈ endings S t) :
    Unbroken t ∧ S.file.length % 512 ≠ 0 ∧ S.file.length < 65535 * 512 ∧ toGo S t ≤ n := by
  obtain ⟨acts, u, rfl, run, ⟨_, _, registered⟩, reported⟩ := ending
  have sound' : Sound S u := run.invariant step_sound sound
  obtain ⟨unbroken, climbed⟩ := run.climbs (fun v => stored v + sent v) step_climbs
    ⟨Or.inr registered, Or.inr reported⟩
  obtain ⟨_, L⟩ := sound'.history
  obtain ⟨_, all, all'⟩ := registered_over sound' registered (Or.inr reported)
  obtain ⟨odd, few⟩ := registered_fits L registered
  refine ⟨unbroken, odd, few, ?_⟩
  rw [toGo]
  omega

theorem toGo_ending {S : Setup} {t : System} (sound : Sound S t) (unbroken : Unbroken t)
    (odd : S.file.length % 512 ≠ 0) (few : S.file.length < 65535 * 512) :
    toGo S t ∈ endings S t := by
  have descends : ∀ v, (Sound S v ∧ Unbroken v) → toGo S v ≠ 0 →
      ∃ a, (network S).enabled v a ∧ (Sound S (step S v a) ∧ Unbroken (step S v a)) ∧
        toGo S (step S v a) + 1 = toGo S v := by
    rintro v ⟨sound', unbroken'⟩ left
    obtain ⟨a, enabled, again, less⟩ := onward sound' odd few unbroken' left
    exact ⟨a, enabled, ⟨step_sound v a enabled sound', again⟩, less⟩
  obtain ⟨acts, u, run, length, ⟨sound', unbroken'⟩, ended⟩ :=
    Run.descends (toGo S) descends ⟨sound, unbroken⟩
  exact ⟨acts, u, length, run, nothing_left sound' unbroken' ended⟩

/-- The upload of a reachable state can still come to its end if and only if neither party
has given up and the file is one that comes over at all, and then it takes one delivery for
each packet still to come, with none to spare. -/
theorem upload_recovers {S : Setup} (home : S.handler.ip = S.listening.ip) {acts : List Action}
    {t : System} (run : Run (network S) (start S) acts t) :
    ((endings S t).Nonempty ↔
      Unbroken t ∧ S.file.length % 512 ≠ 0 ∧ S.file.length < 65535 * 512) ∧
    ((endings S t).Nonempty → IsLeast (endings S t) (toGo S t)) := by
  have sound : Sound S t := run.invariant step_sound (start_sound home)
  constructor
  · constructor
    · rintro ⟨n, ending⟩
      obtain ⟨unbroken, odd, few, _⟩ := ending_from sound ending
      exact ⟨unbroken, odd, few⟩
    · rintro ⟨unbroken, odd, few⟩
      exact ⟨_, toGo_ending sound unbroken odd few⟩
  · rintro ⟨n, ending⟩
    obtain ⟨unbroken, odd, few, _⟩ := ending_from sound ending
    exact ⟨toGo_ending sound unbroken odd few, fun m other => (ending_from sound other).2.2.2⟩

/-- The only block is under way, and both parties have waited in vain before it was sent. -/
def oneByteLate : System :=
  [Action.server .timeout .ok, .client .timeout .ok,
    .client (.datagram oneByte.handler [0, 4, 0, 0]) .ok].foldl (step oneByte) (start oneByte)

theorem upload_recovers_one_byte : IsLeast (endings oneByte oneByteLate) 1 := by
  have run : Run (network oneByte) (start oneByte)
      ([] ++ [.server .timeout .ok] ++ [.client .timeout .ok] ++
        [.client (.datagram oneByte.handler [0, 4, 0, 0]) .ok]) oneByteLate :=
    .snoc (.snoc (.snoc (.refl _) ⟨rfl, trivial⟩) ⟨rfl, trivial⟩)
      ⟨rfl, fun _ => ⟨rfl, by decide⟩⟩
  have unbroken : Unbroken oneByteLate := ⟨Or.inl (by decide), Or.inr (by decide)⟩
  obtain ⟨possible, least⟩ := upload_recovers rfl run
  exact least (possible.mpr ⟨unbroken, by decide, by decide⟩)

end TFTP.UploadRecovery
