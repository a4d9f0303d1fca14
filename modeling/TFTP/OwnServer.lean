import TFTP.ClientLoops

/-!
# A client's transfer depends on its own server only

The read and write loops of the client take the port of the first packet from the server's
address and turn away whatever comes from elsewhere. Such a packet still fills the receive
buffer and winds the retry counter up, and neither is seen again: a full header of a later
packet covers the old one, and the timeouts are too few to use the counter up.
-/

namespace TFTP.OwnServer

open Octets Packet Sockets Runs Client

/-- The port of the first datagram from an address. -/
def firstPort (ip : UInt32) : List (Recv × LocalIO) → Option UInt16
  | [] => none
  | (.timeout, _) :: es => firstPort ip es
  | (.datagram src _, _) :: es => if src.ip = ip then some src.port else firstPort ip es

/-- Timeouts, and the datagrams of one address and port. -/
def fromServer (ip : UInt32) (port : Option UInt16) : Recv × LocalIO → Bool
  | (.timeout, _) => true
  | (.datagram src _, _) => decide (src.ip = ip ∧ some src.port = port)

/-- The sequence without the datagrams that are not the server's. -/
def own (serverAddress : Addr) (es : List (Recv × LocalIO)) : List (Recv × LocalIO) :=
  es.filter (fromServer serverAddress.ip (firstPort serverAddress.ip es))

/-- Every datagram has a full header. -/
def Headed (es : List (Recv × LocalIO)) : Prop :=
  ∀ src d io, (Recv.datagram src d, io) ∈ es → 4 ≤ d.length

/-- What is known of the server's port, at a point of the sequence. -/
def Learned (ip : UInt32) (port : Option UInt16) (es : List (Recv × LocalIO))
    (serverAddress : Addr) (initialPacket : Bool) : Prop :=
  serverAddress.ip = ip ∧
    if initialPacket = true then firstPort ip es = port else some serverAddress.port = port

theorem Learned.timeout {ip : UInt32} {port : Option UInt16} {es : List (Recv × LocalIO)}
    {serverAddress : Addr} {initialPacket : Bool} {io : LocalIO}
    (learned : Learned ip port ((.timeout, io) :: es) serverAddress initialPacket) :
    Learned ip port es serverAddress initialPacket := learned

section Datagrams

variable {ip : UInt32} {port : Option UInt16} {es : List (Recv × LocalIO)} {a src : Addr}
  {initialPacket : Bool} {d : List UInt8} {io : LocalIO}

/-- A datagram that is left out fails the source test. -/
theorem Learned.foreign
    (learned : Learned ip port ((.datagram src d, io) :: es) a initialPacket)
    (other : fromServer ip port (.datagram src d, io) = false) :
    verifySource a initialPacket src = none ∧ Learned ip port es a initialPacket := by
  obtain ⟨host, port_⟩ := learned
  have apart : ¬ (src.ip = ip ∧ some src.port = port) := of_decide_eq_false other
  cases initialPacket with
  | true =>
    rw [if_pos rfl, firstPort] at port_
    by_cases here : src.ip = ip
    · rw [if_pos here] at port_
      exact absurd ⟨here, port_⟩ apart
    · rw [if_neg here] at port_
      exact ⟨if_pos (host ▸ here), host, by rw [if_pos rfl]; exact port_⟩
  | false =>
    refine ⟨?_, host, port_⟩
    rw [if_neg Bool.false_ne_true] at port_
    unfold verifySource
    split
    · rfl
    · rename_i here
      rw [if_neg Bool.false_ne_true, if_pos]
      intro same
      exact apart ⟨(not_not.mp here).trans host, by rw [← same, port_]⟩

/-- A datagram that is kept passes it, and the port is known from then on. -/
theorem Learned.own (learned : Learned ip port ((.datagram src d, io) :: es) a initialPacket)
    (kept : fromServer ip port (.datagram src d, io) = true) :
    ∃ a', verifySource a initialPacket src = some a' ∧ Learned ip port es a' false := by
  obtain ⟨host, port_⟩ := learned
  obtain ⟨here, same⟩ := of_decide_eq_true kept
  cases initialPacket with
  | true =>
    refine ⟨{ a with port := src.port }, ?_, host, ?_⟩
    · rw [verifySource, if_neg (not_not.mpr (here.trans host.symm)), if_pos rfl]
    · rw [if_neg Bool.false_ne_true]
      exact same
  | false =>
    rw [if_neg Bool.false_ne_true] at port_
    have ports : a.port = src.port := Option.some.inj (port_.trans same.symm)
    refine ⟨a, ?_, host, ?_⟩
    · rw [verifySource, if_neg (not_not.mpr (here.trans host.symm)), if_neg Bool.false_ne_true,
        if_neg (not_not.mpr ports)]
    · rw [if_neg Bool.false_ne_true]
      exact port_

end Datagrams

theorem Headed.tail {e : Recv × LocalIO} {es : List (Recv × LocalIO)} (headed : Headed (e :: es)) :
    Headed es :=
  fun src d io mem => headed src d io (List.mem_cons_of_mem e mem)

/-- Neither the bytes in the buffer nor the retry counter matter to a turn. -/
theorem readStep_buffer (clientAddress : Addr) (s : ReadLoop) (src : Addr) {d : List UInt8}
    (io : LocalIO) (b : RecvBuffer) (r : Nat) (h4 : 4 ≤ d.length) :
    readStep clientAddress { s with recievedBuffer := b, retry := r } (.datagram src d) io =
      ({ (readStep clientAddress s (.datagram src d) io).1 with recievedBuffer := b.fill d },
        (readStep clientAddress s (.datagram src d) io).2) := by
  have cap : ¬ received 516 d > maxPacketSize := Nat.not_lt.mpr (received_le 516 d)
  have size : ((received 516 d : Int) - 4).toNat = received 516 d - 4 := by omega
  have h2 : 2 ≤ d.length := by omega
  simp only [readStep, cap, if_false, opcodeAt_fill _ h2, recvBlockNumberAt_fill _ h4, size,
    recvDataAt_received _ h4]
  cases verifySource s.serverAddress s.initialPacket src with
  | none => rfl
  | some a =>
    simp only
    split_ifs <;> rfl

/-- Two read loops that differ in their buffers and retry counters, and what is to come. -/
structure Reads (ip : UInt32) (port : Option UInt16) (es : List (Recv × LocalIO))
    (s t : ReadLoop) : Prop where
  same : ∃ b r, t = { s with recievedBuffer := b, retry := r } ∧ timeouts es < r
  patient : timeouts es < s.retry
  few : timeouts es < maxRetry
  learned : Learned ip port es s.serverAddress s.initialPacket
  headed : Headed es

theorem read_skips (clientAddress : Addr) {ip : UInt32} {port : Option UInt16}
    {e : Recv × LocalIO} {es : List (Recv × LocalIO)} {s t : ReadLoop}
    (other : fromServer ip port e = false) (related : Reads ip port (e :: es) s t) :
    Reads ip port es (readStep clientAddress s e.1 e.2).1 t ∧
      (readStep clientAddress s e.1 e.2).2.filter shows = [] := by
  obtain ⟨⟨b, r, rfl, patient⟩, _, few, learned, headed⟩ := related
  obtain ⟨e, io⟩ := e
  cases e with
  | timeout => cases other
  | datagram src d =>
    obtain ⟨stranger, learned'⟩ := learned.foreign other
    rw [timeouts_datagram] at patient few
    simp only [readStep_stranger clientAddress s d io stranger]
    constructor
    · exact ⟨⟨b, r, rfl, patient⟩, few, few, learned', headed.tail⟩
    · rw [unknownTid, List.filter_cons_of_neg, List.filter_nil]
      rw [shows_sendError]
      exact Bool.false_ne_true

theorem read_keeps (clientAddress : Addr) {ip : UInt32} {port : Option UInt16}
    {e : Recv × LocalIO} {es : List (Recv × LocalIO)} {s t : ReadLoop}
    (kept : fromServer ip port e = true) (related : Reads ip port (e :: es) s t) :
    Reads ip port es (readStep clientAddress s e.1 e.2).1 (readStep clientAddress t e.1 e.2).1 ∧
      (readStep clientAddress s e.1 e.2).2 = (readStep clientAddress t e.1 e.2).2 := by
  obtain ⟨⟨b, r, rfl, patient'⟩, patient, few, learned, headed⟩ := related
  obtain ⟨e, io⟩ := e
  cases e with
  | timeout =>
    rw [timeouts_timeout] at patient patient' few
    refine ⟨⟨⟨b, r - 1, ?_, by omega⟩, ?_, by omega, learned.timeout, headed.tail⟩, rfl⟩
    · simp only [readStep, if_neg (show ¬ r - 1 = 0 by omega),
        if_neg (show ¬ s.retry - 1 = 0 by omega)]
    · change timeouts es < s.retry - 1
      omega
  | datagram src d =>
    obtain ⟨a, verified, learned'⟩ := learned.own kept
    obtain ⟨address, initial, retry⟩ := readStep_verified clientAddress s d io verified
    have h4 := headed src d io List.mem_cons_self
    rw [timeouts_datagram] at few
    rw [readStep_buffer clientAddress s src io b r h4]
    refine ⟨⟨⟨b.fill d, maxRetry, ?_, few⟩, ?_, few, ?_, headed.tail⟩, rfl⟩
    · rw [← retry]
    · rw [retry]
      exact few
    · rw [address, initial]
      exact learned'

theorem writeStep_retry (file : Option (List UInt8)) (s : WriteLoop) (src : Addr) (d : List UInt8)
    (io : LocalIO) (r : Nat) :
    writeStep file { s with retry := r } (.datagram src d) io =
      writeStep file s (.datagram src d) io := by
  have cap : ¬ received 516 d > maxPacketSize := Nat.not_lt.mpr (received_le 516 d)
  simp only [writeStep, cap, if_false]

/-- Two write loops that differ in their retry counters, and what is to come. -/
structure Writes (ip : UInt32) (port : Option UInt16) (es : List (Recv × LocalIO))
    (s t : WriteLoop) : Prop where
  same : ∃ r, t = { s with retry := r } ∧ timeouts es < r
  patient : timeouts es < s.retry
  few : timeouts es < maxRetry
  learned : Learned ip port es s.serverAddress s.initialPacket

theorem write_skips (file : Option (List UInt8)) {ip : UInt32} {port : Option UInt16}
    {e : Recv × LocalIO} {es : List (Recv × LocalIO)} {s t : WriteLoop}
    (other : fromServer ip port e = false) (related : Writes ip port (e :: es) s t) :
    Writes ip port es (writeStep file s e.1 e.2).1 t ∧
      (writeStep file s e.1 e.2).2.filter shows = [] := by
  obtain ⟨⟨r, rfl, patient⟩, _, few, learned⟩ := related
  obtain ⟨e, io⟩ := e
  cases e with
  | timeout => cases other
  | datagram src d =>
    obtain ⟨stranger, learned'⟩ := learned.foreign other
    rw [timeouts_datagram] at patient few
    simp only [writeStep_stranger file s d io stranger]
    constructor
    · exact ⟨⟨r, rfl, patient⟩, few, few, learned'⟩
    · rw [unknownTid, List.filter_cons_of_neg, List.filter_nil]
      rw [shows_sendError]
      exact Bool.false_ne_true

theorem write_keeps (file : Option (List UInt8)) {ip : UInt32} {port : Option UInt16}
    {e : Recv × LocalIO} {es : List (Recv × LocalIO)} {s t : WriteLoop}
    (kept : fromServer ip port e = true) (related : Writes ip port (e :: es) s t) :
    Writes ip port es (writeStep file s e.1 e.2).1 (writeStep file t e.1 e.2).1 ∧
      (writeStep file s e.1 e.2).2 = (writeStep file t e.1 e.2).2 := by
  obtain ⟨⟨r, rfl, patient'⟩, patient, few, learned⟩ := related
  obtain ⟨e, io⟩ := e
  cases e with
  | timeout =>
    rw [timeouts_timeout] at patient patient' few
    refine ⟨⟨⟨r - 1, ?_, by omega⟩, ?_, by omega, learned.timeout⟩, rfl⟩
    · simp only [writeStep, if_neg (show ¬ r - 1 = 0 by omega),
        if_neg (show ¬ s.retry - 1 = 0 by omega)]
    · change timeouts es < s.retry - 1
      omega
  | datagram src d =>
    obtain ⟨a, verified, learned'⟩ := learned.own kept
    obtain ⟨address, initial, retry⟩ := writeStep_verified file s d io verified
    rw [timeouts_datagram] at few
    rw [writeStep_retry file s src d io r]
    refine ⟨⟨⟨maxRetry, ?_, few⟩, ?_, few, ?_⟩, rfl⟩
    · rw [← retry]
    · rw [retry]
      exact few
    · rw [address, initial]
      exact learned'

/-- With the foreign datagrams left out, the same is stored and sent, and the loop stands as
it did. -/
theorem reads_own (clientAddress serverAddress : Addr) {es : List (Recv × LocalIO)}
    (headed : Headed es) (few : timeouts es < maxRetry) :
    let full := (readReactor clientAddress).feed (.start serverAddress) es
    let part := (readReactor clientAddress).feed (.start serverAddress) (own serverAddress es)
    full.2.filter shows = part.2.filter shows ∧ full.1.content = part.1.content ∧
      full.1.status = part.1.status := by
  have start : Reads serverAddress.ip (firstPort serverAddress.ip es) es (.start serverAddress)
      (.start serverAddress) :=
    ⟨⟨_, _, rfl, few⟩, few, few, ⟨rfl, rfl⟩, headed⟩
  obtain ⟨⟨rest, ⟨b, r, final, _⟩, _⟩, shown⟩ := (readReactor clientAddress).feed_filter
    (fromServer serverAddress.ip (firstPort serverAddress.ip es)) shows
    (Reads serverAddress.ip (firstPort serverAddress.ip es))
    (by
      rintro es s t ⟨⟨b, r, rfl, _⟩, _⟩
      rfl)
    (fun e es s t other _ related => read_skips clientAddress other related)
    (fun e es s t kept _ related => by
      obtain ⟨related', outputs⟩ := read_keeps clientAddress kept related
      exact ⟨related', congrArg (List.filter shows) outputs⟩) start
  refine ⟨shown, ?_, ?_⟩
  · exact (congrArg ReadLoop.content final).symm
  · exact (congrArg ReadLoop.status final).symm

theorem writes_own (file : Option (List UInt8)) (serverAddress : Addr)
    {es : List (Recv × LocalIO)} (few : timeouts es < maxRetry) :
    let full := (writeReactor file).feed (.start serverAddress) es
    let part := (writeReactor file).feed (.start serverAddress) (own serverAddress es)
    full.2.filter shows = part.2.filter shows ∧ full.1.status = part.1.status := by
  have start : Writes serverAddress.ip (firstPort serverAddress.ip es) es (.start serverAddress)
      (.start serverAddress) :=
    ⟨⟨_, rfl, few⟩, few, few, ⟨rfl, rfl⟩⟩
  obtain ⟨⟨rest, ⟨r, final, _⟩, _⟩, shown⟩ := (writeReactor file).feed_filter
    (fromServer serverAddress.ip (firstPort serverAddress.ip es)) shows
    (Writes serverAddress.ip (firstPort serverAddress.ip es))
    (by
      rintro es s t ⟨⟨r, rfl, _⟩, _⟩
      rfl)
    (fun e es s t other _ related => write_skips file other related)
    (fun e es s t kept _ related => by
      obtain ⟨related', outputs⟩ := write_keeps file kept related
      exact ⟨related', congrArg (List.filter shows) outputs⟩) start
  exact ⟨shown, (congrArg WriteLoop.status final).symm⟩

/-- Leaving out the datagrams that are not the server's changes neither what a client
stores, nor what it sends as DATA or ACK, nor its result. -/
theorem transfers_heed_own_server (clientAddress serverAddress : Addr)
    (file : Option (List UInt8)) {es : List (Recv × LocalIO)} (headed : Headed es)
    (few : timeouts es < maxRetry) :
    (let full := (readReactor clientAddress).feed (.start serverAddress) es
      let part := (readReactor clientAddress).feed (.start serverAddress) (own serverAddress es)
      full.2.filter shows = part.2.filter shows ∧ full.1.content = part.1.content ∧
        full.1.status = part.1.status) ∧
    (let full := (writeReactor file).feed (.start serverAddress) es
      let part := (writeReactor file).feed (.start serverAddress) (own serverAddress es)
      full.2.filter shows = part.2.filter shows ∧ full.1.status = part.1.status) :=
  ⟨reads_own clientAddress serverAddress headed few, writes_own file serverAddress few⟩

/-- A stranger's ERROR, a timeout and the server's only block. -/
def disturbed : List (Recv × LocalIO) :=
  [(.datagram ⟨0x0A000001, 69⟩ [0, 5, 0, 0], .ok), (.timeout, .ok),
    (.datagram ⟨0x7F000001, 9801⟩ [0, 3, 0, 1, 7], .ok)]

theorem transfers_heed_own_server_disturbed :
    (let full := (readReactor ⟨0, 0⟩).feed (.start ⟨0x7F000001, 69⟩) disturbed
      let part := (readReactor ⟨0, 0⟩).feed (.start ⟨0x7F000001, 69⟩)
        (own ⟨0x7F000001, 69⟩ disturbed)
      full.2.filter shows = part.2.filter shows ∧ full.1.content = part.1.content ∧
        full.1.status = part.1.status) ∧
    (let full := (writeReactor (some [7])).feed (.start ⟨0x7F000001, 69⟩) disturbed
      let part := (writeReactor (some [7])).feed (.start ⟨0x7F000001, 69⟩)
        (own ⟨0x7F000001, 69⟩ disturbed)
      full.2.filter shows = part.2.filter shows ∧ full.1.status = part.1.status) := by
  refine transfers_heed_own_server ⟨0, 0⟩ ⟨0x7F000001, 69⟩ (some [7]) ?_ (by decide)
  intro src d io mem
  simp only [disturbed, List.mem_cons, Prod.mk.injEq, Recv.datagram.injEq, reduceCtorEq,
    false_and, List.not_mem_nil, or_false, false_or] at mem
  rcases mem with ⟨⟨_, rfl⟩, _⟩ | ⟨⟨_, rfl⟩, _⟩
  · decide
  · decide

end TFTP.OwnServer
