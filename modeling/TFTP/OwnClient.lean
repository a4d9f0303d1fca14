import TFTP.ServerRequests

/-!
# What a handler makes of foreign datagrams

No handler looks at the source of what it receives. A foreign datagram is harmless to an
upload as long as it is not taken for the next block and no shorter datagram of the client
is read over its header; a sender answers every datagram with a DATA packet, so it must not
get any.
-/

namespace TFTP.OwnClient

open Octets Packet Sockets Runs Server

/-- One handler over the shared state, fed with what its socket receives. -/
def reactor : Reactor (Shared × Handler) (Recv × Environment) Effect where
  running := fun s => s.2.active
  react := fun s e =>
    let turn := advance s.1 e.1 e.2 s.2
    ((turn.shared, turn.handler), turn.effects)

/-- The handler at its first receive call. -/
def started (turn : Turn) : Shared × Handler := (turn.shared, turn.handler)

def fromClient (client : Addr) : Recv × Environment → Bool
  | (.timeout, _) => true
  | (.datagram src _, _) => decide (src = client)

def blockCounter : Handler → Option UInt16
  | .reading _ _ loop => some loop.blockNumber
  | .writing _ _ _ loop => some loop.expectedBlockNumber
  | .listing _ loop => some loop.blockNumber
  | _ => none

/-- A handler takes the datagram for one of its client's: a sender whatever it is, an upload
if it reads as the expected block. -/
def Mistakes : Handler → List UInt8 → Prop
  | .writing _ _ _ loop, d => opcodeAt (loop.recievedBuffer.fill d) = 3 ∧
      recvBlockNumberAt (loop.recievedBuffer.fill d) = loop.expectedBlockNumber
  | _, _ => True

/-- While the handler is active, no foreign datagram is mistaken for one of the client's, and
every datagram of the client covers the first `overwritten` bytes of the header, those that
foreign datagrams have written since the one before. -/
def Undisturbed (client : Addr) :
    Nat → Shared × Handler → List (Recv × Environment) → Prop
  | _, _, [] => True
  | overwritten, s, (.timeout, env) :: es => s.2.active = true →
      Undisturbed client overwritten (reactor.react s (.timeout, env)).1 es
  | overwritten, s, (.datagram src d, env) :: es => s.2.active = true →
      if src = client then
        overwritten ≤ d.length ∧
          Undisturbed client 0 (reactor.react s (.datagram src d, env)).1 es
      else
        ¬ Mistakes s.2 d ∧ Undisturbed client (max overwritten (min 4 d.length))
          (reactor.react s (.datagram src d, env)).1 es

/-- The header bytes from `n` on are the same. -/
def SameHeader (n : Nat) (b b' : RecvBuffer) : Prop :=
  ∀ i : Fin 516, n ≤ i.val → i.val < 4 → b.get i = b'.get i

theorem SameHeader.reads {b b' : RecvBuffer} (same : SameHeader 0 b b') :
    opcodeAt b = opcodeAt b' ∧ recvBlockNumberAt b = recvBlockNumberAt b' := by
  rw [opcodeAt, opcodeAt, recvBlockNumberAt, recvBlockNumberAt, same 0 (by decide) (by decide),
    same 1 (by decide) (by decide), same 2 (by decide) (by decide),
    same 3 (by decide) (by decide)]
  exact ⟨rfl, rfl⟩

/-- A datagram that covers the rest makes the headers the same. -/
theorem SameHeader.fill {n : Nat} {b b' : RecvBuffer} (same : SameHeader n b b')
    {d : List UInt8} (covers : n ≤ d.length) : SameHeader 0 (b.fill d) (b'.fill d) := by
  intro i _ four
  by_cases inside : i.val < d.length
  · rw [b.fill_get_lt d i inside, b'.fill_get_lt d i inside]
  · have behind : d.length ≤ i.val := Nat.le_of_not_lt inside
    rw [b.fill_get_ge d i behind, b'.fill_get_ge d i behind]
    exact same i (Nat.le_trans covers behind) four

theorem SameHeader.foreign {n : Nat} {b b' : RecvBuffer} (same : SameHeader n b b')
    (d : List UInt8) : SameHeader (max n (min 4 d.length)) (b.fill d) b' := by
  intro i behind four
  rw [b.fill_get_ge d i (by omega)]
  exact same i (by omega) four

/-- Buffers with the same header, and whatever retry counters, take the same turn. -/
theorem writeStep_sameHeader (client : Addr) (s : WriteLoop) (src : Addr) {d : List UInt8}
    (io : LocalIO) {b : RecvBuffer} (r : Nat)
    (same : SameHeader 0 (s.recievedBuffer.fill d) (b.fill d)) :
    writeStep client { s with recievedBuffer := b, retry := r } (.datagram src d) io =
      ({ (writeStep client s (.datagram src d) io).1 with recievedBuffer := b.fill d },
        (writeStep client s (.datagram src d) io).2) := by
  obtain ⟨op, num⟩ := same.reads
  have cap : ¬ received 516 d > 516 := Nat.not_lt.mpr (received_le 516 d)
  simp only [writeStep, cap, if_false, op, num]
  by_cases negative : (received 516 d : Int) - 4 < 0
  · simp only [negative, if_true]
    split_ifs <;> rfl
  · have size : ((received 516 d : Int) - 4).toNat = received 516 d - 4 := by omega
    have h4 : 4 ≤ d.length := by
      have := Nat.min_le_right 516 d.length
      rw [received] at negative
      omega
    simp only [negative, if_false, size, recvDataAt_received _ h4]
    split_ifs <;> rfl

theorem writeStep_buffer (client : Addr) (s : WriteLoop) (src : Addr) (d : List UInt8)
    (io : LocalIO) : (writeStep client s (.datagram src d) io).1.recievedBuffer =
      s.recievedBuffer.fill d := by
  have cap : ¬ received 516 d > 516 := Nat.not_lt.mpr (received_le 516 d)
  simp only [writeStep, cap, if_false]
  split_ifs <;> rfl

theorem writeStep_retry (client : Addr) (s : WriteLoop) (src : Addr) (d : List UInt8)
    (io : LocalIO) : (writeStep client s (.datagram src d) io).1.retry = maxRetry := by
  have cap : ¬ received 516 d > 516 := Nat.not_lt.mpr (received_le 516 d)
  simp only [writeStep, cap, if_false]
  split_ifs <;> rfl

/-- Two handlers with `left` timeouts to come: uploads may differ in the first `n` bytes of
the header and in their retry counters, all others are the same. -/
inductive Alike (client : Addr) (n left : Nat) : Handler → Handler → Prop
  | same (h : Handler) (other : ∀ f c i l, h ≠ .writing f c i l) : Alike client n left h h
  | writing (filename : FileSystem.Name) (inode : Nat) (loop : WriteLoop) (b : RecvBuffer) (r : Nat)
      (live : loop.status = .receiving) (patient : left < loop.retry) (patient' : left < r)
      (header : SameHeader n loop.recievedBuffer b) :
      Alike client n left (.writing filename client inode loop)
        (.writing filename client inode { loop with recievedBuffer := b, retry := r })

theorem Alike.blockCounter {client : Addr} {n left : Nat} {h h' : Handler}
    (alike : Alike client n left h h') : blockCounter h = blockCounter h' := by
  cases alike with
  | same => rfl
  | writing => rfl

theorem Alike.active {client : Addr} {n left : Nat} {h h' : Handler}
    (alike : Alike client n left h h') : h.active = h'.active := by
  cases alike with
  | same => rfl
  | writing => rfl

structure Related (client : Addr) (es : List (Recv × Environment)) (s t : Shared × Handler) :
    Prop where
  shared : t.1 = s.1
  few : timeouts es < maxRetry
  handlers : ∃ n, Alike client n (timeouts es) s.2 t.2 ∧ Undisturbed client n s es

/-- Of a refused datagram nothing is stored, and nothing of the refusal shows. -/
theorem writeTurn_refuse (shared : Shared) (filename : FileSystem.Name) (client : Addr)
    (inode : Nat) {loop : WriteLoop} (receiving : loop.status = .receiving) (src : Addr)
    {d : List UInt8} (env : Environment)
    (unread : opcodeAt (loop.recievedBuffer.fill d) ≠ 3 ∨
      recvBlockNumberAt (loop.recievedBuffer.fill d) ≠ loop.expectedBlockNumber) :
    ∃ effects, writeTurn shared filename client inode loop (.datagram src d) env =
        { handler := .writing filename client inode
            { loop with recievedBuffer := loop.recievedBuffer.fill d, retry := maxRetry }
          shared := shared
          accesses := []
          effects := effects } ∧ effects.filter shows = [] := by
  obtain ⟨used, code, msg, refused, read⟩ := writeStep_refuse client loop src d env.io unread
  have quiet : ∀ x ∈ used ++ [sendError client code msg],
      shows x = false ∧ ∀ b, x ≠ .write b := by
    intro x mem
    rcases List.mem_append.mp mem with mem | mem
    · obtain ⟨i, rfl⟩ := mem_examine (read x mem)
      exact ⟨rfl, fun b => Effect.noConfusion⟩
    · rw [List.mem_singleton.mp mem]
      exact ⟨shows_sendError _ _ _, fun b => Effect.noConfusion⟩
  have stored : writes (used ++ [sendError client code msg]) = [] := by
    rw [writes, List.filterMap_eq_nil_iff]
    intro x mem
    cases x with
    | write b => exact absurd rfl ((quiet _ mem).2 b)
    | examine i => rfl
    | payload len => rfl
    | send dst p => rfl
  refine ⟨used ++ [sendError client code msg], ?_, ?_⟩
  · simp [writeTurn, refused, stored, receiving]
  · rw [List.filter_eq_nil_iff]
    intro x mem
    rw [(quiet x mem).1]
    exact Bool.false_ne_true

/-- Two upload turns that store and send the same. -/
theorem writeTurn_alike {client : Addr} {n left : Nat} (shared : Shared)
    (filename : FileSystem.Name) (inode : Nat) {loop loop' : WriteLoop} {e : Recv}
    {env : Environment} {b : RecvBuffer} {r : Nat}
    (turn : writeStep client loop' e env.io =
      ({ (writeStep client loop e env.io).1 with recievedBuffer := b, retry := r },
        (writeStep client loop e env.io).2))
    (content : loop'.content = loop.content)
    (patient : left < (writeStep client loop e env.io).1.retry) (patient' : left < r)
    (header : SameHeader n (writeStep client loop e env.io).1.recievedBuffer b) :
    (writeTurn shared filename client inode loop' e env).shared =
        (writeTurn shared filename client inode loop e env).shared ∧
      (writeTurn shared filename client inode loop' e env).effects =
        (writeTurn shared filename client inode loop e env).effects ∧
      Alike client n left (writeTurn shared filename client inode loop e env).handler
        (writeTurn shared filename client inode loop' e env).handler := by
  simp only [writeTurn, turn, content]
  refine ⟨trivial, trivial, ?_⟩
  cases status : (writeStep client loop e env.io).1.status with
  | receiving =>
    have both : Alike client n left _ _ :=
      .writing filename inode (writeStep client loop e env.io).1 b r status patient patient' header
    rw [status] at both
    exact both
  | undefined => exact .same _ (by rintro f c i l ⟨⟩)
  | received => exact .same _ (by rintro f c i l ⟨⟩)
  | diskFull => exact .same _ (by rintro f c i l ⟨⟩)
  | exhausted => exact .same _ (by rintro f c i l ⟨⟩)

/-- A handler that is no upload does not become one. -/
theorem advance_other {h : Handler} (other : ∀ f c i l, h ≠ .writing f c i l) (shared : Shared)
    (e : Recv) (env : Environment) : ∀ f c i l, (advance shared e env h).handler ≠
      .writing f c i l := by
  intro f c i l
  cases h with
  | writing f' c' i' l' => exact absurd rfl (other f' c' i' l')
  | reading filename client loop =>
    simp only [advance, readTurn, afterRead]
    split_ifs <;> exact Handler.noConfusion
  | listing client loop =>
    simp only [advance, listTurn, afterList]
    split_ifs <;> exact Handler.noConfusion
  | done => exact Handler.noConfusion
  | undefined => exact Handler.noConfusion

section Steps

variable {client : Addr} {e : Recv × Environment} {es : List (Recv × Environment)}
  {s t : Shared × Handler}

/-- A foreign datagram that is not mistaken changes the buffer and the retry counter only. -/
theorem related_skips (other : fromClient client e = false) (live : s.2.active = true)
    (related : Related client (e :: es) s t) :
    Related client es (reactor.react s e).1 t ∧ (reactor.react s e).2.filter shows = [] := by
  obtain ⟨e, env⟩ := e
  cases e with
  | timeout => cases other
  | datagram src d =>
    obtain ⟨shared, h⟩ := s
    obtain ⟨shared', h'⟩ := t
    obtain ⟨same, few, n, alike, undisturbed⟩ := related
    obtain rfl : shared = shared' := same.symm
    have foreign : src ≠ client := of_decide_eq_false other
    have harmless := undisturbed live
    rw [if_neg foreign] at harmless
    obtain ⟨kept, undisturbed'⟩ := harmless
    have left : timeouts ((Recv.datagram src d, env) :: es) = timeouts es :=
      timeouts_datagram src d env es
    rw [left] at few alike
    cases alike with
    | same h other =>
      cases h with
      | writing f c i l => exact absurd rfl (other f c i l)
      | reading => exact absurd trivial kept
      | listing => exact absurd trivial kept
      | done => cases live
      | undefined => cases live
    | writing filename inode loop b r receiving patient patient' header =>
      have unread : opcodeAt (loop.recievedBuffer.fill d) ≠ 3 ∨
          recvBlockNumberAt (loop.recievedBuffer.fill d) ≠ loop.expectedBlockNumber :=
        not_and_or.mp kept
      obtain ⟨effects, turn, silent⟩ :=
        writeTurn_refuse shared filename client inode receiving src env unread
      simp only [reactor, advance, turn] at undisturbed' ⊢
      refine ⟨⟨rfl, few, _, ?_, undisturbed'⟩, silent⟩
      exact .writing filename inode
        { loop with recievedBuffer := loop.recievedBuffer.fill d, retry := maxRetry } b r receiving
        few patient' (header.foreign d)

theorem related_keeps (kept : fromClient client e = true) (live : s.2.active = true)
    (related : Related client (e :: es) s t) :
    Related client es (reactor.react s e).1 (reactor.react t e).1 ∧
      (reactor.react s e).2 = (reactor.react t e).2 := by
  obtain ⟨e, env⟩ := e
  obtain ⟨shared, h⟩ := s
  obtain ⟨shared', h'⟩ := t
  obtain ⟨same, few, n, alike, undisturbed⟩ := related
  obtain rfl : shared = shared' := same.symm
  have fewer : timeouts es < maxRetry := Nat.lt_of_le_of_lt (by
    rw [timeouts, timeouts, List.countP_cons]
    omega) few
  cases alike with
  | same h other =>
    have unchanged := advance_other other shared e env
    cases e with
    | timeout => exact ⟨⟨rfl, fewer, n, .same _ unchanged, undisturbed live⟩, rfl⟩
    | datagram src d =>
      have own : src = client := of_decide_eq_true kept
      have next := undisturbed live
      rw [if_pos own] at next
      exact ⟨⟨rfl, fewer, 0, .same _ unchanged, next.2⟩, rfl⟩
  | writing filename inode loop b r receiving patient patient' header =>
    cases e with
    | timeout =>
      rw [timeouts_timeout] at patient patient'
      have turn : writeStep client { loop with recievedBuffer := b, retry := r } .timeout env.io =
          ({ (writeStep client loop .timeout env.io).1 with recievedBuffer := b, retry := r - 1 },
            (writeStep client loop .timeout env.io).2) := by
        simp only [writeStep, if_neg (show ¬ r - 1 = 0 by omega),
          if_neg (show ¬ loop.retry - 1 = 0 by omega)]
      have left : timeouts es < (writeStep client loop .timeout env.io).1.retry := by
        change timeouts es < loop.retry - 1
        omega
      have left' : timeouts es < r - 1 := by omega
      obtain ⟨stored, sent, alike⟩ :=
        writeTurn_alike shared filename inode turn rfl left left' header
      exact ⟨⟨stored, fewer, n, alike, undisturbed live⟩, sent.symm⟩
    | datagram src d =>
      have own : src = client := of_decide_eq_true kept
      have next := undisturbed live
      rw [if_pos own] at next
      have covered := header.fill next.1
      have retry := writeStep_retry client loop src d env.io
      have buffer := writeStep_buffer client loop src d env.io
      have turn := writeStep_sameHeader client loop src env.io r covered
      have left : timeouts es < (writeStep client loop (.datagram src d) env.io).1.retry := by
        rw [retry]
        exact fewer
      have turn' : writeStep client { loop with recievedBuffer := b, retry := r }
          (.datagram src d) env.io =
          ({ (writeStep client loop (.datagram src d) env.io).1 with
              recievedBuffer := b.fill d
              retry := maxRetry }, (writeStep client loop (.datagram src d) env.io).2) := by
        rw [turn, ← retry]
      rw [← buffer] at covered
      obtain ⟨stored, sent, alike⟩ :=
        writeTurn_alike shared filename inode turn' rfl left fewer covered
      exact ⟨⟨stored, fewer, 0, alike, next.2⟩, sent.symm⟩

end Steps

theorem begin_alike (shared : Shared) (client : Addr) (ackBuffer : Buffer 4) (env : Environment)
    (request : Request) {left : Nat} (few : left < maxRetry) :
    Alike client 0 left (begin shared client ackBuffer env request).handler
      (begin shared client ackBuffer env request).handler := by
  cases request with
  | read filename =>
    apply Alike.same
    intro f c i l
    simp only [begin, handleReadRequest, afterRead]
    split_ifs <;> exact Handler.noConfusion
  | write filename =>
    simp only [begin, handleWriteRequest]
    split
    · exact .same _ (by rintro f c i l ⟨⟩)
    · split
      · exact .same _ (by rintro f c i l ⟨⟩)
      · exact .writing filename _ .start (Buffer.zero 516) maxRetry rfl few few
          (fun _ _ _ => rfl)
  | delete filename =>
    apply Alike.same
    intro f c i l
    simp only [begin, handleDeleteRequest, refuse]
    split_ifs <;> exact Handler.noConfusion
  | list =>
    apply Alike.same
    intro f c i l
    simp only [begin, handleLSRequest, afterList]
    split
    · exact Handler.noConfusion
    · split_ifs <;> exact Handler.noConfusion

/-- Without a disturbance the foreign datagrams can be left out. -/
theorem undisturbed_own {client : Addr} {turn : Turn} {es : List (Recv × Environment)}
    (alike : Alike client 0 (timeouts es) turn.handler turn.handler)
    (few : timeouts es < maxRetry) (undisturbed : Undisturbed client 0 (started turn) es) :
    let full := reactor.feed (started turn) es
    let part := reactor.feed (started turn) (es.filter (fromClient client))
    full.1.1 = part.1.1 ∧ blockCounter full.1.2 = blockCounter part.1.2 ∧
      full.2.filter shows = part.2.filter shows := by
  obtain ⟨⟨rest, final⟩, shown⟩ := reactor.feed_filter (fromClient client) shows (Related client)
    (by
      rintro es s t ⟨_, _, n, alike, _⟩
      exact alike.active)
    (fun e es s t other live related => related_skips other live related)
    (fun e es s t kept live related => by
      obtain ⟨related', outputs⟩ := related_keeps kept live related
      exact ⟨related', congrArg (List.filter shows) outputs⟩)
    (⟨rfl, few, 0, alike, undisturbed⟩ : Related client es (started turn) (started turn))
  obtain ⟨n, alike', _⟩ := final.handlers
  exact ⟨final.shared.symm, alike'.blockCounter, shown⟩

/-- Two runs of a handler that agree on what comes from its client store, count, register
and send the same, as long as no foreign datagram disturbs either of them. -/
theorem handlers_heed_own_client {shared : Shared} {client : Addr} {ackBuffer : Buffer 4}
    {env : Environment} {request : Request} {es es' : List (Recv × Environment)}
    (few : timeouts es < maxRetry) (few' : timeouts es' < maxRetry)
    (agree : es.filter (fromClient client) = es'.filter (fromClient client))
    (undisturbed : Undisturbed client 0 (started (begin shared client ackBuffer env request)) es)
    (undisturbed' :
      Undisturbed client 0 (started (begin shared client ackBuffer env request)) es') :
    let run := reactor.feed (started (begin shared client ackBuffer env request)) es
    let run' := reactor.feed (started (begin shared client ackBuffer env request)) es'
    run.1.1 = run'.1.1 ∧ blockCounter run.1.2 = blockCounter run'.1.2 ∧
      run.2.filter shows = run'.2.filter shows := by
  obtain ⟨stored, counter, shown⟩ := undisturbed_own (begin_alike shared client ackBuffer env
    request few) few undisturbed
  obtain ⟨stored', counter', shown'⟩ := undisturbed_own (begin_alike shared client ackBuffer env
    request few') few' undisturbed'
  rw [agree] at stored counter shown
  exact ⟨stored.trans stored'.symm, counter.trans counter'.symm, shown.trans shown'.symm⟩

def requester : Addr := ⟨0x7F000001, 9799⟩

def stranger : Addr := ⟨0x0A000001, 9799⟩

/-- An upload into an empty database. -/
def upload : Turn := begin .empty requester (Buffer.zero 4) .ok (.write [102])

theorem handlers_heed_own_client_upload :
    let run := reactor.feed (started upload)
      [(.datagram stranger [0, 4, 0, 1], .ok), (.datagram requester [0, 3, 0, 1, 7], .ok)]
    let run' := reactor.feed (started upload) [(.datagram requester [0, 3, 0, 1, 7], .ok)]
    run.1.1 = run'.1.1 ∧ blockCounter run.1.2 = blockCounter run'.1.2 ∧
      run.2.filter shows = run'.2.filter shows := by
  refine handlers_heed_own_client (by decide) (by decide) (by decide) ?_ ?_
  · intro _
    rw [if_neg (by decide)]
    refine ⟨fun mistaken => absurd mistaken.1 (by decide), fun _ => ?_⟩
    rw [if_pos rfl]
    exact ⟨by decide, trivial⟩
  · intro _
    rw [if_pos rfl]
    exact ⟨by decide, trivial⟩

/-- A foreign DATA packet with the expected number is stored and acknowledged. -/
theorem foreign_block_stored : ¬ ∀ (shared : Shared) (client : Addr) (ackBuffer : Buffer 4)
    (env : Environment) (request : Request) (es es' : List (Recv × Environment)),
    timeouts es < maxRetry → timeouts es' < maxRetry →
    es.filter (fromClient client) = es'.filter (fromClient client) →
    let run := reactor.feed (started (begin shared client ackBuffer env request)) es
    let run' := reactor.feed (started (begin shared client ackBuffer env request)) es'
    run.1.1 = run'.1.1 ∧ blockCounter run.1.2 = blockCounter run'.1.2 ∧
      run.2.filter shows = run'.2.filter shows := by
  intro right
  obtain ⟨_, _, shown⟩ := right .empty requester (Buffer.zero 4) .ok (.write [102])
    [(.datagram stranger [0, 3, 0, 1, 9], .ok)] [] (by decide) (by decide) (by decide)
  exact absurd shown (by decide)

end TFTP.OwnClient
