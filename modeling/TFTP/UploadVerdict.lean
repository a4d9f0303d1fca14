import TFTP.CounterLimit
import TFTP.DeflateFiles

/-!
# What the client reports about an upload

`handleWRQRequest` compresses the file, asks for the upload and then reads the compressed
file by its name. Whether the compression came to anything it does not ask, so what it
sends may be left over from an earlier run.
-/

namespace TFTP.UploadVerdict

open Octets Packet Sockets Client ShortBlocks Requests DecodedSuffix ClientFiles DeflateFiles
open FileSystem (Name)

/-- `returned` is `none` as long as replies are waited for, and behind a reply for which
nothing is promised. -/
structure Call where
  returned : Option Bool
  effects : List Effect

def returned : WriteStatus → Option Bool
  | .sending => none
  | .succeeded => some true
  | .failed => some false
  | .exhausted => some false
  | .undefined => none

/-- `none` where the compression has no defined result. `sendFails` is about the request. -/
def handleWRQRequest (files : Files) (clientAddress serverAddress : Addr) (prevFilename : Name)
    (sendFails : Bool) (replies : List (Recv × LocalIO)) : Option Call :=
  if prevFilename = [] then some ⟨some false, []⟩
  else do
    let files ← deflate files prevFilename
    let filename := compressedName prevFilename
    if sendFails then return ⟨some false, []⟩
    let request := Effect.send serverAddress (requestDatagram (.write filename))
    match files.openRead (files.resolve filename) with
    | none =>
      return ⟨some false, [request,
        sendError clientAddress errorDiskFull "Disk full or allocation exceeded."]⟩
    | some file =>
      let (loop, effects) := (writeReactor (some file)).feed (.start serverAddress) replies
      return ⟨returned loop.status, request :: effects⟩

theorem payloads_nil_of_complaints {out : List Effect}
    (complains : ∀ dst p, .send dst p ∈ out → Complaint p) : payloads out = [] := by
  rw [payloads, List.filterMap_eq_nil_iff]
  intro effect mem
  cases effect with
  | send dst p =>
    have other : opcodeOf p ≠ 3 := by
      rw [(complaint_reads (complains dst p mem)).2]
      decide
    simp [other]
  | _ => rfl

theorem advances_payloads {file : List UInt8} {s : WriteLoop} {src : Addr} {d : List UInt8}
    {io : LocalIO} (live : s.status = .sending)
    (advances : s.Advances file (writeStep (some file) s (.datagram src d) io).1 src d
      (writeStep (some file) s (.datagram src d) io).2) :
    payloads (writeStep (some file) s (.datagram src d) io).2 =
      [block file (s.expectedBlockNumber + 1).toNat] := by
  have status := advances.status
  obtain ⟨a, turn⟩ :=
    writeStep_ack (some file) io advances.verified advances.opcode advances.number
  rw [turn] at status ⊢
  rw [payloads_consult]
  rcases writeNext_cases file src ⟨s.expectedBlockNumber, maxRetry, false, a, s.status⟩ io
    with ⟨failed, _⟩ | ⟨n, rfl, _, _, next⟩
  · rw [failed, live] at status
    split_ifs at status
  · rw [next, payloads_data]

/-- The blocks sent so far, while the loop runs and when it reports success. -/
def Sent (file : List UInt8) (s : WriteLoop) (out : List Effect) : Prop :=
  (s.status = .sending → s.expectedBlockNumber.toNat * 512 ≤ file.length ∧
    payloads out = Blocks.first 512 file s.expectedBlockNumber.toNat) ∧
  (s.status = .succeeded → payloads out = Blocks.whole 512 file ∧ file.length % 512 ≠ 0 ∧
    file.length < 65535 * 512)

theorem writeStep_sent {file : List UInt8} {s : WriteLoop} {out : List Effect} (e : Recv)
    (io : LocalIO) (live : s.status = .sending) (sent : Sent file s out) :
    Sent file (writeStep (some file) s e io).1 (out ++ (writeStep (some file) s e io).2) := by
  obtain ⟨reach, blocks⟩ := sent.1 live
  rcases writeStep_cases file s e io with quiet | ⟨src, d, rfl, advances⟩
  · refine ⟨fun sending => ?_, fun succeeded => ?_⟩
    · have same : (writeStep (some file) s e io).1.expectedBlockNumber = s.expectedBlockNumber := by
        rcases quiet.counter with failed | same
        · rw [failed] at sending
          cases sending
        · exact same
      rw [same, payloads_append, payloads_nil_of_complaints quiet.sends, List.append_nil]
      exact ⟨reach, blocks⟩
    · have before := quiet.succeeded succeeded
      rw [live] at before
      cases before
  · have pos := advances.pos
    rw [advances.expected] at pos
    have limit : s.expectedBlockNumber.toNat < 65535 := by
      have lt := s.expectedBlockNumber.toNat_lt
      by_contra last
      have value : s.expectedBlockNumber = 65535 := UInt16.toNat_inj.mp (by
        change s.expectedBlockNumber.toNat = 65535
        omega)
      rw [value] at pos
      exact pos rfl
    have number := succ_toNat limit
    have nonempty := advances.nonempty
    have status := advances.status
    rw [advances.expected, number] at nonempty status
    have left := (block_nonempty_iff file _).mp nonempty
    rw [Nat.add_sub_cancel] at left
    have brief := block_short_iff file (b := s.expectedBlockNumber.toNat + 1) (by omega)
    have next : payloads (out ++ (writeStep (some file) s (.datagram src d) io).2) =
        Blocks.first 512 file (s.expectedBlockNumber.toNat + 1) := by
      rw [payloads_append, blocks, advances_payloads live advances, number]
      exact (Blocks.first_succ 512 file _).symm
    rw [Sent, next, status, advances.expected, number]
    by_cases short : (block file (s.expectedBlockNumber.toNat + 1)).length < 512
    · have last := brief.mp short
      rw [if_pos short]
      constructor
      · intro sending
        cases sending
      · intro _
        exact ⟨first_eq_whole_of_short left short, by omega,
          Nat.lt_of_lt_of_le last (Nat.mul_le_mul_right 512 limit)⟩
    · have full := brief.not.mp short
      rw [if_neg short, live]
      constructor
      · intro _
        exact ⟨Nat.le_of_not_lt full, rfl⟩
      · intro succeeded
        cases succeeded

/-- A run that reports success has sent the whole file. -/
theorem succeeded_sent {file : List UInt8} {listening : Addr} {replies : List (Recv × LocalIO)}
    (succeeded : ((writeReactor (some file)).feed (.start listening) replies).1.status =
      .succeeded) :
    payloads ((writeReactor (some file)).feed (.start listening) replies).2 =
      Blocks.whole 512 file ∧ file.length % 512 ≠ 0 ∧ file.length < 65535 * 512 := by
  have start : Sent file (.start listening) [] :=
    ⟨fun _ => ⟨by simp [WriteLoop.start], rfl⟩, fun same => by cases same⟩
  have sent := (writeReactor (some file)).feed_history
    (fun s out e live sent => writeStep_sent e.1 e.2 (of_decide_eq_true live) sent) start replies
  exact sent.2 succeeded

/-- The right acknowledgement of a block brings out the next one, which may be the last. -/
theorem ack_sends {file : List UInt8} (bound : file.length < 65535 * 512) {s : WriteLoop}
    (left : s.expectedBlockNumber.toNat * 512 < file.length) :
    (writeStep (some file) s (nextAck s) .ok).1.expectedBlockNumber.toNat =
      s.expectedBlockNumber.toNat + 1 ∧
    (writeStep (some file) s (nextAck s) .ok).1.status =
      if file.length < (s.expectedBlockNumber.toNat + 1) * 512 then .succeeded else s.status := by
  obtain ⟨verified, op, num⟩ := nextAck_accepted s
  obtain ⟨a, turn⟩ := writeStep_ack (some file) .ok verified op num
  obtain ⟨number, next⟩ := writeNext_block s.serverAddress
    (s := ⟨s.expectedBlockNumber, maxRetry, false, a, s.status⟩)
    (show s.expectedBlockNumber.toNat < 65535 by omega) left
  simp only at number next
  rw [nextAck, turn, next]
  refine ⟨number, ?_⟩
  simp only [block_short_iff file (Nat.le_add_left 1 s.expectedBlockNumber.toNat)]

/-- So many acknowledgements before the last one. -/
theorem acks_succeed {file : List UInt8} (odd : file.length % 512 ≠ 0)
    (bound : file.length < 65535 * 512) {k : Nat} {s : WriteLoop} (live : s.status = .sending)
    (number : s.expectedBlockNumber.toNat + k = file.length / 512) :
    ∃ replies, ((writeReactor (some file)).feed s replies).1.status = .succeeded := by
  have parts := Nat.div_add_mod file.length 512
  have running : (writeReactor (some file)).running s = true := decide_eq_true live
  obtain ⟨next, status⟩ := ack_sends (s := s) bound (by omega)
  induction k generalizing s with
  | zero =>
    have last : file.length < (s.expectedBlockNumber.toNat + 1) * 512 := by
      clear bound
      omega
    refine ⟨[(nextAck s, .ok)], ?_⟩
    rw [(writeReactor (some file)).feed_cons running]
    exact status.trans (if_pos last)
  | succ k ih =>
    have full : ¬ file.length < (s.expectedBlockNumber.toNat + 1) * 512 := by omega
    rw [if_neg full, live] at status
    obtain ⟨further, status'⟩ := ack_sends
      (s := (writeStep (some file) s (nextAck s) .ok).1) bound (by omega)
    obtain ⟨replies, succeeded⟩ := ih status (by omega) (decide_eq_true status) further status'
    refine ⟨(nextAck s, .ok) :: replies, ?_⟩
    rw [(writeReactor (some file)).feed_cons running]
    exact succeeded

theorem some_succeeds (listening : Addr) {file : List UInt8} (odd : file.length % 512 ≠ 0)
    (bound : file.length < 65535 * 512) :
    ∃ replies, ((writeReactor (some file)).feed (.start listening) replies).1.status =
      .succeeded :=
  acks_succeed odd bound (k := file.length / 512) rfl (Nat.zero_add _)

theorem writeDatagram_opcode (filename : Name) :
    opcodeOf (requestDatagram (.write filename)) = opcodeWRQ := by
  have packet :=
    createRequestPacket_eq [0, 2] ((requestArray filename).drop 2) filename octet rfl
  have built : requestDatagram (.write filename) =
      createRequestPacket ([0, 2] ++ (requestArray filename).drop 2) filename octet := rfl
  rw [built, packet]
  change bigEndian 0 2 = opcodeWRQ
  decide

theorem payloads_request (dst : Addr) (filename : Name) (effects : List Effect) :
    payloads (.send dst (requestDatagram (.write filename)) :: effects) = payloads effects := by
  have other : opcodeOf (requestDatagram (.write filename)) ≠ 3 := by
    rw [writeDatagram_opcode]
    decide
  simp [payloads, other]

section Verdict

variable (files : Files) (filename : Name)

/-- Whatever the server replies, success is reported only for the compressed form of the
file as it is, and an upload is asked for only if the file can be read. -/
def Honest : Prop := ∀ clientAddress serverAddress sendFails replies, ∃ call,
  handleWRQRequest files clientAddress serverAddress filename sendFails replies = some call ∧
    (call.returned = some true → ∃ file packed,
      files.openRead (inputPlace files filename) = some file ∧
        Compression.deflate file = some packed ∧ (payloads call.effects).flatten = packed) ∧
    (files.openRead (inputPlace files filename) = none →
      call.returned = some false ∧
        ∀ dst p, .send dst p ∈ call.effects → opcodeOf p ≠ opcodeWRQ)

/-- What is read as the compressed file, where the run of `deflate` has a result. -/
def sentContent (file : List UInt8) : Option (List UInt8) :=
  files.readsAs (compressedPlace files filename)
    (if files.canWrite (bitsPlace files filename) = true then joined files filename file
    else files.bytes (compressedPlace files filename))

/-- Every step of the compression opens its streams, the file is not emptied before its
second reading, and its two parts have places of their own. -/
structure MadeHere : Prop where
  bits : files.canWrite (bitsPlace files filename) = true
  table : files.canWrite (tablePlace files) = true
  joins : Joins files filename
  input : inputPlace files filename ≠ bitsPlace files filename
  parts : bitsPlace files filename ≠ tablePlace files

/-- What stands behind the compressed name comes to the same where a step is left out, or no
run reports success with it. -/
def SaysSame (file : List UInt8) : Prop :=
  ∀ content, sentContent files filename file = some content →
    content = Compression.combineBinaryFiles (tableOf file) (bitsOf file file) ∨
      content.length % 512 = 0 ∨ 65535 * 512 ≤ content.length

/-- The file can be compressed, and what is sent is made from it. -/
def Trusted : Prop := filename = [] ∨ ∃ file,
  files.openRead (inputPlace files filename) = some file ∧
    (∃ a ∈ file, ∃ b ∈ file, a ≠ b) ∧
    (files.canWrite (bitsPlace files filename) = true →
      files.entry (tablePlace files) ≠ some .directory) ∧
    (MadeHere files filename ∨ SaysSame files filename file)

section Calls

variable {files after : Files} {filename : Name} {file : List UInt8}

theorem MadeHere.saysSame (made : MadeHere files filename) (file : List UInt8) :
    SaysSame files filename file := by
  have second : again files filename file = file := if_neg made.input
  have first : behind files filename file (tablePlace files) = some (tableOf file) :=
    if_pos ⟨rfl, made.table⟩
  have own : joined files filename file =
      some (Compression.combineBinaryFiles (tableOf file) (bitsOf file file)) := by
    rw [joined, if_pos made.joins, first, behind_bits made.bits, if_neg made.parts, second]
    rfl
  intro content sent
  rw [sentContent, if_pos made.bits, own, Files.readsAs] at sent
  split_ifs at sent with directory readable
  · exact absurd directory (Files.not_directory made.joins.2.2)
  · exact Or.inl (Option.some.inj sent).symm

theorem Trusted.input (trusted : Trusted files filename) (named : filename ≠ []) : ∃ file,
    files.openRead (inputPlace files filename) = some file ∧
      (∃ a ∈ file, ∃ b ∈ file, a ≠ b) ∧
      (files.canWrite (bitsPlace files filename) = true →
        files.entry (tablePlace files) ≠ some .directory) ∧
      SaysSame files filename file := by
  obtain ⟨file, reads, two, table, made⟩ := trusted.resolve_left named
  exact ⟨file, reads, two, table, made.elim (fun made => made.saysSame file) id⟩

theorem reads_sentContent {codes : HuffmanCodes.CodeMap} (run : fileCodes file = some codes)
    (reads : files.openRead (inputPlace files filename) = some file)
    (ran : deflate files filename = some after) :
    after.openRead (after.resolve (compressedName filename)) = sentContent files filename file := by
  unfold sentContent
  by_cases writable : files.canWrite (bitsPlace files filename) = true
  · have table : files.entry (tablePlace files) ≠ some .directory := by
      intro ends
      rw [deflate_directory writable run reads ends] at ran
      cases ran
    obtain ⟨after', ran', deflated⟩ := deflate_deflated writable run reads table
    obtain rfl := Option.some.inj (ran.symm.trans ran')
    have place : after.resolve (compressedName filename) = compressedPlace files filename :=
      deflated.resolve _
    rw [place, Files.openRead_readsAs, deflated.compressed, if_pos writable]
    simp only [Files.readsAs, deflated.directory, deflated.readable]
  · rw [deflate_unwritable run reads writable] at ran
    obtain rfl := Option.some.inj ran
    rw [if_neg writable]
    exact Files.openRead_readsAs _ _

/-- The call behind a compression that has a result. -/
theorem handle_eq (named : filename ≠ []) (ran : deflate files filename = some after)
    (clientAddress serverAddress : Addr) (sendFails : Bool) (replies : List (Recv × LocalIO)) :
    handleWRQRequest files clientAddress serverAddress filename sendFails replies =
      some (if sendFails then ⟨some false, []⟩
        else match after.openRead (after.resolve (compressedName filename)) with
          | none => ⟨some false,
              [.send serverAddress (requestDatagram (.write (compressedName filename))),
                sendError clientAddress errorDiskFull "Disk full or allocation exceeded."]⟩
          | some content => ⟨returned
              ((writeReactor (some content)).feed (.start serverAddress) replies).1.status,
              .send serverAddress (requestDatagram (.write (compressedName filename))) ::
                ((writeReactor (some content)).feed (.start serverAddress) replies).2⟩) := by
  simp only [handleWRQRequest, if_neg named, ran, bind, Option.bind_some]
  cases sendFails with
  | true => rfl
  | false =>
    cases after.openRead (after.resolve (compressedName filename)) <;> rfl

/-- What a call that reports success has sent is what stands behind the compressed name. -/
theorem success_sends (named : filename ≠ []) (ran : deflate files filename = some after)
    {clientAddress serverAddress : Addr} {sendFails : Bool} {replies : List (Recv × LocalIO)}
    {call : Call} (called : handleWRQRequest files clientAddress serverAddress filename sendFails
      replies = some call) (success : call.returned = some true) :
    ∃ content, after.openRead (after.resolve (compressedName filename)) = some content ∧
      (payloads call.effects).flatten = content ∧ content.length % 512 ≠ 0 ∧
      content.length < 65535 * 512 := by
  rw [handle_eq named ran] at called
  obtain rfl := Option.some.inj called
  cases sendFails with
  | true => cases success
  | false =>
    cases sent : after.openRead (after.resolve (compressedName filename)) with
    | none =>
      rw [sent] at success
      cases success
    | some content =>
      rw [sent] at success
      have succeeded : ((writeReactor (some content)).feed (.start serverAddress)
          replies).1.status = .succeeded := by
        change returned _ = some true at success
        unfold returned at success
        split at success <;> first | assumption | cases success
      obtain ⟨blocks, odd, bound⟩ := succeeded_sent succeeded
      refine ⟨content, rfl, ?_, odd, bound⟩
      simp only [Bool.false_eq_true, if_false, payloads_request, blocks]
      exact Blocks.whole_flatten (by decide) content

/-- Some replies make a call succeed with a content that no multiple of 512 ends. -/
theorem some_success (named : filename ≠ []) (ran : deflate files filename = some after)
    {content : List UInt8}
    (reads : after.openRead (after.resolve (compressedName filename)) = some content)
    (odd : content.length % 512 ≠ 0) (bound : content.length < 65535 * 512)
    (clientAddress serverAddress : Addr) : ∃ replies call,
      handleWRQRequest files clientAddress serverAddress filename false replies = some call ∧
        call.returned = some true := by
  obtain ⟨replies, succeeded⟩ := some_succeeds serverAddress odd bound
  refine ⟨replies, _, handle_eq named ran clientAddress serverAddress false replies, ?_⟩
  rw [reads]
  exact congrArg returned succeeded

/-- A request that can be sent goes out. -/
theorem request_sent (named : filename ≠ []) (ran : deflate files filename = some after)
    {clientAddress serverAddress : Addr} {replies : List (Recv × LocalIO)} {call : Call}
    (called : handleWRQRequest files clientAddress serverAddress filename false replies =
      some call) :
    .send serverAddress (requestDatagram (.write (compressedName filename))) ∈ call.effects := by
  rw [handle_eq named ran] at called
  obtain rfl := Option.some.inj called
  cases after.openRead (after.resolve (compressedName filename)) <;> exact List.mem_cons_self

theorem empty_honest (files : Files) : Honest files [] := by
  intro clientAddress serverAddress sendFails replies
  refine ⟨⟨some false, []⟩, if_pos rfl, ?_, ?_⟩
  · intro success
    cases success
  · exact fun _ => ⟨rfl, fun dst p mem => absurd mem List.not_mem_nil⟩

theorem honest_of_trusted (trusted : Trusted files filename) : Honest files filename := by
  by_cases named : filename = []
  · rw [named]
    exact empty_honest files
  · obtain ⟨file, reads, two, table, contents⟩ := trusted.input named
    obtain ⟨codes, run⟩ := VectorBounds.more_frequencies two
    obtain ⟨after, ran⟩ : ∃ after, deflate files filename = some after := by
      by_cases writable : files.canWrite (bitsPlace files filename) = true
      · obtain ⟨after, ran, _⟩ := deflate_deflated writable run reads (table writable)
        exact ⟨after, ran⟩
      · exact ⟨files, deflate_unwritable run reads writable⟩
    intro clientAddress serverAddress sendFails replies
    have called := handle_eq named ran clientAddress serverAddress sendFails replies
    refine ⟨_, called, ?_, ?_⟩
    · intro success
      obtain ⟨content, sent, whole, odd, bound⟩ := success_sends named ran called success
      rw [reads_sentContent run reads ran] at sent
      refine ⟨file, _, reads, (deflate_parts run).1, whole.trans ?_⟩
      rcases contents content sent with own | even | long
      · exact own
      · exact absurd even odd
      · exact absurd bound (Nat.not_lt.mpr long)
    · intro unread
      rw [reads] at unread
      cases unread

theorem trusted_of_honest (honest : Honest files filename) : Trusted files filename := by
  by_cases named : filename = []
  · exact Or.inl named
  obtain ⟨call, called, _, refuses⟩ := honest ⟨0, 0⟩ ⟨0x7F000001, 69⟩ false []
  cases reads : files.openRead (inputPlace files filename) with
  | none =>
    have sent := request_sent named (deflate_unread reads) called
    exact absurd (writeDatagram_opcode _) ((refuses reads).2 _ _ sent)
  | some file =>
    obtain ⟨after, ran⟩ : ∃ after, deflate files filename = some after := by
      cases ran : deflate files filename with
      | some after => exact ⟨after, rfl⟩
      | none =>
        simp only [handleWRQRequest, if_neg named, ran, bind, Option.bind_none] at called
        cases called
    obtain ⟨codes, run⟩ : ∃ codes, fileCodes file = some codes := by
      cases run : fileCodes file with
      | some codes => exact ⟨codes, rfl⟩
      | none =>
        rw [inputPlace] at reads
        simp only [deflate, reads, run, bind, Option.bind_none] at ran
        cases ran
    refine Or.inr ⟨file, reads, VectorBounds.distinct_of_in_bounds ⟨codes, run⟩, ?_, Or.inr ?_⟩
    · intro writable ends
      rw [deflate_directory writable run reads ends] at ran
      cases ran
    · intro content sent
      by_cases even : content.length % 512 = 0
      · exact Or.inr (Or.inl even)
      by_cases long : 65535 * 512 ≤ content.length
      · exact Or.inr (Or.inr long)
      rw [← reads_sentContent run reads ran] at sent
      obtain ⟨replies, call, called, success⟩ :=
        some_success named ran sent even (Nat.lt_of_not_le long) ⟨0, 0⟩ ⟨0x7F000001, 69⟩
      obtain ⟨call', called', own, _⟩ := honest ⟨0, 0⟩ ⟨0x7F000001, 69⟩ false replies
      obtain rfl := Option.some.inj (called.symm.trans called')
      obtain ⟨file', packed, reads', form, whole⟩ := own success
      obtain rfl := Option.some.inj (reads.symm.trans reads')
      obtain ⟨content', sent', whole', _⟩ := success_sends named ran called success
      obtain rfl := Option.some.inj (sent.symm.trans sent')
      rw [(deflate_parts run).1] at form
      exact Or.inl (whole'.symm.trans (whole.trans (Option.some.inj form).symm))

/-- The client reports on the file it was asked to write, and on nothing else, if and only if
the file can be compressed and what is then sent under its name was made from it. -/
theorem honest_iff (files : Files) (filename : Name) :
    Honest files filename ↔ Trusted files filename := ⟨trusted_of_honest, honest_of_trusted⟩

/-- A directory that holds what an earlier run has left of a file that is gone. -/
def leftover : Files where
  workingDirectory := []
  entry := fun l => if l = [text "acompress.bin"] then some (.file [7] true true) else none
  creatable := fun _ => true
  removable := fun _ => true

theorem leftover_sent : ¬ ∀ files filename, Honest files filename := by
  intro right
  rcases trusted_of_honest (right leftover (text "a.txt")) with empty | ⟨file, reads, _⟩
  · revert empty
    decide
  · have gone : leftover.openRead (inputPlace leftover (text "a.txt")) = none := by decide
    rw [gone] at reads
    cases reads

end Calls

end Verdict

end TFTP.UploadVerdict
