import TFTP.DownloadVerdict
import TFTP.UploadVerdict
import TFTP.WrittenThenRead

/-!
# Putting a file and getting it back

The two programs at the ends of the transfers: the one compresses a file of its user's and
writes what it finds under the compressed name, the other one reads that name into a file
of its own and takes it apart. Each hears of the whole system what is delivered to it. The
server lists nothing meanwhile, and keeps to plain names and to one upload of a name at a time.
-/

namespace TFTP.PutThenGet

open Octets Packet Sockets FileSystem Runs Server Immutability StoreRefinement
open Requests DeflateFiles ClientFiles WrittenThenRead
open UploadAgreement (DeliversLast)
open UploadVerdict (handleWRQRequest Trusted)
open DownloadVerdict (handleRRQRequest decodedPlace Free)

def writerHears : BusyUpload.Action → Option (Recv × LocalIO)
  | .server _ => none
  | .client e io => some (e, io)

def writerDoes (U : BusyUpload.Session) (t : BusyUpload.System) : BusyUpload.Action → List Effect
  | .server _ => []
  | .client e io => (Client.writeStep (some U.file) t.client e io).2

def writerSide (U : BusyUpload.Session) :
    Component (BusyUpload.machine U) (Client.writeReactor (some U.file)) (writerDoes U) where
  own := writerHears
  shows := fun t loop => t.client = loop
  hears := by
    rintro t loop a e rfl enabled addressed
    cases a with
    | server => cases addressed
    | client e' io =>
      obtain rfl := Option.some.inj addressed
      have live : t.client.status = .sending := by
        cases e' with
        | timeout => exact enabled
        | datagram src d => exact enabled.1
      exact ⟨decide_eq_true live, rfl, rfl⟩
  ignores := by
    rintro t loop a rfl _ foreign
    cases a with
    | server => rfl
    | client => cases foreign

def readerHears : BusyDownload.Action → Option (Recv × LocalIO)
  | .server _ => none
  | .client e io => some (e, io)

def readerDoes (D : BusyDownload.Session) (t : BusyDownload.System) :
    BusyDownload.Action → List Effect
  | .server _ => []
  | .client e io => (Client.readStep D.member t.client e io).2

def readerSide (D : BusyDownload.Session) :
    Component (BusyDownload.machine D) (Client.readReactor D.member) (readerDoes D) where
  own := readerHears
  shows := fun t loop => t.client = loop
  hears := by
    rintro t loop a e rfl enabled addressed
    cases a with
    | server => cases addressed
    | client e' io =>
      obtain rfl := Option.some.inj addressed
      have live : t.client.status = .receiving := by
        cases e' with
        | timeout => exact enabled
        | datagram src d => exact enabled.1
      exact ⟨decide_eq_true live, rfl, rfl⟩
  ignores := by
    rintro t loop a rfl _ foreign
    cases a with
    | server => rfl
    | client => cases foreign

section Putting

variable {files after : Files} {f : Name} {file : List UInt8}

/-- The call that writes reports a success as soon as its loop does. -/
theorem put_reports (named : f ≠ []) (ran : deflate files f = some after)
    {U : BusyUpload.Session}
    (sent : after.openRead (after.resolve (compressedName f)) = some U.file) (member : Addr)
    {t₀ : Traced} {ackBuffer : Buffer 4} {env : Environment} {acts : List BusyUpload.Action}
    {t : BusyUpload.System}
    (upload : Run (BusyUpload.machine U) (BusyUpload.begin U t₀ ackBuffer env) acts t)
    (succeeded : t.client.status = .succeeded) :
    ∃ put, handleWRQRequest files member U.listening f false (acts.filterMap writerHears) =
        some put ∧ put.returned = some true := by
  have loop : t.client = ((Client.writeReactor (some U.file)).feed (.start U.listening)
      (acts.filterMap writerHears)).1 := ((writerSide U).alone upload rfl).1
  refine ⟨_, UploadVerdict.handle_eq named ran member U.listening false _, ?_⟩
  simp only [sent, Bool.false_eq_true, if_false, ← loop, succeeded, UploadVerdict.returned]

/-- What a download can bring back of a trusted client's file is what `deflate` made of it. -/
theorem own_compressed (named : f ≠ [])
    (reads : files.openRead (inputPlace files f) = some file) (trusted : Trusted files f)
    (ran : deflate files f = some after) {content : List UInt8}
    (sent : after.openRead (after.resolve (compressedName f)) = some content)
    (short : content.length < 65536) (odd : content.length % 512 ≠ 0) :
    (∃ a ∈ file, ∃ b ∈ file, a ≠ b) ∧ Compression.deflate file = some content := by
  obtain ⟨file', reads', two, _, contents⟩ := trusted.input named
  obtain rfl := Option.some.inj (reads.symm.trans reads')
  obtain ⟨codes, run⟩ := VectorBounds.more_frequencies two
  rw [UploadVerdict.reads_sentContent run reads ran] at sent
  refine ⟨two, ?_⟩
  rcases contents content sent with own | even | long
  · rw [own]
    exact (deflate_parts run).1
  · exact absurd even odd
  · omega

end Putting

section Getting

variable {files : Files} {f : Name}

/-- A call that reports a success has the decompressed file where the user looks for it, if
what its loop brought can be decompressed. -/
theorem get_stores (named : f ≠ []) (free : Free files f)
    (opens : files.canWrite (compressedPlace files f) = true) {clientAddress serverAddress : Addr}
    {packets : List (Recv × LocalIO)} {loop : Client.ReadLoop}
    (fed : ((Client.readReactor clientAddress).feed (.start serverAddress) packets).1 = loop)
    (form : loop.status = .completed →
      ∃ original, Compression.decompress loop.content = some original) :
    ∃ call, handleRRQRequest files clientAddress serverAddress f false packets = some call ∧
      (call.returned = some true ↔ loop.status = .completed) ∧
      (loop.status = .completed →
        call.files.bytes (decodedPlace files f) = Compression.decompress loop.content) := by
  by_cases done : loop.status = .completed
  · have receives :
        DownloadVerdict.Receives files f loop.content clientAddress serverAddress packets :=
      ⟨named, opens, by rw [fed, done], by rw [fed]⟩
    obtain ⟨original, decompressed⟩ := form done
    obtain ⟨call, called, verdict⟩ := DownloadVerdict.decoded_of_own receives
      (DownloadVerdict.own_of_free free decompressed)
    obtain ⟨sections, split, _⟩ := Option.bind_eq_some_iff.mp decompressed
    rw [split] at verdict
    obtain ⟨decoded, own, kept⟩ := verdict
    have received := DownloadVerdict.handle_received receives
    obtain ⟨after, _, rfl⟩ := Option.map_eq_some_iff.mp (received.symm.trans called)
    exact ⟨_, called, iff_of_true rfl done, fun _ => kept.trans own.symm⟩
  · have opened : files.openWrite (files.resolve (compressedName f)) =
        some (files.put (compressedPlace files f) []) := if_pos opens
    have started : ¬ (f = [] ∨ false = true) := by simp [named]
    obtain ⟨call, called, unsuccessful⟩ : ∃ call,
        handleRRQRequest files clientAddress serverAddress f false packets = some call ∧
          call.returned ≠ some true := by
      simp only [handleRRQRequest, if_neg started, opened, fed]
      cases status : loop.status with
      | completed => exact absurd status done
      | receiving => exact ⟨_, rfl, fun success => by cases success⟩
      | failed => exact ⟨_, rfl, fun success => by cases success⟩
      | exhausted => exact ⟨_, rfl, fun success => by cases success⟩
      | undefined => exact ⟨_, rfl, fun success => by cases success⟩
    exact ⟨call, called, iff_of_false unsuccessful done, fun ended => absurd ended done⟩

end Getting

/-- A user's file is written under its name by one program, and later read under that name by
another one, while the server works for anybody else. If the short block of the upload is
taken and nobody asks for the deletion of the name, the first program reports a success, and
the second one does if its loop completes; then the file is back, with at most seven bytes
behind it. -/
theorem put_then_get {f : Name} (named : f ≠ []) {files₁ after files₂ : Files}
    {file : List UInt8} (reads : files₁.openRead (inputPlace files₁ f) = some file)
    (small : file.length < 2 ^ 31) (trusted : Trusted files₁ f)
    (ran : deflate files₁ f = some after) {U : BusyUpload.Session}
    (sent : after.openRead (after.resolve (compressedName f)) = some U.file)
    (written : U.filename = compressedName f) {s : State} {before : List Server.Action}
    {t₀ : Traced} (initial : Initial s) (run₀ : Run exclusive (start s) before t₀)
    (here : U.thread = t₀.state.handlers.length) (new : U.filename ∉ t₀.state.shared.files)
    {ackBuffer : Buffer 4} {env : Environment}
    (opens : openWrite t₀.state.shared env (filePath U.filename) ≠ none)
    (enabled : exclusive.enabled t₀ (.request (.write U.filename) U.client ackBuffer env))
    {acts : List BusyUpload.Action} {t₁ : BusyUpload.System}
    (upload : Run (BusyUpload.machine U) (BusyUpload.begin U t₀ ackBuffer env) acts t₁)
    {e : Recv} {env' : Environment}
    (turn : BusyUpload.Enabled U t₁ (.server (.turn U.thread e env')))
    (last : DeliversLast (.server e env'.io)) {between : List Server.Action} {t₂ : Traced}
    (later : Run exclusive
      (BusyUpload.step U t₁ (.server (.turn U.thread e env'))).server between t₂)
    (spared : ∀ a ∈ between, Spares U.filename a) {D : BusyDownload.Session}
    (wanted : D.filename = compressedName f) (there : D.thread = t₂.state.handlers.length)
    {ackBuffer' : Buffer 4} {env'' : Environment}
    (asked : exclusive.enabled t₂ (.request (.read D.filename) D.client ackBuffer' env''))
    {acts' : List BusyDownload.Action} {t₃ : BusyDownload.System}
    (download : Run (BusyDownload.machine D) (BusyDownload.begin D t₂ ackBuffer' env'') acts' t₃)
    (free : Free files₂ f) (room : files₂.canWrite (compressedPlace files₂ f) = true)
    (member : Addr) :
    (∃ put, handleWRQRequest files₁ member U.listening f false (acts.filterMap writerHears) =
        some put ∧ put.returned = some true) ∧
      ∃ call, handleRRQRequest files₂ D.member D.listening f false
          (acts'.filterMap readerHears) = some call ∧
        (call.returned = some true ↔ t₃.client.status = .completed) ∧
        (t₃.client.status = .completed →
          Restores file (call.files.bytes (decodedPlace files₂ f))) := by
  obtain ⟨inv₁, known₁, succeeded⟩ :=
    uploaded initial run₀ here new opens enabled upload turn last
  obtain ⟨inv₂, known₂⟩ := run_spared inv₁ known₁ later spared
  rw [written, ← wanted] at known₂
  refine ⟨put_reports named ran sent member upload succeeded, ?_⟩
  have fed := ((readerSide D).alone download rfl).1.symm
  have form : t₃.client.status = .completed →
      Restores file (Compression.decompress t₃.client.content) := by
    intro done
    obtain ⟨whole, short, odd⟩ := brought inv₂ known₂ there asked download done
    obtain ⟨two, packed⟩ := own_compressed named reads trusted ran sent short odd
    rw [whole]
    exact decompress_restores two small packed
  obtain ⟨call, called, returned, stored⟩ := get_stores named free room fed fun done => by
    obtain ⟨n, _, c, decompressed⟩ := form done
    exact ⟨_, decompressed⟩
  refine ⟨call, called, returned, fun done => ?_⟩
  rw [stored done]
  exact form done

/-- The directory of a user who writes a file of two bytes. -/
def twoBytesDirectory : Files where
  workingDirectory := []
  entry := fun l => if l = [text "a.txt"] then some (.file [97, 98] true true) else none
  creatable := fun _ => true
  removable := fun _ => true

def putting : BusyUpload.Session := { writing with filename := text "acompress.bin" }

def getting : BusyDownload.Session := { reading with filename := text "acompress.bin" }

theorem twoBytes_sent : ∃ after, deflate twoBytesDirectory (text "a.txt") = some after ∧
    after.openRead (after.resolve (compressedName (text "a.txt"))) = some twoBytes := by
  refine ⟨_, rfl, ?_⟩
  decide

theorem twoBytes_trusted : Trusted twoBytesDirectory (text "a.txt") := by
  have made : UploadVerdict.MadeHere twoBytesDirectory (text "a.txt") :=
    ⟨by decide, by decide, by decide, by decide, by decide⟩
  exact Or.inr ⟨[97, 98], by decide, ⟨97, by decide, 98, by decide, by decide⟩,
    fun _ => by decide, Or.inl made⟩

/-- Two bytes are written as `acompress.bin` and read back into an empty directory. -/
theorem put_then_get_two_bytes :
    ∃ call, handleRRQRequest DownloadVerdict.emptyDirectory getting.member getting.listening
        (text "a.txt") false [(.datagram getting.handler ([0, 3, 0, 1] ++ twoBytes), .ok)] =
          some call ∧
      call.returned = some true ∧
      Restores [97, 98]
        (call.files.bytes (decodedPlace DownloadVerdict.emptyDirectory (text "a.txt"))) := by
  obtain ⟨after, ran, sent⟩ := twoBytes_sent
  let t₀ := start (startedWith (text "f") [7])
  let told := BusyUpload.step putting (BusyUpload.begin putting t₀ (Buffer.zero 4) .ok)
    (.client (.datagram putting.handler [0, 4, 0, 0]) .ok)
  let stored := BusyUpload.step putting told
    (.server (.turn 0 (.datagram writer ([0, 3, 0, 1] ++ twoBytes)) .ok))
  let read := BusyDownload.step getting
    (BusyDownload.begin getting stored.server (Buffer.zero 4) .ok)
    (.client (.datagram getting.handler ([0, 3, 0, 1] ++ twoBytes)) .ok)
  have plain : Plain (text "acompress.bin") := by
    show slash ∉ text "acompress.bin"
    decide
  have enabled : exclusive.enabled t₀
      (.request (.write (text "acompress.bin")) writer (Buffer.zero 4) .ok) := by
    refine ⟨⟨by decide, trivial⟩, plain, ?_⟩
    intro _ _ h mem
    cases mem
  have upload : Run (BusyUpload.machine putting)
      (BusyUpload.begin putting t₀ (Buffer.zero 4) .ok)
      ([] ++ [.client (.datagram putting.handler [0, 4, 0, 0]) .ok]) told :=
    .snoc (.refl _) ⟨by decide, fun _ => ⟨rfl, by decide⟩⟩
  have turn : BusyUpload.Enabled putting told
      (.server (.turn 0 (.datagram writer ([0, 3, 0, 1] ++ twoBytes)) .ok)) := by
    refine ⟨⟨⟨by decide, _, rfl, rfl⟩, trivial, trivial⟩, ?_⟩
    rintro src d env heard
    cases heard
    decide
  have asked : exclusive.enabled stored.server
      (.request (.read (text "acompress.bin")) rival (Buffer.zero 4) .ok) :=
    ⟨⟨by decide, trivial⟩, plain, trivial⟩
  have download : Run (BusyDownload.machine getting)
      (BusyDownload.begin getting stored.server (Buffer.zero 4) .ok)
      ([] ++ [.client (.datagram getting.handler ([0, 3, 0, 1] ++ twoBytes)) .ok]) read :=
    .snoc (.refl _) ⟨by decide, fun _ => ⟨rfl, by decide⟩⟩
  have free : Free DownloadVerdict.emptyDirectory (text "a.txt") :=
    ⟨by decide, by decide, by decide, by decide, by decide, by decide⟩
  have reads : twoBytesDirectory.openRead (inputPlace twoBytesDirectory (text "a.txt")) =
      some [97, 98] := by decide
  obtain ⟨_, call, called, returned, restored⟩ := put_then_get (by decide : text "a.txt" ≠ [])
    reads (by decide) twoBytes_trusted ran (U := putting) sent (by decide)
    (startedWith_initial (by decide) [7]) (.refl t₀) rfl (by decide) (by decide) enabled upload
    turn ⟨by decide, by decide, rfl⟩ (.refl _) (fun a mem => absurd mem List.not_mem_nil)
    (D := getting) (by decide) (by decide) asked download free (by decide) ⟨0, 0⟩
  have done : read.client.status = .completed := by decide
  exact ⟨call, called, returned.mpr done, restored done⟩

end TFTP.PutThenGet
