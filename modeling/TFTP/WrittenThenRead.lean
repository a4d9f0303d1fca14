import TFTP.BusyDownload
import TFTP.BusyUpload
import TFTP.Lossless

/-!
# What is written is what is read

A client compresses a file and writes it, and later another client reads it and
decompresses it, while the server uploads, reads and deletes plain names for anybody else in
between and beside them, uploads of one name not overlapping.
-/

namespace TFTP.WrittenThenRead

open Octets Packet Sockets FileSystem Runs Server Immutability StoreRefinement
open Compression Lossless
open UploadAgreement (DeliversLast)

/-- No DELETE of the name is requested. -/
def Spares (filename : Name) : Server.Action → Prop
  | .request (.delete f) _ _ _ => f ≠ filename
  | _ => True

/-- A registered name keeps its content until it is deleted. -/
theorem record_spared {t : Traced} (inv : Immutability.Inv t) {filename : Name}
    {content : List UInt8} (known : t.registered filename = some content) {a : Server.Action}
    (spares : Spares filename a) :
    record t.registered t.state a filename = some content := by
  have listed : filename ∈ t.state.shared.files := by simp [inv.listed, known]
  cases a with
  | request r client ackBuffer env =>
    cases r with
    | delete f =>
      simp only [record]
      split
      · have other : filename ≠ f := fun same => spares same.symm
        rwa [Function.update_of_ne other]
      · exact known
    | _ => exact known
  | turn i e env =>
    simp only [record]
    cases t.state.handlers.getD i .done with
    | writing f client inode loop =>
      simp only
      split
      · rename_i ended
        have other : filename ≠ f := by
          rintro rfl
          exact ended.2 listed
        rwa [Function.update_of_ne other]
      · exact known
    | _ => exact known

theorem run_spared {t₁ t₂ : Traced} {between : List Server.Action} {filename : Name}
    {content : List UInt8} (inv : Immutability.Inv t₁)
    (known : t₁.registered filename = some content) (run : Run exclusive t₁ between t₂)
    (spared : ∀ a ∈ between, Spares filename a) :
    Immutability.Inv t₂ ∧ t₂.registered filename = some content := by
  induction run with
  | refl => exact ⟨inv, known⟩
  | snoc before enabled ih =>
    obtain ⟨inv', known'⟩ := ih fun a mem => spared a (List.mem_append_left _ mem)
    refine ⟨Immutability.step_inv _ _ enabled inv', ?_⟩
    have last := spared _ (List.mem_append_right _ (List.mem_singleton.mpr rfl))
    exact record_spared inv' known' last

/-- What a file comes back as. -/
def Restores (file : List UInt8) (decoded : Option (List UInt8)) : Prop :=
  ∃ n ≤ 7, ∃ c, decoded = some (file ++ List.replicate n c)

theorem decompress_restores {file compressed : List UInt8} (two : ∃ a ∈ file, ∃ b ∈ file, a ≠ b)
    (small : file.length < 2 ^ 31) (packed : deflate file = some compressed) :
    Restores file (decompress compressed) := by
  obtain ⟨_, c, back⟩ := roundTrip_eq two small
  rw [roundTrip, packed, Option.bind_some] at back
  refine ⟨_, ?_, c, back⟩
  have few : unused (bitCount file) < 8 := Nat.mod_lt _ (by decide)
  exact Nat.le_of_lt_succ (Nat.lt_of_le_of_lt (Nat.div_le_self _ _) few)

section

variable {s : State} {before : List Server.Action} {t₀ : Traced} {U : BusyUpload.Session}
  {ackBuffer : Buffer 4} {env : Environment} {acts : List BusyUpload.Action}
  {t₁ : BusyUpload.System}

/-- The name is there as soon as the short block is taken. -/
theorem uploaded (initial : Initial s) (run₀ : Run exclusive (start s) before t₀)
    (here : U.thread = t₀.state.handlers.length) (new : U.filename ∉ t₀.state.shared.files)
    (opens : openWrite t₀.state.shared env (filePath U.filename) ≠ none)
    (enabled : exclusive.enabled t₀ (.request (.write U.filename) U.client ackBuffer env))
    (upload : Run (BusyUpload.machine U) (BusyUpload.begin U t₀ ackBuffer env) acts t₁)
    {e : Recv} {env' : Environment}
    (turn : BusyUpload.Enabled U t₁ (.server (.turn U.thread e env')))
    (last : DeliversLast (.server e env'.io)) :
    let t := (BusyUpload.step U t₁ (.server (.turn U.thread e env'))).server
    Immutability.Inv t ∧ t.registered U.filename = some U.file ∧
      t₁.client.status = .succeeded := by
  have inv₀ : Immutability.Inv t₀ := run₀.invariant Immutability.step_inv (start_inv initial)
  have inv : BusyUpload.Inv U t₁ :=
    upload.invariant BusyUpload.step_inv (BusyUpload.begin_inv inv₀ here new opens enabled)
  obtain ⟨delivers, whole⟩ := inv.registers e env' turn
  exact ⟨Immutability.step_inv _ _ turn.1 inv.server, whole (delivers.mpr last)⟩

/-- A completed download has the content of the name it asked for. -/
theorem brought {t : Traced} (inv : Immutability.Inv t) {D : BusyDownload.Session}
    {content : List UInt8} (known : t.registered D.filename = some content)
    (there : D.thread = t.state.handlers.length) {ackBuffer : Buffer 4} {env : Environment}
    (asked : exclusive.enabled t (.request (.read D.filename) D.client ackBuffer env))
    {acts : List BusyDownload.Action} {t' : BusyDownload.System}
    (download : Run (BusyDownload.machine D) (BusyDownload.begin D t ackBuffer env) acts t')
    (done : t'.client.status = .completed) :
    t'.client.content = content ∧ content.length < 65536 ∧ content.length % 512 ≠ 0 := by
  -- What the session is expected to deliver is no part of its steps.
  let D' : BusyDownload.Session := { D with content }
  have run : Run (BusyDownload.machine D') (BusyDownload.begin D' t ackBuffer env) acts t' :=
    download
  have inv : BusyDownload.Inv D' t' := run.invariant BusyDownload.step_inv
    (BusyDownload.begin_inv (S := D') inv there known asked)
  exact ⟨inv.ceiling.inv.whole done, inv.ceiling.completed done⟩

/-- What was written is read: whatever else the server does, as long as nobody asks for the
deletion of the name, a download that completes has the very bytes of the upload, and they
decompress to the writer's file with at most seven bytes behind it. -/
theorem written_then_read (initial : Initial s) (run₀ : Run exclusive (start s) before t₀)
    (here : U.thread = t₀.state.handlers.length) (new : U.filename ∉ t₀.state.shared.files)
    (opens : openWrite t₀.state.shared env (filePath U.filename) ≠ none)
    (enabled : exclusive.enabled t₀ (.request (.write U.filename) U.client ackBuffer env))
    (upload : Run (BusyUpload.machine U) (BusyUpload.begin U t₀ ackBuffer env) acts t₁)
    {e : Recv} {env' : Environment}
    (turn : BusyUpload.Enabled U t₁ (.server (.turn U.thread e env')))
    (last : DeliversLast (.server e env'.io)) {between : List Server.Action} {t₂ : Traced}
    (later : Run exclusive
      (BusyUpload.step U t₁ (.server (.turn U.thread e env'))).server between t₂)
    (spared : ∀ a ∈ between, Spares U.filename a) {D : BusyDownload.Session}
    (same : D.filename = U.filename) (there : D.thread = t₂.state.handlers.length)
    {ackBuffer' : Buffer 4} {env'' : Environment}
    (asked : exclusive.enabled t₂ (.request (.read D.filename) D.client ackBuffer' env''))
    {acts' : List BusyDownload.Action} {t₃ : BusyDownload.System}
    (download : Run (BusyDownload.machine D) (BusyDownload.begin D t₂ ackBuffer' env'') acts' t₃)
    (done : t₃.client.status = .completed) :
    t₃.client.content = U.file ∧
      ∀ file, (∃ a ∈ file, ∃ b ∈ file, a ≠ b) → file.length < 2 ^ 31 →
        deflate file = some U.file → Restores file (decompress t₃.client.content) := by
  obtain ⟨inv₁, known₁, _⟩ := uploaded initial run₀ here new opens enabled upload turn last
  obtain ⟨inv₂, known₂⟩ := run_spared inv₁ known₁ later spared
  rw [← same] at known₂
  obtain ⟨whole, _⟩ := brought inv₂ known₂ there asked download done
  refine ⟨whole, fun file two small packed => ?_⟩
  rw [whole]
  exact decompress_restores two small packed

end

/-- Two bytes as `deflate` stores them. -/
def twoBytes : List UInt8 :=
  [97, 1, 0, 0, 0, 0, 0, 0, 0, 49, 98, 1, 0, 0, 0, 0, 0, 0, 0, 48, 127, 254, 1]

def writing : BusyUpload.Session := { BusyUpload.oneByte with file := twoBytes }

def reading : BusyDownload.Session where
  thread := 1
  filename := text "g"
  content := []
  handler := ⟨0x7F000001, 9802⟩
  client := rival
  member := ⟨0, 0⟩
  listening := ⟨0x7F000001, 69⟩

theorem written_then_read_two_bytes :
    let t₀ := start (startedWith (text "f") [7])
    let told := BusyUpload.step writing (BusyUpload.begin writing t₀ (Buffer.zero 4) .ok)
      (.client (.datagram writing.handler [0, 4, 0, 0]) .ok)
    let stored := BusyUpload.step writing told
      (.server (.turn 0 (.datagram writer ([0, 3, 0, 1] ++ twoBytes)) .ok))
    let read := BusyDownload.step reading
      (BusyDownload.begin reading stored.server (Buffer.zero 4) .ok)
      (.client (.datagram reading.handler ([0, 3, 0, 1] ++ twoBytes)) .ok)
    Restores [97, 98] (decompress read.client.content) := by
  intro t₀ told stored read
  have plain : Plain (text "g") := by
    show slash ∉ text "g"
    decide
  have enabled : exclusive.enabled t₀
      (.request (.write (text "g")) writer (Buffer.zero 4) .ok) := by
    refine ⟨⟨by decide, trivial⟩, plain, ?_⟩
    intro _ _ h mem
    cases mem
  have upload : Run (BusyUpload.machine writing)
      (BusyUpload.begin writing t₀ (Buffer.zero 4) .ok)
      ([] ++ [.client (.datagram writing.handler [0, 4, 0, 0]) .ok]) told :=
    .snoc (.refl _) ⟨by decide, fun _ => ⟨rfl, by decide⟩⟩
  have turn : BusyUpload.Enabled writing told
      (.server (.turn 0 (.datagram writer ([0, 3, 0, 1] ++ twoBytes)) .ok)) := by
    refine ⟨⟨⟨by decide, _, rfl, rfl⟩, trivial, trivial⟩, ?_⟩
    rintro src d env heard
    cases heard
    decide
  have asked : exclusive.enabled stored.server
      (.request (.read (text "g")) rival (Buffer.zero 4) .ok) :=
    ⟨⟨by decide, trivial⟩, plain, trivial⟩
  have download : Run (BusyDownload.machine reading)
      (BusyDownload.begin reading stored.server (Buffer.zero 4) .ok)
      ([] ++ [.client (.datagram reading.handler ([0, 3, 0, 1] ++ twoBytes)) .ok]) read :=
    .snoc (.refl _) ⟨by decide, fun _ => ⟨rfl, by decide⟩⟩
  have back := written_then_read (startedWith_initial (by decide) [7]) (.refl t₀) rfl
    (by decide) (by decide) enabled upload turn ⟨by decide, by decide, rfl⟩ (.refl _)
    (fun a mem => absurd mem List.not_mem_nil) (by rfl : reading.filename = writing.filename)
    (by decide) asked download (by decide)
  exact back.2 [97, 98] ⟨97, by decide, 98, by decide, by decide⟩ (by decide) (by decide)

end TFTP.WrittenThenRead
