import TFTP.ClientFiles
import TFTP.GoodNetwork
import TFTP.ListingEffects
import TFTP.RequestGrammar

/-!
# The server's names for the client's files

An upload and a download cut the client's name at its last dot and ask the server for the
rest with a fixed ending. The server finds the file by its path, and different paths can
lead to one place. Two names of a client are kept apart if what is done under the one does
not show under the other.
-/

namespace TFTP.DerivedNames

open Octets Packet Sockets FileSystem Runs Server Requests RequestGrammar ListingSnapshot
open ClientFiles (filenameWithoutExtension compressedName_eq components_slash)

/-- The server's place for the file of a client. -/
def place (f : Name) : Location := resolve (filePath (compressedName f))

/-- The client goes ahead with the name, and the derived one fits in a request. -/
structure Asks (f : Name) : Prop where
  nonempty : f ≠ []
  clean : 0 ∉ compressedName f
  short : (compressedName f).length ≤ 507

/-- No call of the server fails. -/
def faultFree : Machine State Action := machine.restrict fun _ a =>
  match a with
  | .request _ _ _ env => env = .ok
  | .turn _ _ env => env = .ok

/-- A WRITE of `f` on a good network, from its request until nothing is under way. -/
def Uploaded (f : Name) (shared shared' : Shared) : Prop :=
  ∃ S acts t, f ≠ [] ∧
    heard (requestDatagram (.write (compressedName f))) = .starts (.write S.filename) ∧
    (∃ file, Compression.deflate file = some S.file) ∧
    Run (GoodNetwork.machine S) (GoodNetwork.start S shared) acts t ∧
    (∀ a, ¬ GoodNetwork.Enabled t a) ∧ t.shared = shared'

/-- The files before and after a WRITE of `f` in a fault-free run. -/
def Written (f : Name) (shared shared' : Shared) : Prop :=
  ∃ s₀ acts s, Initial s₀ ∧ Run faultFree s₀ acts s ∧ s.shared = shared ∧
    Uploaded f shared shared'

/-- A thread that hears its client only, one reply further. -/
def answer (turn : Turn) (reply : Recv) : Turn :=
  let next := advance turn.shared reply .ok turn.handler
  { next with effects := turn.effects ++ next.effects }

/-- The effects of the thread of a request, in answer to the request and to the replies. -/
def answers (shared : Shared) (client : Addr) (ackBuffer : Buffer 4) (r : Request)
    (replies : List Recv) : List Effect :=
  (replies.foldl answer (begin shared client ackBuffer .ok r)).effects

/-- What a READ of `g` is sent, and whether a WRITE of `g` is refused because the name
exists, does not depend on a WRITE of `f` that came before. -/
structure KeptApart (f g : Name) : Prop where
  reads : ∀ shared shared', Written f shared shared' → g ≠ [] →
    ∀ r, heard (requestDatagram (.read (compressedName g))) = .starts r →
    ∀ client ackBuffer replies,
      answers shared' client ackBuffer r replies = answers shared client ackBuffer r replies
  writes : ∀ shared shared', Written f shared shared' → g ≠ [] →
    ∀ r, heard (requestDatagram (.write (compressedName g))) = .starts r →
    ∀ client ackBuffer,
      answers shared' client ackBuffer r [] =
        [sendError client errorFileAlreadyExists "File already exists."] →
      answers shared client ackBuffer r [] =
        [sendError client errorFileAlreadyExists "File already exists."]

theorem derived_eq_iff (f g : Name) : compressedName f = compressedName g ↔
    filenameWithoutExtension f = filenameWithoutExtension g := by
  rw [compressedName_eq, compressedName_eq]
  exact List.append_left_inj _

theorem asks_heard {op : UInt8} {make : Name → Request} (named : Named op make) {f : Name}
    {r : Request} : f ≠ [] ∧ heard (requestDatagram (make (compressedName f))) = .starts r ↔
      Asks f ∧ r = make (compressedName f) := by
  rw [named.hears_own]
  constructor
  · rintro ⟨nonempty, clean, short, same⟩
    exact ⟨⟨nonempty, clean, short⟩, same⟩
  · rintro ⟨⟨nonempty, clean, short⟩, same⟩
    exact ⟨nonempty, clean, short, same⟩

/-- The last component of a derived path has the fixed ending. -/
theorem place_last (f : Name) :
    ∃ (l : Location) (q : Name), place f = ⟨l.up, (q ++ text "compress.bin") :: l.names⟩ := by
  have inside : slash ∈ (filePath (filenameWithoutExtension f)).reverse := by
    rw [List.mem_reverse]
    exact List.mem_append_left _ (by decide)
  obtain ⟨last, front, split, plain⟩ := List.eq_append_cons_of_mem inside
  have path : filePath (compressedName f) =
      front.reverse ++ slash :: (last.reverse ++ text "compress.bin") := by
    have whole := congrArg List.reverse split
    rw [List.reverse_reverse] at whole
    rw [compressedName_eq, filePath, ← List.append_assoc]
    change filePath (filenameWithoutExtension f) ++ _ = _
    rw [whole]
    simp
  have clean : slash ∉ last.reverse ++ text "compress.bin" := by
    rw [List.mem_append, List.mem_reverse]
    rintro (mem | mem)
    · exact plain mem
    · exact absurd mem (by decide)
  have long : 12 ≤ (last.reverse ++ text "compress.bin").length := by
    rw [List.length_append]
    exact Nat.le_add_left 12 _
  have other : ∀ d : Name, d.length < 12 → last.reverse ++ text "compress.bin" ≠ d := by
    rintro d lt same
    rw [same] at long
    omega
  refine ⟨(components front.reverse).foldl enter ⟨0, []⟩, last.reverse, ?_⟩
  rw [place, path, resolve, components_slash _ clean, List.foldl_append, List.foldl_cons,
    List.foldl_nil, enter, if_neg, if_neg (other dotdot (by decide))]
  exact not_or.mpr ⟨other [] (by decide), other dot (by decide)⟩

theorem place_ne_root (f : Name) : place f ≠ ⟨0, []⟩ := by
  obtain ⟨l, q, last⟩ := place_last f
  rw [last]
  intro same
  cases (Location.mk.inj same).2

theorem place_ne_database (f : Name) : place f ≠ ⟨0, [databaseName]⟩ := by
  obtain ⟨l, q, last⟩ := place_last f
  rw [last]
  intro same
  have ending : text "compress.bin" <:+ databaseName :=
    ⟨q, (List.cons.inj (Location.mk.inj same).2).1⟩
  exact absurd ending (by decide)

/-- Two servers know a name alike and have the same content at its place. -/
structure Alike (n : Name) (a b : Shared) : Prop where
  known : fileExists n a.files = fileExists n b.files
  content : a.disk.read (resolve (filePath n)) = b.disk.read (resolve (filePath n))

/-- Two turns of a READ of the same name that no one can tell apart from outside. -/
structure SameTurn (n : Name) (x y : Turn) : Prop where
  handler : x.handler = y.handler
  effects : x.effects = y.effects
  content : x.shared.disk.read (resolve (filePath n)) = y.shared.disk.read (resolve (filePath n))
  reading : x.handler = .done ∨ ∃ client loop, x.handler = .reading n client loop

theorem afterRead_same {n : Name} {a b : Shared} (client : Addr) (turn : SendLoop × List Effect)
    (content : a.disk.read (resolve (filePath n)) = b.disk.read (resolve (filePath n))) :
    SameTurn n (afterRead a n client turn) (afterRead b n client turn) := by
  unfold afterRead
  split_ifs
  · exact ⟨rfl, rfl, content, Or.inr ⟨client, turn.1, rfl⟩⟩
  · exact ⟨rfl, rfl, content, Or.inl rfl⟩

theorem contentAt_same {n : Name} {a b : Shared} (env : Environment)
    (content : a.disk.read (resolve (filePath n)) = b.disk.read (resolve (filePath n))) :
    contentAt a env (filePath n) = contentAt b env (filePath n) := by
  rw [contentAt, contentAt, content]

theorem read_same {n : Name} {a b : Shared} (alike : Alike n a b) (client : Addr)
    (ackBuffer : Buffer 4) (env : Environment) :
    SameTurn n (handleReadRequest a n client ackBuffer env)
      (handleReadRequest b n client ackBuffer env) := by
  rw [handleReadRequest, handleReadRequest, alike.known, contentAt_same env alike.content]
  split_ifs
  · exact afterRead_same client _ alike.content
  · exact ⟨rfl, rfl, alike.content, Or.inl rfl⟩

theorem readTurn_same {n : Name} {a b : Shared}
    (content : a.disk.read (resolve (filePath n)) = b.disk.read (resolve (filePath n)))
    (client : Addr) (loop : SendLoop) (e : Recv) (env : Environment) :
    SameTurn n (readTurn a n client loop e env) (readTurn b n client loop e env) := by
  rw [readTurn, readTurn, contentAt_same env content]
  exact afterRead_same client _ content

theorem answer_same {n : Name} {x y : Turn} (same : SameTurn n x y) (reply : Recv) :
    SameTurn n (answer x reply) (answer y reply) := by
  rcases same.reading with done | ⟨client, loop, reading⟩
  · have done' : y.handler = .done := same.handler.symm.trans done
    simp only [answer, done, done', advance, List.append_nil]
    exact ⟨rfl, same.effects, same.content, Or.inl rfl⟩
  · have reading' : y.handler = .reading n client loop := same.handler.symm.trans reading
    have next := readTurn_same same.content client loop reply .ok
    simp only [answer, reading, reading', advance]
    exact ⟨next.handler, by rw [same.effects, next.effects], next.content, next.reading⟩

theorem answers_same {n : Name} {a b : Shared} (alike : Alike n a b) (client : Addr)
    (ackBuffer : Buffer 4) (replies : List Recv) :
    answers a client ackBuffer (.read n) replies =
      answers b client ackBuffer (.read n) replies := by
  have same : ∀ {x y : Turn}, SameTurn n x y →
      SameTurn n (replies.foldl answer x) (replies.foldl answer y) := by
    induction replies with
    | nil => exact id
    | cons reply replies ih => exact fun same => ih (answer_same same reply)
  exact (same (read_same alike client ackBuffer .ok)).effects

/-- Only the upload's own name and place may have changed. -/
structure Beside (S : GoodNetwork.Setup) (before : Shared) (t : GoodNetwork.System) : Prop where
  wf : t.shared.disk.WellFormed
  contents : ∀ k, k ≠ resolve (filePath S.filename) →
    t.shared.disk.read k = before.disk.read k
  files : ∀ n, n ≠ S.filename → (n ∈ t.shared.files ↔ n ∈ before.files)
  handler : t.handler.active = true → ∃ inode loop,
    t.handler = .writing S.filename S.client inode loop ∧
    t.shared.disk.entries (resolve (filePath S.filename)) = some (.file inode)

theorem start_beside (S : GoodNetwork.Setup) {before : Shared} (wf : before.disk.WellFormed) :
    Beside S before (GoodNetwork.start S before) := by
  rcases handleWriteRequest_cases before S.filename S.client .ok with
    ⟨handler, shared⟩ | ⟨disk, inode, _, opened, handler, shared⟩
  · constructor
    · simpa only [GoodNetwork.start, shared] using wf
    · intro k _
      simp only [GoodNetwork.start, shared]
    · intro n _
      simp only [GoodNetwork.start, shared]
    · intro active
      simp [GoodNetwork.start, handler, Handler.active] at active
  · have place := (Option.ite_none_left_eq_some.mp opened).2
    obtain ⟨wf', _, entry, _⟩ := Disk.openWrite_spec wf place
    constructor
    · simpa only [GoodNetwork.start, shared] using wf'
    · intro k other
      simp only [GoodNetwork.start, shared]
      exact read_openWrite_of_ne wf place other
    · intro n _
      simp only [GoodNetwork.start, shared]
    · intro _
      simp only [GoodNetwork.start, shared, handler]
      exact ⟨inode, .start, rfl, entry⟩

theorem writeTurn_beside {S : GoodNetwork.Setup} {before : Shared} {t : GoodNetwork.System}
    (beside : Beside S before t) {inode : Nat} {loop : WriteLoop}
    (handler : t.handler = .writing S.filename S.client inode loop)
    (entry : t.shared.disk.entries (resolve (filePath S.filename)) = some (.file inode))
    (e : Recv) (env : Environment) {t' : GoodNetwork.System}
    (shared : t'.shared = (advance t.shared e env t.handler).shared)
    (next : t'.handler = (advance t.shared e env t.handler).handler) : Beside S before t' := by
  rw [handler] at shared next
  constructor
  · rw [shared]
    exact Disk.writeAt_wellFormed beside.wf _ _ _
  · intro k other
    rw [shared, ← beside.contents k other]
    exact Disk.read_writeAt_of_ne beside.wf entry other _ _
  · intro n other
    rw [shared, ← beside.files n other]
    simp only [advance, writeTurn]
    split
    · rw [mem_insertIfNew]
      exact or_iff_right other
    · rfl
  · intro active
    rw [next] at active ⊢
    rw [shared]
    simp only [advance, writeTurn] at active ⊢
    split at active
    · exact ⟨inode, _, rfl, entry⟩
    · cases active
    · cases active

theorem step_beside {S : GoodNetwork.Setup} {before : Shared} (t : GoodNetwork.System)
    (a : GoodNetwork.Action) (enabled : GoodNetwork.Enabled t a) (beside : Beside S before t) :
    Beside S before (GoodNetwork.step S t a) := by
  cases a with
  | server =>
    obtain ⟨inode, loop, handler, entry⟩ := beside.handler enabled.1
    cases queue : t.toServer with
    | nil => exact absurd queue enabled.2
    | cons d rest =>
      apply writeTurn_beside beside handler entry (.datagram S.client d) .ok
      · simp only [GoodNetwork.step, queue]
      · simp only [GoodNetwork.step, queue]
  | client =>
    have shared : (GoodNetwork.step S t .client).shared = t.shared ∧
        (GoodNetwork.step S t .client).handler = t.handler := by
      cases queue : t.toClient <;> simp only [GoodNetwork.step, queue, and_self]
    constructor
    · rw [shared.1]
      exact beside.wf
    · rw [shared.1]
      exact beside.contents
    · rw [shared.1]
      exact beside.files
    · rw [shared.1, shared.2]
      exact beside.handler

/-- An upload changes what is known of no other name, and no content at another place. -/
theorem uploaded_beside {f : Name} {shared shared' : Shared} (wf : shared.disk.WellFormed)
    (uploaded : Uploaded f shared shared') : Asks f ∧
      (∀ k, k ≠ place f → shared'.disk.read k = shared.disk.read k) ∧
      ∀ n, n ≠ compressedName f → (n ∈ shared'.files ↔ n ∈ shared.files) := by
  obtain ⟨S, acts, t, nonempty, heard, _, run, _, rfl⟩ := uploaded
  obtain ⟨asks, same⟩ := (asks_heard .write).mp ⟨nonempty, heard⟩
  have name : S.filename = compressedName f := Request.write.inj same
  have beside : Beside S shared t :=
    Run.invariant (P := Beside S shared) step_beside run (start_beside S wf)
  refine ⟨asks, ?_, ?_⟩
  · rw [place, ← name]
    exact beside.contents
  · rw [← name]
    exact beside.files

theorem written_wellFormed {f : Name} {shared shared' : Shared}
    (written : Written f shared shared') : shared.disk.WellFormed ∧ Uploaded f shared shared' := by
  obtain ⟨s₀, acts, s, initial, run, rfl, uploaded⟩ := written
  exact ⟨(ListingEffects.run_held initial run.unrestrict).wf, uploaded⟩

theorem refused_iff (shared : Shared) (client : Addr) (ackBuffer : Buffer 4) (n : Name) :
    answers shared client ackBuffer (.write n) [] =
      [sendError client errorFileAlreadyExists "File already exists."] ↔ n ∈ shared.files := by
  simp only [answers, List.foldl_nil, begin]
  constructor
  · intro refused
    by_contra new
    cases opened : openWrite shared .ok (filePath n) with
    | none =>
      rw [handleWriteRequest_unopened new client opened] at refused
      have packet := (Effect.send.inj (List.cons.inj refused).1).2
      exact absurd (congrArg (List.drop 3) packet) (by decide)
    | some opening =>
      rw [handleWriteRequest_opened new client opened] at refused
      have packet := (Effect.send.inj (List.cons.inj refused).1).2
      exact absurd (congrArg (List.take 2) packet) (by decide)
  · intro known
    rw [handleWriteRequest_known known]

/-- Names that lead to different places are kept apart. -/
theorem keptApart_of_places {f g : Name} (apart : Asks f → Asks g → place f ≠ place g) :
    KeptApart f g := by
  constructor
  · intro shared shared' written nonempty r heard client ackBuffer replies
    obtain ⟨wf, uploaded⟩ := written_wellFormed written
    obtain ⟨asks, contents, files⟩ := uploaded_beside wf uploaded
    obtain ⟨asks', rfl⟩ := (asks_heard .read).mp ⟨nonempty, heard⟩
    have other := apart asks asks'
    have names : compressedName g ≠ compressedName f := by
      intro same
      exact other (by rw [place, place, same])
    refine answers_same ⟨?_, contents _ (Ne.symm other)⟩ client ackBuffer replies
    rw [Bool.eq_iff_iff, fileExists_iff, fileExists_iff]
    exact files _ names
  · intro shared shared' written nonempty r heard client ackBuffer refused
    obtain ⟨wf, uploaded⟩ := written_wellFormed written
    obtain ⟨asks, _, files⟩ := uploaded_beside wf uploaded
    obtain ⟨asks', rfl⟩ := (asks_heard .write).mp ⟨nonempty, heard⟩
    have names : compressedName g ≠ compressedName f := by
      intro same
      exact apart asks asks' (by rw [place, place, same])
    rw [refused_iff] at refused ⊢
    exact (files _ names).mp refused

/-- A good network's upload is a run of the server, in a thread behind those it has. -/
theorem upload_reachable {S : GoodNetwork.Setup} {s : State} (sound : .undefined ∉ s.handlers)
    {acts : List GoodNetwork.Action} {t : GoodNetwork.System}
    (run : Run (GoodNetwork.machine S) (GoodNetwork.start S s.shared) acts t) :
    ∃ acts' s', Run faultFree s acts' s' ∧ s'.shared = t.shared ∧
      s'.handlers = s.handlers ++ [t.handler] := by
  refine Run.invariant (P := fun t => ∃ acts' s', Run faultFree s acts' s' ∧
    s'.shared = t.shared ∧ s'.handlers = s.handlers ++ [t.handler]) ?_ run ?_
  · rintro t a enabled ⟨acts', s', run', shared, handlers⟩
    cases a with
    | server =>
      cases queue : t.toServer with
      | nil => exact absurd queue enabled.2
      | cons d rest =>
        have own : s'.handlers[s.handlers.length]? = some t.handler := by
          rw [handlers]
          exact List.getElem?_concat_length
        have current : s'.handlers.getD s.handlers.length .done = t.handler := by
          rw [List.getD, own, Option.getD_some]
        have sound' : .undefined ∉ s'.handlers := by
          rw [handlers, List.mem_append, List.mem_singleton]
          rintro (mem | same)
          · exact sound mem
          · have active := enabled.1
            rw [← same] at active
            cases active
        have turn : turnOf s' (.turn s.handlers.length (.datagram S.client d) .ok) =
            advance t.shared (.datagram S.client d) .ok t.handler := by
          rw [turnOf, current, shared]
        refine ⟨_, _, run'.snoc (a := Server.Action.turn s.handlers.length
          (.datagram S.client d) .ok) ⟨⟨sound', t.handler, own, enabled.1⟩, rfl⟩, ?_, ?_⟩
        · simp only [faultFree, Machine.restrict, Server.machine, Server.step, turn,
            GoodNetwork.machine, GoodNetwork.step, queue]
        · simp only [faultFree, Machine.restrict, Server.machine, Server.step, turn,
            GoodNetwork.machine, GoodNetwork.step, queue, handlers]
          rw [List.set_append_right _ _ (Nat.le_refl _), Nat.sub_self, List.set_cons_zero]
    | client =>
      refine ⟨acts', s', run', ?_, ?_⟩
      · rw [shared]
        cases queue : t.toClient <;>
          simp only [GoodNetwork.machine, GoodNetwork.step, queue]
      · rw [handlers]
        cases queue : t.toClient <;>
          simp only [GoodNetwork.machine, GoodNetwork.step, queue]
  · exact ⟨_, _, (Run.refl s).snoc (a := Server.Action.request (.write S.filename) S.client
      (Buffer.zero 4) .ok) ⟨⟨sound, trivial⟩, rfl⟩, rfl, rfl⟩

/-- An upload that finds its name free and its place open goes through. -/
theorem upload_completed {f : Name} {shared : Shared} (asks : Asks f)
    (new : compressedName f ∉ shared.files) (opens : shared.disk.openWrite (place f) ≠ none)
    {file content : List UInt8} (deflated : Compression.deflate file = some content)
    (odd : content.length % 512 ≠ 0) (small : content.length ≤ 65535 * 512) :
    ∃ S acts t, Run (GoodNetwork.machine S) (GoodNetwork.start S shared) acts t ∧
      Uploaded f shared t.shared ∧ compressedName f ∈ t.shared.files ∧
      t.shared.disk.read (place f) = some content := by
  let S : GoodNetwork.Setup := ⟨content, compressedName f, ⟨0x7F000001, 9799⟩, ⟨0x7F000001, 69⟩,
    9801⟩
  have begun : GoodNetwork.Progress S (GoodNetwork.start S shared) 0 0 :=
    GoodNetwork.start_progress odd new opens
  have bounded : ∀ acts t, Run (GoodNetwork.machine S) (GoodNetwork.start S shared) acts t →
      acts.length ≤ 2 * GoodNetwork.blocks S := by
    intro acts t run
    obtain ⟨stored, sent, P, count⟩ := GoodNetwork.run_progress odd small begun run
    have order := P.order
    have bound := P.bound
    omega
  obtain ⟨acts, t, run, stuck⟩ := Run.maximal bounded
  obtain ⟨stored, sent, P, _⟩ := GoodNetwork.run_progress odd small begun run
  have completed : GoodNetwork.Completed S t := by
    rcases GoodNetwork.progress_enabled P with ⟨a, enabled⟩ | completed
    · exact absurd enabled (stuck a)
    · exact completed
  have heard := ((asks_heard .write).mpr ⟨asks, rfl⟩).2
  refine ⟨S, acts, t, run, ?_, ?_, completed.content⟩
  · exact ⟨S, acts, t, asks.nonempty, heard, ⟨file, deflated⟩, run, stuck, rfl⟩
  · rw [Std.TreeMap.mem_iff_isSome_getElem?]
    have registered := completed.registered
    change t.shared.files[compressedName f]? = some 0 at registered
    rw [registered]
    rfl

theorem read_unknown {shared : Shared} {n : Name} (unknown : n ∉ shared.files) (client : Addr)
    (ackBuffer : Buffer 4) : answers shared client ackBuffer (.read n) [] =
      [sendError client errorFileNotFound "File not found"] := by
  simp only [answers, List.foldl_nil, begin, handleReadRequest_unknown unknown]

theorem read_first {shared : Shared} {n : Name} {content : List UInt8}
    (known : n ∈ shared.files) (stored : shared.disk.read (resolve (filePath n)) = some content)
    (some_bytes : 0 < content.length) (client : Addr) (ackBuffer : Buffer 4) :
    answers shared client ackBuffer (.read n) [] =
      [.send client (header 3 1 ++ block content 1)] := by
  have read : contentAt shared .ok (filePath n) = some content := stored
  have top := sendTop_block readManner client (s := .start ackBuffer) (b := 0)
    (show maxRetry ≠ 0 by decide) rfl (by rwa [Nat.zero_mul])
  have effects : ∀ a turn, (afterRead a n client turn).effects = turn.2 := by
    intro a turn
    unfold afterRead
    split_ifs <;> rfl
  simp only [answers, List.foldl_nil, begin, handleReadRequest_known known, effects, read]
  exact congrArg Prod.snd top

/-- A server without files: a place is free, and every directory is there. -/
def cleared (l : Location) : State where
  shared :=
    { files := initializeFileMap []
      disk :=
        { entries := fun k => if k = l then none else some .directory
          contents := fun _ => []
          fresh := 0 } }
  handlers := []

theorem cleared_initial (f : Name) : Initial (cleared (place f)) := by
  have noFile : ∀ l inode, (cleared (place f)).shared.disk.entries l ≠ some (.file inode) := by
    intro l inode entry
    simp only [cleared] at entry
    split_ifs at entry
    cases entry
  constructor
  · rfl
  · exact ⟨fun k _ inode entry => absurd entry (noFile k inode),
      fun l inode entry => absurd entry (noFile l inode)⟩
  · exact if_neg (Ne.symm (place_ne_root f))
  · exact if_neg (Ne.symm (place_ne_database f))
  · refine ⟨[], rfl, fun filename => ?_⟩
    constructor
    · intro mem
      cases mem
    · rintro ⟨_, inode, entry⟩
      exact absurd entry (noFile _ inode)

theorem cleared_opens (l : Location) : (cleared l).shared.disk.openWrite l ≠ none := by
  simp [cleared, Disk.openWrite]

theorem cleared_unknown (l : Location) (n : Name) : n ∉ (cleared l).shared.files := by
  simp [cleared, initializeFileMap]

theorem two_contents : ∃ x y : List UInt8,
    Compression.deflate (text "ab") = some x ∧ Compression.deflate (text "ba") = some y ∧
    (0 < x.length ∧ x.length < 512) ∧ (0 < y.length ∧ y.length < 512) ∧
    block x 1 ≠ block y 1 := by
  refine ⟨[97, 1, 0, 0, 0, 0, 0, 0, 0, 49, 98, 1, 0, 0, 0, 0, 0, 0, 0, 48, 127, 254, 1],
    [97, 1, 0, 0, 0, 0, 0, 0, 0, 49, 98, 1, 0, 0, 0, 0, 0, 0, 0, 48, 127, 254, 2], ?_, ?_, ?_⟩
  · decide +kernel
  · decide +kernel
  · decide

/-- Every name that can be asked for is new to some server. -/
theorem fresh_upload {f : Name} (asks : Asks f) : ∃ shared shared' content,
    Written f shared shared' ∧ compressedName f ∉ shared.files ∧
    compressedName f ∈ shared'.files ∧ 0 < content.length ∧
    shared'.disk.read (place f) = some content := by
  obtain ⟨x, _, deflated, _, size, _, _⟩ := two_contents
  obtain ⟨_, _, t, _, uploaded, known, content⟩ := upload_completed asks
    (cleared_unknown (place f) _) (cleared_opens _) deflated (by omega) (by omega)
  exact ⟨_, t.shared, x, ⟨_, [], _, cleared_initial f, .refl _, rfl, uploaded⟩,
    cleared_unknown _ _, known, size.1, content⟩

/-- Under one name, the second client is sent the first one's file. -/
theorem not_keptApart_of_names {f g : Name} (asks : Asks f) (asks' : Asks g)
    (same : compressedName f = compressedName g) : ¬ KeptApart f g := by
  intro kept
  obtain ⟨shared, shared', x, written, new, known, size, content⟩ := fresh_upload asks
  have heard := ((asks_heard .read).mpr ⟨asks', rfl⟩).2
  have unchanged := kept.reads _ _ written asks'.nonempty _ heard ⟨0, 0⟩ (Buffer.zero 4) []
  rw [← same, read_unknown new, read_first known content size] at unchanged
  have opcode := congrArg opcodeOf (Effect.send.inj (List.cons.inj unchanged).1).2
  rw [opcodeOf_header] at opcode
  exact absurd opcode (by decide)

/-- Under two names of one place, the second upload replaces the file of the first. -/
theorem not_keptApart_of_places {f g : Name} (asks : Asks f) (asks' : Asks g)
    (other : compressedName f ≠ compressedName g) (same : place f = place g) :
    ¬ KeptApart f g := by
  intro kept
  obtain ⟨x, y, deflated, deflated', size, size', differ⟩ := two_contents
  obtain ⟨_, _, t, run, uploaded, known, content⟩ := upload_completed asks'
    (cleared_unknown (place g) _) (cleared_opens _) deflated (by omega) (by omega)
  obtain ⟨acts, s, run', shared, _⟩ :=
    upload_reachable (s := cleared (place g)) List.not_mem_nil run
  have before : Written g (cleared (place g)).shared t.shared :=
    ⟨_, [], _, cleared_initial g, .refl _, rfl, uploaded⟩
  obtain ⟨wf, _⟩ := written_wellFormed before
  have new : compressedName f ∉ t.shared.files := fun mem =>
    cleared_unknown _ _ (((uploaded_beside wf uploaded).2.2 _ other).mp mem)
  have opens : t.shared.disk.openWrite (place f) ≠ none := by
    obtain ⟨inode, entry, _⟩ := Disk.read_eq_some.mp content
    rw [same, Disk.openWrite, entry]
    exact Option.some_ne_none _
  obtain ⟨_, _, t', _, uploaded', _, content'⟩ := upload_completed asks new opens deflated'
    (by omega) (by omega)
  have written : Written f t.shared t'.shared :=
    ⟨_, acts, s, cleared_initial g, run', shared, uploaded'⟩
  have known' : compressedName g ∈ t'.shared.files :=
    ((uploaded_beside (written_wellFormed written).1 uploaded').2.2 _ (Ne.symm other)).mpr known
  have heard := ((asks_heard .read).mpr ⟨asks', rfl⟩).2
  have unchanged := kept.reads _ _ written asks'.nonempty _ heard ⟨0, 0⟩ (Buffer.zero 4) []
  rw [same] at content'
  rw [read_first known content size.1, read_first known' content' size'.1] at unchanged
  have packet := (Effect.send.inj (List.cons.inj unchanged).1).2
  exact differ (List.append_cancel_left packet).symm

/-- Two names are kept apart if and only if their requests do not lead to one place, and they
have different names on the server if and only if they differ before their last dots. -/
theorem kept_apart_iff (f g : Name) :
    (KeptApart f g ↔ (Asks f → Asks g → place f ≠ place g)) ∧
    (compressedName f ≠ compressedName g ↔
      filenameWithoutExtension f ≠ filenameWithoutExtension g) := by
  refine ⟨⟨fun kept asks asks' same => ?_, keptApart_of_places⟩, (derived_eq_iff f g).not⟩
  by_cases names : compressedName f = compressedName g
  · exact not_keptApart_of_names asks asks' names kept
  · exact not_keptApart_of_places asks asks' names same kept

/-- Of two files that differ in their extension only, the second is refused. -/
theorem extension_lost : text "a.txt" ≠ text "a.pdf" ∧
    compressedName (text "a.txt") = compressedName (text "a.pdf") ∧
    ¬ KeptApart (text "a.txt") (text "a.pdf") ∧
    ∃ shared shared', Written (text "a.txt") shared shared' ∧
      ∀ client ackBuffer,
        answers shared client ackBuffer (.write (compressedName (text "a.pdf"))) [] ≠
          [sendError client errorFileAlreadyExists "File already exists."] ∧
        answers shared' client ackBuffer (.write (compressedName (text "a.pdf"))) [] =
          [sendError client errorFileAlreadyExists "File already exists."] := by
  have same : compressedName (text "a.txt") = compressedName (text "a.pdf") := by decide
  have asks : Asks (text "a.txt") := ⟨by decide, by decide, by decide⟩
  have asks' : Asks (text "a.pdf") := ⟨by decide, by decide, by decide⟩
  obtain ⟨shared, shared', _, written, new, known, _, _⟩ := fresh_upload asks
  refine ⟨by decide, same, not_keptApart_of_names asks asks' same, shared, shared', written, ?_⟩
  intro client ackBuffer
  rw [← same]
  exact ⟨(refused_iff ..).not.mpr new, (refused_iff ..).mpr known⟩

end TFTP.DerivedNames
