import TFTP.ReaderCounts

/-!
# Registered files

A name is registered from start-up or from the step that inserts it, until its DELETE
is acknowledged. Whether its file stays as it was registered depends on uploads of one
name not overlapping, which the test at the head of an upload does not ensure: the name
is inserted only when an upload ends.
-/

namespace TFTP.Immutability

open Octets Packet Sockets FileSystem Runs Server

/-- The server together with the content each name was registered with. -/
structure Traced where
  state : State
  registered : Name → Option (List UInt8)

/-- An upload that inserts its name registers the payloads it has acknowledged. -/
def record (registered : Name → Option (List UInt8)) (s : State) (a : Action) :
    Name → Option (List UInt8) :=
  match a with
  | .request (.delete filename) client _ _ =>
    if sendACK client ackOk ∈ (turnOf s a).effects then Function.update registered filename none
    else registered
  | .turn i e env =>
    match s.handlers.getD i .done with
    | .writing filename client _ loop =>
      let turn := writeStep client loop e env.io
      if turn.1.status = .received ∧ filename ∉ s.shared.files then
        Function.update registered filename (some turn.1.content)
      else registered
    | _ => registered
  | _ => registered

def start (s : State) : Traced where
  state := s
  registered := fun filename =>
    if filename ∈ s.shared.files then s.shared.disk.read (resolve (filePath filename)) else none

def traced : Machine Traced Action where
  enabled := fun t a => Enabled t.state a
  step := fun t a => ⟨Server.step t.state a, record t.registered t.state a⟩

/-- Reads, writes and deletions of plain filenames. -/
def InDomain : Action → Prop
  | .request (.read filename) _ _ _ => Plain filename
  | .request (.write filename) _ _ _ => Plain filename
  | .request (.delete filename) _ _ _ => Plain filename
  | .request .list _ _ _ => False
  | .turn _ _ _ => True

/-- The thread is an upload of this name in its loop. -/
def uploads (filename : Name) : Handler → Bool
  | .writing f _ _ _ => f == filename
  | _ => false

theorem uploads_writing {filename f : Name} {client : Addr} {inode : Nat} {loop : WriteLoop} :
    uploads filename (.writing f client inode loop) = true ↔ f = filename := beq_iff_eq

/-- No upload gets past the test and the opening of its file while another upload of the
same name is in its loop. -/
def Exclusive (s : State) : Action → Prop
  | .request (.write filename) _ _ env =>
    filename ∉ s.shared.files → env.openFails = false → ∀ h ∈ s.handlers, ¬ uploads filename h
  | _ => True

/-- Every registered name exists on disk with the content it was registered with. -/
def Immutable (t : Traced) : Prop :=
  ∀ filename content, t.registered filename = some content →
    t.state.shared.disk.read (resolve (filePath filename)) = some content

/-- An upload in its loop holds the inode behind its name, and the name is not listed. -/
structure Inv (t : Traced) : Prop where
  exact_ : ReaderCounts.Exact t.state
  wf : t.state.shared.disk.WellFormed
  root : t.state.shared.disk.entries ⟨0, []⟩ = some .directory
  database : t.state.shared.disk.entries ⟨0, [databaseName]⟩ = some .directory
  noListing : ∀ client loop, .listing client loop ∉ t.state.handlers
  holds : ∀ filename client inode loop, .writing filename client inode loop ∈ t.state.handlers →
    Proper filename ∧ filename ∉ t.state.shared.files ∧ loop.status = .receiving ∧
      t.state.shared.disk.entries (childOf filename) = some (.file inode) ∧
      t.state.shared.disk.contents inode = loop.content
  single : ∀ (i j : Nat) filename hi hj,
    t.state.handlers[i]? = some hi → t.state.handlers[j]? = some hj →
    uploads filename hi → uploads filename hj → i = j
  listed : ∀ filename, filename ∈ t.state.shared.files ↔ t.registered filename ≠ none
  kept : ∀ filename content, t.registered filename = some content →
    Proper filename ∧ t.state.shared.disk.read (childOf filename) = some content

theorem Inv.immutable {t : Traced} (inv : Inv t) : Immutable t := by
  intro filename content registered
  obtain ⟨proper, read⟩ := inv.kept filename content registered
  rw [resolve_proper proper]
  exact read

theorem start_inv {s : State} (initial : Initial s) : Inv (start s) := by
  obtain ⟨regularFiles, map, exactly⟩ := initial.listed
  have key : ∀ f, f ∈ s.shared.files ↔ f ∈ regularFiles := by
    intro f
    rw [map, Std.TreeMap.mem_iff_isSome_getElem?, getElem?_initializeFileMap]
    split <;> simp_all
  have there : ∀ f ∈ s.shared.files, Proper f ∧
      ∃ content, s.shared.disk.read (childOf f) = some content := by
    intro f mem
    obtain ⟨proper, inode, entry⟩ := (exactly f).mp ((key f).mp mem)
    exact ⟨proper, _, Disk.read_eq_some.mpr ⟨inode, entry, rfl⟩⟩
  constructor
  · exact ReaderCounts.initial_exact initial
  · exact initial.wellFormed
  · exact initial.root
  · exact initial.database
  · simp [start, initial.idle]
  · simp [start, initial.idle]
  · simp [start, initial.idle]
  · intro f
    by_cases mem : f ∈ s.shared.files
    · obtain ⟨proper, content, read⟩ := there f mem
      simp [start, mem, resolve_proper proper, read]
    · simp [start, mem]
  · intro f content registered
    by_cases mem : f ∈ s.shared.files
    · obtain ⟨proper, _⟩ := there f mem
      simp only [start, mem, if_true, resolve_proper proper] at registered
      exact ⟨proper, registered⟩
    · simp [start, mem] at registered

/-- The thread at `i` is replaced or appended; the others stay where they are. -/
def Replaces (old new : List Handler) (i : Nat) (h : Handler) : Prop :=
  ∀ (j : Nat) (h' : Handler), new[j]? = some h' → (j ≠ i ∧ old[j]? = some h') ∨ (j = i ∧ h' = h)

theorem replaces_append (old : List Handler) (h : Handler) :
    Replaces old (old ++ [h]) old.length h := by
  intro j h' entry
  rcases Nat.lt_trichotomy j old.length with less | rfl | more
  · rw [List.getElem?_append_left less] at entry
    exact Or.inl ⟨Nat.ne_of_lt less, entry⟩
  · rw [List.getElem?_append_right (Nat.le_refl _)] at entry
    exact Or.inr ⟨rfl, by simpa using entry.symm⟩
  · rw [List.getElem?_eq_none (by simp; omega)] at entry
    cases entry

theorem replaces_set {old : List Handler} {i : Nat} (bound : i < old.length) (h : Handler) :
    Replaces old (old.set i h) i h := by
  intro j h' entry
  by_cases same : i = j
  · subst same
    rw [List.getElem?_set_self bound] at entry
    exact Or.inr ⟨rfl, (Option.some.inj entry).symm⟩
  · rw [List.getElem?_set_ne same] at entry
    exact Or.inl ⟨Ne.symm same, entry⟩

/-- What a step has to preserve, thread by thread. -/
theorem Inv.replace {t : Traced} (inv : Inv t) {s' : State}
    {registered' : Name → Option (List UInt8)} {i : Nat} {h : Handler}
    (replaces : Replaces t.state.handlers s'.handlers i h) (exact' : ReaderCounts.Exact s')
    (wf' : s'.shared.disk.WellFormed)
    (root' : s'.shared.disk.entries ⟨0, []⟩ = some .directory)
    (database' : s'.shared.disk.entries ⟨0, [databaseName]⟩ = some .directory)
    (noListing' : ∀ client loop, h ≠ .listing client loop)
    (others : ∀ (j : Nat) filename client inode loop, j ≠ i →
      t.state.handlers[j]? = some (.writing filename client inode loop) →
      filename ∉ s'.shared.files ∧
        s'.shared.disk.entries (childOf filename) = some (.file inode) ∧
        s'.shared.disk.contents inode = loop.content)
    (new : ∀ filename client inode loop, h = .writing filename client inode loop →
      (Proper filename ∧ filename ∉ s'.shared.files ∧ loop.status = .receiving ∧
        s'.shared.disk.entries (childOf filename) = some (.file inode) ∧
        s'.shared.disk.contents inode = loop.content) ∧
      ∀ (j : Nat) h', j ≠ i → t.state.handlers[j]? = some h' → ¬ uploads filename h')
    (listed' : ∀ filename, filename ∈ s'.shared.files ↔ registered' filename ≠ none)
    (kept' : ∀ filename content, registered' filename = some content →
      Proper filename ∧ s'.shared.disk.read (childOf filename) = some content) :
    Inv ⟨s', registered'⟩ := by
  have newUpload : ∀ filename, uploads filename h → ∀ (j : Nat) h', j ≠ i →
      t.state.handlers[j]? = some h' → ¬ uploads filename h' := by
    intro filename up
    cases h with
    | writing f client inode loop =>
      obtain rfl := uploads_writing.mp up
      exact (new f client inode loop rfl).2
    | _ => cases up
  refine ⟨exact', wf', root', database', ?_, ?_, ?_, listed', kept'⟩
  · intro client loop mem
    obtain ⟨j, entry⟩ := List.getElem?_of_mem mem
    rcases replaces j _ entry with ⟨_, old⟩ | ⟨_, same⟩
    · exact inv.noListing client loop (List.mem_of_getElem? old)
    · exact noListing' client loop same.symm
  · intro filename client inode loop mem
    obtain ⟨j, entry⟩ := List.getElem?_of_mem mem
    rcases replaces j _ entry with ⟨other, old⟩ | ⟨_, same⟩
    · obtain ⟨proper, _, live, _⟩ := inv.holds filename client inode loop (List.mem_of_getElem? old)
      obtain ⟨unlisted, node, content⟩ := others j filename client inode loop other old
      exact ⟨proper, unlisted, live, node, content⟩
    · exact (new filename client inode loop same.symm).1
  · intro j k filename hj hk entryj entryk upj upk
    rcases replaces j hj entryj with ⟨otherj, oldj⟩ | ⟨rfl, rfl⟩ <;>
      rcases replaces k hk entryk with ⟨otherk, oldk⟩ | ⟨rfl, rfl⟩
    · exact inv.single j k filename hj hk oldj oldk upj upk
    · exact absurd upj (newUpload filename upk j hj otherj oldj)
    · exact absurd upk (newUpload filename upj k hk otherk oldk)
    · rfl

/-- A step that leaves the disk and the listed names alone and adds no upload. -/
theorem Inv.idle {t : Traced} (inv : Inv t) {s' : State} {i : Nat} {h : Handler}
    (replaces : Replaces t.state.handlers s'.handlers i h) (exact' : ReaderCounts.Exact s')
    (disk : s'.shared.disk = t.state.shared.disk)
    (names : ∀ f, f ∈ s'.shared.files ↔ f ∈ t.state.shared.files)
    (noListing' : ∀ client loop, h ≠ .listing client loop)
    (noUpload : ∀ filename client inode loop, h ≠ .writing filename client inode loop) :
    Inv ⟨s', t.registered⟩ := by
  refine inv.replace replaces exact' ?_ ?_ ?_ noListing' ?_ ?_ ?_ ?_
  · rw [disk]
    exact inv.wf
  · rw [disk]
    exact inv.root
  · rw [disk]
    exact inv.database
  · intro j filename client inode loop _ entry
    obtain ⟨_, unlisted, _, node, content⟩ :=
      inv.holds filename client inode loop (List.mem_of_getElem? entry)
    rw [disk, names]
    exact ⟨unlisted, node, content⟩
  · exact fun filename client inode loop same => absurd same (noUpload filename client inode loop)
  · intro filename
    rw [names]
    exact inv.listed filename
  · rw [disk]
    exact inv.kept

theorem addReaders_names {files : FileMap} {filename : Name} (mem : filename ∈ files) (n : Int)
    (f : Name) : f ∈ addReaders files filename n ↔ f ∈ files := by
  rw [mem_addReaders]
  exact ⟨fun h => h.elim (fun same => same ▸ mem) id, Or.inr⟩

/-- The turns of a read: the names stay, the disk stays, no upload starts. -/
theorem afterRead_idle (shared : Shared) {filename : Name} (mem : filename ∈ shared.files)
    (client : Addr) (turn : SendLoop × List Effect) :
    (afterRead shared filename client turn).shared.disk = shared.disk ∧
      (∀ f, f ∈ (afterRead shared filename client turn).shared.files ↔ f ∈ shared.files) ∧
      (∀ client' loop, (afterRead shared filename client turn).handler ≠ .listing client' loop) ∧
      ∀ f client' inode loop,
        (afterRead shared filename client turn).handler ≠ .writing f client' inode loop := by
  unfold afterRead
  split
  · exact ⟨rfl, fun f => Iff.rfl, by simp, by simp⟩
  · exact ⟨rfl, addReaders_names mem (-1), by simp, by simp⟩

/-- A request that is turned away. -/
theorem Inv.refused {t : Traced} (inv : Inv t) {turn : Turn} (shared : turn.shared = t.state.shared)
    (done : turn.handler = .done)
    (exact' : ReaderCounts.Exact ⟨turn.shared, t.state.handlers ++ [turn.handler]⟩) :
    Inv ⟨⟨turn.shared, t.state.handlers ++ [turn.handler]⟩, t.registered⟩ :=
  inv.idle (replaces_append _ _) exact' (by rw [shared]) (by simp [shared]) (by simp [done])
    (by simp [done])

theorem read_inv {t : Traced} (inv : Inv t) (filename : Name) (client : Addr)
    (ackBuffer : Buffer 4) (env : Environment) (exact' : ReaderCounts.Exact
      (Server.step t.state (.request (.read filename) client ackBuffer env))) :
    Inv (traced.step t (.request (.read filename) client ackBuffer env)) := by
  by_cases mem : filename ∈ t.state.shared.files
  · have up := mem_addReaders t.state.shared.files filename filename 1
    obtain ⟨disk, names, noListing, noUpload⟩ := afterRead_idle
      { t.state.shared with files := addReaders t.state.shared.files filename 1 }
      (up.mpr (Or.inl rfl)) client
      (readTop client (contentAt t.state.shared env (filePath filename)) env.io (.start ackBuffer))
    have turn : begin t.state.shared client ackBuffer env (.read filename) = _ :=
      handleReadRequest_known mem client ackBuffer env
    refine inv.idle (replaces_append _ _) exact' ?_ ?_ ?_ ?_
    · exact (congrArg (fun turn => turn.shared.disk) turn).trans disk
    · intro f
      simp only [Server.step, turnOf, turn]
      rw [names f]
      exact addReaders_names mem 1 f
    · simpa only [turnOf, turn] using noListing
    · simpa only [turnOf, turn] using noUpload
  · have turn : begin t.state.shared client ackBuffer env (.read filename) = _ :=
      handleReadRequest_unknown mem client ackBuffer env
    exact inv.refused (congrArg Turn.shared turn) (congrArg Turn.handler turn) exact'

theorem write_inv {t : Traced} (inv : Inv t) {filename : Name} (plain : Plain filename)
    (client : Addr) (ackBuffer : Buffer 4) (env : Environment)
    (exclusive : Exclusive t.state (.request (.write filename) client ackBuffer env))
    (exact' : ReaderCounts.Exact
      (Server.step t.state (.request (.write filename) client ackBuffer env))) :
    Inv (traced.step t (.request (.write filename) client ackBuffer env)) := by
  rcases handleWriteRequest_cases t.state.shared filename client env with
    ⟨done, same⟩ | ⟨disk, inode, mem, opened, handler, shared⟩
  · exact inv.refused same done exact'
  · obtain ⟨opens, proper, place⟩ :=
      openWrite_proper inv.wf inv.root inv.database plain opened
    have alone := exclusive mem opens
    obtain ⟨wf', _, node, empty, rest⟩ := Disk.openWrite_spec inv.wf place
    have apart : ∀ f, f ≠ filename → childOf f ≠ childOf filename := fun f => mt childOf_injective
    have upper : ∀ l, (∀ f, l ≠ childOf f) → disk.entries l = t.state.shared.disk.entries l :=
      fun l notChild => (rest l (notChild filename)).1
    refine inv.replace (i := t.state.handlers.length) (replaces_append _ _) exact' ?_ ?_ ?_ ?_ ?_
      ?_ ?_ ?_
    all_goals simp only [Server.step, turnOf, begin, handler, shared]
    · exact wf'
    · rw [upper _ (by simp [childOf])]
      exact inv.root
    · rw [upper _ (by simp [childOf])]
      exact inv.database
    · simp
    · intro j f client' i loop _ entry
      have member := List.mem_of_getElem? entry
      obtain ⟨_, unlisted, _, node', content'⟩ := inv.holds f client' i loop member
      have other : f ≠ filename := fun same => alone _ member (uploads_writing.mpr same)
      obtain ⟨entries, contents⟩ := rest (childOf f) (apart f other)
      exact ⟨unlisted, entries.trans node', (contents i node').trans content'⟩
    · intro f client' i loop same
      cases same
      exact ⟨⟨proper, mem, rfl, node, empty⟩,
        fun j h' _ entry => alone h' (List.mem_of_getElem? entry)⟩
    · exact inv.listed
    · intro f content registered
      obtain ⟨proper', read⟩ := inv.kept f content registered
      have other : f ≠ filename := by
        rintro rfl
        have listed : t.registered f = some content := registered
        exact mem ((inv.listed f).mpr (by simp [listed]))
      obtain ⟨i, node', content'⟩ := Disk.read_eq_some.mp read
      obtain ⟨entries, contents⟩ := rest (childOf f) (apart f other)
      exact ⟨proper', Disk.read_eq_some.mpr
        ⟨i, entries.trans node', (contents i node').trans content'⟩⟩

theorem delete_inv {t : Traced} (inv : Inv t) (filename : Name) (client : Addr)
    (ackBuffer : Buffer 4) (env : Environment) (exact' : ReaderCounts.Exact
      (Server.step t.state (.request (.delete filename) client ackBuffer env))) :
    Inv (traced.step t (.request (.delete filename) client ackBuffer env)) := by
  have done := handleDeleteRequest_done t.state.shared filename client env
  rcases ReaderCounts.delete_cases inv.exact_ filename client env with
    ⟨ack, deleted⟩ | ⟨refused, same⟩
  · have listed := deleted.listed
    obtain ⟨content, registered⟩ := Option.ne_none_iff_exists'.mp ((inv.listed filename).mp listed)
    obtain ⟨proper, _⟩ := inv.kept filename content registered
    have apart : ∀ f, f ≠ filename → childOf f ≠ childOf filename := fun f => mt childOf_injective
    have record : (traced.step t (.request (.delete filename) client ackBuffer env)).registered =
        Function.update t.registered filename none := if_pos ack
    have shared : (turnOf t.state (.request (.delete filename) client ackBuffer env)).shared =
        { files := t.state.shared.files.erase filename
          disk := t.state.shared.disk.remove (childOf filename) } := deleted.shared proper
    have entries := fun l =>
      t.state.shared.disk.remove_entries_of_ne (k := l) (l := childOf filename)
    change Inv ⟨_, (traced.step t (.request (.delete filename) client ackBuffer env)).registered⟩
    rw [record]
    refine inv.replace (i := t.state.handlers.length) (replaces_append _ _) exact' ?_ ?_ ?_
      (fun client' loop same => absurd (done.symm.trans same) (by simp)) ?_
      (fun f client' i loop same => absurd (done.symm.trans same) (by simp)) ?_ ?_
    all_goals simp only [Server.step, shared]
    · exact Disk.remove_wellFormed inv.wf _
    · rw [entries _ (by simp [childOf])]
      exact inv.root
    · rw [entries _ (by simp [childOf])]
      exact inv.database
    · intro j f client' i loop _ entry
      obtain ⟨_, unlisted, _, node, held⟩ :=
        inv.holds f client' i loop (List.mem_of_getElem? entry)
      have other : f ≠ filename := fun same => unlisted (same ▸ listed)
      rw [entries _ (apart f other)]
      exact ⟨fun mem => unlisted (Std.TreeMap.mem_erase.mp mem).2, node, held⟩
    · intro f
      rw [Std.TreeMap.mem_erase, inv.listed f]
      by_cases same : f = filename
      · simp [same]
      · simp [same, Ne.symm same]
    · intro f content' kept
      by_cases same : f = filename
      · simp [same] at kept
      · rw [Function.update_of_ne same] at kept
        obtain ⟨proper', read⟩ := inv.kept f content' kept
        refine ⟨proper', ?_⟩
        simp only [Disk.read, entries _ (apart f same)]
        exact read
  · have record : (traced.step t (.request (.delete filename) client ackBuffer env)).registered =
        t.registered := if_neg refused
    change Inv ⟨_, (traced.step t (.request (.delete filename) client ackBuffer env)).registered⟩
    rw [record]
    exact inv.refused same done exact'

theorem readTurn_inv {t : Traced} (inv : Inv t) {i : Nat} {filename : Name} {client : Addr}
    {loop : SendLoop} (entry : t.state.handlers[i]? = some (.reading filename client loop))
    (e : Recv) (env : Environment)
    (exact' : ReaderCounts.Exact (Server.step t.state (.turn i e env))) :
    Inv (traced.step t (.turn i e env)) := by
  obtain ⟨bound, value⟩ := List.getElem?_eq_some_iff.mp entry
  have active : 0 < ReaderCounts.readers filename t.state.handlers :=
    List.countP_pos_iff.mpr ⟨_, List.mem_of_getElem? entry, by simp [ReaderCounts.reads]⟩
  have mem := (inv.exact_ filename).2 (Int.ofNat_lt.mpr active)
  obtain ⟨disk, names, noListing, noUpload⟩ := afterRead_idle t.state.shared mem client
    (readStep client (contentAt t.state.shared env (filePath filename)) loop e env.io)
  have turn :
      turnOf t.state (.turn i e env) = readTurn t.state.shared filename client loop e env :=
    turnOf_turn entry e env
  have record : (traced.step t (.turn i e env)).registered = t.registered := by
    simp only [traced, record, current_handler entry]
  change Inv ⟨_, (traced.step t (.turn i e env)).registered⟩
  rw [record]
  refine inv.idle (i := i) (replaces_set bound _) exact' ?_ ?_ ?_ ?_
  · exact (congrArg (fun turn => turn.shared.disk) turn).trans disk
  · intro f
    simp only [Server.step, turn]
    exact names f
  · rw [turn]
    exact noListing
  · rw [turn]
    exact noUpload

/-- Two uploads in their loops are of two names and write to two files. -/
theorem Inv.elsewhere {t : Traced} (inv : Inv t) {i j : Nat} {filename f : Name}
    {client client' : Addr} {inode node : Nat} {loop loop' : WriteLoop}
    (entry : t.state.handlers[i]? = some (.writing filename client inode loop))
    (entry' : t.state.handlers[j]? = some (.writing f client' node loop')) (other : j ≠ i) :
    f ≠ filename ∧ node ≠ inode := by
  obtain ⟨_, _, _, here, _⟩ := inv.holds _ _ _ _ (List.mem_of_getElem? entry)
  obtain ⟨_, _, _, there, _⟩ := inv.holds _ _ _ _ (List.mem_of_getElem? entry')
  have ne : f ≠ filename := fun same =>
    other (inv.single j i f _ _ entry' entry (uploads_writing.mpr rfl)
      (uploads_writing.mpr same.symm))
  refine ⟨ne, ?_⟩
  rintro rfl
  exact ne (childOf_injective (inv.wf.single _ _ _ there here))

/-- An upload that ends enters its name in the map and in the record. -/
theorem listed_register {files : FileMap} {registered : Name → Option (List UInt8)}
    (listed : ∀ f, f ∈ files ↔ registered f ≠ none) (filename : Name) (content : List UInt8)
    (f : Name) : f ∈ files.insertIfNew filename 0 ↔
      Function.update registered filename (some content) f ≠ none := by
  rw [mem_insertIfNew, listed f]
  by_cases same : f = filename
  · simp [same]
  · simp [same]

theorem writeTurn_inv {t : Traced} (inv : Inv t) {i : Nat} {filename : Name} {client : Addr}
    {inode : Nat} {loop : WriteLoop}
    (entry : t.state.handlers[i]? = some (.writing filename client inode loop))
    (e : Recv) (env : Environment)
    (exact' : ReaderCounts.Exact (Server.step t.state (.turn i e env))) :
    Inv (traced.step t (.turn i e env)) := by
  obtain ⟨bound, value⟩ := List.getElem?_eq_some_iff.mp entry
  have current := current_handler entry
  obtain ⟨proper, unlisted, _, node, held⟩ :=
    inv.holds filename client inode loop (List.mem_of_getElem? entry)
  have turn : turnOf t.state (.turn i e env) =
      writeTurn t.state.shared filename client inode loop e env := turnOf_turn entry e env
  let next := (writeStep client loop e env.io).1
  let disk := t.state.shared.disk.writeAt inode loop.content.length
    (writes (writeStep client loop e env.io).2).flatten
  have stored : disk.contents inode = next.content := by
    simp only [disk, next, Disk.contents_writeAt_end held, writeStep_content]
  have keep : ∀ f, f ≠ filename → disk.read (childOf f) = t.state.shared.disk.read (childOf f) :=
    fun f other => Disk.read_writeAt_of_ne inv.wf node (mt childOf_injective other) _ _
  have record : (traced.step t (.turn i e env)).registered =
      if next.status = .received then Function.update t.registered filename (some next.content)
      else t.registered := by
    simp only [traced, record, current, unlisted, not_false_eq_true, and_true, next]
  change Inv ⟨_, (traced.step t (.turn i e env)).registered⟩
  rw [record]
  refine inv.replace (i := i) (replaces_set bound _) exact' ?_ ?_ ?_ ?_ ?_ ?_ ?_ ?_
  all_goals simp only [Server.step, turn, writeTurn]
  · exact Disk.writeAt_wellFormed inv.wf _ _ _
  · exact inv.root
  · exact inv.database
  · intro client' loop'
    split <;> simp
  · intro j f client' i' loop' other entry'
    obtain ⟨_, unlisted', _, node', held'⟩ :=
      inv.holds f client' i' loop' (List.mem_of_getElem? entry')
    obtain ⟨ne, inodes⟩ := inv.elsewhere entry entry' other
    refine ⟨?_, node', (Function.update_of_ne inodes _ _).trans held'⟩
    split
    · intro mem
      exact ((mem_insertIfNew _ _ _).mp mem).elim ne unlisted'
    · exact unlisted'
  · intro f client' i' loop' same
    split at same
    · rename_i live
      cases same
      refine ⟨⟨proper, ?_, live, node, stored⟩, ?_⟩
      · rw [if_neg (by rw [live]; simp)]
        exact unlisted
      · intro j h' other entry' up
        exact other (inv.single j i filename _ _ entry' entry up (uploads_writing.mpr rfl))
    · cases same
    · cases same
  · intro f
    by_cases received : next.status = .received
    · rw [if_pos received, if_pos received]
      exact listed_register inv.listed filename next.content f
    · rw [if_neg received, if_neg received]
      exact inv.listed f
  · intro f content kept
    by_cases same : f = filename
    · subst same
      by_cases received : next.status = .received
      · rw [if_pos received, Function.update_self] at kept
        refine ⟨proper, Disk.read_eq_some.mpr ⟨inode, node, ?_⟩⟩
        exact stored.trans (Option.some.inj kept)
      · rw [if_neg received] at kept
        exact absurd ((inv.listed f).mpr (by simp [show t.registered f = some content from kept]))
          unlisted
    · have old : t.registered f = some content := by
        split at kept
        · rwa [Function.update_of_ne same] at kept
        · exact kept
      obtain ⟨proper', read⟩ := inv.kept f content old
      exact ⟨proper', (keep f same).trans read⟩

theorem step_inv (t : Traced) (a : Action)
    (enabled : (traced.restrict fun t a => InDomain a ∧ Exclusive t.state a).enabled t a)
    (inv : Inv t) :
    Inv ((traced.restrict fun t a => InDomain a ∧ Exclusive t.state a).step t a) := by
  obtain ⟨enabled, domain, exclusive⟩ := enabled
  have exact' := ReaderCounts.step_exact t.state a enabled inv.exact_
  cases a with
  | request r client ackBuffer env =>
    cases r with
    | read filename => exact read_inv inv filename client ackBuffer env exact'
    | write filename => exact write_inv inv domain client ackBuffer env exclusive exact'
    | delete filename => exact delete_inv inv filename client ackBuffer env exact'
    | list => exact False.elim domain
  | turn i e env =>
    obtain ⟨h, entry, active⟩ := enabled.2
    cases h with
    | reading filename client loop => exact readTurn_inv inv entry e env exact'
    | writing filename client inode loop => exact writeTurn_inv inv entry e env exact'
    | listing client loop =>
      exact absurd (List.mem_of_getElem? entry) (inv.noListing client loop)
    | done => cases active
    | undefined => cases active

/-- If uploads of one name do not overlap, a registered file stays as it was registered. -/
theorem registered_immutable {s : State} {acts : List Action} {t : Traced} (initial : Initial s)
    (run : Run (traced.restrict fun t a => InDomain a ∧ Exclusive t.state a) (start s) acts t) :
    Immutable t ∧ ∀ filename, filename ∈ t.state.shared.files ↔ t.registered filename ≠ none := by
  have inv : Inv t := run.invariant step_inv (start_inv initial)
  exact ⟨inv.immutable, inv.listed⟩

def writer : Addr := ⟨0x7F000001, 40000⟩

def rival : Addr := ⟨0x7F000001, 40001⟩

def oneUpload : Traced :=
  traced.step (traced.step (start (startedWith (text "f") [7]))
      (.request (.write (text "g")) writer (Buffer.zero 4) .ok))
    (.turn 0 (.datagram writer [0, 3, 0, 1, 8, 9]) .ok)

theorem registered_immutable_one_upload :
    oneUpload.registered (text "g") = some [8, 9] ∧
      oneUpload.state.shared.disk.read (resolve (filePath (text "g"))) = some [8, 9] := by
  have registered : oneUpload.registered (text "g") = some [8, 9] := by decide
  have run : Run (traced.restrict fun t a => InDomain a ∧ Exclusive t.state a)
      (start (startedWith (text "f") [7]))
      ([] ++ [.request (.write (text "g")) writer (Buffer.zero 4) .ok] ++
        [.turn 0 (.datagram writer [0, 3, 0, 1, 8, 9]) .ok]) oneUpload := by
    refine .snoc (.snoc (.refl _) ⟨⟨by decide, trivial⟩, ?_, ?_⟩)
      ⟨⟨by decide, _, rfl, rfl⟩, trivial, trivial⟩
    · show slash ∉ text "g"
      decide
    · intro _ _ h mem
      cases mem
  exact ⟨registered,
    (registered_immutable (startedWith_initial (by decide) [7]) run).1 _ _ registered⟩

/-- A second upload of `g` passes the test before the first one ends, and overwrites
the front of the file that the first one registers. -/
def twoUploads : Traced :=
  traced.step (traced.step (traced.step (traced.step (start (startedWith (text "f") [7]))
      (.request (.write (text "g")) writer (Buffer.zero 4) .ok))
      (.request (.write (text "g")) rival (Buffer.zero 4) .ok))
      (.turn 0 (.datagram writer [0, 3, 0, 1, 8, 9]) .ok))
    (.turn 1 (.datagram rival [0, 3, 0, 1, 1]) .ok)

theorem overlapping_uploads_mix :
    (∃ acts, Run (traced.restrict fun _ a => InDomain a) (start (startedWith (text "f") [7]))
      acts twoUploads) ∧
    twoUploads.registered (text "g") = some [8, 9] ∧
    twoUploads.state.shared.disk.read (resolve (filePath (text "g"))) = some [1, 9] ∧
    ¬ Immutable twoUploads := by
  have registered : twoUploads.registered (text "g") = some [8, 9] := by decide
  have mixed : twoUploads.state.shared.disk.read (resolve (filePath (text "g"))) = some [1, 9] := by
    decide
  have plain : Plain (text "g") := by
    show slash ∉ text "g"
    decide
  refine ⟨⟨_, .snoc (.snoc (.snoc (.snoc (.refl _) ⟨⟨by decide, trivial⟩, plain⟩)
    ⟨⟨by decide, trivial⟩, plain⟩) ⟨⟨by decide, _, rfl, rfl⟩, trivial⟩)
    ⟨⟨by decide, _, rfl, rfl⟩, trivial⟩⟩, registered, mixed, ?_⟩
  intro immutable
  have same := (immutable _ _ registered).symm.trans mixed
  exact absurd same (by decide)

end TFTP.Immutability
