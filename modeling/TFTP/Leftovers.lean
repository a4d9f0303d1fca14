import TFTP.Immutability

/-!
# Files that no entry of the map stands for

The map and the disk change at different moments: an upload creates its file at once and
enters its name at its end, and a listing is written to a file that is never entered. No
exit of a handler removes what it has left. The files on the disk are the keys of the map
together with these leftovers, which a restart enters like any other file.
-/

namespace TFTP.Leftovers

open Octets Packet Sockets FileSystem Runs Server
open Immutability (uploads uploads_writing)

def lsName : Name := text "ls.txt"

/-- A regular file of the database directory. -/
def Regular (disk : Disk) (filename : Name) : Prop :=
  Proper filename ∧ ∃ inode, disk.entries (childOf filename) = some (.file inode)

/-- The server together with the names of files that are left over. -/
structure Ledger where
  state : State
  leftover : Name → Prop

/-- A listing leaves its file, unless the name is registered. An upload that ends leaves its
file, unless it registers it. -/
def record (leftover : Name → Prop) (s : State) : Action → Name → Prop
  | .request .list _ _ env => fun f => leftover f ∨
      (f = lsName ∧ f ∉ s.shared.files ∧ openWrite s.shared env lsPath ≠ none)
  | .turn i e env =>
    match s.handlers.getD i .done with
    | .writing filename client _ loop =>
      match (writeStep client loop e env.io).1.status with
      | .receiving => leftover
      | .received => fun f => leftover f ∧ f ≠ filename
      | _ => fun f => leftover f ∨ f = filename
    | _ => leftover
  | _ => leftover

def start (s : State) : Ledger := ⟨s, fun _ => False⟩

def ledger : Machine Ledger Action where
  enabled := fun t a => Enabled t.state a
  step := fun t a => ⟨Server.step t.state a, record t.leftover t.state a⟩

/-- Requests of all four kinds for plain filenames. -/
def PlainAction : Action → Prop
  | .request (.read filename) _ _ _ => Plain filename
  | .request (.write filename) _ _ _ => Plain filename
  | .request (.delete filename) _ _ _ => Plain filename
  | _ => True

def uploading (filename : Name) (handlers : List Handler) : Nat :=
  handlers.countP (uploads filename)

/-- What one handler adds to the count. -/
def share (filename : Name) (h : Handler) : Nat := if uploads filename h then 1 else 0

theorem uploading_append (f : Name) (handlers : List Handler) (h : Handler) :
    uploading f (handlers ++ [h]) = uploading f handlers + share f h := by
  rw [uploading, List.countP_append, List.countP_singleton]
  rfl

theorem uploading_set {handlers : List Handler} {i : Nat} {before : Handler}
    (entry : handlers[i]? = some before) (f : Name) (h : Handler) :
    uploading f (handlers.set i h) + share f before = uploading f handlers + share f h := by
  obtain ⟨bound, value⟩ := List.getElem?_eq_some_iff.mp entry
  have counted := List.boole_getElem_le_countP (p := uploads f) bound
  simp only [uploading, share, List.countP_set bound, value] at counted ⊢
  split_ifs at counted ⊢ <;> omega

theorem share_writing (f filename : Name) (client : Addr) (inode : Nat) (loop : WriteLoop) :
    share f (.writing filename client inode loop) = if filename = f then 1 else 0 := by
  simp only [share, uploads_writing]

theorem share_other {h : Handler} (noUpload : ∀ f c i l, h ≠ .writing f c i l) (f : Name) :
    share f h = 0 := by
  cases h with
  | writing g c i l => exact absurd rfl (noUpload g c i l)
  | _ => rfl

/-- The condition on uploads of one name, as a count. -/
theorem exclusive_uploading {s : State} {filename : Name} {client : Addr} {ackBuffer : Buffer 4}
    {env : Environment}
    (exclusive : Immutability.Exclusive s (.request (.write filename) client ackBuffer env))
    (new : filename ∉ s.shared.files) (opens : env.openFails = false) :
    uploading filename s.handlers = 0 := by
  rw [uploading, List.countP_eq_zero]
  intro h mem up
  cases h with
  | writing f client inode loop =>
    exact exclusive new opens _ mem up
  | _ => cases up

structure Settled (s : State) (leftover : Name → Prop) (f : Name) : Prop where
  once : uploading f s.handlers ≤ 1
  fresh : 0 < uploading f s.handlers → Regular s.shared.disk f ∧ f ∉ s.shared.files
  listed : f ∈ s.shared.files → Regular s.shared.disk f ∧ ¬ leftover f
  left : leftover f → Regular s.shared.disk f
  covered : Regular s.shared.disk f →
    f ∈ s.shared.files ∨ leftover f ∨ 0 < uploading f s.handlers

theorem Settled.congr {s s' : State} {leftover leftover' : Name → Prop} {f : Name}
    (settled : Settled s leftover f) (names : f ∈ s'.shared.files ↔ f ∈ s.shared.files)
    (regular : Regular s'.shared.disk f ↔ Regular s.shared.disk f)
    (count : uploading f s'.handlers = uploading f s.handlers) (left : leftover' f ↔ leftover f) :
    Settled s' leftover' f := by
  obtain ⟨once, fresh, listed, left_, covered⟩ := settled
  constructor
  · rw [count]
    exact once
  · rw [count, names, regular]
    exact fresh
  · rw [names, regular, left]
    exact listed
  · rw [left, regular]
    exact left_
  · rw [regular, names, left, count]
    exact covered

/-- A file appears under a name outside of any upload: it is left over unless it is listed. -/
theorem Settled.joins {s s' : State} {leftover leftover' : Name → Prop} {name f : Name}
    (settled : Settled s leftover f) (files : s'.shared.files = s.shared.files)
    (regular : Regular s'.shared.disk f ↔ f = name ∨ Regular s.shared.disk f)
    (count : uploading f s'.handlers = uploading f s.handlers)
    (left : leftover' f ↔ leftover f ∨ (f = name ∧ f ∉ s.shared.files)) :
    Settled s' leftover' f := by
  obtain ⟨once, new, listed, left_, covered⟩ := settled
  have known : f ∈ s'.shared.files ↔ f ∈ s.shared.files := by rw [files]
  constructor
  · exact count.trans_le once
  all_goals simp only [count, left, regular, known]
  · intro active
    exact ⟨Or.inr (new active).1, (new active).2⟩
  · intro there
    refine ⟨Or.inr (listed there).1, ?_⟩
    rintro (old | ⟨_, absent⟩)
    · exact (listed there).2 old
    · exact absent there
  · rintro (old | ⟨same, _⟩)
    · exact Or.inr (left_ old)
    · exact Or.inl same
  · rintro (same | old)
    · by_cases there : f ∈ s.shared.files
      · exact Or.inl there
      · exact Or.inr (Or.inl (Or.inr ⟨same, there⟩))
    · rcases covered old with there | left | active
      · exact Or.inl there
      · exact Or.inr (Or.inl (Or.inl left))
      · exact Or.inr (Or.inr active)

structure Inv (t : Ledger) : Prop where
  exact_ : ReaderCounts.Exact t.state
  wf : t.state.shared.disk.WellFormed
  root : t.state.shared.disk.entries ⟨0, []⟩ = some .directory
  database : t.state.shared.disk.entries ⟨0, [databaseName]⟩ = some .directory
  settled : ∀ f, Settled t.state t.leftover f

/-- When no upload is in its loop, the files are the keys and the leftovers. -/
theorem Inv.agreement {t : Ledger} (inv : Inv t)
    (idle : ∀ h ∈ t.state.handlers, h.active = false) (f : Name) :
    (Regular t.state.shared.disk f ↔ f ∈ t.state.shared.files ∨ t.leftover f) ∧
      (t.leftover f → f ∉ t.state.shared.files) := by
  have settled := inv.settled f
  have none : uploading f t.state.handlers = 0 := by
    rw [uploading, List.countP_eq_zero]
    intro h mem up
    have inactive := idle h mem
    cases h with
    | writing => cases inactive
    | _ => cases up
  refine ⟨⟨?_, ?_⟩, ?_⟩
  · intro regular
    rcases settled.covered regular with listed | left | active
    · exact Or.inl listed
    · exact Or.inr left
    · rw [none] at active
      cases active
  · rintro (listed | left)
    · exact (settled.listed listed).1
    · exact settled.left left
  · intro left listed
    exact (settled.listed listed).2 left

theorem regular_congr {disk disk' : Disk} (entries : disk'.entries = disk.entries) (f : Name) :
    Regular disk' f ↔ Regular disk f := by
  rw [Regular, Regular, entries]

/-- A step that changes neither names nor entries nor the uploads in their loops. -/
theorem Inv.still {t : Ledger} (inv : Inv t) {s' : State} (exact' : ReaderCounts.Exact s')
    (names : ∀ f, f ∈ s'.shared.files ↔ f ∈ t.state.shared.files)
    (entries : s'.shared.disk.entries = t.state.shared.disk.entries)
    (next : s'.shared.disk.fresh = t.state.shared.disk.fresh)
    (count : ∀ f, uploading f s'.handlers = uploading f t.state.handlers) :
    Inv ⟨s', t.leftover⟩ := by
  constructor
  · exact exact'
  · exact Disk.wellFormed_congr inv.wf entries next
  · exact (congrFun entries _).trans inv.root
  · exact (congrFun entries _).trans inv.database
  · intro f
    exact (inv.settled f).congr (names f) (regular_congr entries f) (count f) Iff.rfl

/-- What opening a file for writing makes of the disk. -/
structure Opens (disk disk' : Disk) (filename : Name) : Prop where
  wf : disk'.WellFormed
  root : disk'.entries ⟨0, []⟩ = some .directory
  database : disk'.entries ⟨0, [databaseName]⟩ = some .directory
  regular : ∀ f, Regular disk' f ↔ f = filename ∨ Regular disk f

theorem Inv.opens {t : Ledger} (inv : Inv t) {filename : Name} (proper : Proper filename)
    {disk : Disk} {inode : Nat}
    (opened : t.state.shared.disk.openWrite (childOf filename) = some (disk, inode)) :
    Opens t.state.shared.disk disk filename := by
  obtain ⟨wf, _, node, _, rest⟩ := Disk.openWrite_spec inv.wf opened
  constructor
  · exact wf
  · rw [(rest _ (by simp [childOf])).1]
    exact inv.root
  · rw [(rest _ (by simp [childOf])).1]
    exact inv.database
  · intro f
    by_cases same : f = filename
    · subst same
      exact ⟨fun _ => Or.inl rfl, fun _ => ⟨proper, inode, node⟩⟩
    · have entries := (rest (childOf f) fun place => same (childOf_injective place)).1
      rw [Regular, Regular, entries]
      exact ⟨Or.inr, fun h => h.resolve_left same⟩

theorem read_inv {t : Ledger} (inv : Inv t) (filename : Name) (client : Addr)
    (ackBuffer : Buffer 4) (env : Environment) (exact' : ReaderCounts.Exact
      (Server.step t.state (.request (.read filename) client ackBuffer env))) :
    Inv (ledger.step t (.request (.read filename) client ackBuffer env)) := by
  have idle : (∀ f, f ∈ (begin t.state.shared client ackBuffer env (.read filename)).shared.files ↔
      f ∈ t.state.shared.files) ∧
      (begin t.state.shared client ackBuffer env (.read filename)).shared.disk =
        t.state.shared.disk ∧
      ∀ f, share f (begin t.state.shared client ackBuffer env (.read filename)).handler = 0 := by
    simp only [begin, handleReadRequest]
    split
    · rename_i there
      have mem := fileExists_iff.mp there
      have up := mem_addReaders t.state.shared.files filename filename 1
      obtain ⟨disk, names, _, noUpload⟩ := Immutability.afterRead_idle
        { t.state.shared with files := addReaders t.state.shared.files filename 1 }
        (up.mpr (Or.inl rfl)) client
        (readTop client (contentAt t.state.shared env (filePath filename)) env.io
          (.start ackBuffer))
      refine ⟨?_, disk, ?_⟩
      · intro f
        rw [names f]
        exact Immutability.addReaders_names mem 1 f
      · exact share_other noUpload
    · exact ⟨fun f => Iff.rfl, rfl, fun f => rfl⟩
  obtain ⟨names, disk, noUpload⟩ := idle
  refine inv.still exact' names (congrArg Disk.entries disk) (congrArg Disk.fresh disk) ?_
  intro f
  refine (uploading_append f _ _).trans ?_
  simp only [turnOf, noUpload, Nat.add_zero]

/-- A request that is turned away. -/
theorem Inv.refused {t : Ledger} (inv : Inv t) {turn : Turn} (shared : turn.shared = t.state.shared)
    (done : turn.handler = .done)
    (exact' : ReaderCounts.Exact ⟨turn.shared, t.state.handlers ++ [turn.handler]⟩) :
    Inv ⟨⟨turn.shared, t.state.handlers ++ [turn.handler]⟩, t.leftover⟩ := by
  refine inv.still exact' ?_ ?_ ?_ ?_
  · intro f
    rw [shared]
  · rw [shared]
  · rw [shared]
  · intro f
    rw [uploading_append, done]
    rfl

theorem write_inv {t : Ledger} (inv : Inv t) {filename : Name} (plain : Plain filename)
    (client : Addr) (ackBuffer : Buffer 4) (env : Environment)
    (exclusive : Immutability.Exclusive t.state (.request (.write filename) client ackBuffer env))
    (exact' : ReaderCounts.Exact
      (Server.step t.state (.request (.write filename) client ackBuffer env))) :
    Inv (ledger.step t (.request (.write filename) client ackBuffer env)) := by
  rcases handleWriteRequest_cases t.state.shared filename client env with
    ⟨done, same⟩ | ⟨disk, inode, mem, opened, handler, shared⟩
  · exact inv.refused same done exact'
  · obtain ⟨openable, proper, place⟩ :=
      openWrite_proper inv.wf inv.root inv.database plain opened
    have alone := exclusive_uploading exclusive mem openable
    have opens := inv.opens proper place
    have count : ∀ f, uploading f
        (t.state.handlers ++ [.writing filename client inode WriteLoop.start]) =
        uploading f t.state.handlers + if filename = f then 1 else 0 := by
      intro f
      rw [uploading_append, share_writing]
    constructor
    · exact exact'
    all_goals simp only [ledger, Server.step, turnOf, begin, handler, shared]
    · exact opens.wf
    · exact opens.root
    · exact opens.database
    · intro f
      by_cases same : filename = f
      · subst same
        have before := inv.settled filename
        have one := count filename
        rw [alone, if_pos rfl] at one
        have regular := (opens.regular filename).mpr (Or.inl rfl)
        constructor
        · exact Nat.le_of_eq one
        · exact fun _ => ⟨regular, mem⟩
        · exact fun listed => absurd listed mem
        · exact fun _ => regular
        · exact fun _ => Or.inr (Or.inr (Nat.lt_of_lt_of_eq Nat.one_pos one.symm))
      · refine (inv.settled f).congr Iff.rfl ?_ ?_ Iff.rfl
        · exact (opens.regular f).trans
            ⟨fun h => h.resolve_left (Ne.symm same), Or.inr⟩
        · exact (count f).trans (by rw [if_neg same, Nat.add_zero])

theorem delete_inv {t : Ledger} (inv : Inv t) (filename : Name) (client : Addr)
    (ackBuffer : Buffer 4) (env : Environment) (exact' : ReaderCounts.Exact
      (Server.step t.state (.request (.delete filename) client ackBuffer env))) :
    Inv (ledger.step t (.request (.delete filename) client ackBuffer env)) := by
  have done := handleDeleteRequest_done t.state.shared filename client env
  rcases ReaderCounts.delete_cases inv.exact_ filename client env with ⟨_, deleted⟩ | ⟨_, same⟩
  · have listed := deleted.listed
    have before := inv.settled filename
    obtain ⟨⟨proper, _⟩, unleft⟩ := before.listed listed
    have idle : uploading filename t.state.handlers = 0 := by
      by_contra active
      exact (before.fresh (Nat.pos_of_ne_zero active)).2 listed
    have shared : (turnOf t.state (.request (.delete filename) client ackBuffer env)).shared =
        { files := t.state.shared.files.erase filename
          disk := t.state.shared.disk.remove (childOf filename) } := deleted.shared proper
    have entries := fun l =>
      t.state.shared.disk.remove_entries_of_ne (k := l) (l := childOf filename)
    have gone : ¬ Regular (t.state.shared.disk.remove (childOf filename)) filename := by
      rintro ⟨_, inode, entry⟩
      rw [Disk.remove_entries_self] at entry
      cases entry
    have count : ∀ f, uploading f (Server.step t.state
        (.request (.delete filename) client ackBuffer env)).handlers =
        uploading f t.state.handlers := by
      intro f
      refine (uploading_append f _ _).trans ?_
      rw [show (turnOf t.state (.request (.delete filename) client ackBuffer env)).handler = .done
        from done]
      rfl
    constructor
    · exact exact'
    all_goals simp only [ledger]
    · simp only [Server.step, shared]
      exact Disk.remove_wellFormed inv.wf _
    · simp only [Server.step, shared]
      rw [entries _ (by simp [childOf])]
      exact inv.root
    · simp only [Server.step, shared]
      rw [entries _ (by simp [childOf])]
      exact inv.database
    · intro f
      by_cases same : filename = f
      · subst same
        constructor
        · rw [count]
          exact before.once
        · intro active
          rw [count, idle] at active
          cases active
        · intro there
          simp only [Server.step, shared] at there
          exact absurd Std.ReflCmp.compare_self (Std.TreeMap.mem_erase.mp there).1
        · exact fun left => absurd left unleft
        · intro regular
          simp only [Server.step, shared] at regular
          exact absurd regular gone
      · refine (inv.settled f).congr ?_ ?_ (count f) Iff.rfl
        · simp only [Server.step, shared, Std.TreeMap.mem_erase]
          exact ⟨And.right, fun there => ⟨by simpa using same, there⟩⟩
        · simp only [Server.step, shared]
          rw [Regular, Regular,
            entries _ fun place => same (childOf_injective place).symm]
  · exact inv.refused same done exact'

theorem list_inv {t : Ledger} (inv : Inv t) (client : Addr) (ackBuffer : Buffer 4)
    (env : Environment) (exact' : ReaderCounts.Exact
      (Server.step t.state (.request .list client ackBuffer env))) :
    Inv (ledger.step t (.request .list client ackBuffer env)) := by
  cases opened : openWrite t.state.shared env lsPath with
  | none =>
    have turn : begin t.state.shared client ackBuffer env .list =
        ⟨.done, t.state.shared, [.truncates lsPath], []⟩ := by
      simp only [begin, handleLSRequest, opened]
    have unleft : record t.leftover t.state (.request .list client ackBuffer env) =
        t.leftover := by
      funext f
      simp only [record, opened, ne_eq, not_true_eq_false, and_false, or_false]
    change Inv ⟨_, record t.leftover t.state (.request .list client ackBuffer env)⟩
    rw [unleft]
    exact inv.refused (congrArg Turn.shared turn) (congrArg Turn.handler turn) exact'
  | some held =>
    obtain ⟨disk, inode⟩ := held
    have path : lsPath = filePath lsName := by decide
    have proper : Proper lsName := by decide
    obtain ⟨_, _, place⟩ := openWrite_proper inv.wf inv.root inv.database proper.1
      (path ▸ opened)
    have opens := inv.opens proper place
    have files : (begin t.state.shared client ackBuffer env .list).shared.files =
        t.state.shared.files := by
      simp only [begin, handleLSRequest, opened, afterList]
    have entries : (begin t.state.shared client ackBuffer env .list).shared.disk.entries =
        disk.entries := by
      simp only [begin, handleLSRequest, opened, afterList, Disk.writeAt]
    have fresh : (begin t.state.shared client ackBuffer env .list).shared.disk.fresh =
        disk.fresh := by
      simp only [begin, handleLSRequest, opened, afterList, Disk.writeAt]
    have noUpload : ∀ f, share f (begin t.state.shared client ackBuffer env .list).handler =
        0 := by
      intro f
      simp only [begin, handleLSRequest, opened, afterList]
      split_ifs <;> rfl
    have count : ∀ f, uploading f (Server.step t.state
        (.request .list client ackBuffer env)).handlers = uploading f t.state.handlers := by
      intro f
      refine (uploading_append f _ _).trans ?_
      simp only [turnOf, noUpload, Nat.add_zero]
    have left : ∀ f, record t.leftover t.state (.request .list client ackBuffer env) f ↔
        t.leftover f ∨ (f = lsName ∧ f ∉ t.state.shared.files) := by
      intro f
      simp only [record, opened, ne_eq, reduceCtorEq, not_false_eq_true, and_true]
    have regular : ∀ f, Regular (begin t.state.shared client ackBuffer env .list).shared.disk f ↔
        f = lsName ∨ Regular t.state.shared.disk f :=
      fun f => (regular_congr entries f).trans (opens.regular f)
    constructor
    · exact exact'
    · exact Disk.wellFormed_congr opens.wf entries fresh
    · exact (congrFun entries _).trans opens.root
    · exact (congrFun entries _).trans opens.database
    · intro f
      exact (inv.settled f).joins files (regular f) (count f) (left f)

/-- A turn of a handler that is no upload and changes neither names nor the disk. -/
theorem Inv.turned {t : Ledger} (inv : Inv t) {i : Nat} {h : Handler}
    (entry : t.state.handlers[i]? = some h) (noUpload : ∀ f c n l, h ≠ .writing f c n l)
    {e : Recv} {env : Environment}
    (disk : (advance t.state.shared e env h).shared.disk = t.state.shared.disk)
    (names : ∀ f, f ∈ (advance t.state.shared e env h).shared.files ↔ f ∈ t.state.shared.files)
    (noUpload' : ∀ f c n l, (advance t.state.shared e env h).handler ≠ .writing f c n l)
    (exact' : ReaderCounts.Exact (Server.step t.state (.turn i e env))) :
    Inv (ledger.step t (.turn i e env)) := by
  have current := current_handler entry
  have turn := turnOf_turn entry e env
  have unleft : record t.leftover t.state (.turn i e env) = t.leftover := by
    cases h with
    | writing f c n l => exact absurd rfl (noUpload f c n l)
    | _ => simp only [record, current]
  change Inv ⟨_, record t.leftover t.state (.turn i e env)⟩
  rw [unleft]
  refine inv.still exact' ?_ ?_ ?_ ?_
  · intro f
    simp only [Server.step, turn]
    exact names f
  · simp only [Server.step, turn, disk]
  · simp only [Server.step, turn, disk]
  · intro f
    have count := uploading_set entry f (advance t.state.shared e env h).handler
    rw [share_other noUpload, share_other noUpload'] at count
    simp only [Server.step, turn]
    exact Nat.add_right_cancel count

theorem readTurn_inv {t : Ledger} (inv : Inv t) {i : Nat} {filename : Name} {client : Addr}
    {loop : SendLoop} (entry : t.state.handlers[i]? = some (.reading filename client loop))
    (e : Recv) (env : Environment)
    (exact' : ReaderCounts.Exact (Server.step t.state (.turn i e env))) :
    Inv (ledger.step t (.turn i e env)) := by
  have active : 0 < ReaderCounts.readers filename t.state.handlers :=
    List.countP_pos_iff.mpr ⟨_, List.mem_of_getElem? entry, by simp [ReaderCounts.reads]⟩
  have mem := (inv.exact_ filename).2 (Int.ofNat_lt.mpr active)
  obtain ⟨disk, names, _, noUpload⟩ := Immutability.afterRead_idle t.state.shared mem client
    (readStep client (contentAt t.state.shared env (filePath filename)) loop e env.io)
  exact inv.turned entry (by simp) disk names noUpload exact'

theorem listTurn_inv {t : Ledger} (inv : Inv t) {i : Nat} {client : Addr} {loop : SendLoop}
    (entry : t.state.handlers[i]? = some (.listing client loop)) (e : Recv) (env : Environment)
    (exact' : ReaderCounts.Exact (Server.step t.state (.turn i e env))) :
    Inv (ledger.step t (.turn i e env)) := by
  refine inv.turned entry (by simp) rfl (fun f => Iff.rfl) ?_ exact'
  intro f c n l
  simp only [advance, listTurn, afterList]
  split_ifs <;> simp

/-- The last turn of an upload: its name is registered or left over. -/
theorem Settled.ended {s s' : State} {leftover leftover' : Name → Prop} {f : Name}
    (settled : Settled s leftover f) (active : 0 < uploading f s.handlers)
    (regular : Regular s'.shared.disk f ↔ Regular s.shared.disk f)
    (count : uploading f s'.handlers + 1 = uploading f s.handlers)
    (one : (f ∈ s'.shared.files ∧ ¬ leftover' f) ∨ (f ∉ s'.shared.files ∧ leftover' f)) :
    Settled s' leftover' f := by
  obtain ⟨once, fresh, _⟩ := settled
  obtain ⟨there, _⟩ := fresh active
  have idle : uploading f s'.handlers = 0 := by omega
  constructor
  · rw [idle]
    exact Nat.zero_le 1
  · intro still
    rw [idle] at still
    cases still
  · intro listed
    refine ⟨regular.mpr there, ?_⟩
    rcases one with ⟨_, unleft⟩ | ⟨unlisted, _⟩
    · exact unleft
    · exact absurd listed unlisted
  · exact fun _ => regular.mpr there
  · intro _
    rcases one with ⟨listed, _⟩ | ⟨_, left⟩
    · exact Or.inl listed
    · exact Or.inr (Or.inl left)

/-- An upload goes on, or ends and registers its name, or ends and leaves its file. -/
theorem upload_outcome {s : State} {i : Nat} {filename : Name} {client : Addr} {inode : Nat}
    {loop : WriteLoop} (current : s.handlers.getD i .done = .writing filename client inode loop)
    (leftover : Name → Prop) (e : Recv) (env : Environment) :
    let turn := turnOf s (.turn i e env)
    ((∃ next, turn.handler = .writing filename client inode next) ∧
      turn.shared.files = s.shared.files ∧ record leftover s (.turn i e env) = leftover) ∨
    ((∀ f, share f turn.handler = 0) ∧
      ((turn.shared.files = s.shared.files.insertIfNew filename 0 ∧
          record leftover s (.turn i e env) = fun f => leftover f ∧ f ≠ filename) ∨
        (turn.shared.files = s.shared.files ∧
          record leftover s (.turn i e env) = fun f => leftover f ∨ f = filename))) := by
  simp only [turnOf, record, current, advance, writeTurn]
  cases (writeStep client loop e env.io).1.status with
  | receiving => exact Or.inl ⟨⟨_, rfl⟩, rfl, rfl⟩
  | received => exact Or.inr ⟨fun f => rfl, Or.inl ⟨rfl, rfl⟩⟩
  | diskFull => exact Or.inr ⟨fun f => rfl, Or.inr ⟨rfl, rfl⟩⟩
  | exhausted => exact Or.inr ⟨fun f => rfl, Or.inr ⟨rfl, rfl⟩⟩
  | undefined => exact Or.inr ⟨fun f => rfl, Or.inr ⟨rfl, rfl⟩⟩

theorem writeTurn_inv {t : Ledger} (inv : Inv t) {i : Nat} {filename : Name} {client : Addr}
    {inode : Nat} {loop : WriteLoop}
    (entry : t.state.handlers[i]? = some (.writing filename client inode loop))
    (e : Recv) (env : Environment)
    (exact' : ReaderCounts.Exact (Server.step t.state (.turn i e env))) :
    Inv (ledger.step t (.turn i e env)) := by
  have current := current_handler entry
  have disk : (Server.step t.state (.turn i e env)).shared.disk.entries =
      t.state.shared.disk.entries ∧
      (Server.step t.state (.turn i e env)).shared.disk.fresh = t.state.shared.disk.fresh := by
    simp only [Server.step, turnOf, current, advance, writeTurn, Disk.writeAt, and_self]
  have regular := regular_congr disk.1
  have count := fun f => uploading_set entry f (turnOf t.state (.turn i e env)).handler
  simp only [share_writing] at count
  have active : 0 < uploading filename t.state.handlers :=
    List.countP_pos_iff.mpr ⟨_, List.mem_of_getElem? entry, uploads_writing.mpr rfl⟩
  have unlisted := ((inv.settled filename).fresh active).2
  rcases upload_outcome current t.leftover e env with
    ⟨⟨next, handler⟩, files, left⟩ | ⟨handler, outcome⟩
  · change Inv ⟨_, record t.leftover t.state (.turn i e env)⟩
    rw [left]
    refine inv.still exact' ?_ disk.1 disk.2 ?_
    · intro f
      simp only [Server.step, files]
    · intro f
      have same := count f
      simp only [Server.step, handler] at same ⊢
      rw [share_writing] at same
      exact Nat.add_right_cancel same
  · simp only [handler, Nat.add_zero] at count
    constructor
    · exact exact'
    · exact Disk.wellFormed_congr inv.wf disk.1 disk.2
    · exact (congrFun disk.1 _).trans inv.root
    · exact (congrFun disk.1 _).trans inv.database
    · intro f
      have ended := count f
      by_cases same : filename = f
      · subst same
        rw [if_pos rfl] at ended
        refine (inv.settled filename).ended active (regular filename) ended ?_
        rcases outcome with ⟨files, left⟩ | ⟨files, left⟩
        · refine Or.inl ⟨?_, ?_⟩
          · simp only [ledger, Server.step, files]
            exact (mem_insertIfNew _ _ _).mpr (Or.inl rfl)
          · simp only [ledger, left]
            exact fun old => old.2 rfl
        · refine Or.inr ⟨?_, ?_⟩
          · simp only [ledger, Server.step, files]
            exact unlisted
          · simp only [ledger, left]
            exact Or.inr trivial
      · rw [if_neg same, Nat.add_zero] at ended
        refine (inv.settled f).congr ?_ (regular f) ended ?_
        · rcases outcome with ⟨files, _⟩ | ⟨files, _⟩
          · simp only [ledger, Server.step, files]
            exact (mem_insertIfNew _ _ _).trans (or_iff_right (Ne.symm same))
          · simp only [ledger, Server.step, files]
        · rcases outcome with ⟨_, left⟩ | ⟨_, left⟩
          · simp only [ledger, left]
            exact and_iff_left (Ne.symm same)
          · simp only [ledger, left]
            exact or_iff_left (Ne.symm same)

/-- Plain filenames, and the uploads of one name one at a time. -/
def Usual (t : Ledger) (a : Action) : Prop := PlainAction a ∧ Immutability.Exclusive t.state a

theorem start_inv {s : State} (initial : Initial s) : Inv (start s) := by
  obtain ⟨regularFiles, map, exactly⟩ := initial.listed
  have key : ∀ f, f ∈ s.shared.files ↔ Regular s.shared.disk f := by
    intro f
    rw [Regular, ← exactly f, map, Std.TreeMap.mem_iff_isSome_getElem?,
      getElem?_initializeFileMap]
    split <;> simp_all
  have idle : ∀ f, uploading f s.handlers = 0 := by
    intro f
    rw [initial.idle]
    rfl
  constructor
  · exact ReaderCounts.initial_exact initial
  · exact initial.wellFormed
  · exact initial.root
  · exact initial.database
  · intro f
    constructor
    · exact (idle f).trans_le (Nat.zero_le 1)
    · intro active
      exact absurd (idle f) (Nat.ne_of_gt active)
    · exact fun listed => ⟨(key f).mp listed, not_false⟩
    · exact False.elim
    · exact fun regular => Or.inl ((key f).mpr regular)

theorem step_inv (t : Ledger) (a : Action) (enabled : (ledger.restrict Usual).enabled t a)
    (inv : Inv t) : Inv ((ledger.restrict Usual).step t a) := by
  obtain ⟨enabled, plain, exclusive⟩ := enabled
  have exact' := ReaderCounts.step_exact t.state a enabled inv.exact_
  cases a with
  | request r client ackBuffer env =>
    cases r with
    | read filename => exact read_inv inv filename client ackBuffer env exact'
    | write filename => exact write_inv inv plain client ackBuffer env exclusive exact'
    | delete filename => exact delete_inv inv filename client ackBuffer env exact'
    | list => exact list_inv inv client ackBuffer env exact'
  | turn i e env =>
    obtain ⟨h, entry, active⟩ := enabled.2
    cases h with
    | reading filename client loop => exact readTurn_inv inv entry e env exact'
    | writing filename client inode loop => exact writeTurn_inv inv entry e env exact'
    | listing client loop => exact listTurn_inv inv entry e env exact'
    | done => cases active
    | undefined => cases active

/-- Between transfers the files are the keys and the leftovers, no name is both, and a
restart enters both. -/
theorem idle_agreement {s : State} {acts : List Action} {t : Ledger} (initial : Initial s)
    (run : Run (ledger.restrict Usual) (start s) acts t)
    (idle : ∀ h ∈ t.state.handlers, h.active = false) :
    (∀ f, Regular t.state.shared.disk f ↔ f ∈ t.state.shared.files ∨ t.leftover f) ∧
    (∀ f, t.leftover f → f ∉ t.state.shared.files) ∧
    ∀ regularFiles, (∀ f, f ∈ regularFiles ↔ Regular t.state.shared.disk f) →
      ∀ f, f ∈ initializeFileMap regularFiles ↔ f ∈ t.state.shared.files ∨ t.leftover f := by
  have inv : Inv t := run.invariant step_inv (start_inv initial)
  have agreement := inv.agreement idle
  refine ⟨?_, ?_, ?_⟩
  · exact fun f => (agreement f).1
  · exact fun f => (agreement f).2
  · intro regularFiles exactly f
    rw [← (agreement f).1, ← exactly f, Std.TreeMap.mem_iff_isSome_getElem?,
      getElem?_initializeFileMap]
    split <;> simp_all

/-- An upload of `g` that gets no block. -/
def abandoned : Ledger :=
  let begun := ledger.step (start (startedWith (text "f") [7]))
    (.request (.write (text "g")) Immutability.writer (Buffer.zero 4) .ok)
  let silence (t : Ledger) : Ledger := ledger.step t (.turn 0 .timeout .ok)
  silence (silence (silence (silence (silence begun))))

theorem abandoned_run :
    ∃ acts, Run (ledger.restrict Usual) (start (startedWith (text "f") [7])) acts abandoned := by
  have plain : Plain (text "g") := by
    show slash ∉ text "g"
    decide
  have alone : Immutability.Exclusive (startedWith (text "f") [7])
      (.request (.write (text "g")) Immutability.writer (Buffer.zero 4) .ok) := by
    intro _ _ h mem
    cases mem
  refine ⟨_, .snoc (.snoc (.snoc (.snoc (.snoc (.snoc (.refl _)
    ⟨⟨by decide, trivial⟩, plain, alone⟩) ?_) ?_) ?_) ?_) ?_⟩
  all_goals exact ⟨⟨by decide, _, rfl, rfl⟩, trivial, trivial⟩

theorem idle_agreement_abandoned :
    Regular abandoned.state.shared.disk (text "g") ∧ abandoned.leftover (text "g") ∧
      text "g" ∉ abandoned.state.shared.files := by
  obtain ⟨acts, run⟩ := abandoned_run
  have left : abandoned.leftover (text "g") := Or.inr rfl
  obtain ⟨agree, apart, _⟩ := idle_agreement (startedWith_initial (by decide) [7]) run (by decide)
  exact ⟨(agree _).mpr (Or.inr left), left, apart _ left⟩

/-- The abandoned upload leaves a file that is no key. -/
theorem idle_disagreement :
    ¬ ∀ (s t : State) (acts : List Action), Initial s →
      Run (machine.restrict fun _ a => PlainAction a) s acts t →
      (∀ h ∈ t.handlers, h.active = false) →
      ∀ f, f ∈ t.shared.files ↔ Regular t.shared.disk f := by
  intro agree
  obtain ⟨acts, run⟩ := abandoned_run
  have plainRun : Run (machine.restrict fun _ a => PlainAction a)
      (startedWith (text "f") [7]) acts abandoned.state := by
    refine run.map Ledger.state ?_
    rintro t a ⟨enabled, plain, _⟩
    exact ⟨⟨enabled, plain⟩, rfl⟩
  have regular : Regular abandoned.state.shared.disk (text "g") := ⟨by decide, _, rfl⟩
  have listed := (agree _ _ acts (startedWith_initial (by decide) [7]) plainRun (by decide)
    (text "g")).mpr regular
  exact absurd listed (by decide)

end TFTP.Leftovers
